import GoBoard.BlinkLed

/-!
# `Blinky`

One LED on the highest bit of a 24-bit counter that is never cleared. This is the divider of
`Blink_LED` for the count `2 ^ 23 - 1`, without its comparison: the LED has the same level after
every number of edges (`blinky_eq_blinker`).
-/

namespace GoBoard

open Clocked (Machine changes eq_of_low_iff toNat_eq_count_changes)

/-- The register of `Blinky`, whose module is called `Test`. -/
structure Blinky where
  counter : BitVec 24
  deriving DecidableEq, Repr

namespace Blinky

/-- The declared initial register. -/
def init : Blinky where
  counter := 0

/-- The `always @(posedge CLK)` block. -/
def posedge (s : Blinky) : Blinky where
  counter := s.counter + 1

/-- The outputs `LED1` to `LED4`. The last three are off. -/
def LEDs (s : Blinky) : Bool × Bool × Bool × Bool := (s.counter.getLsbD 23, false, false, false)

end Blinky

/-- `Blinky`. It has no input but the clock. -/
def blinky : Machine Blinky Unit := ⟨Blinky.init, fun s _ => s.posedge⟩

/-- The counter counts the edges modulo `2 ^ 24`. -/
theorem blinky_counter (inp : ℕ → Unit) (e : ℕ) :
    (blinky.run inp e).counter = BitVec.ofNat 24 e := by
  induction e with
  | zero => rfl
  | succ e ih =>
    change (blinky.run inp e).counter + 1 = _
    rw [ih, BitVec.ofNat_add]
    rfl

/-- `Blinky` shows the LED of a divider by `2 ^ 23`, which has changed `t / 2 ^ 23` times after `t`
edges. -/
theorem blinky_eq_blinker (inp : ℕ → Unit) (t : ℕ) :
    (blinky.run inp t).LEDs =
      (((blinker (2 ^ 23 - 1)).run inp t).LED, false, false, false) ∧
    changes (fun e => (blinky.run inp e).LEDs.1) t = t / 2 ^ 23 := by
  have hlt : 2 ^ 23 - 1 < 2 ^ 32 := by decide
  have hled (e : ℕ) : (blinky.run inp e).LEDs.1 = ((blinker (2 ^ 23 - 1)).run inp e).LED := by
    have hbit : (blinky.run inp e).LEDs.1.toNat = e / 2 ^ 23 % 2 := by
      unfold Blinky.LEDs
      dsimp only
      rw [blinky_counter, BitVec.getLsbD_ofNat, ← Nat.toNat_testBit]
      rfl
    have hblinker := toNat_eq_count_changes
      (x := fun e => ((blinker (2 ^ 23 - 1)).run inp e).LED) rfl e
    change _ = changes (fun e => ((blinker (2 ^ 23 - 1)).run inp e).LED) e % 2 at hblinker
    rw [blinker_changes hlt, Nat.sub_add_cancel (by decide)] at hblinker
    apply eq_of_low_iff
    rw [← Bool.toNat_eq_zero, ← Bool.toNat_eq_zero, hbit]
    rw [hblinker]
  refine ⟨congrArg (fun x => (x, false, false, false)) (hled t), ?_⟩
  simp only [hled]
  exact blinker_changes hlt inp t

end GoBoard
