import GoBoard.SevenSeg
import GoBoard.Switch.Toggle

/-!
# `Seven_Seg_Counter`

The design counts the releases of a switch and shows the count on one digit of the display. It has
the debouncer and the registered falling edge detector of `SW_toggle`, a decade counter in place of
the toggled bit, and the encoder behind it. So after every edge the counter is the number of falls
of the debounced switch at earlier edges, modulo ten, and the display shows the digit that the
counter had one edge before (`digit_shown`).

The instance is of `debounce_switch`, which is `Debounce_Switch` up to case. The output `LED1` is
not modelled, as its register is not declared.
-/

namespace GoBoard

open BinaryToSevenSeg (Lit digitSegments digitSegments_ne_nil encode encode_injective lit_encode)
open Clocked (Falls Machine iterate_of_falls toNat_add_one)
open Switch (DebounceSwitch debounced debounceSwitch)

/-- The registers of `Seven_Seg_Counter` and of its instances. -/
structure SevenSegCounter where
  r_SW1 : Bool
  r_Count1 : BitVec 4
  Instance : DebounceSwitch
  Instance2 : BinaryToSevenSeg
  deriving DecidableEq, Repr

namespace SevenSegCounter

/-- The declared initial registers. -/
def init : SevenSegCounter where
  r_SW1 := false
  r_Count1 := 0b0000
  Instance := DebounceSwitch.init
  Instance2 := BinaryToSevenSeg.init

/-- The wire `w_SW1`. -/
def w_SW1 (s : SevenSegCounter) : Bool := s.Instance.o_Switch

/-- What a release does to `r_Count1`. -/
def count1 (r_Count1 : BitVec 4) : BitVec 4 := if r_Count1.toNat = 9 then 0 else r_Count1 + 1

/-- The `always @(posedge CLK)` block, and one clock edge of the instances. -/
def posedge (s : SevenSegCounter) (SW1 : Bool) : SevenSegCounter where
  r_SW1 := s.w_SW1
  r_Count1 := if s.w_SW1 = false ∧ s.r_SW1 = true then count1 s.r_Count1 else s.r_Count1
  Instance := s.Instance.posedge 250000 SW1
  Instance2 := s.Instance2.posedge s.r_Count1

/-- The outputs `S1_A` to `S1_G`, from bit 6 to bit 0. -/
def S1 (s : SevenSegCounter) : BitVec 7 := s.Instance2.pins

end SevenSegCounter

/-- `Seven_Seg_Counter`. -/
def sevenSegCounter : Machine SevenSegCounter Bool :=
  ⟨SevenSegCounter.init, SevenSegCounter.posedge⟩

/-- A release counts up, and wraps around after nine. -/
theorem count1_toNat {c : BitVec 4} (hc : c.toNat ≤ 9) :
    (SevenSegCounter.count1 c).toNat = (c.toNat + 1) % 10 := by
  unfold SevenSegCounter.count1
  by_cases hwrap : c.toNat = 9
  · rw [if_pos hwrap, hwrap]
    rfl
  · rw [if_neg hwrap, toNat_add_one (by omega)]
    omega

/-- After `n` releases the counter is at `n` modulo ten. -/
theorem iterate_count1 (n : ℕ) : (SevenSegCounter.count1^[n] 0).toNat = n % 10 := by
  induction n with
  | zero => rfl
  | succ n ih =>
    rw [Function.iterate_succ_apply', count1_toNat (by omega), ih, Nat.mod_add_mod]

section Run

variable (sw : ℕ → Bool)

/-- The debouncer runs as it does alone. -/
theorem sevenSegCounter_run_instance (e : ℕ) :
    (sevenSegCounter.run sw e).Instance = (debounceSwitch 250000).run sw e :=
  Machine.run_component _ (debounceSwitch 250000) SevenSegCounter.Instance (fun _ i => i) rfl
    (fun _ _ => rfl) sw e

theorem r_SW1_succ (e : ℕ) : (sevenSegCounter.run sw (e + 1)).r_SW1 = debounced 250000 sw e := by
  unfold debounced
  rw [← sevenSegCounter_run_instance]
  rfl

theorem r_Count1_succ (e : ℕ) : (sevenSegCounter.run sw (e + 1)).r_Count1 =
    if debounced 250000 sw e = false ∧ (sevenSegCounter.run sw e).r_SW1 = true then
      SevenSegCounter.count1 (sevenSegCounter.run sw e).r_Count1
    else (sevenSegCounter.run sw e).r_Count1 := by
  unfold debounced
  rw [← sevenSegCounter_run_instance]
  rfl

/-- The counter counts the falls of the debounced switch. -/
theorem r_Count1_toNat (e : ℕ) : (sevenSegCounter.run sw (e + 1)).r_Count1.toNat =
    Nat.count (Falls (debounced 250000 sw)) e % 10 := by
  rw [iterate_of_falls (x := fun e => (sevenSegCounter.run sw e).r_Count1) rfl (r_SW1_succ sw)
    (r_Count1_succ sw) e]
  exact iterate_count1 _

theorem r_Count1_le (e : ℕ) : (sevenSegCounter.run sw e).r_Count1.toNat ≤ 9 := by
  cases e with
  | zero => exact Nat.zero_le 9
  | succ e =>
    rw [r_Count1_toNat]
    omega

/-- The outputs are the pins of the digit that the counter had before the edge. -/
theorem S1_succ (e : ℕ) :
    (sevenSegCounter.run sw (e + 1)).S1 = ~~~encode (sevenSegCounter.run sw e).r_Count1 := rfl

end Run

/-- What the display shows after edge `e`. -/
structure DigitShown (sw : ℕ → Bool) (e : ℕ) : Prop where
  count : (sevenSegCounter.run sw (e + 1)).r_Count1.toNat =
    Nat.count (Falls (debounced 250000 sw)) e % 10
  le : (sevenSegCounter.run sw (e + 1)).r_Count1.toNat ≤ 9
  /-- The lit segments are those of the decimal digit that the counter had before the edge. -/
  lit : ∀ x, Lit (sevenSegCounter.run sw (e + 1)).S1 x ↔
    x ∈ digitSegments (sevenSegCounter.run sw e).r_Count1.toNat
  digit : (sevenSegCounter.run sw e).r_Count1.toNat ≤ 9
  not_blank : ∃ x, Lit (sevenSegCounter.run sw (e + 1)).S1 x
  not_letter : ∀ d : BitVec 4, 10 ≤ d.toNat → (sevenSegCounter.run sw (e + 1)).S1 ≠ ~~~encode d

/-- The digit shown is the number of releases modulo ten. -/
theorem digit_shown (sw : ℕ → Bool) (e : ℕ) : DigitShown sw e := by
  have hle := r_Count1_le sw e
  have hlit := fun x => lit_encode _ hle x
  refine ⟨r_Count1_toNat sw e, r_Count1_le sw (e + 1), hlit, hle, ?_, fun d hd heq => ?_⟩
  · obtain ⟨x, hx⟩ := List.exists_mem_of_ne_nil _ (digitSegments_ne_nil _ hle)
    exact ⟨x, (hlit x).mpr hx⟩
  · -- Different digits show different patterns.
    rw [S1_succ] at heq
    have hinj := encode_injective (BitVec.not_inj.mp heq)
    rw [hinj] at hle
    omega

end GoBoard
