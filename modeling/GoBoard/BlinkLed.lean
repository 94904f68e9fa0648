import GoBoard.Clocked.Divider
import GoBoard.Clocked.Machine

/-!
# `Blink_LED`

Four LEDs that are each inverted by a counter of their own. A counter is compared with its `COUNT`
and then cleared, so the LED keeps a level for `COUNT + 1` edges and has changed `t / (COUNT + 1)`
times after `t` edges (`changesOf_LED1` and the three after it). The default counts are the half
periods of 10, 5, 2 and 1 Hz at 25 MHz, and would be met by a comparison with `COUNT - 1`, as
`Sync_Pulse` compares its counters.
-/

namespace GoBoard

open Clocked (Machine changes changes_eq_div div_div_eq_iff div_div_of_div_le_mod
  div_le_mod_upto_iff div_succ_eq_div_iff eq_mod_of_wraps ratio_drift toNat_add_one
  toNat_eq_count_changes)

/-- The registers of one `always` block: an LED and the counter that inverts it. -/
structure Blinker where
  LED : Bool
  r_Count : BitVec 32
  deriving DecidableEq, Repr

namespace Blinker

/-- The declared initial registers. -/
def init : Blinker where
  LED := false
  r_Count := 0

/-- One `always @(posedge CLK)` block, whose counter is compared with `COUNT`. -/
def posedge (COUNT : ℕ) (s : Blinker) : Blinker :=
  if s.r_Count.toNat = COUNT then { LED := !s.LED, r_Count := 0 }
  else { s with r_Count := s.r_Count + 1 }

theorem eq_init_iff (s : Blinker) : s = init ↔ s.r_Count.toNat = 0 ∧ s.LED.toNat = 0 := by
  obtain ⟨LED, r_Count⟩ := s
  rw [init, mk.injEq, Bool.toNat_eq_zero, and_comm, ← BitVec.toNat_inj]
  rfl

end Blinker

/-- One `always` block by itself. -/
def blinker (COUNT : ℕ) : Machine Blinker Unit := ⟨Blinker.init, fun s _ => s.posedge COUNT⟩

section Blinker

variable {COUNT : ℕ} (h : COUNT < 2 ^ 32) (inp : ℕ → Unit)

include h

/-- The counter counts the edges modulo `COUNT + 1`. -/
theorem blinker_r_Count (e : ℕ) :
    ((blinker COUNT).run inp e).r_Count.toNat = e % (COUNT + 1) := by
  apply eq_mod_of_wraps (c := fun e => ((blinker COUNT).run inp e).r_Count.toNat) rfl
  intro e hle
  show (Blinker.posedge COUNT ((blinker COUNT).run inp e)).r_Count.toNat = _
  unfold Blinker.posedge
  by_cases hlast : ((blinker COUNT).run inp e).r_Count.toNat = COUNT
  · rw [if_pos hlast, if_pos hlast]
    rfl
  · rw [if_neg hlast, if_neg hlast]
    exact toNat_add_one (by omega)

/-- The LED is inverted where the counter is at `COUNT`. -/
theorem blinker_LED_succ (e : ℕ) : ((blinker COUNT).run inp (e + 1)).LED =
    if e % (COUNT + 1) = COUNT then !((blinker COUNT).run inp e).LED
    else ((blinker COUNT).run inp e).LED := by
  rw [← blinker_r_Count h inp e]
  show (Blinker.posedge COUNT ((blinker COUNT).run inp e)).LED = _
  unfold Blinker.posedge
  split_ifs with hlast
  · rfl
  · rfl

/-- The LED changes once in `COUNT + 1` edges. -/
theorem blinker_changes (t : ℕ) :
    changes (fun e => ((blinker COUNT).run inp e).LED) t = t / (COUNT + 1) :=
  changes_eq_div (blinker_LED_succ h inp) t

/-- The registers come back to their initial values after two half periods, and not before. -/
theorem blinker_eq_init_iff (t : ℕ) :
    (blinker COUNT).run inp t = Blinker.init ↔ (COUNT + 1) * 2 ∣ t := by
  have hled : ((blinker COUNT).run inp t).LED.toNat = t / (COUNT + 1) % 2 := by
    rw [← blinker_changes h inp t]
    exact toNat_eq_count_changes (x := fun e => ((blinker COUNT).run inp e).LED) rfl t
  rw [Blinker.eq_init_iff, blinker_r_Count h, hled, Nat.dvd_iff_mod_eq_zero, Nat.mod_mul,
    Nat.add_eq_zero_iff, Nat.mul_eq_zero, or_iff_right COUNT.succ_ne_zero]

end Blinker

namespace BlinkLed

/-- The parameters, with their default values. -/
structure Parameters where
  COUNT_10HZ : ℕ := 1250000
  COUNT_5HZ : ℕ := 2500000
  COUNT_2HZ : ℕ := 6250000
  COUNT_1HZ : ℕ := 12500000
  deriving DecidableEq, Repr

end BlinkLed

/-- The registers of `Blink_LED`, one pair for each `always` block. -/
structure BlinkLed where
  Blink10Hz : Blinker
  Blink5Hz : Blinker
  Blink2Hz : Blinker
  Blink1Hz : Blinker
  deriving DecidableEq, Repr

namespace BlinkLed

/-- The declared initial registers. -/
def init : BlinkLed where
  Blink10Hz := Blinker.init
  Blink5Hz := Blinker.init
  Blink2Hz := Blinker.init
  Blink1Hz := Blinker.init

/-- The four `always @(posedge CLK)` blocks. -/
def posedge (p : Parameters) (s : BlinkLed) : BlinkLed where
  Blink10Hz := s.Blink10Hz.posedge p.COUNT_10HZ
  Blink5Hz := s.Blink5Hz.posedge p.COUNT_5HZ
  Blink2Hz := s.Blink2Hz.posedge p.COUNT_2HZ
  Blink1Hz := s.Blink1Hz.posedge p.COUNT_1HZ

/-- The output `LED1`. -/
def LED1 (s : BlinkLed) : Bool := s.Blink10Hz.LED

/-- The output `LED2`. -/
def LED2 (s : BlinkLed) : Bool := s.Blink5Hz.LED

/-- The output `LED3`. -/
def LED3 (s : BlinkLed) : Bool := s.Blink2Hz.LED

/-- The output `LED4`. -/
def LED4 (s : BlinkLed) : Bool := s.Blink1Hz.LED

end BlinkLed

/-- `Blink_LED`. It has no input but the clock. -/
def blinkLed (p : BlinkLed.Parameters) : Machine BlinkLed Unit :=
  ⟨BlinkLed.init, fun s _ => s.posedge p⟩

namespace BlinkLed

/-- The registers after `t` clock edges. -/
def after (p : Parameters) (t : ℕ) : BlinkLed := (blinkLed p).run (fun _ => ()) t

/-- The number of changes of the output `LED` in `t` clock edges. -/
def changesOf (LED : BlinkLed → Bool) (p : Parameters) (t : ℕ) : ℕ :=
  changes (fun e => LED (after p e)) t

/-- The parameters fit into the counters. -/
structure Parameters.Fits (p : Parameters) : Prop where
  COUNT_10HZ_lt : p.COUNT_10HZ < 2 ^ 32
  COUNT_5HZ_lt : p.COUNT_5HZ < 2 ^ 32
  COUNT_2HZ_lt : p.COUNT_2HZ < 2 ^ 32
  COUNT_1HZ_lt : p.COUNT_1HZ < 2 ^ 32

section Run

variable {p : Parameters}

/-- Every block runs as it does alone. -/
theorem after_eq (p : Parameters) (t : ℕ) : after p t =
    { Blink10Hz := (blinker p.COUNT_10HZ).run (fun _ => ()) t
      Blink5Hz := (blinker p.COUNT_5HZ).run (fun _ => ()) t
      Blink2Hz := (blinker p.COUNT_2HZ).run (fun _ => ()) t
      Blink1Hz := (blinker p.COUNT_1HZ).run (fun _ => ()) t } := by
  unfold after
  induction t with
  | zero => rfl
  | succ t ih =>
    rw [Machine.run_succ, ih]
    rfl

/-- An LED that runs as that of a block by itself changes as often. -/
theorem changesOf_eq {LED : BlinkLed → Bool} {COUNT : ℕ} (h : COUNT < 2 ^ 32)
    (hLED : ∀ e, LED (after p e) = ((blinker COUNT).run (fun _ => ()) e).LED) (t : ℕ) :
    changesOf LED p t = t / (COUNT + 1) := by
  unfold changesOf
  simp only [hLED]
  exact blinker_changes h _ t

variable (hp : p.Fits) (t : ℕ)

include hp

theorem changesOf_LED1 : changesOf LED1 p t = t / (p.COUNT_10HZ + 1) := by
  apply changesOf_eq hp.COUNT_10HZ_lt
  intro e
  rw [after_eq]
  rfl

theorem changesOf_LED2 : changesOf LED2 p t = t / (p.COUNT_5HZ + 1) := by
  apply changesOf_eq hp.COUNT_5HZ_lt
  intro e
  rw [after_eq]
  rfl

theorem changesOf_LED3 : changesOf LED3 p t = t / (p.COUNT_2HZ + 1) := by
  apply changesOf_eq hp.COUNT_2HZ_lt
  intro e
  rw [after_eq]
  rfl

theorem changesOf_LED4 : changesOf LED4 p t = t / (p.COUNT_1HZ + 1) := by
  apply changesOf_eq hp.COUNT_1HZ_lt
  intro e
  rw [after_eq]
  rfl

/-- All registers come back to their initial values at the common multiples of the four periods, and
at no other time. -/
theorem after_eq_init_iff : after p t = init ↔
    (p.COUNT_10HZ + 1) * 2 ∣ t ∧ (p.COUNT_5HZ + 1) * 2 ∣ t ∧ (p.COUNT_2HZ + 1) * 2 ∣ t ∧
      (p.COUNT_1HZ + 1) * 2 ∣ t := by
  rw [after_eq, init, mk.injEq, blinker_eq_init_iff hp.COUNT_10HZ_lt,
    blinker_eq_init_iff hp.COUNT_5HZ_lt, blinker_eq_init_iff hp.COUNT_2HZ_lt,
    blinker_eq_init_iff hp.COUNT_1HZ_lt]

end Run

/-- The default parameters, after a minute. -/
theorem after_eq_init_iff_default : after {} 1500000000 = init ↔
    1250001 * 2 ∣ 1500000000 ∧ 2500001 * 2 ∣ 1500000000 ∧ 6250001 * 2 ∣ 1500000000 ∧
      12500001 * 2 ∣ 1500000000 :=
  after_eq_init_iff ⟨by decide, by decide, by decide, by decide⟩ 1500000000

/-! ## The rates -/

/-- The parameters are in the ratio of the default values. -/
structure Parameters.Harmonic (p : Parameters) : Prop extends p.Fits where
  COUNT_10HZ_pos : 0 < p.COUNT_10HZ
  COUNT_5HZ_eq : p.COUNT_5HZ = 2 * p.COUNT_10HZ
  COUNT_2HZ_eq : p.COUNT_2HZ = 5 * p.COUNT_10HZ
  COUNT_1HZ_eq : p.COUNT_1HZ = 10 * p.COUNT_10HZ

theorem harmonic_default : Parameters.Harmonic {} where
  COUNT_10HZ_lt := by decide
  COUNT_5HZ_lt := by decide
  COUNT_2HZ_lt := by decide
  COUNT_1HZ_lt := by decide
  COUNT_10HZ_pos := by decide
  COUNT_5HZ_eq := rfl
  COUNT_2HZ_eq := rfl
  COUNT_1HZ_eq := rfl

/-- After `t` clock edges `LED1` has changed once in `COUNT_10HZ` edges, and the others in step with
it. The levels of the LEDs are the parities of these numbers. -/
structure InStep (p : Parameters) (t : ℕ) : Prop where
  LED1_eq : changesOf LED1 p t = t / p.COUNT_10HZ
  LED2_eq : changesOf LED2 p t = changesOf LED1 p t / 2
  LED3_eq : changesOf LED3 p t = changesOf LED1 p t / 5
  LED4_eq : changesOf LED4 p t = changesOf LED1 p t / 10

section Rates

variable {p : Parameters} (hp : p.Harmonic)

include hp

/-- The LEDs are in step as long as one edge for every change of `LED1` fits into the running half
period. -/
theorem inStep_iff (t : ℕ) : InStep p t ↔ t / p.COUNT_10HZ ≤ t % p.COUNT_10HZ := by
  have hpos := hp.COUNT_10HZ_pos
  constructor
  · intro h
    have hled := h.LED1_eq
    rw [changesOf_LED1 hp.toFits] at hled
    exact (div_succ_eq_div_iff hpos t).mp hled
  · intro h
    apply InStep.mk
    · rw [changesOf_LED1 hp.toFits]
      exact (div_succ_eq_div_iff hpos t).mpr h
    · rw [changesOf_LED1 hp.toFits, changesOf_LED2 hp.toFits, hp.COUNT_5HZ_eq]
      exact div_div_of_div_le_mod hpos (by decide) h
    · rw [changesOf_LED1 hp.toFits, changesOf_LED3 hp.toFits, hp.COUNT_2HZ_eq]
      exact div_div_of_div_le_mod hpos (by decide) h
    · rw [changesOf_LED1 hp.toFits, changesOf_LED4 hp.toFits, hp.COUNT_1HZ_eq]
      exact div_div_of_div_le_mod hpos (by decide) h

/-- They are out of step whenever `LED1` should change. -/
theorem not_inStep_of_dvd {t : ℕ} (ht : 0 < t) (hdvd : p.COUNT_10HZ ∣ t) : ¬InStep p t := by
  have hdiv : 0 < t / p.COUNT_10HZ := Nat.div_pos (Nat.le_of_dvd ht hdvd) hp.COUNT_10HZ_pos
  rw [inStep_iff hp, Nat.mod_eq_zero_of_dvd hdvd]
  omega

/-- In the end they are never in step again. -/
theorem not_inStep_of_sq_le {t : ℕ} (ht : p.COUNT_10HZ * p.COUNT_10HZ ≤ t) : ¬InStep p t := by
  have hle : p.COUNT_10HZ ≤ t / p.COUNT_10HZ := (Nat.le_div_iff_mul_le hp.COUNT_10HZ_pos).mpr ht
  have hlt : t % p.COUNT_10HZ < p.COUNT_10HZ := Nat.mod_lt t hp.COUNT_10HZ_pos
  rw [inStep_iff hp]
  omega

/-- The slower LEDs get ahead of `LED1` without bound. -/
theorem leds_drift (k : ℕ) :
    (∃ t, 2 * changesOf LED2 p t = changesOf LED1 p t + k) ∧
    (∃ t, 5 * changesOf LED3 p t = changesOf LED1 p t + k * 4) ∧
    (∃ t, 10 * changesOf LED4 p t = changesOf LED1 p t + k * 9) := by
  simp only [changesOf_LED1 hp.toFits, changesOf_LED2 hp.toFits, changesOf_LED3 hp.toFits,
    changesOf_LED4 hp.toFits, hp.COUNT_5HZ_eq, hp.COUNT_2HZ_eq, hp.COUNT_1HZ_eq]
  have h2 := ratio_drift p.COUNT_10HZ 1 k
  rw [Nat.mul_one k] at h2
  exact ⟨h2, ratio_drift p.COUNT_10HZ 4 k, ratio_drift p.COUNT_10HZ 9 k⟩

/-- After `t` clock edges the LEDs are in step where the quotient of `t` by `COUNT_10HZ` is at most
the remainder; throughout the first `T` edges where these end before the first half period does. -/
theorem blink_rates_iff :
    (∀ t, InStep p t ↔ t / p.COUNT_10HZ ≤ t % p.COUNT_10HZ) ∧
      ∀ T, (∀ t ≤ T, InStep p t) ↔ T < p.COUNT_10HZ := by
  refine ⟨inStep_iff hp, fun T => ?_⟩
  simp only [inStep_iff hp]
  exact div_le_mod_upto_iff hp.COUNT_10HZ_pos T

end Rates

/-- With the default parameters the slower LEDs get a hundred changes ahead. -/
theorem leds_drift_default :
    (∃ t, 2 * changesOf LED2 {} t = changesOf LED1 {} t + 100) ∧
    (∃ t, 5 * changesOf LED3 {} t = changesOf LED1 {} t + 100 * 4) ∧
    (∃ t, 10 * changesOf LED4 {} t = changesOf LED1 {} t + 100 * 9) :=
  leds_drift harmonic_default 100

/-- The default parameters. -/
theorem blink_rates_iff_default :
    (∀ t, InStep {} t ↔ t / 1250000 ≤ t % 1250000) ∧
      ∀ T, (∀ t ≤ T, InStep {} t) ↔ T < 1250000 :=
  blink_rates_iff harmonic_default

/-- With the default parameters `LED1` has not changed yet after 1250000 edges. -/
theorem half_period_too_long : Parameters.Harmonic {} ∧ ¬InStep {} 1250000 := by
  refine ⟨harmonic_default, fun h => ?_⟩
  have hled := h.LED1_eq
  rw [changesOf_LED1 harmonic_default.toFits] at hled
  exact absurd hled (by decide)

end BlinkLed

end GoBoard
