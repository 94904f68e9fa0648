import GoBoard.Clocked.Bits
import GoBoard.Clocked.Machine
import Mathlib.Order.Nat

/-!
# `Debounce_Switch`

The debouncer of `Debounce_Switch.v`, the same file in `VGA_Switches`, `Seven_Seg_Counter`, and
`REFERENCE_FILES`. Its counter is the length of the run of samples, up to the last one, that differ
from the registered level (`Counts`). The level follows the switch when the run is one longer than
the limit that the counter stops at, so the debouncer is a filter over the last `L + 1` samples
(`debounceSwitch_stabilityFilter`), and a press that never lasts that long is never seen
(`o_Switch_of_short`).
-/

namespace GoBoard.Switch

open Clocked (Machine toNat_add_one)

/-- The registers of `Debounce_Switch`. -/
structure DebounceSwitch where
  r_State : Bool
  r_Count : BitVec 18
  deriving DecidableEq, Repr

namespace DebounceSwitch

/-- The declared initial registers. -/
def init : DebounceSwitch where
  r_State := false
  r_Count := 0

/-- The `always @(posedge CLK)` block. -/
def posedge (c_DEBOUNCE_LIMIT : ℕ) (s : DebounceSwitch) (Switch : Bool) : DebounceSwitch :=
  if Switch ≠ s.r_State ∧ s.r_Count.toNat < c_DEBOUNCE_LIMIT then
    { s with r_Count := s.r_Count + 1 }
  else if s.r_Count.toNat = c_DEBOUNCE_LIMIT then
    { r_Count := 0, r_State := Switch }
  else
    { s with r_Count := 0 }

/-- The output `o_Switch`. -/
def o_Switch (s : DebounceSwitch) : Bool := s.r_State

end DebounceSwitch

/-- The debouncer with limit `L`; the modules that use it keep the default of 250000. -/
def debounceSwitch (L : ℕ) : Machine DebounceSwitch Bool :=
  ⟨DebounceSwitch.init, DebounceSwitch.posedge L⟩

/-- The registers `s` are those of a debouncer with limit `L` before edge `e` of the waveform `sw`:
the counter is the number of samples since the last one that agrees with the level. -/
structure Counts (L : ℕ) (sw : ℕ → Bool) (e : ℕ) (s : DebounceSwitch) : Prop where
  le_limit : s.r_Count.toNat ≤ L
  le_edge : s.r_Count.toNat ≤ e
  differ : ∀ u, e - s.r_Count.toNat ≤ u → u < e → sw u ≠ s.r_State
  agree : s.r_Count.toNat < e → sw (e - s.r_Count.toNat - 1) = s.r_State

section Posedge

variable {L : ℕ} {sw : ℕ → Bool} {e : ℕ} {s : DebounceSwitch}

/-- A sample that agrees with the new level starts a new run. -/
theorem Counts.of_agree {b : Bool} (h : sw e = b) :
    Counts L sw (e + 1) { r_State := b, r_Count := 0 } where
  le_limit := Nat.zero_le L
  le_edge := Nat.zero_le (e + 1)
  differ := fun u hle hlt => absurd hle (by simp; omega)
  agree := fun _ => by simpa using h

/-- One edge of the debouncer. -/
theorem Counts.posedge (hL : L < 2 ^ 18) (h : Counts L sw e s) :
    Counts L sw (e + 1) (s.posedge L (sw e)) := by
  have hle := h.le_limit
  have hedge := h.le_edge
  unfold DebounceSwitch.posedge
  by_cases hcount : sw e ≠ s.r_State ∧ s.r_Count.toNat < L
  · -- The run of differing samples grows by one.
    have hnext : (s.r_Count + 1).toNat = s.r_Count.toNat + 1 := toNat_add_one (by omega)
    rw [if_pos hcount]
    constructor
    · rw [hnext]
      omega
    · rw [hnext]
      omega
    · intro u hu hue
      rw [hnext] at hu
      rcases Nat.lt_succ_iff_lt_or_eq.mp hue with hlt | rfl
      · exact h.differ u (by omega) hlt
      · exact hcount.1
    · dsimp only
      rw [hnext]
      intro hlt
      rw [show e + 1 - (s.r_Count.toNat + 1) - 1 = e - s.r_Count.toNat - 1 by omega]
      exact h.agree (by omega)
  · rw [if_neg hcount]
    by_cases hlimit : s.r_Count.toNat = L
    · -- The level is taken from the sample, whether it differs or not.
      rw [if_pos hlimit]
      exact .of_agree rfl
    · -- The sample agrees with the level.
      have hagree : sw e = s.r_State := by
        by_contra hne
        exact hcount ⟨hne, by omega⟩
      rw [if_neg hlimit]
      exact .of_agree hagree

/-- The level changes at an edge exactly when that sample and the `L` samples before it differ from
it. -/
theorem Counts.change_iff (h : Counts L sw e s) : (s.posedge L (sw e)).r_State ≠ s.r_State ↔
    L ≤ e ∧ ∀ u, e - L ≤ u → u ≤ e → sw u ≠ s.r_State := by
  have hle := h.le_limit
  have hedge := h.le_edge
  unfold DebounceSwitch.posedge
  constructor
  · intro hchange
    split_ifs at hchange with hcount hlimit
    · exact absurd rfl hchange
    · -- The counter is at its limit: `L` samples differ before this one.
      refine ⟨by omega, fun u hu hue => ?_⟩
      rcases Nat.lt_or_eq_of_le hue with hlt | rfl
      · exact h.differ u (by omega) hlt
      · exact hchange
    · exact absurd rfl hchange
  · rintro ⟨hLe, hall⟩
    have hdiffer := hall e (by omega) le_rfl
    have hlimit : s.r_Count.toNat = L := by
      by_contra hne
      -- Otherwise the sample before the run is one of the `L`, and agrees.
      exact hall (e - s.r_Count.toNat - 1) (by omega) (by omega) (h.agree (by omega))
    rw [if_neg (by omega), if_pos hlimit]
    exact hdiffer

end Posedge

section Run

variable {L : ℕ} (hL : L < 2 ^ 18) (sw : ℕ → Bool)
include hL

/-- The counter counts the differing samples over the whole run. -/
theorem run_counts (e : ℕ) : Counts L sw e ((debounceSwitch L).run sw e) :=
  Machine.run_induction (m := debounceSwitch L) (P := fun e s => Counts L sw e s)
    ⟨Nat.zero_le L, le_rfl, fun u _ hu => absurd hu (Nat.not_lt_zero u),
      fun h => absurd h (Nat.not_lt_zero _)⟩
    (fun _ _ h => h.posedge hL) e

/-- The stability filter: the level changes at an edge exactly when the last `L + 1` samples differ
from it. -/
theorem o_Switch_change_iff (t : ℕ) :
    ((debounceSwitch L).run sw (t + 1)).o_Switch ≠ ((debounceSwitch L).run sw t).o_Switch ↔
      L ≤ t ∧ ∀ u, t - L ≤ u → u ≤ t → sw u ≠ ((debounceSwitch L).run sw t).o_Switch :=
  (run_counts hL sw t).change_iff

/-- The level stays as it is unless `L + 1` samples differ from it. -/
theorem o_Switch_succ_eq {t : ℕ} {v : Bool} (hv : ((debounceSwitch L).run sw t).o_Switch = v)
    (h : L ≤ t → ∃ u, t - L ≤ u ∧ u ≤ t ∧ sw u = v) :
    ((debounceSwitch L).run sw (t + 1)).o_Switch = v := by
  by_contra hne
  have hchange := o_Switch_change_iff hL sw t
  rw [hv] at hchange
  obtain ⟨hLt, hall⟩ := hchange.mp hne
  obtain ⟨u, hu, hut, hsw⟩ := h hLt
  exact hall u hu hut hsw

/-- A press that never lasts for `L + 1` samples never gets through. -/
theorem o_Switch_of_short (hshort : ∀ e, L ≤ e → ∃ u, e - L ≤ u ∧ u ≤ e ∧ sw u = false) (e : ℕ) :
    ((debounceSwitch L).run sw e).o_Switch = false := by
  induction e with
  | zero => rfl
  | succ e ih => exact o_Switch_succ_eq hL sw ih (hshort e)

/-- For `L` edges after a sample that agrees with the level it does not change, and so for `L` edges
from the start. -/
theorem o_Switch_hold {a k : ℕ} {v : Bool} (hv : ((debounceSwitch L).run sw a).o_Switch = v)
    (hlast : a = 0 ∨ sw (a - 1) = v) (hk : k ≤ L) :
    ((debounceSwitch L).run sw (a + k)).o_Switch = v := by
  induction k with
  | zero => exact hv
  | succ k ih =>
    refine o_Switch_succ_eq hL sw (t := a + k) (ih (by omega)) fun hLk => ?_
    rcases hlast with rfl | hsw
    · omega
    · exact ⟨a - 1, by omega, by omega, hsw⟩

/-- A level that is held stays. -/
theorem o_Switch_of_held {a k : ℕ} {v : Bool} (hv : ((debounceSwitch L).run sw a).o_Switch = v)
    (hheld : ∀ j, j < k → sw (a + j) = v) : ((debounceSwitch L).run sw (a + k)).o_Switch = v := by
  induction k with
  | zero => exact hv
  | succ k ih =>
    refine o_Switch_succ_eq hL sw (t := a + k) (ih fun j hj => hheld j (by omega)) fun _ => ?_
    exact ⟨a + k, by omega, le_rfl, hheld k (by omega)⟩

/-- A level that is held for `L + 1` samples is adopted. -/
theorem o_Switch_adopt {a : ℕ} {v : Bool} (hheld : ∀ k, k ≤ L → sw (a + k) = v) :
    ((debounceSwitch L).run sw (a + L + 1)).o_Switch = v := by
  by_cases hv : ((debounceSwitch L).run sw (a + L)).o_Switch = v
  · exact o_Switch_succ_eq hL sw hv fun _ => ⟨a + L, by omega, le_rfl, hheld L le_rfl⟩
  · -- All `L + 1` samples differ from the level.
    have hchange := (o_Switch_change_iff hL sw (a + L)).mpr ⟨by omega, fun u hu hut hsw => hv ?_⟩
    · rw [Bool.eq_not.mpr hchange, Bool.eq_not.mpr hv, Bool.not_not]
    · have hsample := hheld (u - a) (by omega)
      rw [show a + (u - a) = u by omega] at hsample
      rw [← hsw, hsample]

/-- Two changes of the level are at least `L + 1` edges apart. -/
theorem o_Switch_spacing {t t' : ℕ} (hlt : t < t')
    (h : ((debounceSwitch L).run sw (t + 1)).o_Switch ≠ ((debounceSwitch L).run sw t).o_Switch)
    (h' : ((debounceSwitch L).run sw (t' + 1)).o_Switch ≠
      ((debounceSwitch L).run sw t').o_Switch) : t + L + 1 ≤ t' := by
  by_contra hno
  -- The sample that made the first change is the new level, and holds it for `L` edges.
  have hsample := ((o_Switch_change_iff hL sw t).mp h).2 t (by omega) le_rfl
  have hnew : sw t = ((debounceSwitch L).run sw (t + 1)).o_Switch := by
    rw [Bool.eq_not.mpr hsample, Bool.eq_not.mpr h]
  obtain ⟨k, rfl⟩ := Nat.exists_eq_add_of_le (Nat.succ_le_of_lt hlt)
  have hkeep := o_Switch_hold hL sw (a := t + 1) (k := k) hnew.symm (.inr rfl) (by omega)
  exact ((o_Switch_change_iff hL sw _).mp h').2 t (by omega) (by omega) hkeep.symm

end Run

/-- The debouncer with limit `L` is the stability filter over `L + 1` samples of `sw`. -/
structure StabilityFilter (L : ℕ) (sw : ℕ → Bool) : Prop where
  change : ∀ t,
    ((debounceSwitch L).run sw (t + 1)).o_Switch ≠ ((debounceSwitch L).run sw t).o_Switch ↔
      L ≤ t ∧ ∀ u, t - L ≤ u → u ≤ t → sw u ≠ ((debounceSwitch L).run sw t).o_Switch
  count : ∀ t, ((debounceSwitch L).run sw t).r_Count.toNat ≤ L
  /-- What the switch does for at most `L` samples between two that agree with the level, or from
  the start, leaves the level alone. -/
  excursion : ∀ a n, n ≤ L → (a = 0 ∨ sw (a - 1) = ((debounceSwitch L).run sw a).o_Switch) →
    sw (a + n) = ((debounceSwitch L).run sw a).o_Switch → ∀ k, k ≤ n + 1 →
    ((debounceSwitch L).run sw (a + k)).o_Switch = ((debounceSwitch L).run sw a).o_Switch
  adopt : ∀ a v, (∀ k, k ≤ L → sw (a + k) = v) →
    ((debounceSwitch L).run sw (a + L + 1)).o_Switch = v
  spacing : ∀ t t', t < t' →
    ((debounceSwitch L).run sw (t + 1)).o_Switch ≠ ((debounceSwitch L).run sw t).o_Switch →
    ((debounceSwitch L).run sw (t' + 1)).o_Switch ≠ ((debounceSwitch L).run sw t').o_Switch →
    t + L + 1 ≤ t'

/-- `Debounce_Switch` is the stability filter for every limit that its counter can count and every
waveform. -/
theorem debounceSwitch_stabilityFilter (L : ℕ) (hL : L < 2 ^ 18) (sw : ℕ → Bool) :
    StabilityFilter L sw where
  change := o_Switch_change_iff hL sw
  count t := (run_counts hL sw t).le_limit
  excursion a n hn hlast hreturn k hk := by
    rcases Nat.lt_or_eq_of_le hk with hlt | rfl
    · exact o_Switch_hold hL sw rfl hlast (by omega)
    · exact o_Switch_succ_eq hL sw (t := a + n) (o_Switch_hold hL sw rfl hlast hn) fun _ =>
        ⟨a + n, by omega, le_rfl, hreturn⟩
  adopt _ _ hheld := o_Switch_adopt hL sw hheld
  spacing _ _ hlt h h' := o_Switch_spacing hL sw hlt h h'

/-- The filter at the limit of the designs, on a switch that is pressed for good at edge 10. -/
theorem debounceSwitch_stabilityFilter_250000 : StabilityFilter 250000 fun e => decide (10 ≤ e) :=
  debounceSwitch_stabilityFilter 250000 (by decide) fun e => decide (10 ≤ e)

end GoBoard.Switch
