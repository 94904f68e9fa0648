import GoBoard.Clocked.EdgeDetector
import GoBoard.Switch.Debounce

/-!
# `SW_toggle`

A switch input that works as a toggle: `o_SW` changes when the debounced switch is released. It does
so one edge after the debounced level falls, and at no other edge (`toggles_succ_iff`), so it is the
parity of the falls so far (`o_SW_toNat`).
-/

namespace GoBoard.Switch

open Clocked (Falls Machine iterate_not iterate_of_falls not_falls_of_low)

/-- The registers of `SW_toggle`. -/
structure SwToggle where
  o_SW : Bool
  r_State : Bool
  Instance : DebounceSwitch
  deriving DecidableEq, Repr

namespace SwToggle

/-- The declared initial registers. -/
def init : SwToggle where
  o_SW := false
  r_State := false
  Instance := DebounceSwitch.init

/-- The wire `w_SW`. -/
def w_SW (s : SwToggle) : Bool := s.Instance.o_Switch

/-- The `always @(posedge CLK)` block, and that of the debouncer with limit `L`. -/
def posedge (L : ℕ) (s : SwToggle) (i_SW : Bool) : SwToggle where
  o_SW := if s.w_SW = false ∧ s.r_State = true then !s.o_SW else s.o_SW
  r_State := s.w_SW
  Instance := s.Instance.posedge L i_SW

end SwToggle

/-- The toggle over a debouncer with limit `L`; the design keeps the default of 250000. -/
def swToggle (L : ℕ) : Machine SwToggle Bool := ⟨SwToggle.init, SwToggle.posedge L⟩

section Run

variable (L : ℕ) (sw : ℕ → Bool)

/-- The debouncer runs as it does alone. -/
theorem swToggle_run_instance (e : ℕ) :
    ((swToggle L).run sw e).Instance = (debounceSwitch L).run sw e :=
  Machine.run_component _ (debounceSwitch L) SwToggle.Instance (fun _ i => i) rfl (fun _ _ => rfl)
    sw e

/-- The debounced level before edge `e`. -/
def debounced (e : ℕ) : Bool := ((debounceSwitch L).run sw e).o_Switch

/-- `o_SW` is inverted where the debounced level is low and was high one edge before. -/
theorem o_SW_succ (e : ℕ) : ((swToggle L).run sw (e + 1)).o_SW =
    if debounced L sw e = false ∧ ((swToggle L).run sw e).r_State = true then
      !((swToggle L).run sw e).o_SW
    else ((swToggle L).run sw e).o_SW := by
  unfold debounced
  rw [← swToggle_run_instance]
  rfl

/-- `r_State` is the debounced level one edge before. -/
theorem r_State_succ (e : ℕ) : ((swToggle L).run sw (e + 1)).r_State = debounced L sw e := by
  unfold debounced
  rw [← swToggle_run_instance]
  rfl

/-- After an edge `o_SW` has been inverted as often as the debounced level fell at earlier edges. -/
theorem o_SW_eq_iterate (e : ℕ) :
    ((swToggle L).run sw (e + 1)).o_SW = not^[Nat.count (Falls (debounced L sw)) e] false :=
  iterate_of_falls (f := not) (x := fun e => ((swToggle L).run sw e).o_SW) rfl (r_State_succ L sw)
    (o_SW_succ L sw) e

/-- After an edge `o_SW` is the parity of the falls of the debounced level at earlier edges. -/
theorem o_SW_toNat (e : ℕ) : ((swToggle L).run sw (e + 1)).o_SW.toNat =
    Nat.count (Falls (debounced L sw)) e % 2 := by
  rw [o_SW_eq_iterate, iterate_not]

/-- `o_SW` changes at edge `k`. -/
def Toggles (k : ℕ) : Prop := ((swToggle L).run sw (k + 1)).o_SW ≠ ((swToggle L).run sw k).o_SW

instance : DecidablePred (Toggles L sw) := fun _ => inferInstanceAs (Decidable (_ ≠ _))

theorem not_toggles_zero : ¬Toggles L sw 0 := not_not_intro rfl

/-- `o_SW` changes one edge after the debounced level falls. -/
theorem toggles_succ_iff (k : ℕ) : Toggles L sw (k + 1) ↔ Falls (debounced L sw) k := by
  unfold Toggles
  rw [o_SW_succ, r_State_succ]
  by_cases hfall : Falls (debounced L sw) k
  · rw [if_pos hfall.symm]
    exact iff_of_true (Bool.not_ne_self _) hfall
  · rw [if_neg fun h => hfall h.symm]
    exact iff_of_false (not_not_intro rfl) hfall

/-- A switch whose presses never last for `L + 1` samples never toggles. -/
theorem o_SW_of_short {L : ℕ} (hL : L < 2 ^ 18)
    (hshort : ∀ e, L ≤ e → ∃ u, e - L ≤ u ∧ u ≤ e ∧ sw u = false) (e : ℕ) :
    ((swToggle L).run sw e).o_SW = false := by
  cases e with
  | zero => rfl
  | succ e =>
    have hnone : Nat.count (Falls (debounced L sw)) e = 0 := by
      rw [Nat.count_iff_forall_not]
      exact fun d _ => not_falls_of_low (o_Switch_of_short hL sw hshort d)
    rw [o_SW_eq_iterate, hnone, Function.iterate_zero, id]

end Run

end GoBoard.Switch
