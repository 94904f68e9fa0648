import GoBoard.Clocked.Machine
import Mathlib.Order.Basic
import Mathlib.Order.Nat

/-!
# Time since an event

A register that an event clears, and that every other edge steps, is a function of the number of
edges since the last event. `Since p e n` says that this number is `n` before edge `e`. There is
exactly one such number (`existsUnique_since`), and a machine whose edges either restart it or step
it is at step `n` of its course `n` edges after it was restarted (`Machine.run_since`).
-/

namespace GoBoard.Clocked

/-- Before edge `e`, `n` edges have passed since the last one at which `p` held, or since the start
if there was none. -/
structure Since (p : ℕ → Prop) (e n : ℕ) : Prop where
  quiet : ∀ k, e ≤ k + n → k < e → ¬p k
  start : n = e ∨ ∃ k, k + 1 + n = e ∧ p k

namespace Since

variable {p : ℕ → Prop} {e n : ℕ}

theorem le (h : Since p e n) : n ≤ e := by
  rcases h.start with rfl | ⟨k, hk, -⟩
  · exact Nat.le_refl n
  · omega

/-- Nothing has happened before the first edge. -/
theorem zero : Since p 0 0 where
  quiet := fun k _ hk => absurd hk (Nat.not_lt_zero k)
  start := .inl rfl

/-- An event restarts the count. -/
theorem event (hp : p e) : Since p (e + 1) 0 where
  quiet := fun k hle hlt => by omega
  start := .inr ⟨e, rfl, hp⟩

/-- Any other edge counts on. -/
theorem succ (h : Since p e n) (hp : ¬p e) : Since p (e + 1) (n + 1) where
  quiet := by
    intro k hle hlt
    rcases Nat.lt_succ_iff_lt_or_eq.mp hlt with hke | rfl
    · exact h.quiet k (by omega) hke
    · exact hp
  start := by
    rcases h.start with rfl | ⟨k, rfl, hk⟩
    · exact .inl rfl
    · exact .inr ⟨k, by omega, hk⟩

/-- No event has a later one before `e` in its count. -/
theorem le_of_since {n' : ℕ} (h : Since p e n) (h' : Since p e n') : n ≤ n' := by
  by_contra hlt
  rcases h'.start with rfl | ⟨k, hk, hpk⟩
  · have hle := h.le
    omega
  · exact h.quiet k (by omega) (by omega) hpk

theorem unique {n' : ℕ} (h : Since p e n) (h' : Since p e n') : n = n' :=
  Nat.le_antisymm (h.le_of_since h') (h'.le_of_since h)

end Since

/-- The time since the last event is defined before every edge. -/
theorem existsUnique_since (p : ℕ → Prop) (e : ℕ) : ∃! n, Since p e n := by
  have hex : ∃ n, Since p e n := by
    induction e with
    | zero => exact ⟨0, .zero⟩
    | succ e ih =>
      obtain ⟨n, hn⟩ := ih
      by_cases hp : p e
      · exact ⟨0, .event hp⟩
      · exact ⟨n + 1, hn.succ hp⟩
  obtain ⟨n, hn⟩ := hex
  exact ⟨n, hn, fun n' hn' => hn'.unique hn⟩

/-- The restart rule: a machine that is at step `0` of its course initially and after every edge at
which `E` holds, and that every other edge takes one step on, is at the step that the time since
the last such edge gives. -/
theorem Machine.run_since {S I : Type*} {m : Machine S I} {inp : ℕ → I} {E : S → I → Prop}
    {P : ℕ → S → Prop} (h0 : P 0 m.init) (hev : ∀ s i, E s i → P 0 (m.posedge s i))
    (hstep : ∀ n s i, P n s → ¬E s i → P (n + 1) (m.posedge s i)) {e n : ℕ}
    (hn : Since (fun k => E (m.run inp k) (inp k)) e n) : P n (m.run inp e) := by
  induction e generalizing n with
  | zero =>
    rw [hn.unique .zero]
    exact h0
  | succ e ih =>
    rw [run_succ]
    by_cases hp : E (m.run inp e) (inp e)
    · rw [hn.unique (.event hp)]
      exact hev _ _ hp
    · obtain ⟨n', hn', -⟩ := existsUnique_since (fun k => E (m.run inp k) (inp k)) e
      rw [hn.unique (hn'.succ hp)]
      exact hstep _ _ _ (ih hn') hp

end GoBoard.Clocked
