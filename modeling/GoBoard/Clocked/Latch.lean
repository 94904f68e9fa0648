import GoBoard.Clocked.Machine
import Mathlib.Order.Basic
import Mathlib.Order.Nat

/-!
# Registers with a write enable

A register that some edges write and the others leave alone holds the value of the last edge that
wrote it. `latch` is the register as its write stream drives it, `LastWrite` names the last write
before an edge, and `latch_eq_iff` relates the two. A field of a design is such a register when
every edge either writes it or keeps it (`Machine.run_eq_latch`).
-/

namespace GoBoard.Clocked

variable {V : Type*}

/-- A register with initial value `v₀` that edge `k` sets to `v` when `wr k` is `some v`, and leaves
alone when it is `none`, before edge `e`. -/
def latch (v₀ : V) (wr : ℕ → Option V) : ℕ → V
  | 0 => v₀
  | e + 1 => (wr e).getD (latch v₀ wr e)

/-- `p` is the last edge before `e` at which the stream writes, and it writes `v`. -/
structure LastWrite (wr : ℕ → Option V) (e p : ℕ) (v : V) : Prop where
  lt : p < e
  write : wr p = some v
  quiet : ∀ u, p < u → u < e → wr u = none

section Latch

variable {v₀ v : V} {wr : ℕ → Option V} {e p : ℕ}

theorem latch_succ_none (h : wr e = none) : latch v₀ wr (e + 1) = latch v₀ wr e := by
  rw [latch, h, Option.getD_none]

theorem latch_succ_some (h : wr e = some v) : latch v₀ wr (e + 1) = v := by
  rw [latch, h, Option.getD_some]

/-- A stretch without a write keeps the value. -/
theorem latch_of_quiet (hle : p ≤ e) (h : ∀ u, p ≤ u → u < e → wr u = none) :
    latch v₀ wr e = latch v₀ wr p := by
  induction e, hle using Nat.le_induction with
  | base => rfl
  | succ e hle ih =>
    have hrest := ih fun u hpu hue => h u hpu (by omega)
    rw [latch_succ_none (h e hle (by omega)), hrest]

/-- The register holds what the last write wrote. -/
theorem LastWrite.latch_eq (h : LastWrite wr e p v) : latch v₀ wr e = v := by
  have hlt := h.lt
  rw [latch_of_quiet (p := p + 1) (by omega) fun u hpu hue => h.quiet u (by omega) hue]
  exact latch_succ_some h.write

/-- Before every edge either nothing was written or there is a last write. -/
theorem quiet_or_lastWrite (wr : ℕ → Option V) (e : ℕ) :
    (∀ u, u < e → wr u = none) ∨ ∃ p v, LastWrite wr e p v := by
  induction e with
  | zero => exact .inl fun u hu => absurd hu (Nat.not_lt_zero u)
  | succ e ih =>
    cases hw : wr e with
    | some v => exact .inr ⟨e, v, by omega, hw, fun u hlt hle => by omega⟩
    | none =>
      -- Edge `e` is one more quiet edge.
      have hstep : ∀ u, u < e + 1 → u < e ∨ u = e := fun u hu => by omega
      rcases ih with hquiet | ⟨p, v, h⟩
      · refine .inl fun u hu => ?_
        rcases hstep u hu with hlt | rfl
        · exact hquiet u hlt
        · exact hw
      · refine .inr ⟨p, v, ?_, h.write, fun u hpu hu => ?_⟩
        · have := h.lt
          omega
        · rcases hstep u hu with hlt | rfl
          · exact h.quiet u hpu hlt
          · exact hw

/-- A value other than the initial one is in the register exactly when it was written last. -/
theorem latch_eq_iff (hv : v ≠ v₀) : latch v₀ wr e = v ↔ ∃ p, LastWrite wr e p v := by
  constructor
  · intro hl
    rcases quiet_or_lastWrite wr e with hquiet | ⟨p, w, h⟩
    · have hinit : latch v₀ wr e = v₀ := latch_of_quiet (Nat.zero_le e) fun u _ hu => hquiet u hu
      exact absurd (hl.symm.trans hinit) hv
    · rw [h.latch_eq] at hl
      exact ⟨p, hl ▸ h⟩
  · rintro ⟨p, h⟩
    exact h.latch_eq

end Latch

/-- A field of a machine that every edge either writes or keeps is a register with a write
enable. -/
theorem Machine.run_eq_latch {S I : Type*} (m : Machine S I) (π : S → V) (wr : S → I → Option V)
    (hstep : ∀ s i, π (m.posedge s i) = (wr s i).getD (π s)) (inp : ℕ → I) (e : ℕ) :
    π (m.run inp e) = latch (π m.init) (fun k => wr (m.run inp k) (inp k)) e := by
  induction e with
  | zero => rfl
  | succ e ih => rw [run_succ, hstep, latch, ih]

end GoBoard.Clocked
