import Mathlib.Data.Nat.Notation
import Mathlib.Tactic.TypeStar

/-!
# Clocked machines and their runs

A synchronous design with one clock is a set of registers with declared initial values and one
function that gives the registers after a clock edge from those before it and the inputs sampled at
it. Edges are numbered from zero: `run inp e` holds the registers before edge `e`, which are the
registers after edge `e - 1`, and edge `e` samples `inp e`.

The rules here are the ones that proofs about a design use instead of unfolding its run. An
invariant may mention the edge (`run_induction`), and a component of a design runs as the component
alone does on the signals that it is wired to (`run_component`). A predicate that every edge
preserves holds for ever once it holds (`run_of_le`). `startAt` is the machine that some other
registers are loaded into, for statements about a machine that does not start afresh.
-/

namespace GoBoard.Clocked

/-- A machine with registers `S` that samples an input `I` at every clock edge. -/
structure Machine (S I : Type*) where
  /-- The declared initial registers. -/
  init : S
  /-- The registers after a clock edge. -/
  posedge : S → I → S

namespace Machine

variable {S I S' I' : Type*}

/-- The registers before edge `e`, when edge `k` samples `inp k`. -/
def run (m : Machine S I) (inp : ℕ → I) : ℕ → S
  | 0 => m.init
  | e + 1 => m.posedge (m.run inp e) (inp e)

@[simp] theorem run_zero (m : Machine S I) (inp : ℕ → I) : m.run inp 0 = m.init := rfl

@[simp] theorem run_succ (m : Machine S I) (inp : ℕ → I) (e : ℕ) :
    m.run inp (e + 1) = m.posedge (m.run inp e) (inp e) := rfl

/-- The invariant rule: what the initial registers satisfy and every edge preserves holds before
every edge. The invariant may mention the edge. -/
theorem run_induction {m : Machine S I} {inp : ℕ → I} {P : ℕ → S → Prop} (h0 : P 0 m.init)
    (hstep : ∀ e s, P e s → P (e + 1) (m.posedge s (inp e))) (e : ℕ) : P e (m.run inp e) := by
  induction e with
  | zero => exact h0
  | succ e ih => exact hstep e _ ih

/-- The persistence rule: what holds before some edge and every edge preserves holds from then on.
-/
theorem run_of_le {m : Machine S I} {inp : ℕ → I} {P : S → Prop}
    (hstep : ∀ s i, P s → P (m.posedge s i)) {e e' : ℕ} (hle : e ≤ e') (h : P (m.run inp e)) :
    P (m.run inp e') := by
  obtain ⟨k, rfl⟩ := Nat.exists_eq_add_of_le hle
  clear hle
  induction k with
  | zero => exact h
  | succ k ih => exact hstep _ _ ih

/-- The machine with other initial registers. -/
def startAt (m : Machine S I) (s : S) : Machine S I := { m with init := s }

/-- The component rule: a part `π` of a design whose edge is the edge of `m'`, on the signals `wire`
that the design gives it, runs as `m'` does on those signals. -/
theorem run_component (m : Machine S I) (m' : Machine S' I') (π : S → S') (wire : S → I → I')
    (h0 : π m.init = m'.init) (hstep : ∀ s i, π (m.posedge s i) = m'.posedge (π s) (wire s i))
    (inp : ℕ → I) (e : ℕ) :
    π (m.run inp e) = m'.run (fun k => wire (m.run inp k) (inp k)) e := by
  induction e with
  | zero => exact h0
  | succ e ih => rw [run_succ, run_succ, hstep, ih]

end Machine

end GoBoard.Clocked
