import Mathlib.Data.List.Sort
import Mathlib.Data.Nat.Notation

/-!
# Logs of timed events

An event stream `p : ℕ → Option α` gives the event, if any, of every clock edge. Its log before edge
`e` is the list of the events of the edges below `e`, each with its edge, in time order. A log is
determined by its members (`log_eq_of_mem_iff`), a stream that repeats another one `d` edges later
has the same log `d` edges later (`log_shift`), and a stream that drops some events of another one
has a sublist of its log (`log_sublist`).
-/

namespace GoBoard.Clocked

variable {α : Type*}

/-- The events of the edges below `e`, each with its edge, in time order. -/
def log (p : ℕ → Option α) (e : ℕ) : List (ℕ × α) :=
  (List.range e).filterMap fun k => (p k).map fun a => (k, a)

/-- An entry of the log is an event of an edge below its end. -/
theorem mem_log {p : ℕ → Option α} {e k : ℕ} {a : α} : (k, a) ∈ log p e ↔ k < e ∧ p k = some a := by
  simp only [log, List.mem_filterMap, List.mem_range, Option.map_eq_some_iff, Prod.mk.injEq]
  constructor
  · rintro ⟨j, hj, b, hb, rfl, rfl⟩
    exact ⟨hj, hb⟩
  · rintro ⟨hk, hp⟩
    exact ⟨k, hk, a, hp, rfl, rfl⟩

/-- The log is in time order, with at most one entry for an edge. -/
theorem log_pairwise (p : ℕ → Option α) (e : ℕ) : (log p e).Pairwise fun x y => x.1 < y.1 := by
  refine (List.pairwise_lt_range (n := e)).filterMap _ ?_
  intro j k hjk x hx y hy
  simp only [Option.map_eq_some_iff] at hx hy
  obtain ⟨a, -, rfl⟩ := hx
  obtain ⟨b, -, rfl⟩ := hy
  exact hjk

/-- A list in time order whose entries are exactly the events below `e` is the log. -/
theorem log_eq_of_mem_iff {p : ℕ → Option α} {e : ℕ} {l : List (ℕ × α)}
    (hl : l.Pairwise fun x y => x.1 < y.1) (h : ∀ k a, (k, a) ∈ l ↔ k < e ∧ p k = some a) :
    log p e = l := by
  have : Std.Irrefl fun x y : ℕ × α => x.1 < y.1 := ⟨fun x => lt_irrefl x.1⟩
  have : Std.Antisymm fun x y : ℕ × α => x.1 < y.1 := ⟨fun x y hxy hyx => absurd hxy hyx.not_gt⟩
  refine (log_pairwise p e).eq_of_mem_iff hl ?_
  rintro ⟨k, a⟩
  rw [mem_log, h]

/-- A stream that repeats `q` with a delay of `d` edges has the log of `q`, delayed. -/
theorem log_shift {p q : ℕ → Option α} {d : ℕ} (h0 : ∀ k, k < d → p k = none)
    (h : ∀ k, p (k + d) = q k) (e : ℕ) :
    log p (e + d) = (log q e).map fun x => (x.1 + d, x.2) := by
  apply log_eq_of_mem_iff
  · rw [List.pairwise_map]
    exact (log_pairwise q e).imp fun hxy => by omega
  · intro k a
    simp only [List.mem_map, Prod.exists, Prod.mk.injEq, mem_log]
    constructor
    · rintro ⟨j, b, ⟨hj, hq⟩, rfl, rfl⟩
      exact ⟨by omega, by rw [h, hq]⟩
    · -- An event of `p` is not in the first `d` edges, so it is one of `q`.
      rintro ⟨hk, hp⟩
      have hd : d ≤ k := by
        by_contra hlt
        rw [h0 k (by omega)] at hp
        cases hp
      refine ⟨k - d, a, ⟨by omega, ?_⟩, by omega, rfl⟩
      rw [← h, Nat.sub_add_cancel hd, hp]

/-- A stream that keeps some of the events of `p` and adds none has a sublist of its log. -/
theorem log_sublist {p q : ℕ → Option α} (h : ∀ k a, q k = some a → p k = some a) (e : ℕ) :
    (log q e).Sublist (log p e) := by
  induction e with
  | zero => exact List.Sublist.refl _
  | succ e ih =>
    simp only [log, List.range_succ, List.filterMap_append] at ih ⊢
    refine ih.append ?_
    cases hq : q e with
    | none => simp [hq]
    | some a => simp [hq, h e a hq]

end GoBoard.Clocked
