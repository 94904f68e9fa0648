import Mathlib.Algebra.Ring.Nat
import Mathlib.Tactic.SplitIfs

/-!
# Counters, and registers written one bit at a time

A counter that is below its last value counts on without wrapping around (`toNat_add_one`,
`counts_on`); one that wraps around after `n` edges counts them modulo `n` (`succ_mod_eq_ite`). A
vector is assembled from its bits by `ofBits`, and `writeBit v i x` is the vector that a clock edge
leaves when it assigns `x` to bit `i` of `v` alone.
-/

namespace GoBoard.Clocked

/-- A counter below its last value counts on. -/
theorem toNat_add_one {n : ℕ} {c : BitVec n} (h : c.toNat + 1 < 2 ^ n) :
    (c + 1).toNat = c.toNat + 1 := by
  have hone : (1 : BitVec n).toNat = 1 := by
    change 1 % 2 ^ n = 1
    exact Nat.mod_eq_of_lt (by omega)
  rw [BitVec.toNat_add, hone, Nat.mod_eq_of_lt h]

/-- A counter that follows the edges, and is not at the last of `N` values yet, follows them on. -/
theorem counts_on {n N e a : ℕ} {c : BitVec n} (hN : N ≤ 2 ^ n) (hlt : c.toNat + 1 < N)
    (he : e = a + c.toNat) : (c + 1).toNat < N ∧ e + 1 = a + (c + 1).toNat := by
  rw [toNat_add_one (by omega)]
  omega

/-- A remainder counts up and wraps around. -/
theorem succ_mod_eq_ite {n : ℕ} (hn : 0 < n) (k : ℕ) :
    (k + 1) % n = if k % n + 1 < n then k % n + 1 else 0 := by
  have hlt := Nat.mod_lt k hn
  rw [← Nat.mod_add_mod]
  by_cases h : k % n + 1 < n
  · rw [if_pos h, Nat.mod_eq_of_lt h]
  · have hend : k % n + 1 = n := by omega
    rw [if_neg h, hend, Nat.mod_self]

/-- The vector whose bit `i` is `f i`. -/
def ofBits : (n : ℕ) → (ℕ → Bool) → BitVec n
  | 0, _ => BitVec.nil
  | n + 1, f => BitVec.cons (f n) (ofBits n f)

@[simp] theorem getLsbD_ofBits {n i : ℕ} (f : ℕ → Bool) (h : i < n) :
    (ofBits n f).getLsbD i = f i := by
  induction n with
  | zero => omega
  | succ n ih =>
    rw [ofBits, BitVec.getLsbD_cons]
    split_ifs with hi
    · rw [hi]
    · exact ih (by omega)

/-- `v` with bit `i` replaced by `x`. -/
def writeBit {n : ℕ} (v : BitVec n) (i : ℕ) (x : Bool) : BitVec n :=
  ofBits n fun j => if j = i then x else v.getLsbD j

theorem getLsbD_writeBit {n j : ℕ} (v : BitVec n) (i : ℕ) (x : Bool) (h : j < n) :
    (writeBit v i x).getLsbD j = if j = i then x else v.getLsbD j := by
  unfold writeBit
  rw [getLsbD_ofBits _ h]

/-- Levels that are low together are equal. -/
theorem eq_of_low_iff {x y : Bool} (h : x = false ↔ y = false) : x = y := by
  cases x
  · exact (h.mp rfl).symm
  · cases y
    · exact h.mpr rfl
    · rfl

end GoBoard.Clocked
