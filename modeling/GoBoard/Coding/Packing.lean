import GoBoard.Coding.Crc
import Mathlib.Data.List.Basic

/-!
# Bits in bytes

A sequence of bits is packed into bytes with the first bit highest, and byte `k / 8` of the result
has bit `k` of the sequence as its bit `k % 8` from the top (`byteBit_packBytes`).
-/

namespace GoBoard.Coding

/-- A byte. -/
abbrev Byte := BitVec 8

/-- A byte from eight bits, shifted in one after the other. -/
def packByte (f : ℕ → Bool) : Byte :=
  (List.range 8).foldl (fun byte j => byte <<< 1 ||| if f j then 1 else 0) 0

/-- Bit `j` of a byte from the top, as a mask finds it. -/
def byteBit (byte : Byte) (j : ℕ) : Bool := (byte <<< j) &&& 0x80 ≠ 0

/-- A sequence in bytes. Bits that are missing in the last byte are zero. -/
def packBytes (bits : List Bool) : List Byte :=
  (List.range ((bits.length + 7) / 8)).map fun i => packByte fun j => bits.getD (8 * i + j) false

/-- A mask finds the bits from the top. -/
theorem byteBit_eq (byte : Byte) {j : ℕ} (hj : j < 8) : byteBit byte j = byte.getLsbD (7 - j) := by
  have hmask : ∀ b : Byte, decide (b &&& 0x80 ≠ 0) = b.getLsbD 7 := by decide
  unfold byteBit
  rw [hmask, BitVec.getLsbD_shiftLeft]
  simp [show ¬7 < j by omega]

/-- A bit that is shifted in moves the others up. -/
theorem getLsbD_shiftIn (byte : Byte) (x : Bool) {i : ℕ} (hi : i < 8) :
    (byte <<< 1 ||| if x then 1 else 0).getLsbD i = if i = 0 then x else byte.getLsbD (i - 1) := by
  have hone : (if x then (1 : Byte) else 0).getLsbD i = (decide (i = 0) && x) := by
    cases x <;> simp [BitVec.getLsbD_one]
  rw [BitVec.getLsbD_or, hone, BitVec.getLsbD_shiftLeft]
  by_cases h : i = 0
  · simp [h]
  · simp [h, hi, show ¬i < 1 by omega]

/-- The bits of a packed byte. -/
theorem byteBit_packByte (f : ℕ → Bool) {j : ℕ} (hj : j < 8) : byteBit (packByte f) j = f j := by
  have hfold : ∀ n ≤ 8, ∀ i < n, ((List.range n).foldl
      (fun (byte : Byte) j => byte <<< 1 ||| if f j then 1 else 0) 0).getLsbD i = f (n - 1 - i) := by
    intro n hn
    induction n with
    | zero => exact fun i hi => absurd hi (Nat.not_lt_zero i)
    | succ n ih =>
      intro i hi
      rw [List.range_succ, List.foldl_append, List.foldl_cons, List.foldl_nil,
        getLsbD_shiftIn _ _ (by omega)]
      split_ifs with h
      · rw [h]
        rfl
      · rw [ih (by omega) (i - 1) (by omega)]
        congr 1
        omega
  rw [byteBit_eq _ hj, packByte, hfold 8 (le_refl 8) _ (by omega)]
  congr 1
  omega

theorem length_packBytes (bits : List Bool) :
    (packBytes bits).length = (bits.length + 7) / 8 := by
  simp [packBytes]

/-- The bits of a packed sequence. -/
theorem byteBit_packBytes (bits : List Bool) {k : ℕ} (hk : k < bits.length) :
    byteBit ((packBytes bits).getD (k / 8) 0) (k % 8) = bits[k] := by
  have hlt : k / 8 < (bits.length + 7) / 8 := by omega
  have hget : (packBytes bits).getD (k / 8) 0 =
      packByte fun j => bits.getD (8 * (k / 8) + j) false := by
    simp [packBytes, hlt]
  rw [hget, byteBit_packByte _ (Nat.mod_lt k (by decide)), Nat.div_add_mod]
  simp [hk]

end GoBoard.Coding
