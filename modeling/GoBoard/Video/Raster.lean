import GoBoard.Clocked.Bits
import Mathlib.Order.Basic

/-!
# Raster scans

A picture that is drawn line by line, one position at each clock edge: edge `e` is at column
`e % cols` of row `e / cols % rows`. Two nested counters step through the positions, one that wraps
around at the end of a line and one that moves on when it does (`col_succ`, `row_succ`). The
positions repeat after `area` edges.
-/

namespace GoBoard.Video

open Clocked (succ_mod_eq_ite)

/-- The positions of a raster, the blanked ones included. -/
structure Raster where
  cols : ℕ
  rows : ℕ
  cols_pos : 0 < cols
  rows_pos : 0 < rows

namespace Raster

variable (r : Raster)

/-- The column of edge `e`. -/
def col (e : ℕ) : ℕ := e % r.cols

/-- The row of edge `e`. -/
def row (e : ℕ) : ℕ := e / r.cols % r.rows

theorem col_zero : r.col 0 = 0 := Nat.zero_mod _

theorem row_zero : r.row 0 = 0 := by
  unfold row
  rw [Nat.zero_div, Nat.zero_mod]

/-- The column counter. -/
theorem col_succ (e : ℕ) : r.col (e + 1) = if r.col e + 1 < r.cols then r.col e + 1 else 0 :=
  succ_mod_eq_ite r.cols_pos e

/-- The row counter, which moves at the end of a line only. -/
theorem row_succ (e : ℕ) : r.row (e + 1) =
    if r.col e + 1 < r.cols then r.row e
    else if r.row e + 1 < r.rows then r.row e + 1 else 0 := by
  have hcol := r.col_succ e
  unfold col at hcol
  unfold row col
  by_cases h : e % r.cols + 1 < r.cols
  · rw [if_pos h] at hcol
    rw [if_pos h, Nat.succ_div_of_mod_ne_zero (by omega)]
  · rw [if_neg h] at hcol
    rw [if_neg h, Nat.succ_div_of_mod_eq_zero hcol]
    exact succ_mod_eq_ite r.rows_pos (e / r.cols)

/-- The column inside line `k`. -/
theorem col_of_line {k e : ℕ} (hle : r.cols * k ≤ e) (hlt : e < r.cols * (k + 1)) :
    r.col e = e - r.cols * k := by
  obtain ⟨i, rfl⟩ := Nat.exists_eq_add_of_le' hle
  rw [Nat.mul_succ] at hlt
  unfold col
  rw [Nat.add_mul_mod_self_left, Nat.mod_eq_of_lt (by omega), Nat.add_sub_cancel]

/-- The length of a frame, the time after which the positions repeat. -/
def area : ℕ := r.cols * r.rows

theorem col_add_area (e : ℕ) : r.col (e + r.area) = r.col e := Nat.add_mul_mod_self_left e _ _

theorem row_add_area (e : ℕ) : r.row (e + r.area) = r.row e := by
  unfold row area
  rw [Nat.add_mul_div_left _ _ r.cols_pos, Nat.add_mod_right]

/-- The positions repeat after any number of frames. -/
theorem position_add_frames (e k : ℕ) :
    r.col (e + r.area * k) = r.col e ∧ r.row (e + r.area * k) = r.row e := by
  unfold col row area
  rw [Nat.mul_assoc, Nat.add_mul_mod_self_left, Nat.add_mul_div_left _ _ r.cols_pos,
    Nat.add_mul_mod_self_left]
  exact ⟨rfl, rfl⟩

theorem area_pos : 0 < r.area := Nat.mul_pos r.cols_pos r.rows_pos

/-- A frame ends at its last position. -/
theorem row_of_start {e : ℕ} (hcol : r.col (e + 1) = 0) (hrow : r.row (e + 1) = 0) :
    r.row e + 1 = r.rows := by
  have hlt : r.row e < r.rows := Nat.mod_lt _ r.rows_pos
  rw [col_succ] at hcol
  rw [row_succ] at hrow
  split_ifs at hcol hrow with hend hlast
  omega

/-- The row inside frame `k`. -/
theorem row_of_frame {k e : ℕ} (hle : r.area * k ≤ e) (hlt : e < r.area * (k + 1)) :
    r.row e = (e - r.area * k) / r.cols := by
  obtain ⟨i, rfl⟩ := Nat.exists_eq_add_of_le' hle
  have hi : i / r.cols < r.rows := by
    rw [Nat.div_lt_iff_lt_mul r.cols_pos, Nat.mul_comm]
    rw [Nat.mul_succ] at hlt
    unfold area at hlt
    omega
  unfold row area
  rw [Nat.mul_assoc, Nat.add_mul_div_left _ _ r.cols_pos, Nat.add_mul_mod_self_left,
    Nat.mod_eq_of_lt hi, Nat.add_sub_cancel]

/-- The row changes at the start of a line only. -/
theorem col_eq_zero_of_row_ne {e : ℕ} (h : r.row (e + 1) ≠ r.row e) : r.col (e + 1) = 0 := by
  have hcol := r.col_succ e
  have hrow := r.row_succ e
  by_cases hend : r.col e + 1 < r.cols
  · rw [if_pos hend] at hrow
    exact absurd hrow h
  · rwa [if_neg hend] at hcol

end Raster

end GoBoard.Video
