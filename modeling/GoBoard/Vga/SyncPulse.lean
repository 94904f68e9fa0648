import GoBoard.Clocked.Bits
import GoBoard.Clocked.Machine
import GoBoard.Video.Timing

/-!
# `Sync_Pulse`

The position counters of `Sync_Pulse.v`, the same file in `VGA_UART` and `VGA_Switches`. The
counters have no input besides the clock, so before edge `e` they are at the position of edge `e` in
a raster of 800 columns and 525 rows, whatever the rest of the design does (`run_at`). `documented`
is the timing in this area that the header of `Sync_Porch.v` gives in both designs.
-/

namespace GoBoard.Vga

open Clocked (Machine toNat_add_one)
open Video (Raster Timing)

/-- The registers of `Sync_Pulse`. -/
structure SyncPulse where
  o_CountCol : BitVec 10
  o_CountRow : BitVec 10
  deriving DecidableEq, Repr

namespace SyncPulse

/-- The declared initial registers. -/
def init : SyncPulse where
  o_CountCol := 0
  o_CountRow := 0

/-- The `always @(posedge CLK)` block. -/
def posedge (s : SyncPulse) : SyncPulse :=
  if s.o_CountCol.toNat < 799 then
    { s with o_CountCol := s.o_CountCol + 1 }
  else
    { o_CountCol := 0
      o_CountRow := if s.o_CountRow.toNat < 524 then s.o_CountRow + 1 else 0 }

/-- The output `o_HSync`: the column is active. -/
def o_HSync (s : SyncPulse) : Bool := if s.o_CountCol.toNat < 640 then true else false

/-- The output `o_VSync`: the row is active. -/
def o_VSync (s : SyncPulse) : Bool := if s.o_CountRow.toNat < 480 then true else false

theorem o_HSync_eq_false {s : SyncPulse} : s.o_HSync = false ↔ 640 ≤ s.o_CountCol.toNat := by
  unfold o_HSync
  split_ifs with h
  · exact iff_of_false (by simp) (by omega)
  · exact iff_of_true rfl (by omega)

theorem o_VSync_eq_false {s : SyncPulse} : s.o_VSync = false ↔ 480 ≤ s.o_CountRow.toNat := by
  unfold o_VSync
  split_ifs with h
  · exact iff_of_false (by simp) (by omega)
  · exact iff_of_true rfl (by omega)

end SyncPulse

/-- A porch stage lets a signal through between two positions, and is high outside. -/
theorem porch_eq_false {lo hi k : ℕ} {x : Bool} :
    (if k < lo ∨ k > hi then true else x) = false ↔ lo ≤ k ∧ k ≤ hi ∧ x = false := by
  split_ifs with h
  · exact iff_of_false (by simp) (by omega)
  · exact ⟨fun hx => ⟨by omega, by omega, hx⟩, fun hx => hx.2.2⟩

/-- The counters, which sample no input. -/
def syncPulse : Machine SyncPulse Unit := ⟨SyncPulse.init, fun s _ => s.posedge⟩

/-- The whole area that the counters run through. -/
def wholeArea : Raster where
  cols := 800
  rows := 525
  cols_pos := by decide
  rows_pos := by decide

/-- The timing that the header of `Sync_Porch` documents. -/
def documented : Timing where
  horizontal := { visible := 640, front := 18, pulse := 92, back := 50 }
  vertical := { visible := 480, front := 10, pulse := 2, back := 33 }
  horizontal_pos := by decide
  vertical_pos := by decide

/-- The counters stand at the position of edge `e`. -/
structure SyncPulse.At (s : SyncPulse) (e : ℕ) : Prop where
  col : s.o_CountCol.toNat = wholeArea.col e
  row : s.o_CountRow.toNat = wholeArea.row e

/-- One edge moves the counters to the next position. -/
theorem SyncPulse.At.posedge {s : SyncPulse} {e : ℕ} (h : s.At e) : s.posedge.At (e + 1) := by
  have hcols : wholeArea.cols = 800 := rfl
  have hrows : wholeArea.rows = 525 := rfl
  have hcol := wholeArea.col_succ e
  have hrow := wholeArea.row_succ e
  rw [hcols, ← h.col] at hcol
  rw [hcols, hrows, ← h.col, ← h.row] at hrow
  unfold SyncPulse.posedge
  by_cases hend : s.o_CountCol.toNat < 799
  · -- Inside a line only the column moves.
    rw [if_pos hend]
    rw [if_pos (by omega)] at hcol hrow
    exact ⟨by rw [hcol, toNat_add_one (by omega)], hrow.symm⟩
  · -- At the end of a line the row moves, and wraps around at the end of the frame.
    rw [if_neg hend]
    rw [if_neg (by omega)] at hcol hrow
    refine ⟨by rw [hcol]; rfl, ?_⟩
    by_cases hlast : s.o_CountRow.toNat < 524
    · rw [if_pos (by omega)] at hrow
      rw [hrow, if_pos hlast, toNat_add_one (by omega)]
    · rw [if_neg (by omega)] at hrow
      rw [hrow, if_neg hlast]
      rfl

/-- The counters are at the position of the edge in every run. -/
theorem SyncPulse.run_at (inp : ℕ → Unit) (e : ℕ) : (syncPulse.run inp e).At e :=
  Machine.run_induction (m := syncPulse) (P := fun e s => SyncPulse.At s e)
    ⟨wholeArea.col_zero.symm, wholeArea.row_zero.symm⟩ (fun _ _ h => h.posedge) e

end GoBoard.Vga
