import GoBoard.Clocked.Bits
import GoBoard.Clocked.Machine
import GoBoard.Video.Raster

/-!
# `VGA_Sync_Pulses`, and the position counters of the test pattern generator

The modules of the test pattern generator share four parameters and a pair of 10-bit counters.
Parameters are 32-bit integers, and a comparison with a counter is an unsigned 32-bit one, in which
a parameter less one can wrap around. A `Mode` is a choice of parameters for which the counters'
last values fit and some row is active. In a mode the counters step through the positions of a
raster (`Counts.At.count`), so those of `VGA_Sync_Pulses`, which have no input, are at the position
of the edge (`VgaSyncPulses.run_at`) and its sync signals tell whether the column and the row of
that position are active (`VgaSyncPulses.run_shows`).
-/

namespace GoBoard.TestPattern

open Clocked (Machine toNat_add_one)
open Video (Raster)

/-- The parameters of the modules. -/
structure Params where
  TOTAL_COLS : BitVec 32
  TOTAL_ROWS : BitVec 32
  ACTIVE_COLS : BitVec 32
  ACTIVE_ROWS : BitVec 32
  deriving DecidableEq, Repr

/-- Parameters for which every column and every row has a counter value, and some row is active. -/
structure Mode extends Params where
  cols_pos : 0 < TOTAL_COLS.toNat
  cols_le : TOTAL_COLS.toNat ≤ 2 ^ 10
  rows_pos : 0 < TOTAL_ROWS.toNat
  rows_le : TOTAL_ROWS.toNat ≤ 2 ^ 10
  active_pos : 0 < ACTIVE_ROWS.toNat

/-- The default parameters of the modules, for 640x480. -/
def Mode.default : Mode where
  TOTAL_COLS := 800
  TOTAL_ROWS := 525
  ACTIVE_COLS := 640
  ACTIVE_ROWS := 480
  cols_pos := by decide
  cols_le := by decide
  rows_pos := by decide
  rows_le := by decide
  active_pos := by decide

/-- The positions of a mode. -/
def Mode.raster (m : Mode) : Raster where
  cols := m.TOTAL_COLS.toNat
  rows := m.TOTAL_ROWS.toNat
  cols_pos := m.cols_pos
  rows_pos := m.rows_pos

/-- The counter registers. -/
structure Counts where
  o_Col_Count : BitVec 10
  o_Row_Count : BitVec 10
  deriving DecidableEq, Repr

/-- The nested `if`s that step the counters. -/
def Counts.count (p : Params) (c : Counts) : Counts :=
  if c.o_Col_Count.setWidth 32 = p.TOTAL_COLS - 1 then
    { o_Col_Count := 0
      o_Row_Count :=
        if c.o_Row_Count.setWidth 32 = p.TOTAL_ROWS - 1 then 0 else c.o_Row_Count + 1 }
  else
    { c with o_Col_Count := c.o_Col_Count + 1 }

/-- A sync signal: the counter is below the active size. -/
def active (c : BitVec 10) (size : BitVec 32) : Bool := if c.setWidth 32 < size then true else false

/-! ## Comparisons in 32 bits -/

/-- A counter keeps its value in a wider expression. -/
theorem toNat_widen (c : BitVec 10) : (c.setWidth 32).toNat = c.toNat := by
  have hlt := c.isLt
  rw [BitVec.toNat_setWidth, Nat.mod_eq_of_lt (by omega)]

/-- The comparison that ends a line or a frame. -/
theorem widen_eq_last_iff {c : BitVec 10} {size : BitVec 32} (h : 0 < size.toNat) :
    c.setWidth 32 = size - 1 ↔ c.toNat + 1 = size.toNat := by
  have hsub : (size - 1).toNat = size.toNat - 1 := BitVec.toNat_sub_of_le (BitVec.le_def.mpr h)
  rw [BitVec.toNat_eq, toNat_widen, hsub]
  omega

theorem widen_lt_iff {c : BitVec 10} {size : BitVec 32} :
    c.setWidth 32 < size ↔ c.toNat < size.toNat := by
  rw [BitVec.lt_def, toNat_widen]

theorem active_eq_decide (c : BitVec 10) (size : BitVec 32) :
    active c size = decide (c.toNat < size.toNat) := by
  unfold active
  simp only [widen_lt_iff]
  split_ifs with h
  · exact (decide_eq_true h).symm
  · exact (decide_eq_false h).symm

/-! ## The position of the counters -/

/-- The counters stand at the position of edge `e`. -/
structure Counts.At (m : Mode) (c : Counts) (e : ℕ) : Prop where
  col : c.o_Col_Count.toNat = m.raster.col e
  row : c.o_Row_Count.toNat = m.raster.row e

/-- Cleared counters are at the first position of a frame. -/
theorem Counts.At.start (m : Mode) {e : ℕ} (hcol : m.raster.col e = 0) (hrow : m.raster.row e = 0) :
    Counts.At m ⟨0, 0⟩ e :=
  ⟨hcol.symm, hrow.symm⟩

/-- One step moves the counters to the next position. -/
theorem Counts.At.count {m : Mode} {c : Counts} {e : ℕ} (h : c.At m e) :
    (c.count m.toParams).At m (e + 1) := by
  have hcol := m.raster.col_succ e
  have hrow := m.raster.row_succ e
  have hcols : m.raster.cols = m.TOTAL_COLS.toNat := rfl
  have hrows : m.raster.rows = m.TOTAL_ROWS.toNat := rfl
  have hcol_lt : m.raster.col e < m.TOTAL_COLS.toNat := Nat.mod_lt e m.cols_pos
  have hrow_lt : m.raster.row e < m.TOTAL_ROWS.toNat := Nat.mod_lt _ m.rows_pos
  have hcols_le := m.cols_le
  have hrows_le := m.rows_le
  rw [hcols, ← h.col] at hcol
  rw [hcols, hrows, ← h.col, ← h.row] at hrow
  rw [← h.col] at hcol_lt
  rw [← h.row] at hrow_lt
  unfold Counts.count
  simp only [widen_eq_last_iff m.cols_pos, widen_eq_last_iff m.rows_pos]
  by_cases hend : c.o_Col_Count.toNat + 1 = m.TOTAL_COLS.toNat
  · -- At the end of a line the row moves, and wraps around at the end of the frame.
    rw [if_pos hend]
    rw [if_neg (by omega)] at hcol hrow
    refine ⟨by rw [hcol]; rfl, ?_⟩
    by_cases hlast : c.o_Row_Count.toNat + 1 = m.TOTAL_ROWS.toNat
    · rw [if_neg (by omega)] at hrow
      rw [hrow, if_pos hlast]
      rfl
    · rw [if_pos (by omega)] at hrow
      rw [hrow, if_neg hlast, toNat_add_one (by omega)]
  · -- Inside a line only the column moves.
    rw [if_neg hend]
    rw [if_pos (by omega)] at hcol hrow
    exact ⟨by rw [hcol, toNat_add_one (by omega)], hrow.symm⟩

/-! ## Sync signals -/

/-- A pair of sync signals. -/
structure Syncs where
  HSync : Bool
  VSync : Bool
  deriving DecidableEq, Repr

/-- The sync signals tell which of the column and the row of edge `e` are active. -/
structure Syncs.Shows (m : Mode) (i : Syncs) (e : ℕ) : Prop where
  HSync : i.HSync = decide (m.raster.col e < m.ACTIVE_COLS.toNat)
  VSync : i.VSync = decide (m.raster.row e < m.ACTIVE_ROWS.toNat)

/-- Some row is active, so the first one is. -/
theorem Syncs.Shows.VSync_start {m : Mode} {i : Syncs} (h : i.Shows m 0) : i.VSync = true := by
  rw [h.VSync, m.raster.row_zero]
  exact decide_eq_true m.active_pos

/-- The row becomes active at the first position of a frame only. -/
theorem Syncs.Shows.start_of_rise {m : Mode} {i i' : Syncs} {e : ℕ} (h : i.Shows m e)
    (h' : i'.Shows m (e + 1)) (hlow : i.VSync = false) (hhigh : i'.VSync = true) :
    m.raster.col (e + 1) = 0 ∧ m.raster.row (e + 1) = 0 := by
  have hcol := m.raster.col_succ e
  have hrow := m.raster.row_succ e
  have hlow' := of_decide_eq_false (h.VSync.symm.trans hlow)
  have hhigh' := of_decide_eq_true (h'.VSync.symm.trans hhigh)
  split_ifs at hcol hrow with hend hlast
  · omega
  · omega
  · exact ⟨hcol, hrow⟩

/-! ## `VGA_Sync_Pulses` -/

/-- The declared initial counters of `VGA_Sync_Pulses`. -/
def VgaSyncPulses.init : Counts where
  o_Col_Count := 0
  o_Row_Count := 0

/-- The `always @(posedge i_Clk)` block of `VGA_Sync_Pulses`. -/
def VgaSyncPulses.posedge (p : Params) (c : Counts) : Counts := c.count p

/-- The outputs `o_HSync` and `o_VSync` of `VGA_Sync_Pulses`. -/
def VgaSyncPulses.syncs (p : Params) (c : Counts) : Syncs where
  HSync := active c.o_Col_Count p.ACTIVE_COLS
  VSync := active c.o_Row_Count p.ACTIVE_ROWS

/-- `VGA_Sync_Pulses`, which samples no input. -/
def vgaSyncPulses (p : Params) : Machine Counts Unit :=
  ⟨VgaSyncPulses.init, fun c _ => VgaSyncPulses.posedge p c⟩

/-- Counters at a position drive the sync signals of that position. -/
theorem VgaSyncPulses.shows {m : Mode} {c : Counts} {e : ℕ} (h : c.At m e) :
    (VgaSyncPulses.syncs m.toParams c).Shows m e where
  HSync := by
    rw [← h.col]
    exact active_eq_decide _ _
  VSync := by
    rw [← h.row]
    exact active_eq_decide _ _

/-- The counters are at the position of the edge. -/
theorem VgaSyncPulses.run_at (m : Mode) (inp : ℕ → Unit) (e : ℕ) :
    ((vgaSyncPulses m.toParams).run inp e).At m e :=
  Machine.run_induction (m := vgaSyncPulses m.toParams) (P := fun e c => Counts.At m c e)
    (.start m m.raster.col_zero m.raster.row_zero) (fun _ _ h => h.count) e

/-- The sync signals show the position of the edge. -/
theorem VgaSyncPulses.run_shows (m : Mode) (inp : ℕ → Unit) (e : ℕ) :
    (VgaSyncPulses.syncs m.toParams ((vgaSyncPulses m.toParams).run inp e)).Shows m e :=
  VgaSyncPulses.shows (VgaSyncPulses.run_at m inp e)

/-- The sync signals for 640x480, from some edge on. -/
def syncsFrom (k e : ℕ) : Syncs :=
  VgaSyncPulses.syncs Mode.default.toParams
    ((vgaSyncPulses Mode.default.toParams).run (fun _ => ()) (e + k))

theorem syncsFrom_shows (k e : ℕ) : (syncsFrom k e).Shows Mode.default (e + k) :=
  VgaSyncPulses.run_shows Mode.default (fun _ => ()) (e + k)

end GoBoard.TestPattern
