import GoBoard.Clocked.Since
import GoBoard.TestPattern.Counters

/-!
# `Sync_To_Count`

The module recovers the position from a pair of sync signals: a frame start, which is a rising edge
of `i_VSync`, clears the counters, and every other edge steps them. So on any signals whatever the
counters are at the position that the time since the last frame start gives (`run_since_frameStart`).
On signals that show the positions of a raster they are at the position that was sampled at the
edge before, from any frame start on and whatever the registers held (`run_follows`).
-/

namespace GoBoard.TestPattern

open Clocked (Machine Since existsUnique_since)

/-- The registers of `Sync_To_Count`. -/
structure SyncToCount extends Counts where
  o_HSync : Bool
  o_VSync : Bool
  deriving DecidableEq, Repr

namespace SyncToCount

/-- The declared initial registers. -/
def init : SyncToCount where
  o_Col_Count := 0
  o_Row_Count := 0
  o_HSync := false
  o_VSync := false

/-- The wire `w_Frame_Start`: a rising edge of `i_VSync`. -/
def w_Frame_Start (s : SyncToCount) (i_VSync : Bool) : Bool := !s.o_VSync && i_VSync

/-- The two `always @(posedge i_Clk)` blocks. -/
def posedge (p : Params) (s : SyncToCount) (i : Syncs) : SyncToCount where
  toCounts := if s.w_Frame_Start i.VSync then ⟨0, 0⟩ else s.toCounts.count p
  o_HSync := i.HSync
  o_VSync := i.VSync

/-- The sync outputs. -/
def syncs (s : SyncToCount) : Syncs := ⟨s.o_HSync, s.o_VSync⟩

@[simp] theorem posedge_syncs (p : Params) (s : SyncToCount) (i : Syncs) :
    (s.posedge p i).syncs = i := rfl

theorem w_Frame_Start_eq_true {s : SyncToCount} {i_VSync : Bool} :
    s.w_Frame_Start i_VSync = true ↔ s.o_VSync = false ∧ i_VSync = true := by
  unfold w_Frame_Start
  rw [Bool.and_eq_true, Bool.not_eq_true']

theorem posedge_of_frameStart {p : Params} {s : SyncToCount} {i : Syncs}
    (h : s.w_Frame_Start i.VSync = true) : (s.posedge p i).toCounts = ⟨0, 0⟩ := if_pos h

theorem posedge_of_not_frameStart {p : Params} {s : SyncToCount} {i : Syncs}
    (h : ¬s.w_Frame_Start i.VSync = true) : (s.posedge p i).toCounts = s.toCounts.count p :=
  if_neg h

end SyncToCount

/-- `Sync_To_Count`. -/
def syncToCount (p : Params) : Machine SyncToCount Syncs :=
  ⟨SyncToCount.init, SyncToCount.posedge p⟩

/-! ## Any signals -/

/-- Edge `e` samples a rising edge of `i_VSync`, which is taken to be low before edge `0`. -/
def FrameStart (inp : ℕ → Syncs) (e : ℕ) : Prop :=
  (inp e).VSync = true ∧ ∀ k, k + 1 = e → (inp k).VSync = false

/-- The wire `w_Frame_Start` is high at the rising edges of `i_VSync`. -/
theorem w_Frame_Start_iff (p : Params) (inp : ℕ → Syncs) (e : ℕ) :
    ((syncToCount p).run inp e).w_Frame_Start (inp e).VSync = true ↔ FrameStart inp e := by
  rw [SyncToCount.w_Frame_Start_eq_true]
  unfold FrameStart
  cases e with
  | zero =>
    have hlow : ((syncToCount p).run inp 0).o_VSync = false := rfl
    have hnone : ∀ k, k + 1 = 0 → (inp k).VSync = false := fun k hk => absurd hk (by omega)
    exact ⟨fun h => ⟨h.2, hnone⟩, fun h => ⟨hlow, h.1⟩⟩
  | succ e =>
    have hprev : ((syncToCount p).run inp (e + 1)).o_VSync = (inp e).VSync := rfl
    rw [hprev]
    constructor
    · intro h
      refine ⟨h.2, fun k hk => ?_⟩
      rw [Nat.succ.inj hk]
      exact h.1
    · intro h
      exact ⟨h.2 e rfl, h.1⟩

/-- The position on any signals: the counters have gone through as many positions as edges have
passed since the last frame start, and the sync outputs are those sampled one edge earlier. -/
theorem run_since_frameStart (m : Mode) (inp : ℕ → Syncs) (e : ℕ) :
    (∃ n, Since (FrameStart inp) e n ∧ ((syncToCount m.toParams).run inp e).toCounts.At m n) ∧
    ((syncToCount m.toParams).run inp (e + 1)).syncs = inp e := by
  refine ⟨?_, rfl⟩
  obtain ⟨n, hn, -⟩ := existsUnique_since (FrameStart inp) e
  have hev : FrameStart inp = fun k =>
      ((syncToCount m.toParams).run inp k).w_Frame_Start (inp k).VSync = true :=
    funext fun k => propext (w_Frame_Start_iff m.toParams inp k).symm
  refine ⟨n, hn, ?_⟩
  rw [hev] at hn
  apply Machine.run_since (m := syncToCount m.toParams) (P := fun n s => s.toCounts.At m n)
    (E := fun s i => s.w_Frame_Start i.VSync = true) _ _ _ hn
  · exact .start m m.raster.col_zero m.raster.row_zero
  · intro s i h
    show (s.posedge m.toParams i).toCounts.At m 0
    rw [SyncToCount.posedge_of_frameStart h]
    exact .start m m.raster.col_zero m.raster.row_zero
  · intro n s i hat h
    show (s.posedge m.toParams i).toCounts.At m (n + 1)
    rw [SyncToCount.posedge_of_not_frameStart h]
    exact hat.count

/-! ## Signals of a raster -/

/-- The sync outputs show the position of edge `e`, and the counters are at it. -/
structure SyncToCount.Follows (m : Mode) (s : SyncToCount) (e : ℕ) : Prop where
  shows : s.syncs.Shows m e
  counts : s.toCounts.At m e

/-- A frame start at the first position of a raster puts the counters there. -/
theorem SyncToCount.follows_zero {m : Mode} {s : SyncToCount} {i : Syncs}
    (hlow : s.o_VSync = false) (hi : i.Shows m 0) : (s.posedge m.toParams i).Follows m 0 where
  shows := hi
  counts := by
    rw [posedge_of_frameStart (w_Frame_Start_eq_true.mpr ⟨hlow, hi.VSync_start⟩)]
    exact .start m m.raster.col_zero m.raster.row_zero

/-- Counters that follow the signals go on to follow them. -/
theorem SyncToCount.Follows.posedge {m : Mode} {s : SyncToCount} {i : Syncs} {e : ℕ}
    (h : s.Follows m e) (hi : i.Shows m (e + 1)) : (s.posedge m.toParams i).Follows m (e + 1) where
  shows := hi
  counts := by
    by_cases hstart : s.w_Frame_Start i.VSync = true
    · -- The next frame starts where the counters wrap around by themselves.
      obtain ⟨hlow, hhigh⟩ := w_Frame_Start_eq_true.mp hstart
      obtain ⟨hcol, hrow⟩ := h.shows.start_of_rise hi hlow hhigh
      rw [posedge_of_frameStart hstart]
      exact .start m hcol hrow
    · rw [posedge_of_not_frameStart hstart]
      exact h.counts.count

/-- On signals that show a raster from edge `t` on, and whatever the registers held before, the
outputs are one edge behind the signals. -/
theorem run_follows {m : Mode} {s₀ : SyncToCount} {inp : ℕ → Syncs} {t : ℕ}
    (hlow : (((syncToCount m.toParams).startAt s₀).run inp t).o_VSync = false)
    (h : ∀ e, (inp (t + e)).Shows m e) (e : ℕ) :
    (((syncToCount m.toParams).startAt s₀).run inp (t + e + 1)).Follows m e := by
  induction e with
  | zero => exact SyncToCount.follows_zero hlow (h 0)
  | succ e ih => exact ih.posedge (h (e + 1))

end GoBoard.TestPattern
