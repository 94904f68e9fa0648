import GoBoard.TestPattern.Gen
import GoBoard.VgaSwitches.Top

/-!
# `VGA_Sync_Porch`

The porch stage turns signals that are low outside the active area into sync pulses: it has counters
of its own, and raises the signals in the front porch of 18 columns or 10 rows and in the back porch
of 50 or 33. On signals that show a raster its outputs are two edges behind, with a pulse between the
porches of either axis and with the video of the same position (`porch_of_shows`). Behind the test
pattern generator it is four edges behind (`porch_of_gen`). With its parameters for 640x480 it makes
the sync signals of `VGA_Switches`, one edge later (`porch_eq_switches`).
-/

namespace GoBoard.TestPattern

open Clocked (Machine eq_of_low_iff)
open Vga (documented porch_eq_false)
open Video (Timing)

def c_FRONT_PORCH_HORZ : BitVec 32 := 18
def c_BACK_PORCH_HORZ : BitVec 32 := 50
def c_FRONT_PORCH_VERT : BitVec 32 := 10
def c_BACK_PORCH_VERT : BitVec 32 := 33

/-- The registers of `VGA_Sync_Porch`: the video outputs, the video before them, and the rest. -/
structure VgaSyncPorch (w : ℕ) extends Rgb w where
  r_Video : Rgb w
  UUT : SyncToCount
  o_HSync : Bool
  o_VSync : Bool
  deriving DecidableEq, Repr

/-- The inputs of `VGA_Sync_Porch` besides the clock. -/
structure PorchInput (w : ℕ) where
  i_Video : Rgb w
  i_Syncs : Syncs
  deriving DecidableEq, Repr

namespace VgaSyncPorch

variable {w : ℕ}

/-- One axis of the first `always` block: what is registered as the sync signal. -/
def porch (front back active total : BitVec 32) (count : BitVec 10) (sync : Bool) : Bool :=
  if count.setWidth 32 < front + active ∨ count.setWidth 32 > total - back - 1 then true else sync

/-- The declared initial registers. The outputs have none, and start with any `x`, `hs`, `vs`. -/
def init (x : Rgb w) (hs vs : Bool) : VgaSyncPorch w where
  toRgb := x
  r_Video := ⟨0, 0, 0⟩
  UUT := SyncToCount.init
  o_HSync := hs
  o_VSync := vs

/-- The two `always @(posedge i_Clk)` blocks. -/
def posedge (p : Params) (s : VgaSyncPorch w) (i : PorchInput w) : VgaSyncPorch w where
  toRgb := s.r_Video
  r_Video := i.i_Video
  UUT := s.UUT.posedge p i.i_Syncs
  o_HSync := porch c_FRONT_PORCH_HORZ c_BACK_PORCH_HORZ p.ACTIVE_COLS p.TOTAL_COLS
    s.UUT.o_Col_Count s.UUT.o_HSync
  o_VSync := porch c_FRONT_PORCH_VERT c_BACK_PORCH_VERT p.ACTIVE_ROWS p.TOTAL_ROWS
    s.UUT.o_Row_Count s.UUT.o_VSync

end VgaSyncPorch

/-- `VGA_Sync_Porch`. -/
def vgaSyncPorch {w : ℕ} (p : Params) (x : Rgb w) (hs vs : Bool) :
    Machine (VgaSyncPorch w) (PorchInput w) :=
  ⟨VgaSyncPorch.init x hs vs, VgaSyncPorch.posedge p⟩

/-! ## The timing -/

/-- The blanked part of either axis has room for both porches. -/
structure Mode.Porched (m : Mode) : Prop where
  cols : m.ACTIVE_COLS.toNat + 68 ≤ m.TOTAL_COLS.toNat
  rows : m.ACTIVE_ROWS.toNat + 43 ≤ m.TOTAL_ROWS.toNat

theorem Mode.porched_default : Mode.default.Porched := ⟨by decide, by decide⟩

/-- The timing with these porches, in which the pulses take what remains of the blanked part. -/
def Mode.timing (m : Mode) : Timing where
  horizontal :=
    { visible := m.ACTIVE_COLS.toNat
      front := 18
      pulse := m.TOTAL_COLS.toNat - m.ACTIVE_COLS.toNat - 68
      back := 50 }
  vertical :=
    { visible := m.ACTIVE_ROWS.toNat
      front := 10
      pulse := m.TOTAL_ROWS.toNat - m.ACTIVE_ROWS.toNat - 43
      back := 33 }
  horizontal_pos := Nat.lt_of_lt_of_le (by decide : 0 < 50) (Nat.le_add_left _ _)
  vertical_pos := Nat.lt_of_lt_of_le (by decide : 0 < 33) (Nat.le_add_left _ _)

/-- The timing fills the whole area. -/
theorem Mode.Porched.raster_eq {m : Mode} (h : m.Porched) : m.timing.raster = m.raster := by
  have hcols := h.cols
  have hrows := h.rows
  have hc : m.timing.horizontal.total = m.TOTAL_COLS.toNat := by
    unfold Video.Axis.total Mode.timing
    dsimp only
    omega
  have hr : m.timing.vertical.total = m.TOTAL_ROWS.toNat := by
    unfold Video.Axis.total Mode.timing
    dsimp only
    omega
  unfold Timing.raster Mode.raster
  simp only [hc, hr]

/-- A registered sync signal is low between the porches. -/
theorem porch_low_iff {front back active total : BitVec 32} {count : BitVec 10} {sync : Bool}
    (hsync : sync = decide (count.toNat < active.toNat)) (hback : back.toNat < total.toNat)
    (hfit : front.toNat + active.toNat < 2 ^ 32) :
    VgaSyncPorch.porch front back active total count sync = false ↔
      active.toNat + front.toNat ≤ count.toNat ∧ count.toNat + back.toNat < total.toNat := by
  have hadd : (front + active).toNat = front.toNat + active.toNat := by
    rw [BitVec.toNat_add, Nat.mod_eq_of_lt hfit]
  have hsub : (total - back - 1).toNat = total.toNat - back.toNat - 1 := by
    rw [BitVec.toNat_sub_of_le, BitVec.toNat_sub_of_le (BitVec.le_def.mpr (by omega))]
    · rfl
    · rw [BitVec.le_def, BitVec.toNat_sub_of_le (BitVec.le_def.mpr (by omega))]
      change 1 ≤ _
      omega
  unfold VgaSyncPorch.porch
  simp only [gt_iff_lt, BitVec.lt_def, hadd, hsub, toNat_widen]
  rw [porch_eq_false, hsync, decide_eq_false_iff_not]
  omega

/-- The outputs are those of edge `e` of the raster: each sync signal is low in the pulse of its
axis, and the video is `x`. -/
structure VgaSyncPorch.Times {w : ℕ} (m : Mode) (s : VgaSyncPorch w) (x : Rgb w) (e : ℕ) :
    Prop where
  o_HSync : s.o_HSync = false ↔ m.timing.horizontal.InPulse (m.timing.raster.col e)
  o_VSync : s.o_VSync = false ↔ m.timing.vertical.InPulse (m.timing.raster.row e)
  video : s.toRgb = x

section Run

variable {m : Mode} {w : ℕ}

/-- Counters that follow the sync signals time the outputs one edge later. -/
theorem times_of_follows {s : VgaSyncPorch w} {i : PorchInput w} {e : ℕ} (hm : m.Porched)
    (h : s.UUT.Follows m e) : (s.posedge m.toParams i).Times m s.r_Video e where
  o_HSync := by
    have hcols := hm.cols
    have hsync := h.shows.HSync
    rw [← h.counts.col] at hsync
    rw [hm.raster_eq, ← h.counts.col]
    change VgaSyncPorch.porch _ _ _ _ _ s.UUT.syncs.HSync = false ↔ _
    rw [porch_low_iff hsync (by change 50 < _; omega) (by change 18 + _ < _; omega)]
    unfold Video.Axis.InPulse Mode.timing
    change _ + 18 ≤ _ ∧ _ + 50 < _ ↔ _
    dsimp only
    omega
  o_VSync := by
    have hrows := hm.rows
    have hsync := h.shows.VSync
    rw [← h.counts.row] at hsync
    rw [hm.raster_eq, ← h.counts.row]
    change VgaSyncPorch.porch _ _ _ _ _ s.UUT.syncs.VSync = false ↔ _
    rw [porch_low_iff hsync (by change 33 < _; omega) (by change 10 + _ < _; omega)]
    unfold Video.Axis.InPulse Mode.timing
    change _ + 10 ≤ _ ∧ _ + 33 < _ ↔ _
    dsimp only
    omega
  video := rfl

/-- From an edge on at which a frame starts, the outputs are two edges behind the inputs. -/
theorem porch_from (x : Rgb w) (hs vs : Bool) (inp : ℕ → PorchInput w) {t : ℕ} (hm : m.Porched)
    (hlow : ((vgaSyncPorch m.toParams x hs vs).run inp t).UUT.o_VSync = false)
    (h : ∀ e, (inp (t + e)).i_Syncs.Shows m e) (e : ℕ) :
    ((vgaSyncPorch m.toParams x hs vs).run inp (t + e + 2)).Times m (inp (t + e)).i_Video e := by
  have hUUT (k : ℕ) : ((vgaSyncPorch m.toParams x hs vs).run inp k).UUT =
      ((syncToCount m.toParams).startAt SyncToCount.init).run (fun k => (inp k).i_Syncs) k :=
    (vgaSyncPorch m.toParams x hs vs).run_component
      ((syncToCount m.toParams).startAt SyncToCount.init) (·.UUT) (fun _ i => i.i_Syncs) rfl
      (fun _ _ => rfl) inp k
  rw [hUUT] at hlow
  have hfollows := run_follows hlow h e
  rw [← hUUT] at hfollows
  exact times_of_follows hm hfollows

end Run

/-- On signals that show a raster the porch stage makes the pulses of the timing, and delays the
video by the same two edges. -/
theorem porch_of_shows {m : Mode} (hm : m.Porched) {w : ℕ} (x : Rgb w) (hs vs : Bool)
    {inp : ℕ → PorchInput w} (h : ∀ e, (inp e).i_Syncs.Shows m e) (e : ℕ) :
    ((vgaSyncPorch m.toParams x hs vs).run inp (e + 2)).Times m (inp e).i_Video e := by
  have h' : ∀ k, (inp (0 + k)).i_Syncs.Shows m k := fun k => by
    rw [Nat.zero_add]
    exact h k
  have htimes := porch_from x hs vs inp (t := 0) hm rfl h' e
  rwa [Nat.zero_add] at htimes

/-! ## Behind the generator -/

/-- The outputs of the generator, as inputs of the porch stage. -/
def TestPatternGen.out {w : ℕ} (s : TestPatternGen w) : PorchInput w := ⟨s.toRgb, s.syncs⟩

/-- The generator and the porch stage together: before edge `e + 4` the outputs are the sync pulses
and the selected pattern at the position that edge `e` sampled. -/
theorem porch_of_gen {m : Mode} (hp : m.Paintable) (hm : m.Porched) {w : ℕ} (x y : Rgb w)
    (hs vs : Bool) {inp : ℕ → GenInput} (h : ∀ e, (inp e).i_Syncs.Shows m e) (e : ℕ) :
    ((vgaSyncPorch m.toParams y hs vs).run
        (fun k => ((testPatternGen m.toParams x).run inp k).out) (e + 4)).Times m
      ((m.picture (inp (e + 1)).i_Pattern.toNat (m.raster.col e) (m.raster.row e)).video w) e := by
  have hdraws := draws_of_shows hp x h
  have hshows (k : ℕ) : ((testPatternGen m.toParams x).run inp (2 + k)).out.i_Syncs.Shows m k := by
    rw [Nat.add_comm 2 k]
    exact (hdraws k).shows
  have htimes := porch_from y hs vs (fun k => ((testPatternGen m.toParams x).run inp k).out)
    (t := 2) hm rfl hshows e
  rw [show 2 + e + 2 = e + 4 by omega, Nat.add_comm 2 e] at htimes
  rw [← (hdraws e).video]
  exact htimes

/-- The two stages behind the sync signals for 640x480, with the white border selected. Edge 641 is
at the second blanked column, in the front porch of the first row. -/
theorem porch_of_gen_641 :
    ((vgaSyncPorch Mode.default.toParams (⟨0, 0, 0⟩ : Rgb 3) false false).run
        (fun k => ((testPatternGen Mode.default.toParams ⟨0, 0, 0⟩).run (inputFrom 6 0) k).out)
        (641 + 4)).Times Mode.default ((Mode.default.picture 6 641 0).video 3) 641 :=
  porch_of_gen Mode.paintable_default Mode.porched_default ⟨0, 0, 0⟩ ⟨0, 0, 0⟩ false false
    (inputFrom_shows 6 0) 641

/-! ## `VGA_Switches` -/

/-- The porch stage for 640x480 and the one of `VGA_Switches` make the same sync signals. -/
theorem porch_eq_switches {w : ℕ} (x : Rgb w) (hs vs : Bool) {inp : ℕ → PorchInput w}
    (h : ∀ e, (inp e).i_Syncs.Shows Mode.default e) (sw : ℕ → VgaSwitches.Switches) (e : ℕ) :
    let s := (vgaSyncPorch Mode.default.toParams x hs vs).run inp (e + 2)
    let vga := (VgaSwitches.topVga.run sw (e + 1)).vga
    s.o_HSync = vga.VGA_HS ∧ s.o_VSync = vga.VGA_VS := by
  intro s vga
  have htimes := porch_of_shows Mode.porched_default x hs vs h e
  have hH : vga.VGA_HS = false ↔ documented.horizontal.InPulse (Vga.wholeArea.col e) := by
    rw [VgaSwitches.VGA_HS_succ, VgaSwitches.w_HSync_Porch_eq_false]
  have hV : vga.VGA_VS = false ↔ documented.vertical.InPulse (Vga.wholeArea.row e) := by
    rw [VgaSwitches.VGA_VS_succ, VgaSwitches.w_VSync_Porch_eq_false]
  constructor
  · exact eq_of_low_iff (htimes.o_HSync.trans hH.symm)
  · exact eq_of_low_iff (htimes.o_VSync.trans hV.symm)

/-- The two designs at an edge in the pulse of the first line, with all switches open. -/
theorem porch_eq_switches_660 :
    ((vgaSyncPorch Mode.default.toParams (⟨0, 0, 0⟩ : Rgb 3) false false).run
        (fun e => ⟨⟨0, 0, 0⟩, syncsFrom 0 e⟩) (660 + 2)).o_HSync =
      (VgaSwitches.topVga.run (fun _ => ⟨false, false, false, false⟩) (660 + 1)).vga.VGA_HS ∧
    ((vgaSyncPorch Mode.default.toParams (⟨0, 0, 0⟩ : Rgb 3) false false).run
        (fun e => ⟨⟨0, 0, 0⟩, syncsFrom 0 e⟩) (660 + 2)).o_VSync =
      (VgaSwitches.topVga.run (fun _ => ⟨false, false, false, false⟩) (660 + 1)).vga.VGA_VS :=
  porch_eq_switches ⟨0, 0, 0⟩ false false (syncsFrom_shows 0)
    (fun _ => ⟨false, false, false, false⟩) 660

end GoBoard.TestPattern
