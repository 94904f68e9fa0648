import GoBoard.TestPattern.Patterns
import GoBoard.TestPattern.SyncToCount

/-!
# `Test_Pattern_Gen`

The generator recovers the position from its sync inputs, registers the colour of the selected
pattern at that position, and delays the sync signals by the same two edges. `Draws` says that the
outputs belong to one position. On signals that show a raster from the first edge on they follow
the signals two edges behind (`draws_of_shows`). The generator needs no reset for that: whatever is
in its registers, and wherever in a frame the signals are, it draws the picture after one frame
(`draws_after_frame`). Outside the active area it is dark for the patterns that look at the area
only, and not for the checkerboard, the bars and the border (`lit_outside_iff`).

The test bench drives it from `VGA_Sync_Pulses` with the colour bars selected. These divide the
active area into eight equal bars (`bench_bar_iff`).
-/

namespace GoBoard.TestPattern

open Clocked (Machine)

/-- The registers of `Test_Pattern_Gen`. -/
structure TestPatternGen (w : ℕ) extends Rgb w where
  UUT : SyncToCount
  o_HSync : Bool
  o_VSync : Bool
  deriving DecidableEq, Repr

/-- The inputs of `Test_Pattern_Gen` besides the clock. -/
structure GenInput where
  i_Pattern : BitVec 4
  i_Syncs : Syncs
  deriving DecidableEq, Repr

/-- One pattern on the sync signals for 640x480, from edge `k` of these signals on. -/
def inputFrom (i_Pattern : BitVec 4) (k e : ℕ) : GenInput := ⟨i_Pattern, syncsFrom k e⟩

theorem inputFrom_shows (i_Pattern : BitVec 4) (k e : ℕ) :
    (inputFrom i_Pattern k e).i_Syncs.Shows Mode.default (e + k) := syncsFrom_shows k e

namespace TestPatternGen

variable {w : ℕ}

/-- The declared initial registers. The colour registers have none, and start with any `x`. -/
def init (x : Rgb w) : TestPatternGen w where
  toRgb := x
  UUT := SyncToCount.init
  o_HSync := false
  o_VSync := false

/-- The `always @(posedge i_Clk)` blocks. -/
def posedge (p : Params) (s : TestPatternGen w) (i : GenInput) : TestPatternGen w where
  toRgb := p.select w s.UUT.toCounts i.i_Pattern
  UUT := s.UUT.posedge p i.i_Syncs
  o_HSync := s.UUT.o_HSync
  o_VSync := s.UUT.o_VSync

/-- The sync outputs. -/
def syncs (s : TestPatternGen w) : Syncs := ⟨s.o_HSync, s.o_VSync⟩

/-- The outputs are those of edge `e` of the raster, with pattern `k`. -/
structure Draws (m : Mode) (s : TestPatternGen w) (k : BitVec 4) (e : ℕ) : Prop where
  shows : s.syncs.Shows m e
  video : s.toRgb = (m.picture k.toNat (m.raster.col e) (m.raster.row e)).video w

end TestPatternGen

/-- `Test_Pattern_Gen`. -/
def testPatternGen {w : ℕ} (p : Params) (x : Rgb w) : Machine (TestPatternGen w) GenInput :=
  ⟨TestPatternGen.init x, TestPatternGen.posedge p⟩

section Run

variable {m : Mode} {w : ℕ}

/-- Counters that follow the sync signals draw the picture one edge later. -/
theorem draws_of_follows {s : TestPatternGen w} {i : GenInput} {e : ℕ} (hp : m.Paintable)
    (h : s.UUT.Follows m e) : (s.posedge m.toParams i).Draws m i.i_Pattern e where
  shows := h.shows
  video := by
    rw [← h.counts.col, ← h.counts.row]
    exact select_eq hp w s.UUT.toCounts i.i_Pattern

/-- The position counters run as `Sync_To_Count` does on the sync inputs. -/
theorem run_UUT (p : Params) (x : Rgb w) (s₀ : TestPatternGen w) (inp : ℕ → GenInput) (e : ℕ) :
    (((testPatternGen p x).startAt s₀).run inp e).UUT =
      ((syncToCount p).startAt s₀.UUT).run (fun k => (inp k).i_Syncs) e :=
  ((testPatternGen p x).startAt s₀).run_component ((syncToCount p).startAt s₀.UUT) (·.UUT)
    (fun _ i => i.i_Syncs) rfl (fun _ _ => rfl) inp e

/-- From an edge on at which a frame starts, the generator draws what its inputs show. -/
theorem draws_from (x : Rgb w) (s₀ : TestPatternGen w) {inp : ℕ → GenInput} {t : ℕ}
    (hp : m.Paintable)
    (hlow : (((testPatternGen m.toParams x).startAt s₀).run inp t).UUT.o_VSync = false)
    (h : ∀ e, (inp (t + e)).i_Syncs.Shows m e) (e : ℕ) :
    (((testPatternGen m.toParams x).startAt s₀).run inp (t + e + 2)).Draws m
      (inp (t + e + 1)).i_Pattern e := by
  rw [run_UUT] at hlow
  have hfollows := run_follows hlow h e
  rw [← run_UUT m.toParams x s₀ inp] at hfollows
  exact draws_of_follows hp hfollows

end Run

/-! ## The picture -/

/-- The generator draws the selected pattern: before edge `e + 2` its outputs show the position that
edge `e` sampled, in the colour of the pattern that edge `e + 1` sampled. -/
theorem draws_of_shows {m : Mode} (hp : m.Paintable) {w : ℕ} (x : Rgb w) {inp : ℕ → GenInput}
    (h : ∀ e, (inp e).i_Syncs.Shows m e) (e : ℕ) :
    ((testPatternGen m.toParams x).run inp (e + 2)).Draws m (inp (e + 1)).i_Pattern e := by
  have h' : ∀ k, (inp (0 + k)).i_Syncs.Shows m k := fun k => by
    rw [Nat.zero_add]
    exact h k
  have hdraws := draws_from x (.init x) (t := 0) hp rfl h' e
  rwa [Nat.zero_add] at hdraws

/-- Signals of a raster that is some edges ahead show the start of a frame again and again. -/
theorem shows_from_start {m : Mode} {k t q : ℕ} (sig : ℕ → Syncs) (hq : t + k = m.raster.area * q)
    (h : ∀ e, (sig e).Shows m (e + k)) (e : ℕ) : (sig (t + e)).Shows m e := by
  have hpos : t + e + k = e + m.raster.area * q := by omega
  obtain ⟨hcol, hrow⟩ := m.raster.position_add_frames e q
  have hshows := h (t + e)
  rw [hpos] at hshows
  exact ⟨by rw [hshows.HSync, hcol], by rw [hshows.VSync, hrow]⟩

/-- The generator needs no reset. From any registers, and on signals that are anywhere in a frame at
the first edge, it draws the picture once a frame has passed. -/
theorem draws_after_frame {m : Mode} (hp : m.Paintable)
    (hrows : m.ACTIVE_ROWS.toNat < m.TOTAL_ROWS.toNat) {w : ℕ} (x : Rgb w)
    (s₀ : TestPatternGen w) {inp : ℕ → GenInput} {k : ℕ}
    (h : ∀ e, (inp e).i_Syncs.Shows m (e + k)) {e : ℕ} (he : m.raster.area ≤ e) :
    (((testPatternGen m.toParams x).startAt s₀).run inp (e + 2)).Draws m
      (inp (e + 1)).i_Pattern (e + k) := by
  have harea := m.raster.area_pos
  have hmod := Nat.mod_lt k harea
  -- Edge `t + 1` samples the first position of a frame, and edge `t` the last of the one before.
  obtain ⟨t, ht⟩ : ∃ t, t + 1 + k % m.raster.area = m.raster.area :=
    ⟨m.raster.area - k % m.raster.area - 1, by omega⟩
  have hq : t + 1 + k = m.raster.area * (k / m.raster.area + 1) := by
    have hdiv := Nat.div_add_mod k m.raster.area
    rw [Nat.mul_succ]
    omega
  have hstart := shows_from_start (fun e => (inp e).i_Syncs) hq h
  have hlow : (((testPatternGen m.toParams x).startAt s₀).run inp (t + 1)).UUT.o_VSync =
      false := by
    obtain ⟨hcol, hrow⟩ := m.raster.position_add_frames 0 (k / m.raster.area + 1)
    rw [Nat.zero_add, ← hq, Nat.add_right_comm] at hcol hrow
    have hlast := m.raster.row_of_start (hcol.trans m.raster.col_zero)
      (hrow.trans m.raster.row_zero)
    change (inp t).i_Syncs.VSync = false
    rw [(h t).VSync]
    exact decide_eq_false (by change _ = m.TOTAL_ROWS.toNat at hlast; omega)
  obtain ⟨e', rfl⟩ := Nat.exists_eq_add_of_le (show t + 1 ≤ e by omega)
  have hdraws := draws_from x s₀ hp hlow hstart e'
  -- The positions of edges `e'` and `t + 1 + e' + k` are the same.
  have hpos : t + 1 + e' + k = e' + m.raster.area * (k / m.raster.area + 1) := by omega
  obtain ⟨hcol, hrow⟩ := m.raster.position_add_frames e' (k / m.raster.area + 1)
  rw [← hpos] at hcol hrow
  refine ⟨⟨?_, ?_⟩, ?_⟩
  · rw [hcol]
    exact hdraws.shows.HSync
  · rw [hrow]
    exact hdraws.shows.VSync
  · rw [hcol, hrow]
    exact hdraws.video

/-- Registers that no run from the initial ones has, on signals that start in the middle of a row. -/
theorem draws_after_frame_123456 :
    (((testPatternGen Mode.default.toParams (⟨0, 0, 0⟩ : Rgb 3)).startAt
        ⟨⟨5, 5, 5⟩, ⟨⟨1023, 1023⟩, true, true⟩, true, false⟩).run
      (inputFrom 5 123456) (420000 + 2)).Draws Mode.default 5 (420000 + 123456) :=
  draws_after_frame Mode.paintable_default (by decide) ⟨0, 0, 0⟩ _ (inputFrom_shows 5 123456)
    (by decide)

/-! ## Outside the active area -/

/-- Outside the active area the checkerboard goes on, the bars go on to the right and downwards, and
the border covers everything. All other patterns are dark. -/
theorem picture_outside {m : Mode} (hp : m.Paintable) {k x y : ℕ} (hout : ¬m.ActiveAt x y) :
    m.picture k x y ≠ .black ↔
      (k = 4 ∧ x.testBit 5 ≠ y.testBit 5) ∨ (k = 5 ∧ m.ACTIVE_COLS.toNat / 8 ≤ x) ∨ k = 6 := by
  have hdark : decide (m.ActiveAt x y) = false := decide_eq_false hout
  have hborder : decide (m.BorderAt x y) = true := by
    refine decide_eq_true ?_
    unfold Mode.ActiveAt at hout
    unfold Mode.BorderAt
    omega
  unfold Mode.picture
  match k with
  | 0 => simp
  | 1 => simp [hdark, Colour.black]
  | 2 => simp [hdark, Colour.black]
  | 3 => simp [hdark, Colour.black]
  | 4 => simp [Colour.whiteIf, Colour.black]
  | 5 =>
    have hbar : Colour.ofBar (m.bar x) ≠ .black ↔ m.ACTIVE_COLS.toNat / 8 ≤ x := by
      have hge := hp.cols_ge
      have hle : m.bar x < 8 := by
        unfold Mode.bar
        omega
      have htable : ∀ b < 8, Colour.ofBar b ≠ .black ↔ 1 ≤ b := by decide
      rw [htable _ hle, Mode.bar, Nat.le_min, Nat.le_div_iff_mul_le (by omega), Nat.one_mul]
      exact and_iff_right (by decide)
    simpa using hbar
  | 6 => simp [hborder, Colour.whiteIf, Colour.black]
  | k + 7 => simp

/-- What the generator shows where the display expects it to be dark. -/
theorem lit_outside_iff {m : Mode} (hp : m.Paintable) {w : ℕ} (hw : 0 < w) (x : Rgb w)
    {inp : ℕ → GenInput} (h : ∀ e, (inp e).i_Syncs.Shows m e) {e : ℕ}
    (hout : ¬m.ActiveAt (m.raster.col e) (m.raster.row e)) :
    ((testPatternGen m.toParams x).run inp (e + 2)).toRgb ≠ ⟨0, 0, 0⟩ ↔
      ((inp (e + 1)).i_Pattern = 4 ∧ (m.raster.col e).testBit 5 ≠ (m.raster.row e).testBit 5) ∨
      ((inp (e + 1)).i_Pattern = 5 ∧ m.ACTIVE_COLS.toNat / 8 ≤ m.raster.col e) ∨
      (inp (e + 1)).i_Pattern = 6 := by
  rw [(draws_of_shows hp x h e).video]
  have hblack : (⟨0, 0, 0⟩ : Rgb w) = Colour.black.video w := rfl
  have hnat (k : BitVec 4) :
      (inp (e + 1)).i_Pattern = k ↔ (inp (e + 1)).i_Pattern.toNat = k.toNat := BitVec.toNat_eq
  rw [hblack, ne_eq, Colour.video_inj hw, ← ne_eq, picture_outside hp hout, hnat 4, hnat 5, hnat 6]
  rfl

/-- The border pattern lights the blanked columns. -/
theorem lit_outside_700 :
    ((testPatternGen Mode.default.toParams (⟨0, 0, 0⟩ : Rgb 3)).run (inputFrom 6 0)
      (700 + 2)).toRgb ≠ ⟨0, 0, 0⟩ :=
  (lit_outside_iff Mode.paintable_default (by decide) ⟨0, 0, 0⟩ (inputFrom_shows 6 0)
    (by decide)).mpr (.inr (.inr rfl))

/-! ## The test bench -/

/-- The registers of the test bench `VGA_Test_Pattterns_TB`, which are those of its two parts. -/
structure Bench (w : ℕ) where
  VGA_Sync_Pulses_Inst : Counts
  Test_Pattern_Gen_Inst : TestPatternGen w
  deriving DecidableEq, Repr

/-- The test bench: `VGA_Sync_Pulses` drives `Test_Pattern_Gen`, and pattern 5 is selected. -/
def bench {w : ℕ} (p : Params) (x : Rgb w) : Machine (Bench w) Unit where
  init := ⟨VgaSyncPulses.init, TestPatternGen.init x⟩
  posedge s _ :=
    { VGA_Sync_Pulses_Inst := VgaSyncPulses.posedge p s.VGA_Sync_Pulses_Inst
      Test_Pattern_Gen_Inst :=
        s.Test_Pattern_Gen_Inst.posedge p
          ⟨0b0101, VgaSyncPulses.syncs p s.VGA_Sync_Pulses_Inst⟩ }

/-- The sync generator of the test bench shows the raster. -/
theorem bench_shows (m : Mode) {w : ℕ} (x : Rgb w) (inp : ℕ → Unit) (e : ℕ) :
    (VgaSyncPulses.syncs m.toParams
      ((bench m.toParams x).run inp e).VGA_Sync_Pulses_Inst).Shows m e := by
  rw [(bench m.toParams x).run_component (vgaSyncPulses m.toParams) (·.VGA_Sync_Pulses_Inst)
    (fun _ i => i) rfl (fun _ _ => rfl) inp e]
  exact VgaSyncPulses.run_shows m _ e

/-- The test bench draws the colour bars. -/
theorem bench_draws {m : Mode} (hp : m.Paintable) {w : ℕ} (x : Rgb w) (inp : ℕ → Unit) (e : ℕ) :
    ((bench m.toParams x).run inp (e + 2)).Test_Pattern_Gen_Inst.Draws m 5 e := by
  rw [(bench m.toParams x).run_component (testPatternGen m.toParams x) (·.Test_Pattern_Gen_Inst)
    (fun s _ => ⟨0b0101, VgaSyncPulses.syncs m.toParams s.VGA_Sync_Pulses_Inst⟩) rfl
    (fun _ _ => rfl) inp (e + 2)]
  exact draws_of_shows hp x (fun k => bench_shows m x inp k) e

/-- The active area is divided into eight equal bars, and bar `k` has colour `k`: whatever the
dimensions, and whatever the width of a channel. -/
theorem bench_bar_iff {m : Mode} (hp : m.Paintable) (hdvd : 8 ∣ m.ACTIVE_COLS.toNat) {w : ℕ}
    (hw : 0 < w) (x : Rgb w) (inp : ℕ → Unit) {e k : ℕ} (hk : k < 8)
    (hact : m.ActiveAt (m.raster.col e) (m.raster.row e)) :
    ((bench m.toParams x).run inp (e + 2)).Test_Pattern_Gen_Inst.toRgb =
        (Colour.ofBar k).video w ↔
      m.ACTIVE_COLS.toNat / 8 * k ≤ m.raster.col e ∧
      m.raster.col e < m.ACTIVE_COLS.toNat / 8 * (k + 1) := by
  obtain ⟨width, hwidth⟩ := hdvd
  have hge := hp.cols_ge
  have hlt := hact.1
  have hbar : m.bar (m.raster.col e) = m.raster.col e / width := by
    have hle : m.raster.col e / width < 8 := (Nat.div_lt_iff_lt_mul (by omega)).mpr (by omega)
    rw [Mode.bar, hwidth, Nat.mul_div_cancel_left _ (by decide)]
    omega
  have hinj : ∀ i < 8, ∀ j < 8, Colour.ofBar i = Colour.ofBar j ↔ i = j := by decide
  rw [(bench_draws hp x inp e).video]
  change (Colour.ofBar (m.bar _)).video w = _ ↔ _
  rw [Colour.video_inj hw, hinj _ (by unfold Mode.bar; omega) k hk, hbar, hwidth,
    Nat.mul_div_cancel_left _ (by decide), Nat.div_eq_iff (by omega)]
  rw [Nat.mul_comm k, Nat.mul_succ]
  omega

/-- Column 100 is in the second bar of eighty columns. -/
theorem bench_bar_100 :
    ((bench Mode.default.toParams (⟨0, 0, 0⟩ : Rgb 3)).run (fun _ => ())
      (100 + 2)).Test_Pattern_Gen_Inst.toRgb = (Colour.ofBar 1).video 3 :=
  (bench_bar_iff Mode.paintable_default (by decide) (by decide) ⟨0, 0, 0⟩ (fun _ => ()) (e := 100)
    (by decide) (by decide)).mpr (by decide)

end GoBoard.TestPattern
