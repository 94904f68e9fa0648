import GoBoard.Video.Raster

/-!
# Display timings

What a display expects around the picture that a raster draws. Along each axis the visible positions
are followed by a front porch, a sync pulse, and a back porch (`Axis`). A position of the raster is
visible if it is on both axes, it is in the retrace if it is inside a pulse on one of them, and all
other positions are porch. The display shows nothing in the porches and in the retrace, and takes
its black level from there.
-/

namespace GoBoard.Video

/-- The stretches of one axis, in the order in which the raster passes through them. -/
structure Axis where
  visible : ℕ
  front : ℕ
  pulse : ℕ
  back : ℕ

namespace Axis

variable (a : Axis)

/-- The length of the axis. -/
def total : ℕ := a.visible + a.front + a.pulse + a.back

/-- Position `k` is in the sync pulse. -/
def InPulse (k : ℕ) : Prop := a.visible + a.front ≤ k ∧ k < a.visible + a.front + a.pulse

instance (k : ℕ) : Decidable (a.InPulse k) := inferInstanceAs (Decidable (_ ∧ _))

/-- The pulse comes after the visible positions. -/
theorem not_inPulse_of_lt {k : ℕ} (h : k < a.visible) : ¬a.InPulse k := by
  unfold InPulse
  omega

end Axis

/-- The timing of a display. -/
structure Timing where
  horizontal : Axis
  vertical : Axis
  horizontal_pos : 0 < horizontal.total
  vertical_pos : 0 < vertical.total

namespace Timing

variable (tm : Timing)

/-- The raster that the timing describes. -/
def raster : Raster where
  cols := tm.horizontal.total
  rows := tm.vertical.total
  cols_pos := tm.horizontal_pos
  rows_pos := tm.vertical_pos

/-- Edge `e` draws a visible position. -/
def Visible (e : ℕ) : Prop :=
  tm.raster.col e < tm.horizontal.visible ∧ tm.raster.row e < tm.vertical.visible

/-- Edge `e` is in one of the two sync pulses. -/
def Retrace (e : ℕ) : Prop :=
  tm.horizontal.InPulse (tm.raster.col e) ∨ tm.vertical.InPulse (tm.raster.row e)

/-- Edge `e` is neither visible nor in a sync pulse. -/
def Porch (e : ℕ) : Prop := ¬tm.Visible e ∧ ¬tm.Retrace e

instance (e : ℕ) : Decidable (tm.Visible e) := inferInstanceAs (Decidable (_ ∧ _))

instance (e : ℕ) : Decidable (tm.Retrace e) := inferInstanceAs (Decidable (_ ∨ _))

instance (e : ℕ) : Decidable (tm.Porch e) := inferInstanceAs (Decidable (_ ∧ _))

section Pulses

variable {tm : Timing} {k e : ℕ}

/-- Line `k` has one horizontal pulse, of the length of the axis's. -/
theorem inPulse_of_line (hle : tm.raster.cols * k ≤ e) (hlt : e < tm.raster.cols * (k + 1)) :
    tm.horizontal.InPulse (tm.raster.col e) ↔
      tm.raster.cols * k + (tm.horizontal.visible + tm.horizontal.front) ≤ e ∧
      e < tm.raster.cols * k + (tm.horizontal.visible + tm.horizontal.front) +
        tm.horizontal.pulse := by
  rw [tm.raster.col_of_line hle hlt]
  unfold Axis.InPulse
  omega

/-- Frame `k` has one vertical pulse, which lasts for as many lines as the axis's. -/
theorem inPulse_of_frame (hle : tm.raster.area * k ≤ e) (hlt : e < tm.raster.area * (k + 1)) :
    tm.vertical.InPulse (tm.raster.row e) ↔
      tm.raster.area * k + (tm.vertical.visible + tm.vertical.front) * tm.raster.cols ≤ e ∧
      e < tm.raster.area * k + (tm.vertical.visible + tm.vertical.front) * tm.raster.cols +
        tm.vertical.pulse * tm.raster.cols := by
  rw [tm.raster.row_of_frame hle hlt]
  unfold Axis.InPulse
  rw [Nat.le_div_iff_mul_le tm.raster.cols_pos, Nat.div_lt_iff_lt_mul tm.raster.cols_pos,
    Nat.add_mul _ tm.vertical.pulse]
  omega

end Pulses

/-- No visible position is in the retrace. -/
theorem Visible.not_retrace {tm : Timing} {e : ℕ} (h : tm.Visible e) : ¬tm.Retrace e := by
  intro hr
  rcases hr with hr | hr
  · exact tm.horizontal.not_inPulse_of_lt h.1 hr
  · exact tm.vertical.not_inPulse_of_lt h.2 hr

/-- What is drawn outside the retrace is drawn in the visible area exactly when it is not drawn in
the porches. -/
theorem visible_iff_not_porch {e : ℕ} (hr : ¬tm.Retrace e) : tm.Visible e ↔ ¬tm.Porch e := by
  constructor
  · intro hv hp
    exact hp.1 hv
  · intro hp
    by_contra hv
    exact hp ⟨hv, hr⟩

end Timing

end GoBoard.Video
