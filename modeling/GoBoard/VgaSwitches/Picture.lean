import GoBoard.VgaSwitches.Top

/-!
# What `VGA_Switches` shows

Properties of the picture over all runs of `top_VGA`. Two rest on which colour is on the outputs:
that of switch `k` after edge `e` exactly when `k` came first at the last edge up to `e` with a
switch pressed, and that edge was outside the retrace (`Painted`, `rgb_eq_colour_iff`).

The toggles say nothing about this. Two runs with equal toggle outputs show the same picture exactly
when their switches paint the same colours at every edge (`toggled_outputs_iff`); a glitch that no
toggle sees is enough to change it (`glitch_shown`).

The colour of a switch that is released outside the retrace stays on the outputs, into the retrace
as anywhere else (`retrace_dark_iff`).

The sync outputs have the documented geometry (`sync_geometry`).
-/

namespace GoBoard.VgaSwitches

open Clocked (LastWrite)
open Switch (swToggle)
open Vga (PatternGenerator documented)
open Video (Timing)

/-! ## The painted colour -/

/-- Switch `k` came first at the last edge up to `e` at which a switch was pressed, and that edge
was outside the retrace. -/
def Painted (w : ℕ → Switches) (e : ℕ) (k : SW) : Prop :=
  ∃ p, p ≤ e ∧ (w p).first = some k ∧ ¬documented.Retrace p ∧
    ∀ u, p < u → u ≤ e → (w u).first = none

section Painted

variable (w : ℕ → Switches) (e : ℕ)

/-- An edge writes nothing exactly when no switch is pressed. -/
theorem paint_eq_none : paint w e = none ↔ (w e).first = none := by
  unfold paint
  rw [Option.map_eq_none_iff]

/-- An edge writes the colour of `k` exactly when `k` comes first, outside the retrace. -/
theorem paint_eq_colour {k : SW} (hk : k ≠ .SW4) : paint w e = some k.colour ↔
    (w e).first = some k ∧ ¬documented.Retrace e := by
  unfold paint
  rw [Option.map_eq_some_iff]
  constructor
  · rintro ⟨k', hfirst, hcolour⟩
    split_ifs at hcolour with hr
    · exact absurd hcolour.symm (SW.colour_ne_black hk)
    · rw [SW.colour_eq_iff.mp hcolour] at hfirst
      exact ⟨hfirst, hr⟩
  · rintro ⟨hfirst, hr⟩
    exact ⟨k, hfirst, if_neg hr⟩

/-- The colour of `k` was written last exactly when `k` painted it. -/
theorem lastWrite_colour_iff {k : SW} (hk : k ≠ .SW4) :
    (∃ p, LastWrite (paint w) (e + 1) p k.colour) ↔ Painted w e k := by
  constructor
  · rintro ⟨p, h⟩
    obtain ⟨hfirst, hr⟩ := (paint_eq_colour w p hk).mp h.write
    refine ⟨p, Nat.lt_succ_iff.mp h.lt, hfirst, hr, fun u hpu hue => ?_⟩
    rw [← paint_eq_none]
    exact h.quiet u hpu (by omega)
  · rintro ⟨p, hpe, hfirst, hr, hquiet⟩
    refine ⟨p, by omega, (paint_eq_colour w p hk).mpr ⟨hfirst, hr⟩, fun u hpu hue => ?_⟩
    rw [paint_eq_none]
    exact hquiet u hpu (by omega)

/-- After an edge the colour of `k` is registered exactly when `k` painted it. -/
theorem rgb_eq_colour_iff {k : SW} (hk : k ≠ .SW4) :
    (topVga.run w (e + 1)).Pattern_GenInst.rgb = k.colour ↔ Painted w e k := by
  rw [run_rgb, Clocked.latch_eq_iff (SW.colour_ne_black hk), lastWrite_colour_iff w e hk]

/-- The registered colour is black or that of one of the other switches. -/
theorem rgb_cases : (topVga.run w e).Pattern_GenInst.rgb = .black ∨
    ∃ k : SW, k ≠ .SW4 ∧ (topVga.run w e).Pattern_GenInst.rgb = k.colour := by
  rw [run_rgb]
  rcases Clocked.quiet_or_lastWrite (paint w) e with hquiet | ⟨p, v, h⟩
  · -- Nothing has been written yet.
    exact .inl (Clocked.latch_of_quiet (Nat.zero_le e) fun u _ hu => hquiet u hu)
  · rw [h.latch_eq]
    obtain ⟨k, -, hv⟩ := Option.map_eq_some_iff.mp h.write
    split_ifs at hv with hr
    · exact .inl hv.symm
    · by_cases hk : k = .SW4
      · rw [hk] at hv
        exact .inl hv.symm
      · exact .inr ⟨k, hk, hv.symm⟩

/-- After an edge a colour output is high exactly when one of the first three switches painted it.
-/
theorem lit_succ_iff : (topVga.run w (e + 1)).vga.Lit ↔ ∃ k, k ≠ .SW4 ∧ Painted w e k := by
  unfold TopVga.vga
  rw [PatternGenerator.lit_pins]
  constructor
  · intro hlit
    rcases rgb_cases w (e + 1) with hblack | ⟨k, hk, hrgb⟩
    · exact absurd hblack hlit
    · exact ⟨k, hk, (rgb_eq_colour_iff w e hk).mp hrgb⟩
  · rintro ⟨k, hk, hpaint⟩
    rw [(rgb_eq_colour_iff w e hk).mpr hpaint]
    exact SW.colour_ne_black hk

end Painted

/-! ## Switches and toggles -/

/-- The toggle outputs of two runs are equal in every cycle up to `T`. -/
def SameToggles (w w' : ℕ → Switches) (T : ℕ) : Prop :=
  ∀ e, e ≤ T → (topVga.run w e).w_SW = (topVga.run w' e).w_SW

/-- The display outputs of two runs are equal in every cycle up to `T`. -/
def SameOutputs (w w' : ℕ → Switches) (T : ℕ) : Prop :=
  ∀ e, e ≤ T → (topVga.run w e).vga = (topVga.run w' e).vga

/-- The sync outputs do not depend on the switches, so two runs show the same picture exactly when
they have the same colour registers. -/
theorem vga_eq_iff (w w' : ℕ → Switches) (e : ℕ) : (topVga.run w e).vga = (topVga.run w' e).vga ↔
    (topVga.run w e).Pattern_GenInst.rgb = (topVga.run w' e).Pattern_GenInst.rgb := by
  unfold TopVga.vga
  rw [PatternGenerator.pins_eq_iff]
  have hsync : (topVga.run w e).Pattern_GenInst.o_HSync_PG =
        (topVga.run w' e).Pattern_GenInst.o_HSync_PG ∧
      (topVga.run w e).Pattern_GenInst.o_VSync_PG =
        (topVga.run w' e).Pattern_GenInst.o_VSync_PG := by
    cases e with
    | zero => exact ⟨rfl, rfl⟩
    | succ e =>
      have hs := VGA_HS_succ w e
      have hs' := VGA_HS_succ w' e
      have vs := VGA_VS_succ w e
      have vs' := VGA_VS_succ w' e
      unfold TopVga.w_HSync_Porch at hs hs'
      unfold TopVga.w_VSync_Porch at vs vs'
      rw [run_pulse] at hs hs' vs vs'
      exact ⟨hs.trans hs'.symm, vs.trans vs'.symm⟩
  constructor
  · intro h
    exact h.2.2
  · intro h
    exact ⟨hsync.1, hsync.2, h⟩

/-- Two runs show the same picture up to a cycle exactly when the same switches have painted it at
every edge before. -/
theorem sameOutputs_iff (w w' : ℕ → Switches) (T : ℕ) : SameOutputs w w' T ↔
    ∀ e, e < T → ∀ k, k ≠ .SW4 → (Painted w e k ↔ Painted w' e k) := by
  unfold SameOutputs
  constructor
  · intro h e he k hk
    have hrgb := (vga_eq_iff w w' (e + 1)).mp (h (e + 1) he)
    rw [← rgb_eq_colour_iff w e hk, ← rgb_eq_colour_iff w' e hk, hrgb]
  · intro h e he
    rw [vga_eq_iff]
    cases e with
    | zero => rfl
    | succ e =>
      -- A colour in one run is the same colour in the other, so black is black in both.
      rcases rgb_cases w (e + 1) with hblack | ⟨k, hk, hrgb⟩
      · rcases rgb_cases w' (e + 1) with hblack' | ⟨k, hk, hrgb'⟩
        · rw [hblack, hblack']
        · have hpaint := (h e he k hk).mpr ((rgb_eq_colour_iff w' e hk).mp hrgb')
          rw [hrgb', (rgb_eq_colour_iff w e hk).mpr hpaint]
      · have hpaint := (h e he k hk).mp ((rgb_eq_colour_iff w e hk).mp hrgb)
        rw [hrgb, (rgb_eq_colour_iff w' e hk).mpr hpaint]

/-- Runs with equal toggle outputs up to a cycle have equal display outputs up to that cycle exactly
when the same switches have painted the picture at every edge before. -/
theorem toggled_outputs_iff (w w' : ℕ → Switches) (T : ℕ) :
    (SameToggles w w' T → SameOutputs w w' T) ↔
      (SameToggles w w' T →
        ∀ e, e < T → ∀ k, k ≠ .SW4 → (Painted w e k ↔ Painted w' e k)) :=
  imp_congr_right fun _ => sameOutputs_iff w w' T

/-- No switch is ever pressed. -/
def untouched (_ : ℕ) : Switches := ⟨false, false, false, false⟩

/-- `SW1` is high at the first edge only. -/
def glitch (e : ℕ) : Switches := ⟨decide (e = 0), false, false, false⟩

/-- Switches that are pressed at the first edge at most never move a toggle. -/
theorem w_SW_of_untouched {w : ℕ → Switches} (h : ∀ e, 0 < e → w e = untouched e) (e : ℕ) :
    (topVga.run w e).w_SW = ⟨false, false, false, false⟩ := by
  have hlow : ∀ SWi : Switches → Bool, SWi ⟨false, false, false, false⟩ = false →
      ((swToggle 250000).run (fun k => SWi (w k)) e).o_SW = false := by
    intro SWi hfalse
    refine Switch.o_SW_of_short _ (by decide) (fun e he => ⟨e, by omega, le_rfl, ?_⟩) e
    rw [h e (by omega)]
    exact hfalse
  rw [run_w_SW, hlow Switches.SW1 rfl, hlow Switches.SW2 rfl, hlow Switches.SW3 rfl,
    hlow Switches.SW4 rfl]

/-- No toggle ever sees the glitch, and it turns the picture red. -/
theorem glitch_shown :
    (∀ T, SameToggles glitch untouched T) ∧ ¬SameOutputs glitch untouched 1 := by
  constructor
  · intro T e _
    have hglitch : ∀ e, 0 < e → glitch e = untouched e := by
      intro e he
      unfold glitch untouched
      rw [decide_eq_false he.ne']
    rw [w_SW_of_untouched hglitch, w_SW_of_untouched fun _ _ => rfl]
  · rw [sameOutputs_iff]
    intro h
    have hpaint : Painted glitch 0 .SW1 := ⟨0, le_rfl, rfl, by decide, fun u hu hu' => by omega⟩
    obtain ⟨p, -, hfirst, -⟩ := (h 0 (by omega) .SW1 (by decide)).mp hpaint
    cases hfirst

/-! ## Retrace -/

/-- After an edge, a low sync output comes with dark colour outputs exactly when the edge is not in
the retrace, or none of the first three switches painted the colour that is held there. -/
theorem retrace_dark_iff (w : ℕ → Switches) (e : ℕ) :
    ((topVga.run w (e + 1)).vga.VGA_HS = false ∨ (topVga.run w (e + 1)).vga.VGA_VS = false →
      ¬(topVga.run w (e + 1)).vga.Lit) ↔
    (documented.Retrace e → ∀ k, k ≠ .SW4 → ¬Painted w e k) := by
  have hretrace : ((topVga.run w (e + 1)).vga.VGA_HS = false ∨
      (topVga.run w (e + 1)).vga.VGA_VS = false) ↔ documented.Retrace e := by
    rw [VGA_HS_succ, VGA_VS_succ, w_HSync_Porch_eq_false, w_VSync_Porch_eq_false]
    exact Iff.rfl
  rw [hretrace, lit_succ_iff]
  simp only [not_exists, not_and]

/-- `SW1` is high at the last edge before the first horizontal pulse only. -/
def lateRelease (e : ℕ) : Switches := ⟨decide (e = 657), false, false, false⟩

/-- Its colour is still on the outputs in the pulse. -/
theorem retrace_lit :
    ¬((topVga.run lateRelease (658 + 1)).vga.VGA_HS = false ∨
        (topVga.run lateRelease (658 + 1)).vga.VGA_VS = false →
      ¬(topVga.run lateRelease (658 + 1)).vga.Lit) := by
  intro h
  have hsync : (topVga.run lateRelease (658 + 1)).vga.VGA_HS = false := by
    rw [VGA_HS_succ, w_HSync_Porch_eq_false]
    decide
  have hpaint : Painted lateRelease 658 .SW1 := by
    refine ⟨657, by omega, rfl, by decide, fun u hu hu' => ?_⟩
    obtain rfl : u = 658 := by omega
    rfl
  exact h (.inl hsync) ((lit_succ_iff lateRelease 658).mpr ⟨.SW1, by decide, hpaint⟩)

/-! ## Sync geometry -/

section Sync

variable (w : ℕ → Switches) (t : ℕ)

/-- The horizontal sync output after an edge. -/
theorem VGA_HS_eq_false : (topVga.run w (t + 1)).vga.VGA_HS = false ↔
    documented.horizontal.InPulse (documented.raster.col t) := by
  rw [VGA_HS_succ, w_HSync_Porch_eq_false]
  exact Iff.rfl

/-- The vertical sync output after an edge. -/
theorem VGA_VS_eq_false : (topVga.run w (t + 1)).vga.VGA_VS = false ↔
    documented.vertical.InPulse (documented.raster.row t) := by
  rw [VGA_VS_succ, w_VSync_Porch_eq_false]
  exact Iff.rfl

/-- The horizontal sync output depends on the column only. -/
theorem VGA_HS_eq_of_col {t t' : ℕ} (h : documented.raster.col t = documented.raster.col t') :
    (topVga.run w (t + 1)).vga.VGA_HS = (topVga.run w (t' + 1)).vga.VGA_HS := by
  rw [← Bool.not_inj_iff, ← Bool.coe_false_iff_false, VGA_HS_eq_false, VGA_HS_eq_false, h]

/-- The vertical sync output depends on the row only. -/
theorem VGA_VS_eq_of_row {t t' : ℕ} (h : documented.raster.row t = documented.raster.row t') :
    (topVga.run w (t + 1)).vga.VGA_VS = (topVga.run w (t' + 1)).vga.VGA_VS := by
  rw [← Bool.not_inj_iff, ← Bool.coe_false_iff_false, VGA_VS_eq_false, VGA_VS_eq_false, h]

end Sync

/-- The sync outputs of a run have the documented geometry: where they are low, by column and row,
and that this is one pulse of 92 edges in every line and one of 1600 edges in every frame. -/
structure SyncGeometry (w : ℕ → Switches) : Prop where
  hs : ∀ t, (topVga.run w (t + 1)).vga.VGA_HS = false ↔ 658 ≤ t % 800 ∧ t % 800 ≤ 749
  vs : ∀ t, (topVga.run w (t + 1)).vga.VGA_VS = false ↔
    490 ≤ t / 800 % 525 ∧ t / 800 % 525 ≤ 491
  line : ∀ k t, 800 * k ≤ t → t < 800 * (k + 1) →
    ((topVga.run w (t + 1)).vga.VGA_HS = false ↔ 800 * k + 658 ≤ t ∧ t < 800 * k + 658 + 92)
  frame : ∀ k t, 420000 * k ≤ t → t < 420000 * (k + 1) →
    ((topVga.run w (t + 1)).vga.VGA_VS = false ↔
      420000 * k + 490 * 800 ≤ t ∧ t < 420000 * k + 490 * 800 + 1600)
  /-- The vertical sync output changes at the start of a line only. -/
  change : ∀ t, (topVga.run w (t + 1)).vga.VGA_VS ≠ (topVga.run w t).vga.VGA_VS → t % 800 = 0
  period : ∀ t, (topVga.run w (t + 420000 + 1)).vga.VGA_HS = (topVga.run w (t + 1)).vga.VGA_HS ∧
    (topVga.run w (t + 420000 + 1)).vga.VGA_VS = (topVga.run w (t + 1)).vga.VGA_VS

/-- The sync outputs have the documented geometry, whatever the switches do. -/
theorem sync_geometry (w : ℕ → Switches) : SyncGeometry w := by
  constructor
  · intro t
    exact (VGA_HS_eq_false w t).trans (and_congr_right fun _ => Nat.lt_succ_iff)
  · intro t
    exact (VGA_VS_eq_false w t).trans (and_congr_right fun _ => Nat.lt_succ_iff)
  · intro k t hle hlt
    exact (VGA_HS_eq_false w t).trans (Timing.inPulse_of_line hle hlt)
  · intro k t hle hlt
    exact (VGA_VS_eq_false w t).trans (Timing.inPulse_of_frame hle hlt)
  · intro t hne
    cases t with
    | zero => rfl
    | succ t =>
      refine documented.raster.col_eq_zero_of_row_ne (e := t) fun hrow => hne ?_
      exact VGA_VS_eq_of_row w hrow
  · intro t
    exact ⟨VGA_HS_eq_of_col w (documented.raster.col_add_area t),
      VGA_VS_eq_of_row w (documented.raster.row_add_area t)⟩

end GoBoard.VgaSwitches
