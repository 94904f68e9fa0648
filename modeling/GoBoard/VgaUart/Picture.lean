import GoBoard.Uart.RxByte
import GoBoard.VgaUart.Top

/-!
# What `VGA_UART` shows

Three properties of the picture and of the digits, over all runs of `top_VGA`.

The colour and the digits follow `o_RX_Byte` at every edge, not only when `o_RX_DV` is high, so they
show the byte that is being received bit by bit. They are those of a whole byte throughout exactly
when all new bits but the last agree with the ones that they replace (`shows_held_iff`).

The colour is gated with the signals of the porch stage, which are high in the porches too, and not
with the active area signals of `Sync_Pulse`. A colour is on the outputs outside the visible area
exactly when the byte that the line shows (`shown`) selects one at a porch position
(`lit_only_visible_iff`).

The sync pulses begin and end one position early (`driven`), as if a further register delayed them
and not the colour. They agree with the documented geometry at all positions but the last of each
documented front porch and the last of each documented pulse (`sync_geometry_iff`).
-/

namespace GoBoard.VgaUart

open Clocked (Machine)
open Serial (Spaced Transmits)
open Uart (Reported half held shown uartRx)
open Vga (wholeArea)

/-! ## The byte that is shown -/

/-- The registers `s'` after an edge are those of a display of the byte `b`, and the registers `s`
before it have that byte on the wire: `Pattern_Generator` registers the colour of `b`, and the two
encoders its digits. -/
structure ShowsByte (b : BitVec 8) (s s' : TopVga) : Prop where
  w_RX_Byte : s.w_RX_Byte = b
  colour : s'.Pattern_GenInst =
    patternPosedge s.Pattern_GenInst b s.w_HSync_Porch s.w_VSync_Porch
  digit1 : s'.binary_to_7seg_Inst1.hex_encoding = BinaryToSevenSeg.encode (b.extractLsb 7 4)
  digit2 : s'.binary_to_7seg_Inst2.hex_encoding = BinaryToSevenSeg.encode (b.extractLsb 3 0)

/-- Every edge shows the byte that is on `o_RX_Byte` before it. -/
theorem showsByte_posedge (s : TopVga) (RX : Bool) : ShowsByte s.w_RX_Byte s (s.posedge RX) where
  w_RX_Byte := rfl
  colour := rfl
  digit1 := rfl
  digit2 := rfl

/-- An edge of a run shows a byte exactly when the receiver has it on `o_RX_Byte`. -/
theorem showsByte_iff (TX : Bool) (rx : ℕ → Bool) (e : ℕ) (b : BitVec 8) :
    ShowsByte b ((topVga TX).run rx e) ((topVga TX).run rx (e + 1)) ↔
      ((uartRx 217).run rx e).o_RX_Byte = b := by
  rw [← w_RX_Byte_eq TX]
  constructor
  · intro h
    exact h.w_RX_Byte
  · rintro rfl
    exact showsByte_posedge _ _

/-- Up to an edge, `top_VGA` shows the last whole byte at every edge exactly when each data bit that
is sampled before it, apart from the last of its byte, agrees with the whole byte before. -/
theorem shows_held_iff (TX : Bool) (rx : ℕ → Bool) (T : ℕ) :
    (∀ e, e ≤ T →
      ShowsByte (held 217 rx e) ((topVga TX).run rx e) ((topVga TX).run rx (e + 1))) ↔
    ∀ t, Reported 217 rx t → ∀ i, i < 7 → t + 1 + half 217 + (i + 1) * 217 < T →
      rx (t + 1 + half 217 + (i + 1) * 217) = (held 217 rx t).getLsbD i := by
  rw [← Uart.forall_o_RX_Byte_eq_held_iff (by decide) (by decide)]
  simp only [showsByte_iff]

/-- A line that is low for one bit period and then high: a frame of `0xFF`. -/
def startPulse (e : ℕ) : Bool := decide (217 ≤ e)

/-- One edge after the first sample of this frame, its bit 0 is shown over the initial byte. -/
theorem partial_byte_shown :
    ¬ShowsByte (held 217 startPulse 327) ((topVga true).run startPulse 327)
      ((topVga true).run startPulse (327 + 1)) := by
  have hrep : Reported 217 startPulse 0 := by
    rw [Uart.reported_iff]
    exact ⟨rfl, by decide, by decide⟩
  have hheld : held 217 startPulse 327 = 0 :=
    hrep.held_eq_before (by decide) (by decide) (by decide)
  rw [showsByte_iff, hheld]
  intro hbyte
  have hbit := Uart.o_RX_Byte_getLsbD (by decide) (by decide) startPulse hrep (i := 0) (e := 327)
    (by decide) (by decide) (by decide)
  rw [hbyte] at hbit
  revert hbit
  decide

/-! ## Blanking -/

/-- At a visible position the picture has the colour that the byte before the edge selects. -/
theorem rgb_of_visible (TX : Bool) (rx : ℕ → Bool) {t : ℕ}
    (h : t % 800 < 640 ∧ t / 800 % 525 < 480) :
    ((topVga TX).run rx (t + 1)).Pattern_GenInst.rgb =
      colour ((uartRx 217).run rx t).o_RX_Byte := by
  have hvisible : driven.Visible t := h
  rw [rgb_succ, if_neg hvisible.not_retrace]

/-- After an edge of a run, the colour outputs respect the visible area exactly when the edge is not
at a porch position, or what is sampled from the line before it is not a byte that selects a colour.
-/
theorem lit_only_visible_iff (TX : Bool) (rx : ℕ → Bool) (t : ℕ) :
    (((topVga TX).run rx (t + 1)).vga.Lit → t % 800 < 640 ∧ t / 800 % 525 < 480) ↔
      (driven.Porch t → ¬IsColour (shown 217 rx t)) := by
  have hvisible : driven.Visible t ↔ t % 800 < 640 ∧ t / 800 % 525 < 480 := Iff.rfl
  rw [← hvisible, lit_succ_iff, Uart.o_RX_Byte_eq_shown (by decide) (by decide)]
  constructor
  · intro h hporch hcolour
    exact hporch.1 (h ⟨hcolour, hporch.2⟩)
  · intro h hlit
    rw [driven.visible_iff_not_porch hlit.2]
    intro hporch
    exact h hporch hlit.1

/-- A frame of `0x31` on the line at the right time makes the back porch of row 2 red. -/
theorem porch_lit :
    ¬(((topVga true).run (Serial.lineOf 217 [(400, 0x31)]) (2250 + 1)).vga.Lit →
      2250 % 800 < 640 ∧ 2250 / 800 % 525 < 480) := by
  have htr : Transmits 217 [(400, 0x31)] (Serial.lineOf 217 [((400 : ℕ), (0x31 : BitVec 8))]) :=
    Serial.transmits_lineOf (by decide) (by unfold Spaced Serial.Follows; decide)
  have hread := Uart.readable_of_carries (by decide) htr.carries
    (Spaced.separated (by decide) (List.isChain_singleton _))
  have hrep : Reported 217 _ 400 := (hread.reported_iff 400).mpr ⟨0x31, by simp⟩
  have hbyte := Uart.o_RX_Byte_eq_sampled (by decide) (by decide) _ hrep (e := 2250)
    (by decide) (by decide)
  rw [hread.sampled_eq (by simp : ((400 : ℕ), (0x31 : BitVec 8)) ∈ _)] at hbyte
  rw [lit_succ_iff, hbyte]
  decide

/-! ## Sync geometry -/

/-- The horizontal sync output after an edge. -/
theorem VGA_HS_eq_false (TX : Bool) (rx : ℕ → Bool) (t : ℕ) :
    ((topVga TX).run rx (t + 1)).vga.VGA_HS = false ↔ 657 ≤ t % 800 ∧ t % 800 < 749 := by
  rw [VGA_HS_succ, w_HSync_Porch_eq_false]
  exact Iff.rfl

/-- The vertical sync output after an edge. -/
theorem VGA_VS_eq_false (TX : Bool) (rx : ℕ → Bool) (t : ℕ) :
    ((topVga TX).run rx (t + 1)).vga.VGA_VS = false ↔
      489 ≤ t / 800 % 525 ∧ t / 800 % 525 < 491 := by
  rw [VGA_VS_succ, w_VSync_Porch_eq_false]
  exact Iff.rfl

/-- After an edge of a run, both sync outputs have the documented level exactly when the edge is not
at one of the columns 657 and 749 and not in one of the rows 489 and 491. -/
theorem sync_geometry_iff (TX : Bool) (rx : ℕ → Bool) (t : ℕ) :
    ((((topVga TX).run rx (t + 1)).vga.VGA_HS = false ↔ 658 ≤ t % 800 ∧ t % 800 ≤ 749) ∧
      (((topVga TX).run rx (t + 1)).vga.VGA_VS = false ↔
        490 ≤ t / 800 % 525 ∧ t / 800 % 525 ≤ 491)) ↔
    t % 800 ≠ 657 ∧ t % 800 ≠ 749 ∧ t / 800 % 525 ≠ 489 ∧ t / 800 % 525 ≠ 491 := by
  rw [VGA_HS_eq_false, VGA_VS_eq_false]
  omega

/-- On the first line, the horizontal pulse begins one column early. -/
theorem hsync_early :
    ¬(((topVga true).run (fun _ => true) (657 + 1)).vga.VGA_HS = false ↔
      658 ≤ 657 % 800 ∧ 657 % 800 ≤ 749) := by
  rw [VGA_HS_eq_false]
  decide

end GoBoard.VgaUart
