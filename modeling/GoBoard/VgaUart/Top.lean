import GoBoard.Uart.Echo
import GoBoard.Vga.Pattern
import GoBoard.Vga.SyncPulse

/-!
# `top_VGA` of `VGA_UART`

The design shows the received byte: as two hexadecimal digits, and as the colour of a 640x480
picture. The position counters feed the porch stage, which makes the sync signals, and
`Pattern_Generator` registers them together with the colour. It is wired to the receiver's
`o_RX_Byte` directly, as the two digit encoders are; only the transmitter, which echoes the byte, is
given `o_RX_DV`.
-/

namespace GoBoard.VgaUart

open Clocked (Machine)
open Uart (UartRx UartTx uartRx)
open Vga (PatternGenerator Rgb SyncPulse VgaPins porch_eq_false syncPulse wholeArea)
open Video (Axis Timing)

/-! ## The modules of the video path -/

/-- The output `o_H_Sync` of `Sync_Porch`, which does not read its input `i_HSync`. -/
def SyncPorch.o_H_Sync (_i_HSync : Bool) (i_CountCol : BitVec 10) : Bool :=
  if i_CountCol.toNat < 640 + 18 - 1 ∨ i_CountCol.toNat > 800 - 50 - 2 then true else false

/-- The output `o_V_Sync` of `Sync_Porch`, which does not read its input `i_VSync`. -/
def SyncPorch.o_V_Sync (_i_VSync : Bool) (i_CountRow : BitVec 10) : Bool :=
  if i_CountRow.toNat < 480 + 10 - 1 ∨ i_CountRow.toNat > 525 - 33 - 2 then true else false

/-- The declared initial registers of `Pattern_Generator`. -/
def patternInit : PatternGenerator where
  o_HSync_PG := true
  o_VSync_PG := true
  Red := 0
  Green := 0
  Blue := 0

/-- The `always @(posedge CLK)` block of `Pattern_Generator`. -/
def patternPosedge (s : PatternGenerator) (i_Byte : BitVec 8) (i_HSync i_VSync : Bool) :
    PatternGenerator :=
  let s := { s with o_HSync_PG := i_HSync, o_VSync_PG := i_VSync }
  if i_Byte = 0x31 then
    { s with
      Red := if i_HSync && i_VSync then 0b111 else 0
      Green := 0
      Blue := 0 }
  else if i_Byte = 0x32 then
    { s with
      Red := 0
      Green := if i_HSync && i_VSync then 0b111 else 0
      Blue := 0 }
  else if i_Byte = 0x33 then
    { s with
      Red := 0
      Green := 0
      Blue := if i_HSync && i_VSync then 0b111 else 0 }
  else
    -- Anything else makes the screen black.
    { s with Red := 0, Green := 0, Blue := 0 }

/-- The colour that a byte selects. -/
def colour (b : BitVec 8) : Rgb :=
  if b = 0x31 then .red else if b = 0x32 then .green else if b = 0x33 then .blue else .black

/-- The byte selects a colour other than black. -/
def IsColour (b : BitVec 8) : Prop := b = 0x31 ∨ b = 0x32 ∨ b = 0x33

instance (b : BitVec 8) : Decidable (IsColour b) := inferInstanceAs (Decidable (_ ∨ _))

theorem isColour_iff (b : BitVec 8) : IsColour b ↔ colour b ≠ .black := by
  unfold IsColour colour
  split_ifs with h1 h2 h3
  · exact iff_of_true (.inl h1) (by decide)
  · exact iff_of_true (.inr (.inl h2)) (by decide)
  · exact iff_of_true (.inr (.inr h3)) (by decide)
  · refine iff_of_false (fun h => ?_) (not_not.mpr rfl)
    rcases h with h | h | h
    · exact h1 h
    · exact h2 h
    · exact h3 h

section Pattern

variable (s : PatternGenerator) (i_Byte : BitVec 8) (i_HSync i_VSync : Bool)

@[simp] theorem patternPosedge_HSync :
    (patternPosedge s i_Byte i_HSync i_VSync).o_HSync_PG = i_HSync := by
  unfold patternPosedge
  split_ifs <;> rfl

@[simp] theorem patternPosedge_VSync :
    (patternPosedge s i_Byte i_HSync i_VSync).o_VSync_PG = i_VSync := by
  unfold patternPosedge
  split_ifs <;> rfl

/-- The registered colour is the selected one where both sync inputs are high, and black elsewhere.
-/
theorem patternPosedge_rgb : (patternPosedge s i_Byte i_HSync i_VSync).rgb =
    if i_HSync && i_VSync then colour i_Byte else .black := by
  unfold patternPosedge colour
  cases i_HSync && i_VSync
  · split_ifs <;> rfl
  · split_ifs <;> rfl

end Pattern

/-! ## The design -/

/-- The registers of the instances of `top_VGA`. -/
structure TopVga where
  UART_TX_Inst : UartTx
  UART_RX_Inst : UartRx
  binary_to_7seg_Inst1 : BinaryToSevenSeg
  binary_to_7seg_Inst2 : BinaryToSevenSeg
  PulseInst : SyncPulse
  Pattern_GenInst : PatternGenerator
  deriving DecidableEq, Repr

namespace TopVga

/-- The initial registers, with any level in the transmitter's output register. -/
def init (TX : Bool) : TopVga where
  UART_TX_Inst := UartTx.init TX
  UART_RX_Inst := UartRx.init
  binary_to_7seg_Inst1 := BinaryToSevenSeg.init
  binary_to_7seg_Inst2 := BinaryToSevenSeg.init
  PulseInst := SyncPulse.init
  Pattern_GenInst := patternInit

/-- The wire `w_RX_Byte`. -/
def w_RX_Byte (s : TopVga) : BitVec 8 := s.UART_RX_Inst.o_RX_Byte

/-- The wire `w_HSync_Porch`. -/
def w_HSync_Porch (s : TopVga) : Bool :=
  SyncPorch.o_H_Sync s.PulseInst.o_HSync s.PulseInst.o_CountCol

/-- The wire `w_VSync_Porch`. -/
def w_VSync_Porch (s : TopVga) : Bool :=
  SyncPorch.o_V_Sync s.PulseInst.o_VSync s.PulseInst.o_CountRow

/-- One clock edge of all instances. Only the transmitter waits for `o_RX_DV`. -/
def posedge (s : TopVga) (RX : Bool) : TopVga where
  UART_TX_Inst := s.UART_TX_Inst.posedge 217 s.UART_RX_Inst.toTx
  UART_RX_Inst := s.UART_RX_Inst.posedge 217 RX
  binary_to_7seg_Inst1 := s.binary_to_7seg_Inst1.posedge (s.w_RX_Byte.extractLsb 7 4)
  binary_to_7seg_Inst2 := s.binary_to_7seg_Inst2.posedge (s.w_RX_Byte.extractLsb 3 0)
  PulseInst := s.PulseInst.posedge
  Pattern_GenInst :=
    patternPosedge s.Pattern_GenInst s.w_RX_Byte s.w_HSync_Porch s.w_VSync_Porch

/-- The outputs to the display connector. -/
def vga (s : TopVga) : VgaPins := s.Pattern_GenInst.pins

end TopVga

/-- `top_VGA`, with any initial level in the transmitter's output register. -/
def topVga (TX : Bool) : Machine TopVga Bool := ⟨TopVga.init TX, TopVga.posedge⟩

section Run

variable (TX : Bool) (rx : ℕ → Bool)

/-- The receiver runs as it does alone. -/
theorem topVga_run_rx (e : ℕ) :
    ((topVga TX).run rx e).UART_RX_Inst = (uartRx 217).run rx e :=
  Machine.run_component _ (uartRx 217) TopVga.UART_RX_Inst (fun _ i => i) rfl (fun _ _ => rfl) rx e

/-- The counters run as they do alone. -/
theorem topVga_run_pulse (e : ℕ) :
    ((topVga TX).run rx e).PulseInst = syncPulse.run (fun _ => ()) e :=
  Machine.run_component _ syncPulse TopVga.PulseInst (fun _ _ => ()) rfl (fun _ _ => rfl) rx e

theorem w_RX_Byte_eq (e : ℕ) :
    ((topVga TX).run rx e).w_RX_Byte = ((uartRx 217).run rx e).o_RX_Byte := by
  unfold TopVga.w_RX_Byte
  rw [topVga_run_rx]

/-- The timing of the sync signals that the design makes. Both front porches are one position
shorter than the documented ones, and both back porches one position longer. -/
def driven : Timing where
  horizontal := { visible := 640, front := 17, pulse := 92, back := 51 }
  vertical := { visible := 480, front := 9, pulse := 2, back := 34 }
  horizontal_pos := by decide
  vertical_pos := by decide

/-- The horizontal sync signal is low in the horizontal pulse. -/
theorem w_HSync_Porch_eq_false (e : ℕ) : ((topVga TX).run rx e).w_HSync_Porch = false ↔
    driven.horizontal.InPulse (wholeArea.col e) := by
  unfold TopVga.w_HSync_Porch SyncPorch.o_H_Sync Axis.InPulse
  rw [porch_eq_false, eq_self, and_true, topVga_run_pulse, (SyncPulse.run_at _ e).col]
  dsimp only [driven]
  omega

/-- The vertical sync signal is low in the vertical pulse. -/
theorem w_VSync_Porch_eq_false (e : ℕ) : ((topVga TX).run rx e).w_VSync_Porch = false ↔
    driven.vertical.InPulse (wholeArea.row e) := by
  unfold TopVga.w_VSync_Porch SyncPorch.o_V_Sync Axis.InPulse
  rw [porch_eq_false, eq_self, and_true, topVga_run_pulse, (SyncPulse.run_at _ e).row]
  dsimp only [driven]
  omega

/-- The sync outputs after an edge are the porch signals before it. -/
theorem VGA_HS_succ (e : ℕ) :
    ((topVga TX).run rx (e + 1)).vga.VGA_HS = ((topVga TX).run rx e).w_HSync_Porch :=
  patternPosedge_HSync _ _ _ _

theorem VGA_VS_succ (e : ℕ) :
    ((topVga TX).run rx (e + 1)).vga.VGA_VS = ((topVga TX).run rx e).w_VSync_Porch :=
  patternPosedge_VSync _ _ _ _

/-- Both sync signals are high exactly outside the retrace. -/
theorem porch_high_iff (e : ℕ) :
    (((topVga TX).run rx e).w_HSync_Porch && ((topVga TX).run rx e).w_VSync_Porch) = true ↔
      ¬driven.Retrace e := by
  rw [Bool.and_eq_true, ← Bool.not_eq_false, ← Bool.not_eq_false, w_HSync_Porch_eq_false,
    w_VSync_Porch_eq_false]
  exact not_or.symm

/-- The colour after an edge: black in the retrace, and the one that the byte selects elsewhere. -/
theorem rgb_succ (e : ℕ) : ((topVga TX).run rx (e + 1)).Pattern_GenInst.rgb =
    if driven.Retrace e then .black else colour ((uartRx 217).run rx e).o_RX_Byte := by
  have hstep := patternPosedge_rgb ((topVga TX).run rx e).Pattern_GenInst
    ((topVga TX).run rx e).w_RX_Byte ((topVga TX).run rx e).w_HSync_Porch
    ((topVga TX).run rx e).w_VSync_Porch
  simp only [porch_high_iff, ite_not] at hstep
  rw [← w_RX_Byte_eq TX]
  exact hstep

/-- Where the outputs show a colour: the byte before the edge selects one, and neither sync signal
is low. -/
theorem lit_succ_iff (e : ℕ) : ((topVga TX).run rx (e + 1)).vga.Lit ↔
    IsColour ((uartRx 217).run rx e).o_RX_Byte ∧ ¬driven.Retrace e := by
  unfold TopVga.vga
  rw [PatternGenerator.lit_pins, rgb_succ, isColour_iff]
  split_ifs with hr
  · simp [hr]
  · simp [hr]

end Run

end GoBoard.VgaUart
