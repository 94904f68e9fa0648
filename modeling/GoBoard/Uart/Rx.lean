import GoBoard.Clocked.Bits
import GoBoard.Clocked.Machine

/-!
# `UART_RX`

The receiver of `UART_RX.v`, the same file in `UART_RX`, `UART_TX`, `VGA_UART`, and
`REFERENCE_FILES`: its registers, and the registers after a clock edge. All assignments of the
`always` block are nonblocking, so every right-hand side reads the registers before the edge.
`CLKS_PER_BIT` is a positive number of edges.
-/

namespace GoBoard.Uart

open Clocked (Machine writeBit)

/-- The values of `r_SM_Main` in `UART_RX`. `other` stands for the three codes of the 3-bit register
that are not named, which the `case` leaves to its `default`. -/
inductive RxState
  | idle
  | rxStartBit
  | rxDataBits
  | rxStopBit
  | cleanup
  | other
  deriving DecidableEq, Repr

/-- The registers of `UART_RX`. -/
structure UartRx where
  r_Clock_Count : BitVec 8
  r_Bit_Index : BitVec 3
  r_RX_Byte : BitVec 8
  r_RX_DV : Bool
  r_SM_Main : RxState
  deriving DecidableEq, Repr

namespace UartRx

/-- The declared initial registers. -/
def init : UartRx where
  r_Clock_Count := 0
  r_Bit_Index := 0
  r_RX_Byte := 0
  r_RX_DV := false
  r_SM_Main := .idle

/-- The `always @(posedge CLK)` block. -/
def posedge (CLKS_PER_BIT : ℕ) (s : UartRx) (RX : Bool) : UartRx :=
  match s.r_SM_Main with
  | .idle =>
    -- A low level is the start of a start bit.
    { s with
      r_RX_DV := false
      r_Clock_Count := 0
      r_Bit_Index := 0
      r_SM_Main := if RX = false then .rxStartBit else .idle }
  | .rxStartBit =>
    if s.r_Clock_Count.toNat = (CLKS_PER_BIT - 1) / 2 then
      -- The middle of the start bit: is it still low?
      if RX = false then
        { s with r_Clock_Count := 0, r_SM_Main := .rxDataBits }
      else
        -- The counter is not reset here, but in `IDLE`.
        { s with r_SM_Main := .idle }
    else
      { s with r_Clock_Count := s.r_Clock_Count + 1, r_SM_Main := .rxStartBit }
  | .rxDataBits =>
    if s.r_Clock_Count.toNat < CLKS_PER_BIT - 1 then
      { s with r_Clock_Count := s.r_Clock_Count + 1, r_SM_Main := .rxDataBits }
    else
      -- The middle of the data bit that the index names.
      { s with
        r_Clock_Count := 0
        r_RX_Byte := writeBit s.r_RX_Byte s.r_Bit_Index.toNat RX
        r_Bit_Index := if s.r_Bit_Index.toNat < 7 then s.r_Bit_Index + 1 else 0
        r_SM_Main := if s.r_Bit_Index.toNat < 7 then .rxDataBits else .rxStopBit }
  | .rxStopBit =>
    if s.r_Clock_Count.toNat < CLKS_PER_BIT - 1 then
      { s with r_Clock_Count := s.r_Clock_Count + 1, r_SM_Main := .rxStopBit }
    else
      -- The level of the stop bit is not tested.
      { s with r_RX_DV := true, r_Clock_Count := 0, r_SM_Main := .cleanup }
  | .cleanup =>
    { s with r_SM_Main := .idle, r_RX_DV := false }
  | .other =>
    { s with r_SM_Main := .idle }

/-- The output `o_RX_DV`. -/
def o_RX_DV (s : UartRx) : Bool := s.r_RX_DV

/-- The output `o_RX_Byte`. -/
def o_RX_Byte (s : UartRx) : BitVec 8 := s.r_RX_Byte

/-- What the next edge samples on the outputs: a byte while `o_RX_DV` is high. -/
def report (s : UartRx) : Option (BitVec 8) := if s.o_RX_DV then some s.o_RX_Byte else none

end UartRx

/-- The receiver with `N` clock edges per bit. -/
def uartRx (N : ℕ) : Machine UartRx Bool := ⟨UartRx.init, UartRx.posedge N⟩

/-- What each edge samples on the receiver's outputs when the line is `rx`. -/
def reports (N : ℕ) (rx : ℕ → Bool) (e : ℕ) : Option (BitVec 8) := ((uartRx N).run rx e).report

/-- A byte is reported where `o_RX_DV` is high. -/
theorem reports_eq_some_iff {N : ℕ} {rx : ℕ → Bool} {e : ℕ} {b : BitVec 8} :
    reports N rx e = some b ↔
      ((uartRx N).run rx e).o_RX_DV = true ∧ ((uartRx N).run rx e).o_RX_Byte = b := by
  simp [reports, UartRx.report]

end GoBoard.Uart
