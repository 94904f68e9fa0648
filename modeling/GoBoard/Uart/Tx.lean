import GoBoard.Clocked.Machine

/-!
# `UART_TX`

The transmitter of `UART_TX.v`, the same machine in `UART_TX`, `VGA_UART`, and `REFERENCE_FILES`:
its registers, and the registers after a clock edge. `TX` is declared without an initial value, so
the initial registers take it as an argument. `line` is the multiplexer that every design of the
repository puts behind the transmitter.
-/

namespace GoBoard.Uart

open Clocked (Machine)

/-- The values of `r_SM_Main` in `UART_TX`. `other` stands for the three codes of the 3-bit register
that are not named, which the `case` leaves to its `default`. -/
inductive TxState
  | idle
  | txStartBit
  | txDataBits
  | txStopBit
  | cleanup
  | other
  deriving DecidableEq, Repr

/-- The registers of `UART_TX`. -/
structure UartTx where
  r_SM_Main : TxState
  r_Clock_Count : BitVec 8
  r_Bit_Index : BitVec 3
  r_TX_Data : BitVec 8
  r_TX_Active : Bool
  r_TX_Done : Bool
  TX : Bool
  deriving DecidableEq, Repr

/-- The inputs that `UART_TX` samples at a clock edge. -/
structure TxInput where
  i_TX_DV : Bool
  i_TX_Byte : BitVec 8
  deriving DecidableEq, Repr

namespace UartTx

/-- The declared initial registers, with any level in `TX`. -/
def init (TX : Bool) : UartTx where
  r_SM_Main := .idle
  r_Clock_Count := 0
  r_Bit_Index := 0
  r_TX_Data := 0
  r_TX_Active := false
  r_TX_Done := false
  TX := TX

/-- The `always @(posedge CLK)` block. -/
def posedge (CLKS_PER_BIT : ℕ) (s : UartTx) (i : TxInput) : UartTx :=
  match s.r_SM_Main with
  | .idle =>
    -- The one state that reads the inputs.
    { s with
      TX := true
      r_TX_Done := false
      r_Clock_Count := 0
      r_Bit_Index := 0
      r_TX_Active := if i.i_TX_DV = true then true else s.r_TX_Active
      r_TX_Data := if i.i_TX_DV = true then i.i_TX_Byte else s.r_TX_Data
      r_SM_Main := if i.i_TX_DV = true then .txStartBit else .idle }
  | .txStartBit =>
    if s.r_Clock_Count.toNat = CLKS_PER_BIT - 1 then
      { s with TX := false, r_Clock_Count := 0, r_SM_Main := .txDataBits }
    else
      { s with TX := false, r_Clock_Count := s.r_Clock_Count + 1, r_SM_Main := .txStartBit }
  | .txDataBits =>
    if s.r_Clock_Count.toNat < CLKS_PER_BIT - 1 then
      { s with
        TX := s.r_TX_Data.getLsbD s.r_Bit_Index.toNat
        r_Clock_Count := s.r_Clock_Count + 1
        r_SM_Main := .txDataBits }
    else
      -- The last edge of the data bit: on to the next one, or to the stop bit.
      { s with
        TX := s.r_TX_Data.getLsbD s.r_Bit_Index.toNat
        r_Clock_Count := 0
        r_Bit_Index := if s.r_Bit_Index.toNat < 7 then s.r_Bit_Index + 1 else 0
        r_SM_Main := if s.r_Bit_Index.toNat < 7 then .txDataBits else .txStopBit }
  | .txStopBit =>
    if s.r_Clock_Count.toNat < CLKS_PER_BIT - 1 then
      { s with TX := true, r_Clock_Count := s.r_Clock_Count + 1, r_SM_Main := .txStopBit }
    else
      -- `o_TX_Active` falls two edges before the next request can be taken.
      { s with
        TX := true
        r_TX_Done := true
        r_Clock_Count := 0
        r_SM_Main := .cleanup
        r_TX_Active := false }
  | .cleanup =>
    { s with r_TX_Done := true, r_SM_Main := .idle }
  | .other =>
    { s with r_SM_Main := .idle }

/-- The output `o_TX_Active`. -/
def o_TX_Active (s : UartTx) : Bool := s.r_TX_Active

/-- The output `o_TX_Done`. -/
def o_TX_Done (s : UartTx) : Bool := s.r_TX_Done

/-- The line that the designs drive: `o_TX_Active ? TX : 1'b1`. -/
def line (s : UartTx) : Bool := if s.o_TX_Active then s.TX else true

end UartTx

/-- The transmitter with `N` clock edges per bit and initial level `TX` of its output register. -/
def uartTx (N : ℕ) (TX : Bool) : Machine UartTx TxInput := ⟨UartTx.init TX, UartTx.posedge N⟩

/-- A request is accepted at an edge where the transmitter is in `IDLE` and `i_TX_DV` is high: the
byte that edge `e` accepts, if any. -/
def accepts (N : ℕ) (TX : Bool) (inp : ℕ → TxInput) (e : ℕ) : Option (BitVec 8) :=
  if ((uartTx N TX).run inp e).r_SM_Main = .idle ∧ (inp e).i_TX_DV = true then
    some (inp e).i_TX_Byte
  else none

end GoBoard.Uart
