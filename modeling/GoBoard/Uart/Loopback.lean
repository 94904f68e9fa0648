import GoBoard.Clocked.Log
import GoBoard.Uart.TxSpec

/-!
# `UART_TX` looped back to `UART_RX`

The two machines as `UART_TX_TB` connects them: one clock, one bit rate, and the line
`w_TX_Active ? w_TX_Serial : 1` between them. The line carries the frames of the accepted requests,
which start at least `10 N + 2` edges apart, and a receiver that has reported a frame is armed again
before the next one, so the line is readable (`readable_line`). The reports are then the acceptances
delayed by a fixed number of edges, one for one (`loopback_reports`).
-/

namespace GoBoard.Uart

open Clocked (Machine log log_shift)
open Serial (Separated)

/-- The registers of the two machines that `UART_TX_TB` instantiates. -/
structure Loopback where
  UART_RX_Inst : UartRx
  UART_TX_Inst : UartTx
  deriving DecidableEq, Repr

namespace Loopback

/-- The wire `w_UART_Line`. -/
def w_UART_Line (s : Loopback) : Bool := s.UART_TX_Inst.line

/-- One clock edge: the receiver samples the line that the transmitter drives before the edge. -/
def posedge (N : ℕ) (s : Loopback) (i : TxInput) : Loopback where
  UART_RX_Inst := s.UART_RX_Inst.posedge N s.w_UART_Line
  UART_TX_Inst := s.UART_TX_Inst.posedge N i

end Loopback

/-- The testbench's design under test, with `N` clock edges per bit. -/
def loopback (N : ℕ) (TX : Bool) : Machine Loopback TxInput :=
  ⟨⟨UartRx.init, UartTx.init TX⟩, Loopback.posedge N⟩

namespace Loopback

/-- The byte that the transmitter accepts at edge `e`: `i_TX_DV` is high and it is in `IDLE`. -/
def accepted (N : ℕ) (TX : Bool) (inp : ℕ → TxInput) (e : ℕ) : Option (BitVec 8) :=
  if ((loopback N TX).run inp e).UART_TX_Inst.r_SM_Main = .idle ∧ (inp e).i_TX_DV = true then
    some (inp e).i_TX_Byte
  else none

/-- The byte on `o_RX_Byte` that edge `e` samples together with a high `o_RX_DV`. -/
def received (N : ℕ) (TX : Bool) (inp : ℕ → TxInput) (e : ℕ) : Option (BitVec 8) :=
  ((loopback N TX).run inp e).UART_RX_Inst.report

end Loopback

section Run

variable (N : ℕ) (TX : Bool) (inp : ℕ → TxInput)

/-- The transmitter runs as it does alone. -/
theorem loopback_run_tx (e : ℕ) :
    ((loopback N TX).run inp e).UART_TX_Inst = (uartTx N TX).run inp e :=
  Machine.run_component _ (uartTx N TX) Loopback.UART_TX_Inst (fun _ i => i) rfl (fun _ _ => rfl)
    inp e

/-- The receiver runs as it does on the line of the transmitter. -/
theorem loopback_run_rx (e : ℕ) : ((loopback N TX).run inp e).UART_RX_Inst =
    (uartRx N).run (fun k => ((uartTx N TX).run inp k).line) e := by
  have h := Machine.run_component (loopback N TX) (uartRx N) Loopback.UART_RX_Inst
    (fun s _ => s.w_UART_Line) rfl (fun _ _ => rfl) inp e
  simpa only [Loopback.w_UART_Line, loopback_run_tx] using h

end Run

section Readable

variable {N : ℕ} (h2 : 2 ≤ N) (hN : N ≤ 256) (TX : Bool) (inp : ℕ → TxInput)
include h2 hN

/-- The line of the transmitter is readable at its own rate. -/
theorem readable_line : Readable N (fun e => ((uartTx N TX).run inp e).line)
    (sentFrames N (dv inp) fun k => (inp k).i_TX_Byte) := by
  refine readable_of_carries h2 (carries_line (by omega) hN TX inp) ?_
  -- Requests are further apart than the receiver's re-arm time.
  intro f hf g hg hlt
  have hsep := separated_sentFrames N (dv inp) _ f hf g hg hlt
  have hhalf : half N = (N - 1) / 2 := rfl
  omega

/-- Every report is an acceptance `9 N + half N + 4` edges earlier, and conversely. -/
theorem reports_line (e : ℕ) (b : BitVec 8) :
    reports N (fun e => ((uartTx N TX).run inp e).line) e = some b ↔
      ∃ t, accepts N TX inp t = some b ∧ e = t + (9 * N + half N + 4) := by
  rw [(readable_line h2 hN TX inp).reports_iff (by omega) hN]
  constructor
  · rintro ⟨_, ⟨t, ht, hf⟩, rfl⟩
    simp only [Prod.mk.injEq] at hf
    obtain ⟨rfl, rfl⟩ := hf
    exact ⟨t, (accepts_eq_some_iff (by omega) hN TX inp t _).mpr ⟨ht, rfl⟩, by omega⟩
  · rintro ⟨t, ht, rfl⟩
    obtain ⟨ha, rfl⟩ := (accepts_eq_some_iff (by omega) hN TX inp t b).mp ht
    exact ⟨t + 2, ⟨t, ha, rfl⟩, by omega⟩

end Readable

/-- The round trip: for every input stream, what the receiver reports is what the transmitter
accepts, `9 N + (N - 1) / 2 + 4` edges later, byte for byte and in order, and nothing else. -/
theorem loopback_reports (N : ℕ) (h2 : 2 ≤ N) (hN : N ≤ 256) (TX : Bool) (inp : ℕ → TxInput) :
    (∀ e, Loopback.received N TX inp (e + (9 * N + (N - 1) / 2 + 4)) =
      Loopback.accepted N TX inp e) ∧
    (∀ e, e < 9 * N + (N - 1) / 2 + 4 → Loopback.received N TX inp e = none) ∧
    ∀ e, log (Loopback.received N TX inp) (e + (9 * N + (N - 1) / 2 + 4)) =
      (log (Loopback.accepted N TX inp) e).map fun x => (x.1 + (9 * N + (N - 1) / 2 + 4), x.2) := by
  have hrx : ∀ e, Loopback.received N TX inp e =
      reports N (fun e => ((uartTx N TX).run inp e).line) e := by
    intro e
    unfold Loopback.received reports
    rw [loopback_run_rx]
  have htx : ∀ e, Loopback.accepted N TX inp e = accepts N TX inp e := by
    intro e
    unfold Loopback.accepted accepts
    rw [loopback_run_tx]
  have hiff := reports_line h2 hN TX inp
  -- A report at an edge and an acceptance that much earlier are the same event.
  have hshift : ∀ e, Loopback.received N TX inp (e + (9 * N + (N - 1) / 2 + 4)) =
      Loopback.accepted N TX inp e := by
    intro e
    rw [hrx, htx]
    apply Option.ext
    intro b
    rw [hiff, half]
    constructor
    · rintro ⟨t, ht, he⟩
      rwa [show e = t by omega]
    · intro ht
      exact ⟨e, ht, rfl⟩
  -- No acceptance is early enough to be reported before the delay is over.
  have hearly : ∀ e, e < 9 * N + (N - 1) / 2 + 4 → Loopback.received N TX inp e = none := by
    intro e he
    rw [hrx, Option.eq_none_iff_forall_ne_some]
    intro b hb
    obtain ⟨t, -, ht⟩ := (hiff e b).mp hb
    rw [half] at ht
    omega
  exact ⟨hshift, hearly, log_shift hearly hshift⟩

/-- The round trip of the testbench: its bit rate, and its byte requested at edge 2. -/
theorem loopback_reports_3A :
    (∀ e, Loopback.received 217 false (fun k => ⟨k == 2, 0x3A⟩) (e + (9 * 217 + 108 + 4)) =
      Loopback.accepted 217 false (fun k => ⟨k == 2, 0x3A⟩) e) ∧
    (∀ e, e < 9 * 217 + 108 + 4 →
      Loopback.received 217 false (fun k => ⟨k == 2, 0x3A⟩) e = none) ∧
    ∀ e, log (Loopback.received 217 false fun k => ⟨k == 2, 0x3A⟩) (e + (9 * 217 + 108 + 4)) =
      (log (Loopback.accepted 217 false fun k => ⟨k == 2, 0x3A⟩) e).map
        fun x => (x.1 + (9 * 217 + 108 + 4), x.2) :=
  loopback_reports 217 (by decide) (by decide) false fun k => ⟨k == 2, 0x3A⟩

end GoBoard.Uart
