import GoBoard.Uart.RxSpec
import GoBoard.Uart.Serializer
import GoBoard.Uart.Tx

/-!
# `UART_TX` is the ideal serializer

The registers of the transmitter before an edge are a function of the request that the serializer
serves there (`TxTracks`), and one clock edge moves them as it moves the serializer
(`TxTracks.posedge`). So the transmitter accepts exactly the requests that the serializer takes
(`idle_iff`), and the line behind it carries exactly their frames (`carries_line`): the copy of the
byte in `r_TX_Data` is the one taken at the request, whatever `i_TX_Byte` does later.
-/

namespace GoBoard.Uart

open Clocked (Machine counts_on toNat_add_one)
open Serial (frameBit Carries)

/-- The edges of the input stream with a request. -/
abbrev dv (inp : ℕ → TxInput) (k : ℕ) : Bool := (inp k).i_TX_DV

/-- The level `x` is the one that a request of byte `b` taken at edge `t` puts on the line before
edge `e`: high until two edges later, and the frame from then on. -/
def Level (N t : ℕ) (b : BitVec 8) (e : ℕ) (x : Bool) : Prop :=
  x = if e = t + 1 then true else frameBit b ((e - (t + 2)) / N)

theorem level_of_bit {N t e j : ℕ} {b : BitVec 8} (hN : 1 ≤ N) (hle : t + 2 + j * N ≤ e)
    (hlt : e < t + 2 + (j + 1) * N) : Level N t b e (frameBit b j) := by
  have hsucc := Nat.add_one_mul j N
  have hj : (e - (t + 2)) / N = j := by
    rw [Nat.div_eq_iff hN]
    omega
  unfold Level
  rw [if_neg (by omega), hj]

/-- The registers `s` are those of a transmitter before edge `e` of the inputs `inp`, where the
serializer is idle at `none` or serves the request of edge `t`. -/
inductive TxTracks (N : ℕ) (inp : ℕ → TxInput) (e : ℕ) (s : UartTx) : Option ℕ → Prop
  | idle : s.r_SM_Main = .idle → s.r_TX_Active = false → TxTracks N inp e s none
  | startBit {t : ℕ} : s.r_SM_Main = .txStartBit → s.r_TX_Active = true →
      s.r_TX_Data = (inp t).i_TX_Byte → s.r_Bit_Index = 0 → s.r_Clock_Count.toNat < N →
      e = t + 1 + s.r_Clock_Count.toNat → Level N t (inp t).i_TX_Byte e s.TX →
      TxTracks N inp e s (some t)
  | dataBits {t : ℕ} : s.r_SM_Main = .txDataBits → s.r_TX_Active = true →
      s.r_TX_Data = (inp t).i_TX_Byte → s.r_Clock_Count.toNat < N →
      e = t + 1 + N + s.r_Bit_Index.toNat * N + s.r_Clock_Count.toNat →
      Level N t (inp t).i_TX_Byte e s.TX → TxTracks N inp e s (some t)
  | stopBit {t : ℕ} : s.r_SM_Main = .txStopBit → s.r_TX_Active = true →
      s.r_Clock_Count.toNat < N → e = t + 1 + 9 * N + s.r_Clock_Count.toNat →
      Level N t (inp t).i_TX_Byte e s.TX → TxTracks N inp e s (some t)
  | cleanup {t : ℕ} : s.r_SM_Main = .cleanup → s.r_TX_Active = false → e = t + 1 + 10 * N →
      TxTracks N inp e s (some t)

section Posedge

variable {N : ℕ} {inp : ℕ → TxInput} {e t : ℕ} {s : UartTx}

/-- An edge in `IDLE` takes a request, and drives the output register high in any case. -/
theorem TxTracks.posedge_idle (h1 : 1 ≤ N) (hs : sending N (dv inp) e = none)
    (hsm : s.r_SM_Main = .idle) (hact : s.r_TX_Active = false) :
    TxTracks N inp (e + 1) (s.posedge N (inp e)) (sending N (dv inp) (e + 1)) := by
  rw [sending_succ_none hs]
  unfold UartTx.posedge
  rw [hsm]
  dsimp only
  split_ifs with hdv
  · -- The request is taken, and its byte copied into `r_TX_Data`.
    refine .startBit rfl rfl rfl rfl ?_ ?_ ?_
    · simp
      omega
    · simp
    · simp [Level]
  · exact .idle rfl hact

/-- An edge in `TX_START_BIT` drives the line low for one bit period. -/
theorem TxTracks.posedge_startBit (h1 : 1 ≤ N) (hN : N ≤ 256)
    (hs : sending N (dv inp) e = some t) (hsm : s.r_SM_Main = .txStartBit)
    (hact : s.r_TX_Active = true) (hd : s.r_TX_Data = (inp t).i_TX_Byte) (hi : s.r_Bit_Index = 0)
    (hc : s.r_Clock_Count.toNat < N) (he : e = t + 1 + s.r_Clock_Count.toNat) :
    TxTracks N inp (e + 1) (s.posedge N (inp e)) (sending N (dv inp) (e + 1)) := by
  have hlevel : Level N t (inp t).i_TX_Byte (e + 1) (frameBit (inp t).i_TX_Byte 0) :=
    level_of_bit h1 (by omega) (by omega)
  rw [sending_succ_some hs, if_neg (by omega)]
  unfold UartTx.posedge
  rw [hsm]
  dsimp only
  by_cases hend : s.r_Clock_Count.toNat = N - 1
  · -- The start bit is over.
    rw [if_pos hend]
    refine .dataBits rfl hact hd ?_ ?_ hlevel
    · simp
      omega
    · rw [hi]
      simp
      omega
  · obtain ⟨hc', he'⟩ := counts_on hN (by omega) he
    rw [if_neg hend]
    exact .startBit rfl hact hd hi hc' he' hlevel

/-- An edge in `TX_DATA_BITS` drives the data bit that the index names for one bit period. -/
theorem TxTracks.posedge_dataBits (h1 : 1 ≤ N) (hN : N ≤ 256)
    (hs : sending N (dv inp) e = some t) (hsm : s.r_SM_Main = .txDataBits)
    (hact : s.r_TX_Active = true) (hd : s.r_TX_Data = (inp t).i_TX_Byte)
    (hc : s.r_Clock_Count.toNat < N)
    (he : e = t + 1 + N + s.r_Bit_Index.toNat * N + s.r_Clock_Count.toNat) :
    TxTracks N inp (e + 1) (s.posedge N (inp e)) (sending N (dv inp) (e + 1)) := by
  have hi8 : s.r_Bit_Index.toNat < 8 := s.r_Bit_Index.isLt
  have hmul : s.r_Bit_Index.toNat * N ≤ 7 * N := Nat.mul_le_mul_right N (by omega)
  have hsucc := Nat.add_one_mul s.r_Bit_Index.toNat N
  have hsucc' := Nat.add_one_mul (s.r_Bit_Index.toNat + 1) N
  have hlevel : Level N t (inp t).i_TX_Byte (e + 1)
      (s.r_TX_Data.getLsbD s.r_Bit_Index.toNat) := by
    rw [hd, ← Serial.frameBit_data _ hi8]
    exact level_of_bit h1 (by omega) (by omega)
  rw [sending_succ_some hs, if_neg (by omega)]
  unfold UartTx.posedge
  rw [hsm]
  dsimp only
  by_cases hlt : s.r_Clock_Count.toNat < N - 1
  · obtain ⟨hc', he'⟩ := counts_on hN (by omega) he
    rw [if_pos hlt]
    exact .dataBits rfl hact hd hc' he' hlevel
  · rw [if_neg hlt]
    by_cases hi : s.r_Bit_Index.toNat < 7
    · -- The next data bit starts at the next edge.
      rw [if_pos hi, if_pos hi]
      refine .dataBits rfl hact hd ?_ ?_ hlevel
      · simp
        omega
      · dsimp only
        rw [toNat_add_one (by omega)]
        simp
        omega
    · -- The last data bit is over.
      have hi7 : s.r_Bit_Index.toNat = 7 := by omega
      rw [if_neg hi, if_neg hi]
      refine .stopBit rfl hact ?_ ?_ hlevel
      · simp
        omega
      · rw [hi7] at he
        simp
        omega

/-- An edge in `TX_STOP_BIT` drives the line high for one bit period, and ends `r_TX_Active`. -/
theorem TxTracks.posedge_stopBit (h1 : 1 ≤ N) (hN : N ≤ 256)
    (hs : sending N (dv inp) e = some t) (hsm : s.r_SM_Main = .txStopBit)
    (hact : s.r_TX_Active = true) (hc : s.r_Clock_Count.toNat < N)
    (he : e = t + 1 + 9 * N + s.r_Clock_Count.toNat) :
    TxTracks N inp (e + 1) (s.posedge N (inp e)) (sending N (dv inp) (e + 1)) := by
  have hlevel : Level N t (inp t).i_TX_Byte (e + 1) (frameBit (inp t).i_TX_Byte 9) :=
    level_of_bit h1 (by omega) (by omega)
  rw [sending_succ_some hs, if_neg (by omega)]
  unfold UartTx.posedge
  rw [hsm]
  dsimp only
  by_cases hlt : s.r_Clock_Count.toNat < N - 1
  · obtain ⟨hc', he'⟩ := counts_on hN (by omega) he
    rw [if_pos hlt]
    exact .stopBit rfl hact hc' he' hlevel
  · rw [if_neg hlt]
    exact .cleanup rfl rfl (by omega)

/-- The edge in `CLEANUP` goes back to `IDLE`. -/
theorem TxTracks.posedge_cleanup (hs : sending N (dv inp) e = some t)
    (hsm : s.r_SM_Main = .cleanup) (hact : s.r_TX_Active = false) (he : e = t + 1 + 10 * N) :
    TxTracks N inp (e + 1) (s.posedge N (inp e)) (sending N (dv inp) (e + 1)) := by
  rw [sending_succ_some hs, if_pos he]
  unfold UartTx.posedge
  rw [hsm]
  exact .idle rfl hact

/-- One clock edge of the transmitter is one edge of the serializer. -/
theorem TxTracks.posedge (h1 : 1 ≤ N) (hN : N ≤ 256)
    (h : TxTracks N inp e s (sending N (dv inp) e)) :
    TxTracks N inp (e + 1) (s.posedge N (inp e)) (sending N (dv inp) (e + 1)) := by
  generalize hs : sending N (dv inp) e = o at h
  cases h with
  | idle hsm hact => exact posedge_idle h1 hs hsm hact
  | startBit hsm hact hd hi hc he => exact posedge_startBit h1 hN hs hsm hact hd hi hc he
  | dataBits hsm hact hd hc he => exact posedge_dataBits h1 hN hs hsm hact hd hc he
  | stopBit hsm hact hc he => exact posedge_stopBit h1 hN hs hsm hact hc he
  | cleanup hsm hact he => exact posedge_cleanup hs hsm hact he

end Posedge

section Run

variable {N : ℕ} (h1 : 1 ≤ N) (hN : N ≤ 256) (TX : Bool) (inp : ℕ → TxInput)
include h1 hN

/-- The transmitter follows the serializer over its whole run. -/
theorem run_txTracks (e : ℕ) : TxTracks N inp e ((uartTx N TX).run inp e)
    (sending N (dv inp) e) :=
  Machine.run_induction
    (P := fun e s => TxTracks N inp e s (sending N (dv inp) e)) (.idle rfl rfl)
    (fun _ _ h => h.posedge h1 hN) e

/-- The transmitter is in `IDLE` where the serializer is idle. -/
theorem idle_iff (e : ℕ) : ((uartTx N TX).run inp e).r_SM_Main = .idle ↔
    sending N (dv inp) e = none := by
  have h := run_txTracks h1 hN TX inp e
  generalize hs : sending N (dv inp) e = o at h
  cases h with
  | idle hsm => simp [hsm]
  | startBit hsm => simp [hsm]
  | dataBits hsm => simp [hsm]
  | stopBit hsm => simp [hsm]
  | cleanup hsm => simp [hsm]

/-- The transmitter accepts the requests that the serializer takes. -/
theorem accepts_eq_some_iff (e : ℕ) (b : BitVec 8) : accepts N TX inp e = some b ↔
    Accepted N (dv inp) e ∧ (inp e).i_TX_Byte = b := by
  have hidle := idle_iff h1 hN TX inp e
  unfold accepts Accepted
  rw [← hidle]
  split_ifs with h
  · simp [h]
  · simp only [false_iff]
    exact fun hacc => h hacc.1

/-- The line is high while the serializer is idle. -/
theorem line_of_idle {e : ℕ} (hs : sending N (dv inp) e = none) :
    ((uartTx N TX).run inp e).line = true := by
  have h := run_txTracks h1 hN TX inp e
  rw [hs] at h
  cases h with
  | idle _ hact => simp [UartTx.line, UartTx.o_TX_Active, hact]

/-- While the serializer serves a request the line is at the level of its frame. -/
theorem line_of_sending {e t : ℕ} (hs : sending N (dv inp) e = some t) :
    Level N t (inp t).i_TX_Byte e ((uartTx N TX).run inp e).line := by
  have h := run_txTracks h1 hN TX inp e
  rw [hs] at h
  unfold UartTx.line UartTx.o_TX_Active
  cases h with
  | startBit _ hact _ _ _ _ hlevel => rwa [if_pos hact]
  | dataBits _ hact _ _ _ hlevel => rwa [if_pos hact]
  | stopBit _ hact _ _ hlevel => rwa [if_pos hact]
  | cleanup _ hact he =>
    -- The flag ends one edge before the stop bit does, and the multiplexer keeps the line high.
    rw [hact, if_neg (by simp), ← Serial.frameBit_stop (inp t).i_TX_Byte]
    exact level_of_bit h1 (by omega) (by omega)

/-- The line behind the transmitter carries the frames of the accepted requests, and nothing else.
-/
theorem carries_line : Carries N
    (sentFrames N (dv inp) fun k => (inp k).i_TX_Byte)
    (fun e => ((uartTx N TX).run inp e).line) := by
  constructor
  · rintro _ ⟨t, ht, rfl⟩ j hj e hle hlt
    simp only [smul_eq_mul] at hle hlt
    -- Bit `j` is inside the time that the serializer spends on the request.
    have hj9 : (j + 1) * N ≤ 10 * N := Nat.mul_le_mul_right N (by omega)
    have hlevel := line_of_sending h1 hN TX inp (ht.sending_eq (e := e) (by omega) (by omega))
    exact hlevel.trans (level_of_bit h1 hle hlt).symm
  · intro e hout
    cases hs : sending N (dv inp) e with
    | none => exact line_of_idle h1 hN TX inp hs
    | some t =>
      -- The only edge at which a request is served outside its frame is the first one.
      obtain ⟨ht, hlt, hle⟩ := accepted_of_sending hs
      have hlevel := line_of_sending h1 hN TX inp hs
      have := hout (t + 2, (inp t).i_TX_Byte) ⟨t, ht, rfl⟩
      simp only [smul_eq_mul] at this
      exact hlevel.trans (if_pos (by omega))

end Run

end GoBoard.Uart
