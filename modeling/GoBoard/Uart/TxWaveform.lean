import GoBoard.Uart.TxSpec
import Mathlib.Logic.Function.Basic

/-!
# The outputs of `UART_TX`, edge by edge

The transmitter as its users see it. A request that is taken at edge `t` puts the start bit on the
line after the edges from `t + 1` to `t + N`, the data bits after the next `8 N` edges, and keeps
`o_TX_Active` high after the edges from `t` to `t + 10 N - 1`. The requests that are taken are those
of the greedy choice, and the inputs at all other edges have no effect on any register
(`run_eq_of_accepted`, `run_eq_of_busy`). `uartTx_refines_serializer` collects this.

`o_TX_Active` falls with the stop bit, and the machine is back in `IDLE` one edge later than that.
So the flag tells a user what becomes of a request at every edge but one, the edge that leaves
`CLEANUP` (`busy_flag_iff`).
-/

namespace GoBoard.Uart

open Clocked (Machine)
open Serial (frameBit frameBit_data)

section Posedge

variable {N : ℕ} {s : UartTx}

/-- The inputs are read in `IDLE` only, and the byte only with a request. -/
theorem posedge_congr {i i' : TxInput} (h : s.r_SM_Main = .idle →
    i.i_TX_DV = i'.i_TX_DV ∧ (i.i_TX_DV = true → i.i_TX_Byte = i'.i_TX_Byte)) :
    s.posedge N i = s.posedge N i' := by
  unfold UartTx.posedge
  cases hsm : s.r_SM_Main with
  | idle =>
    obtain ⟨hdv, hbyte⟩ := h hsm
    dsimp only
    rw [← hdv]
    by_cases hreq : i.i_TX_DV = true
    · rw [hbyte hreq]
    · simp only [if_neg hreq]
  | txStartBit => rfl
  | txDataBits => rfl
  | txStopBit => rfl
  | cleanup => rfl
  | other => rfl

end Posedge

section Run

variable {N : ℕ} (h1 : 1 ≤ N) (hN : N ≤ 256) (TX : Bool) (inp : ℕ → TxInput)
include h1 hN

/-- `o_TX_Active` is low while the serializer is idle. -/
theorem active_of_idle {e : ℕ} (hs : sending N (dv inp) e = none) :
    ((uartTx N TX).run inp e).o_TX_Active = false := by
  have h := run_txTracks h1 hN TX inp e
  rw [hs] at h
  cases h with
  | idle _ hact => exact hact

/-- `o_TX_Active` is high for ten bit periods of the time that the serializer spends on a
request. -/
theorem active_of_sending {e t : ℕ} (hs : sending N (dv inp) e = some t) :
    ((uartTx N TX).run inp e).o_TX_Active = true ↔ e ≤ t + 10 * N := by
  have h := run_txTracks h1 hN TX inp e
  rw [hs] at h
  unfold UartTx.o_TX_Active
  cases h with
  | startBit _ hact _ _ hc he => exact iff_of_true hact (by omega)
  | dataBits _ hact _ hc he =>
    have hmul : ((uartTx N TX).run inp e).r_Bit_Index.toNat * N ≤ 7 * N :=
      Nat.mul_le_mul_right N (Nat.lt_succ_iff.mp ((uartTx N TX).run inp e).r_Bit_Index.isLt)
    exact iff_of_true hact (by omega)
  | stopBit _ hact hc he => exact iff_of_true hact (by omega)
  | cleanup _ hact he =>
    -- The one edge of `CLEANUP`.
    rw [hact]
    exact iff_of_false (by simp) (by omega)

/-- `o_TX_Active` is high exactly in the busy windows of the accepted requests. -/
theorem active_iff (e : ℕ) : ((uartTx N TX).run inp e).o_TX_Active = true ↔
    ∃ t, Accepted N (dv inp) t ∧ t + 1 ≤ e ∧ e ≤ t + 10 * N := by
  constructor
  · intro hact
    cases hs : sending N (dv inp) e with
    | none =>
      rw [active_of_idle h1 hN TX inp hs] at hact
      cases hact
    | some t =>
      obtain ⟨ht, hlt, -⟩ := accepted_of_sending hs
      exact ⟨t, ht, hlt, (active_of_sending h1 hN TX inp hs).mp hact⟩
  · rintro ⟨t, ht, hlt, hle⟩
    exact (active_of_sending h1 hN TX inp (ht.sending_eq hlt (by omega))).mpr hle

/-- The frame of an accepted request on the line. -/
theorem line_of_accepted {t j e : ℕ} (ht : Accepted N (dv inp) t) (hj : j < 10)
    (hle : t + 1 + j * N ≤ e) (hlt : e < t + 1 + (j + 1) * N) :
    ((uartTx N TX).run inp (e + 1)).line = frameBit (inp t).i_TX_Byte j := by
  have hend : (j + 1) * N ≤ 10 * N := Nat.mul_le_mul_right N (by omega)
  have hlevel := line_of_sending h1 hN TX inp (ht.sending_eq (e := e + 1) (by omega) (by omega))
  exact hlevel.trans (level_of_bit h1 (by omega) (by omega)).symm

/-- Outside the start bits and the data bits of the accepted requests the line is high. -/
theorem line_of_quiet {e : ℕ} (hout : ∀ t, Accepted N (dv inp) t → e < t + 1 ∨ t + 9 * N < e) :
    ((uartTx N TX).run inp (e + 1)).line = true := by
  cases hs : sending N (dv inp) (e + 1) with
  | none => exact line_of_idle h1 hN TX inp hs
  | some t =>
    obtain ⟨ht, hlt, hle⟩ := accepted_of_sending hs
    have hlevel := line_of_sending h1 hN TX inp hs
    rcases hout t ht with hbefore | hafter
    · -- The edge that takes the request.
      exact hlevel.trans (if_pos (by omega))
    · -- The stop bit.
      exact hlevel.trans (level_of_bit (j := 9) h1 (by omega) (by omega)).symm

/-- The registers depend on the accepted requests only: on their edges and their bytes. -/
theorem run_eq_of_accepted (inp' : ℕ → TxInput) {e : ℕ}
    (hacc : ∀ t, t < e → (Accepted N (dv inp) t ↔ Accepted N (dv inp') t))
    (hbyte : ∀ t, t < e → Accepted N (dv inp) t → (inp t).i_TX_Byte = (inp' t).i_TX_Byte) :
    (uartTx N TX).run inp e = (uartTx N TX).run inp' e := by
  induction e with
  | zero => rfl
  | succ e ih =>
    have heq := ih (fun t ht => hacc t (by omega)) fun t ht => hbyte t (by omega)
    have hidle := idle_iff h1 hN TX inp e
    have hidle' := idle_iff h1 hN TX inp' e
    rw [← heq] at hidle'
    show ((uartTx N TX).run inp e).posedge N (inp e) = ((uartTx N TX).run inp' e).posedge N (inp' e)
    rw [← heq]
    refine posedge_congr fun hs => ?_
    -- In `IDLE` every request is accepted, so both streams have the same one or none.
    have hiff := hacc e (by omega)
    unfold Accepted at hiff
    rw [← hidle, ← hidle', and_iff_right hs, and_iff_right hs] at hiff
    exact ⟨Bool.eq_iff_iff.mpr hiff, fun hdv => hbyte e (by omega) ⟨hidle.mp hs, hdv⟩⟩

/-- What the inputs are while a request is being served has no effect. -/
theorem run_eq_of_busy (inp' : ℕ → TxInput)
    (hout : ∀ e, (∀ t, Accepted N (dv inp) t → ¬(t < e ∧ e < t + 10 * N + 2)) → inp' e = inp e)
    (e : ℕ) : (uartTx N TX).run inp' e = (uartTx N TX).run inp e := by
  induction e with
  | zero => rfl
  | succ e ih =>
    show ((uartTx N TX).run inp' e).posedge N (inp' e) = ((uartTx N TX).run inp e).posedge N (inp e)
    rw [ih]
    refine posedge_congr fun hidle => ?_
    -- The serializer is idle, so the edge is outside the time of every request.
    have hs := (idle_iff h1 hN TX inp e).mp hidle
    have hin : inp' e = inp e := by
      refine hout e fun t ht hwin => ?_
      rw [ht.sending_eq hwin.1 (by omega)] at hs
      cases hs
    rw [hin]
    exact ⟨rfl, fun _ => rfl⟩

end Run

/-! ## The ideal serializer's waveform -/

/-- The byte at edge `e` is transmitted: the start bit begins at the following edge, and the eight
data bits follow. -/
structure Transmitted (N : ℕ) (TX : Bool) (inp : ℕ → TxInput) (e : ℕ) : Prop where
  start : ∀ k, e + 1 ≤ k → k ≤ e + N → ((uartTx N TX).run inp (k + 1)).line = false
  data : ∀ i k, i < 8 → e + (i + 1) * N + 1 ≤ k → k ≤ e + (i + 2) * N →
    ((uartTx N TX).run inp (k + 1)).line = (inp e).i_TX_Byte.getLsbD i

/-- An accepted byte is transmitted. -/
theorem transmitted_of_accepted {N : ℕ} (h1 : 1 ≤ N) (hN : N ≤ 256) (TX : Bool)
    (inp : ℕ → TxInput) {e : ℕ} (he : Accepted N (dv inp) e) : Transmitted N TX inp e := by
  constructor
  · intro k hle hlt
    exact line_of_accepted h1 hN TX inp (j := 0) he (by omega) (by omega) (by omega)
  · intro i k hi hle hlt
    have hend : (i + 1 + 1) * N = (i + 2) * N := rfl
    calc ((uartTx N TX).run inp (k + 1)).line
        = frameBit (inp e).i_TX_Byte (i + 1) :=
          line_of_accepted h1 hN TX inp he (by omega) (by omega) (by omega)
      _ = (inp e).i_TX_Byte.getLsbD i := frameBit_data _ hi

/-- The outputs of the transmitter on the stream `inp` are those of the ideal serializer, which
takes the requests of the greedy choice at distance `10 N + 2`. -/
structure SerializerOutputs (N : ℕ) (TX : Bool) (inp : ℕ → TxInput) : Prop where
  /-- Before the first edge the line is high and the transmitter not busy. -/
  initial : ((uartTx N TX).run inp 0).line = true ∧ ((uartTx N TX).run inp 0).o_TX_Active = false
  sends : ∀ t, Greedy (10 * N + 2) (dv inp) t → Transmitted N TX inp t
  high : ∀ e, (∀ t, Greedy (10 * N + 2) (dv inp) t → ¬(t + 1 ≤ e ∧ e ≤ t + 9 * N)) →
    ((uartTx N TX).run inp (e + 1)).line = true
  busy : ∀ e, ((uartTx N TX).run inp (e + 1)).o_TX_Active = true ↔
    ∃ t, Greedy (10 * N + 2) (dv inp) t ∧ t ≤ e ∧ e ≤ t + 10 * N - 1
  /-- The registers are a function of the accepted edges and of the bytes at them. -/
  determined : ∀ (inp' : ℕ → TxInput) (e : ℕ),
    (∀ t, t < e → (Greedy (10 * N + 2) (dv inp) t ↔ Greedy (10 * N + 2) (dv inp') t)) →
    (∀ t, t < e → Greedy (10 * N + 2) (dv inp) t → (inp t).i_TX_Byte = (inp' t).i_TX_Byte) →
    (uartTx N TX).run inp e = (uartTx N TX).run inp' e
  /-- They do not change when the inputs do at any edges at which a request is being served. -/
  ignores : ∀ inp' : ℕ → TxInput,
    (∀ e, (∀ t, Greedy (10 * N + 2) (dv inp) t → ¬(t < e ∧ e < t + 10 * N + 2)) →
      inp' e = inp e) →
    ∀ e, (uartTx N TX).run inp' e = (uartTx N TX).run inp e

/-- `UART_TX` refines the ideal serializer, for every rate that its 8-bit counter can count and
every stream of requests. -/
theorem uartTx_refines_serializer (N : ℕ) (h2 : 2 ≤ N) (hN : N ≤ 256) (TX : Bool)
    (inp : ℕ → TxInput) : SerializerOutputs N TX inp := by
  have h1 : 1 ≤ N := by omega
  refine ⟨⟨rfl, rfl⟩, ?_, ?_, ?_, ?_, ?_⟩ <;> simp only [greedy_iff]
  · intro t ht
    exact transmitted_of_accepted h1 hN TX inp ht
  · intro e hout
    refine line_of_quiet h1 hN TX inp fun t ht => ?_
    have := hout t ht
    omega
  · intro e
    rw [active_iff h1 hN TX inp (e + 1)]
    refine exists_congr fun t => and_congr_right fun _ => ?_
    omega
  · intro inp' e hacc hbyte
    exact run_eq_of_accepted h1 hN TX inp inp' hacc hbyte
  · intro inp' hout e
    exact run_eq_of_busy h1 hN TX inp inp' hout e

/-- The refinement at the rate of the designs, on a request that is never withdrawn. -/
theorem uartTx_refines_serializer_held : SerializerOutputs 217 false fun _ => ⟨true, 0x41⟩ :=
  uartTx_refines_serializer 217 (by decide) (by decide) false fun _ => ⟨true, 0x41⟩

/-! ## What the busy flag says about a request -/

/-- The inputs at edge `e` are ignored, and the frame in progress is the one of an earlier byte: the
registers are at all times the same with any other inputs at that edge. -/
structure Ignored (N : ℕ) (TX : Bool) (inp : ℕ → TxInput) (e : ℕ) : Prop where
  run_eq : ∀ i n, (uartTx N TX).run (Function.update inp e i) n = (uartTx N TX).run inp n
  progress : ∃ t, t < e ∧ e ≤ t + 10 * N ∧ Transmitted N TX inp t

section Flag

variable {N : ℕ} (h1 : 1 ≤ N) (hN : N ≤ 256) (TX : Bool) (inp : ℕ → TxInput)
include h1 hN

/-- While `o_TX_Active` is high the inputs are ignored. -/
theorem ignored_of_active {e : ℕ} (hact : ((uartTx N TX).run inp e).o_TX_Active = true) :
    Ignored N TX inp e := by
  obtain ⟨t, ht, hlt, hle⟩ := (active_iff h1 hN TX inp e).mp hact
  refine ⟨fun i => run_eq_of_busy h1 hN TX inp _ fun k hk => ?_, t, by omega, hle,
    transmitted_of_accepted h1 hN TX inp ht⟩
  have hne : k ≠ e := by
    rintro rfl
    exact hk t ht ⟨by omega, by omega⟩
  exact Function.update_of_ne hne i inp

/-- The edge that leaves `CLEANUP` finds `o_TX_Active` low. -/
theorem active_of_last {t : ℕ} (ht : Accepted N (dv inp) t) :
    ((uartTx N TX).run inp (t + 10 * N + 1)).o_TX_Active = false := by
  have hsend := ht.sending_eq (e := t + 10 * N + 1) (by omega) (by omega)
  rw [Bool.eq_false_iff, Ne, active_of_sending h1 hN TX inp hsend]
  omega

/-- A byte that is requested at that edge is lost: the line is still high one edge later. -/
theorem not_transmitted_of_last {t : ℕ} (ht : Accepted N (dv inp) t) :
    ¬Transmitted N TX inp (t + 10 * N + 1) := by
  intro htr
  have hlow := htr.start (t + 10 * N + 2) (by omega) (by omega)
  have hhigh : ((uartTx N TX).run inp (t + 10 * N + 2 + 1)).line = true := by
    refine line_of_quiet h1 hN TX inp fun u hu => ?_
    by_cases hlt : t < u
    · -- The next request can be taken one edge later.
      have := ht.spacing hu hlt
      omega
    · omega
  rw [hhigh] at hlow
  cases hlow

/-- A request that finds `o_TX_Active` low is accepted, unless it comes at that edge. -/
theorem accepted_of_not_active {e : ℕ} (hdv : dv inp e = true)
    (hact : ((uartTx N TX).run inp e).o_TX_Active = false)
    (hlast : ¬∃ t, Accepted N (dv inp) t ∧ e = t + 10 * N + 1) : Accepted N (dv inp) e := by
  rcases accepted_or hdv with he | ⟨t, ht, hlt, hle⟩
  · exact he
  · have hbusy := active_of_sending h1 hN TX inp (ht.sending_eq hlt hle)
    rw [hact] at hbusy
    refine absurd ⟨t, ht, ?_⟩ hlast
    simp only [Bool.false_eq_true, false_iff] at hbusy
    omega

end Flag

/-- When `o_TX_Active` is a sound busy flag at edge `e`: unless a request comes `10 N + 1` edges
after an accepted one. A client that requests only while the flag is low loses no byte exactly when
it never requests there. -/
theorem busy_flag_iff (N : ℕ) (h2 : 2 ≤ N) (hN : N ≤ 256) (TX : Bool) (inp : ℕ → TxInput) :
    (∀ e,
      ((dv inp e = true → ((uartTx N TX).run inp e).o_TX_Active = false →
          Transmitted N TX inp e) ∧
        (((uartTx N TX).run inp e).o_TX_Active = true → Ignored N TX inp e)) ↔
      ¬(dv inp e = true ∧ ∃ t, Greedy (10 * N + 2) (dv inp) t ∧ e = t + 10 * N + 1)) ∧
    ((∀ e, dv inp e = true → ((uartTx N TX).run inp e).o_TX_Active = false) →
      ((∀ e, dv inp e = true → Transmitted N TX inp e) ↔
        ∀ t, Greedy (10 * N + 2) (dv inp) t → dv inp (t + 10 * N + 1) = false)) := by
  have h1 : 1 ≤ N := by omega
  simp only [greedy_iff]
  refine ⟨fun e => ⟨?_, fun hno => ⟨fun hdv hact => ?_, ignored_of_active h1 hN TX inp⟩⟩,
    fun hclient => ⟨fun hall t ht => ?_, fun hno e hdv => ?_⟩⟩
  · rintro ⟨hlow, -⟩ ⟨hdv, t, ht, rfl⟩
    exact not_transmitted_of_last h1 hN TX inp ht (hlow hdv (active_of_last h1 hN TX inp ht))
  · have hlast := fun h => hno ⟨hdv, h⟩
    exact transmitted_of_accepted h1 hN TX inp (accepted_of_not_active h1 hN TX inp hdv hact hlast)
  · exact Bool.eq_false_iff.mpr fun hdv => not_transmitted_of_last h1 hN TX inp ht (hall _ hdv)
  · refine transmitted_of_accepted h1 hN TX inp
      (accepted_of_not_active h1 hN TX inp hdv (hclient e hdv) ?_)
    rintro ⟨t, ht, rfl⟩
    rw [hno t ht] at hdv
    cases hdv

/-- Two requests, the second one `10 * 217 + 1` edges after the first. -/
def early (k : ℕ) : TxInput := ⟨k == 0 || k == 2171, if k = 0 then 0x41 else 0x42⟩

/-- The statement at the rate of the designs, for these requests. -/
theorem busy_flag_iff_early :
    (∀ e,
      ((dv early e = true → ((uartTx 217 false).run early e).o_TX_Active = false →
          Transmitted 217 false early e) ∧
        (((uartTx 217 false).run early e).o_TX_Active = true → Ignored 217 false early e)) ↔
      ¬(dv early e = true ∧ ∃ t, Greedy (10 * 217 + 2) (dv early) t ∧ e = t + 10 * 217 + 1)) ∧
    ((∀ e, dv early e = true → ((uartTx 217 false).run early e).o_TX_Active = false) →
      ((∀ e, dv early e = true → Transmitted 217 false early e) ↔
        ∀ t, Greedy (10 * 217 + 2) (dv early) t → dv early (t + 10 * 217 + 1) = false)) :=
  busy_flag_iff 217 (by decide) (by decide) false early

/-- The flag is not sound in general: the second of these requests finds it low, and is lost. -/
theorem early_request_lost :
    ¬∀ (N : ℕ) (TX : Bool) (inp : ℕ → TxInput), 2 ≤ N → N ≤ 256 → ∀ e,
      (dv inp e = true → ((uartTx N TX).run inp e).o_TX_Active = false →
        Transmitted N TX inp e) ∧
      (((uartTx N TX).run inp e).o_TX_Active = true → Ignored N TX inp e) := by
  intro hclaim
  have ht : Accepted 217 (dv early) 0 := by decide
  have hlow := active_of_last (by decide) (by decide) false early ht
  have htr := (hclaim 217 false early (by decide) (by decide) (0 + 10 * 217 + 1)).1 (by decide) hlow
  exact not_transmitted_of_last (by decide) (by decide) false early ht htr

end GoBoard.Uart
