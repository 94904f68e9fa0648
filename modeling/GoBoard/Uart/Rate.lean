import GoBoard.Uart.TxSpec

/-!
# The values of `CLKS_PER_BIT`

The headers of both machines document `CLKS_PER_BIT` as a ratio of two frequencies, without a bound,
but `r_Clock_Count` has eight bits. `Works` is what the two machines promise for a value: the
transmitter is ready again `10 N + 2` edges after it takes a byte, the receiver reports `9 N` edges
after it confirms a start bit, and neither stays in a bit state for ever. They keep it exactly up to
256 (`works_iff`). Above, the counter wraps before it gets to `CLKS_PER_BIT - 1`: the transmitter
never leaves the start bit of its first byte (`run_txStartBit`), and the receiver never leaves the
data bits of a start that it confirms (`run_rxDataBits`).
-/

namespace GoBoard.Uart

open Clocked (Machine)

/-! ## What is promised for a value -/

/-- The transmitter that takes a byte at edge `t` is back in `IDLE` exactly at edge
`t + 10 N + 2`. -/
structure Returns (N : ℕ) (TX : Bool) (inp : ℕ → TxInput) (t : ℕ) : Prop where
  busy : ∀ e, t < e → e < t + 10 * N + 2 → ((uartTx N TX).run inp e).r_SM_Main ≠ .idle
  idle : ((uartTx N TX).run inp (t + 10 * N + 2)).r_SM_Main = .idle

/-- The receiver confirms a start bit at edge `t`. -/
structure Confirms (N : ℕ) (rx : ℕ → Bool) (t : ℕ) : Prop where
  before : ((uartRx N).run rx t).r_SM_Main = .rxStartBit
  after : ((uartRx N).run rx (t + 1)).r_SM_Main = .rxDataBits

/-- The receiver that confirms a start bit at edge `t` raises `o_RX_DV` exactly at edge
`t + 9 N`. -/
structure Raises (N : ℕ) (rx : ℕ → Bool) (t : ℕ) : Prop where
  low : ∀ e, t < e → e ≤ t + 9 * N → ((uartRx N).run rx e).o_RX_DV = false
  high : ((uartRx N).run rx (t + 9 * N + 1)).o_RX_DV = true

/-- The states of the transmitter that last for a bit, or for eight. -/
def TxState.IsBit (σ : TxState) : Prop := σ = .txStartBit ∨ σ = .txDataBits ∨ σ = .txStopBit

/-- The states of the receiver that last for a bit, or for eight. -/
def RxState.IsBit (σ : RxState) : Prop := σ = .rxStartBit ∨ σ = .rxDataBits ∨ σ = .rxStopBit

/-- Both machines work at `N` clock edges per bit, whatever their inputs do. -/
structure Works (N : ℕ) : Prop where
  returns : ∀ TX inp t, accepts N TX inp t ≠ none → Returns N TX inp t
  raises : ∀ rx t, Confirms N rx t → Raises N rx t
  /-- The transmitter does not stay in a bit state for ever. -/
  txLeaves : ∀ TX inp (σ : TxState), σ.IsBit → ∀ e, ∃ e', e ≤ e' ∧
    ((uartTx N TX).run inp e').r_SM_Main ≠ σ
  /-- The receiver does not stay in a bit state for ever. -/
  rxLeaves : ∀ rx (σ : RxState), σ.IsBit → ∀ e, ∃ e', e ≤ e' ∧
    ((uartRx N).run rx e').r_SM_Main ≠ σ

/-- The receiver leaves the start bit for the data bits in the middle of a low start bit only. -/
theorem of_posedge_rxDataBits {N : ℕ} {s : UartRx} {x : Bool} (hs : s.r_SM_Main = .rxStartBit)
    (h : (s.posedge N x).r_SM_Main = .rxDataBits) :
    s.r_Clock_Count.toNat = half N ∧ x = false := by
  unfold UartRx.posedge at h
  rw [hs] at h
  dsimp only at h
  -- The other two branches lead to `IDLE` and to `RX_START_BIT`.
  split_ifs at h with hmid hlow
  exact ⟨hmid, hlow⟩

/-- A line that is low keeps the receiver in the start bit until its middle. -/
theorem posedge_rxStartBit_low {N : ℕ} {s : UartRx} (hs : s.r_SM_Main = .rxStartBit) :
    (s.posedge N false).r_SM_Main = .rxStartBit ∨ (s.posedge N false).r_SM_Main = .rxDataBits := by
  unfold UartRx.posedge
  rw [hs]
  dsimp only
  by_cases hmid : s.r_Clock_Count.toNat = (N - 1) / 2
  · rw [if_pos hmid]
    exact .inr rfl
  · rw [if_neg hmid]
    exact .inl rfl

/-- A byte is taken in `IDLE`, which leads to the start bit. -/
theorem txStartBit_of_accepts {N : ℕ} {TX : Bool} {inp : ℕ → TxInput} {t : ℕ}
    (ht : accepts N TX inp t ≠ none) :
    ((uartTx N TX).run inp (t + 1)).r_SM_Main = .txStartBit := by
  unfold accepts at ht
  split_ifs at ht with hacc
  · show (((uartTx N TX).run inp t).posedge N (inp t)).r_SM_Main = .txStartBit
    unfold UartTx.posedge
    rw [hacc.1]
    dsimp only
    rw [if_pos hacc.2]
  · exact absurd rfl ht

/-! ## Values that the counter can count -/

section Counted

variable {N : ℕ} (h1 : 1 ≤ N) (hN : N ≤ 256)
include h1 hN

theorem accepted_of_accepts {TX : Bool} {inp : ℕ → TxInput} {t : ℕ}
    (ht : accepts N TX inp t ≠ none) : Accepted N (dv inp) t := by
  obtain ⟨b, hb⟩ := Option.ne_none_iff_exists'.mp ht
  exact ((accepts_eq_some_iff h1 hN TX inp t b).mp hb).1

theorem Accepted.returns {TX : Bool} {inp : ℕ → TxInput} {t : ℕ} (ht : Accepted N (dv inp) t) :
    Returns N TX inp t := by
  constructor
  · intro e hlt hle
    rw [Ne, idle_iff h1 hN TX inp e, ht.sending_eq hlt (by omega)]
    simp
  · have hs := ht.sending_eq (e := t + 10 * N + 1) (by omega) (by omega)
    rw [idle_iff h1 hN TX inp, show t + 10 * N + 2 = t + 10 * N + 1 + 1 by omega,
      sending_succ_some hs, if_pos (by omega)]

/-- The transmitter comes back to `IDLE` again and again. -/
theorem exists_tx_idle (TX : Bool) (inp : ℕ → TxInput) (e : ℕ) :
    ∃ e', e ≤ e' ∧ ((uartTx N TX).run inp e').r_SM_Main = .idle := by
  cases hs : sending N (dv inp) e with
  | none => exact ⟨e, le_rfl, (idle_iff h1 hN TX inp e).mpr hs⟩
  | some t =>
    obtain ⟨ht, -, hle⟩ := accepted_of_sending hs
    exact ⟨t + 10 * N + 2, by omega, (ht.returns h1 hN).idle⟩

/-- The receiver is in `IDLE` where the scan is armed. -/
theorem rx_idle_of_scan {rx : ℕ → Bool} {e : ℕ} (hs : scan N rx e = none) :
    ((uartRx N).run rx e).r_SM_Main = .idle := by
  have h := run_tracks h1 hN rx e
  rw [hs] at h
  cases h with
  | idle hsm => exact hsm

/-- The receiver comes back to `IDLE` again and again. -/
theorem exists_rx_idle (rx : ℕ → Bool) (e : ℕ) :
    ∃ e', e ≤ e' ∧ ((uartRx N).run rx e').r_SM_Main = .idle := by
  cases hs : scan N rx e with
  | none => exact ⟨e, le_rfl, rx_idle_of_scan h1 hN hs⟩
  | some t =>
    obtain ⟨-, hle, hmid⟩ := bounds_of_scan hs
    cases hm : rx (t + 1 + half N) with
    | true =>
      -- The start is rejected, so the edge is not past the middle of the start bit.
      have hle' : e ≤ t + half N + 2 := by
        by_contra hno
        rw [hmid (by omega)] at hm
        cases hm
      exact ⟨_, hle', rx_idle_of_scan h1 hN (scan_of_reject hs hm)⟩
    | false => exact ⟨_, by omega, rx_idle_of_scan h1 hN (scan_of_report hs hm)⟩

/-- A start bit that the receiver confirms is that of a reported start. -/
theorem Confirms.reported {rx : ℕ → Bool} {t : ℕ} (ht : Confirms N rx t) :
    ∃ u, Reported N rx u ∧ t = u + 1 + half N := by
  obtain ⟨hmid, hlow⟩ := of_posedge_rxDataBits ht.before ht.after
  obtain ⟨u, hs, he⟩ := (run_tracks h1 hN rx t).of_rxStartBit ht.before
  rw [hmid] at he
  -- The start is not rejected at this edge, so the scan goes on to its report.
  have hs' : scan N rx (t + 1) = some u := by
    rw [scan_succ_some hs, if_neg (by simp [hlow]), if_neg (by omega)]
  exact ⟨u, reported_of_scan hs' (by omega), he⟩

theorem Confirms.raises {rx : ℕ → Bool} {t : ℕ} (ht : Confirms N rx t) : Raises N rx t := by
  obtain ⟨u, hu, rfl⟩ := ht.reported h1 hN
  constructor
  · intro e hlt hle
    exact o_RX_DV_of_reported h1 hN rx hu (by omega) (by omega)
  · rw [o_RX_DV_iff h1 hN]
    exact ⟨u, hu, by omega⟩

theorem works_of_le : Works N where
  returns _ _ _ ht := (accepted_of_accepts h1 hN ht).returns h1 hN
  raises _ _ ht := ht.raises h1 hN
  txLeaves TX inp σ hσ e := by
    obtain ⟨e', hle, hidle⟩ := exists_tx_idle h1 hN TX inp e
    refine ⟨e', hle, ?_⟩
    rw [hidle]
    rintro rfl
    simp [TxState.IsBit] at hσ
  rxLeaves rx σ hσ e := by
    obtain ⟨e', hle, hidle⟩ := exists_rx_idle h1 hN rx e
    refine ⟨e', hle, ?_⟩
    rw [hidle]
    rintro rfl
    simp [RxState.IsBit] at hσ

end Counted

/-! ## Values that it cannot count -/

section Wraps

variable {N : ℕ} (hN : 256 < N)
include hN

/-- The transmitter does not get out of a start bit: the counter never shows the last edge of it. -/
theorem posedge_txStartBit (s : UartTx) (i : TxInput) (hs : s.r_SM_Main = .txStartBit) :
    (s.posedge N i).r_SM_Main = .txStartBit := by
  have hc : s.r_Clock_Count.toNat < 256 := s.r_Clock_Count.isLt
  unfold UartTx.posedge
  rw [hs]
  dsimp only
  rw [if_neg (by omega)]

/-- The receiver does not get out of the data bits, and `r_RX_DV` stays as it is. -/
theorem posedge_rxDataBits (s : UartRx) (x : Bool) (hs : s.r_SM_Main = .rxDataBits) :
    (s.posedge N x).r_SM_Main = .rxDataBits ∧ (s.posedge N x).r_RX_DV = s.r_RX_DV := by
  have hc : s.r_Clock_Count.toNat < 256 := s.r_Clock_Count.isLt
  unfold UartRx.posedge
  rw [hs]
  dsimp only
  rw [if_pos (by omega)]
  exact ⟨rfl, rfl⟩

theorem run_txStartBit {TX : Bool} {inp : ℕ → TxInput} {e e' : ℕ} (hle : e ≤ e')
    (h : ((uartTx N TX).run inp e).r_SM_Main = .txStartBit) :
    ((uartTx N TX).run inp e').r_SM_Main = .txStartBit :=
  Machine.run_of_le (P := fun s : UartTx => s.r_SM_Main = .txStartBit)
    (posedge_txStartBit hN) hle h

theorem run_rxDataBits {rx : ℕ → Bool} {e e' : ℕ} (hle : e ≤ e')
    (h : ((uartRx N).run rx e).r_SM_Main = .rxDataBits) :
    ((uartRx N).run rx e').r_SM_Main = .rxDataBits :=
  Machine.run_of_le (P := fun s : UartRx => s.r_SM_Main = .rxDataBits)
    (fun s x hs => (posedge_rxDataBits hN s x hs).1) hle h

theorem not_returns {TX : Bool} {inp : ℕ → TxInput} {t : ℕ} (ht : accepts N TX inp t ≠ none) :
    ¬Returns N TX inp t := by
  intro hret
  have hstart := run_txStartBit hN (show t + 1 ≤ t + 10 * N + 2 by omega)
    (txStartBit_of_accepts ht)
  rw [hret.idle] at hstart
  cases hstart

theorem not_raises {rx : ℕ → Bool} {t : ℕ} (ht : Confirms N rx t) : ¬Raises N rx t := by
  intro hraise
  have hdata := run_rxDataBits hN (show t + 1 ≤ t + 9 * N by omega) ht.after
  have hkeep := (posedge_rxDataBits hN _ (rx (t + 9 * N)) hdata).2
  have hlow := hraise.low (t + 9 * N) (by omega) le_rfl
  have hhigh := hraise.high
  rw [Machine.run_succ] at hhigh
  exact Bool.noConfusion (hlow.symm.trans (hkeep.symm.trans hhigh))

/-- The transmitter that is given a byte stays in its start bit for ever. -/
theorem not_txLeaves (TX : Bool) : ¬∀ inp (σ : TxState), σ.IsBit → ∀ e, ∃ e', e ≤ e' ∧
    ((uartTx N TX).run inp e').r_SM_Main ≠ σ := by
  intro hleaves
  have ht : accepts N TX (fun _ => ⟨true, 0⟩) 0 ≠ none := by simp [accepts, uartTx, UartTx.init]
  obtain ⟨e', hle, hne⟩ := hleaves (fun _ => ⟨true, 0⟩) .txStartBit (.inl rfl) 1
  exact hne (run_txStartBit hN hle (txStartBit_of_accepts ht))

/-- The receiver on a line that is held low stays for ever in the start bit, or in the data bits
once it gets there. -/
theorem not_rxLeaves : ¬∀ rx (σ : RxState), σ.IsBit → ∀ e, ∃ e', e ≤ e' ∧
    ((uartRx N).run rx e').r_SM_Main ≠ σ := by
  intro hleaves
  by_cases hdata : ∃ e, ((uartRx N).run (fun _ => false) e).r_SM_Main = .rxDataBits
  · obtain ⟨e, he⟩ := hdata
    obtain ⟨e', hle, hne⟩ := hleaves (fun _ => false) .rxDataBits (.inr (.inl rfl)) e
    exact hne (run_rxDataBits hN hle he)
  · obtain ⟨e', hle, hne⟩ := hleaves (fun _ => false) .rxStartBit (.inl rfl) 1
    refine hne ?_
    clear hne
    induction e', hle using Nat.le_induction with
    | base => rfl
    | succ e' _ ih =>
      rcases posedge_rxStartBit_low (N := N) ih with h | h
      · exact h
      · exact absurd ⟨e' + 1, h⟩ hdata

end Wraps

/-! ## The exact bound -/

/-- Both machines work exactly for the values up to 256; and a value up to 256 is what decides it
for every byte that is taken and every start bit that is confirmed. -/
theorem works_iff (N : ℕ) (h2 : 2 ≤ N) : (Works N ↔ N ≤ 256) ∧
    (∀ TX inp t, accepts N TX inp t ≠ none → (Returns N TX inp t ↔ N ≤ 256)) ∧
    (∀ rx t, Confirms N rx t → (Raises N rx t ↔ N ≤ 256)) := by
  have h1 : 1 ≤ N := by omega
  refine ⟨⟨fun hw => ?_, works_of_le h1⟩, fun TX inp t ht => ⟨fun hret => ?_, fun hN => ?_⟩,
    fun rx t ht => ⟨fun hraise => ?_, ht.raises h1⟩⟩
  · by_contra hno
    exact not_rxLeaves (by omega) hw.rxLeaves
  · by_contra hno
    exact not_returns (by omega) ht hret
  · exact (accepted_of_accepts h1 hN ht).returns h1 hN
  · by_contra hno
    exact not_raises (by omega) ht hraise

/-- At 217 edges per bit, as in the designs, and for a byte taken at edge 0. -/
theorem works_iff_217 : (Works 217 ↔ 217 ≤ 256) ∧
    (∀ TX inp t, accepts 217 TX inp t ≠ none → (Returns 217 TX inp t ↔ 217 ≤ 256)) ∧
    (∀ rx t, Confirms 217 rx t → (Raises 217 rx t ↔ 217 ≤ 256)) :=
  works_iff 217 (by decide)

/-- The machines do not work for every documented value: at 257 edges per bit they do not. -/
theorem not_works_257 : ¬Works 257 := fun hw => not_txLeaves (by decide) false (hw.txLeaves false)

end GoBoard.Uart
