import GoBoard.Uart.Rx
import GoBoard.Uart.Scan

/-!
# `UART_RX` scans its waveform

The registers of the receiver before an edge are a function of where `scan` is on the waveform
(`Tracks`): which of the five states it is in, how far its counters are, and which byte its register
holds, with the bits of the current frame written over the last whole byte one at a time. One clock
edge moves the registers as it moves the scan (`Tracks.posedge`), for every count of clock edges per
bit that the 8-bit counter can reach. So `o_RX_DV` is high exactly after the reports of the rule
(`o_RX_DV_iff`), with the sampled byte on `o_RX_Byte`.
-/

namespace GoBoard.Uart

open Clocked (Machine counts_on getLsbD_writeBit toNat_add_one)

/-- The registers `s` are those of a receiver before edge `e` of the waveform `rx`, where its scan
is at `none` (armed) or at the start edge `t`. -/
inductive Tracks (N : ℕ) (rx : ℕ → Bool) (e : ℕ) (s : UartRx) : Option ℕ → Prop
  | idle : s.r_SM_Main = .idle → s.r_RX_DV = false → s.r_RX_Byte = held N rx e →
      Tracks N rx e s none
  | startBit {t : ℕ} : s.r_SM_Main = .rxStartBit → s.r_RX_DV = false → s.r_RX_Byte = held N rx e →
      s.r_Bit_Index = 0 → s.r_Clock_Count.toNat ≤ half N → e = t + 1 + s.r_Clock_Count.toNat →
      Tracks N rx e s (some t)
  | dataBits {t : ℕ} : s.r_SM_Main = .rxDataBits → s.r_RX_DV = false →
      (∀ j, j < 8 → s.r_RX_Byte.getLsbD j =
        if j < s.r_Bit_Index.toNat then rx (t + 1 + half N + (j + 1) * N)
        else (held N rx e).getLsbD j) →
      s.r_Clock_Count.toNat < N →
      e = t + 2 + half N + s.r_Bit_Index.toNat * N + s.r_Clock_Count.toNat →
      Tracks N rx e s (some t)
  | stopBit {t : ℕ} : s.r_SM_Main = .rxStopBit → s.r_RX_DV = false → s.r_RX_Byte = held N rx e →
      s.r_Clock_Count.toNat < N → e = t + 2 + half N + 8 * N + s.r_Clock_Count.toNat →
      Tracks N rx e s (some t)
  | cleanup {t : ℕ} : s.r_SM_Main = .cleanup → s.r_RX_DV = true → s.r_RX_Byte = held N rx e →
      e = t + 2 + half N + 9 * N → Tracks N rx e s (some t)

/-- `r_RX_DV` is high in `CLEANUP` only, one edge after the report. -/
theorem Tracks.of_r_RX_DV {N e : ℕ} {rx : ℕ → Bool} {s : UartRx} {o : Option ℕ}
    (h : Tracks N rx e s o) (hdv : s.r_RX_DV = true) :
    ∃ t, o = some t ∧ s.r_RX_Byte = held N rx e ∧ e = t + 2 + half N + 9 * N := by
  cases h with
  | idle _ hdv' => simp [hdv'] at hdv
  | startBit _ hdv' => simp [hdv'] at hdv
  | dataBits _ hdv' => simp [hdv'] at hdv
  | stopBit _ hdv' => simp [hdv'] at hdv
  | cleanup _ _ hb he => exact ⟨_, rfl, hb, he⟩

/-- In `RX_START_BIT` the counter is the time since the start edge. -/
theorem Tracks.of_rxStartBit {N e : ℕ} {rx : ℕ → Bool} {s : UartRx} {o : Option ℕ}
    (h : Tracks N rx e s o) (hsm : s.r_SM_Main = .rxStartBit) :
    ∃ t, o = some t ∧ e = t + 1 + s.r_Clock_Count.toNat := by
  cases h with
  | idle hsm' => simp [hsm'] at hsm
  | startBit _ _ _ _ _ he => exact ⟨_, rfl, he⟩
  | dataBits hsm' => simp [hsm'] at hsm
  | stopBit hsm' => simp [hsm'] at hsm
  | cleanup hsm' => simp [hsm'] at hsm

section Posedge

variable {N : ℕ} {rx : ℕ → Bool} {e t : ℕ} {s : UartRx}

/-- An edge in `IDLE` arms the start bit counter at a low level. -/
theorem Tracks.posedge_idle (hs : scan N rx e = none) (hsm : s.r_SM_Main = .idle)
    (hb : s.r_RX_Byte = held N rx e) :
    Tracks N rx (e + 1) (s.posedge N (rx e)) (scan N rx (e + 1)) := by
  have hheld := held_succ_none hs
  rw [scan_succ_none hs]
  unfold UartRx.posedge
  rw [hsm]
  dsimp only
  split_ifs with hlow
  · -- A low level: the scan starts here as well.
    refine .startBit rfl rfl ?_ rfl ?_ ?_
    · exact hb.trans hheld.symm
    · simp
    · simp
  · exact .idle rfl rfl (hb.trans hheld.symm)

/-- An edge in `RX_START_BIT` counts to the middle of the start bit, and tests the level there. -/
theorem Tracks.posedge_startBit (hN : N ≤ 256) (hs : scan N rx e = some t)
    (hsm : s.r_SM_Main = .rxStartBit) (hdv : s.r_RX_DV = false) (hb : s.r_RX_Byte = held N rx e)
    (hi : s.r_Bit_Index = 0) (hc : s.r_Clock_Count.toNat ≤ half N)
    (he : e = t + 1 + s.r_Clock_Count.toNat) (h1 : 1 ≤ N) :
    Tracks N rx (e + 1) (s.posedge N (rx e)) (scan N rx (e + 1)) := by
  have hhalf : half N = (N - 1) / 2 := rfl
  have hheld : held N rx (e + 1) = held N rx e := by
    rw [held_succ_some hs, if_neg (by omega)]
  rw [scan_succ_some hs]
  unfold UartRx.posedge
  rw [hsm]
  dsimp only
  by_cases hmid : s.r_Clock_Count.toNat = (N - 1) / 2
  · rw [if_pos hmid]
    cases hrx : rx e with
    | true =>
      -- The level is high again: back to `IDLE`, with the counter left where it is.
      rw [if_neg (by simp), if_pos ⟨by omega, rfl⟩]
      exact .idle rfl hdv (hb.trans hheld.symm)
    | false =>
      -- The start bit is confirmed. No bit of the new byte is written yet.
      rw [if_pos rfl, if_neg (by simp), if_neg (by omega)]
      refine .dataBits rfl hdv ?_ ?_ ?_
      · intro j hj
        rw [hheld, ← hb, hi]
        simp
      · simp
        omega
      · rw [hi]
        simp
        omega
  · have hlt : s.r_Clock_Count.toNat < half N := by omega
    obtain ⟨hc', he'⟩ := counts_on (N := half N + 1) (by omega) (by omega) he
    rw [if_neg hmid, if_neg (by omega), if_neg (by omega)]
    exact .startBit rfl hdv (hb.trans hheld.symm) hi (Nat.le_of_lt_succ hc') he'

/-- An edge in `RX_DATA_BITS` counts one bit period, and then writes the level into the bit that the
index names. The write of bit 7 completes the byte. -/
theorem Tracks.posedge_dataBits (hN : N ≤ 256) (h1 : 1 ≤ N) (hs : scan N rx e = some t)
    (hsm : s.r_SM_Main = .rxDataBits) (hdv : s.r_RX_DV = false)
    (hb : ∀ j, j < 8 → s.r_RX_Byte.getLsbD j =
      if j < s.r_Bit_Index.toNat then rx (t + 1 + half N + (j + 1) * N)
      else (held N rx e).getLsbD j)
    (hc : s.r_Clock_Count.toNat < N)
    (he : e = t + 2 + half N + s.r_Bit_Index.toNat * N + s.r_Clock_Count.toNat) :
    Tracks N rx (e + 1) (s.posedge N (rx e)) (scan N rx (e + 1)) := by
  have hi8 : s.r_Bit_Index.toNat < 8 := s.r_Bit_Index.isLt
  have hmul : s.r_Bit_Index.toNat * N ≤ 7 * N := Nat.mul_le_mul_right N (by omega)
  have hsucc := Nat.add_one_mul s.r_Bit_Index.toNat N
  have hscan : scan N rx (e + 1) = some t := by
    rw [scan_succ_some hs, if_neg (by omega), if_neg (by omega)]
  rw [hscan]
  unfold UartRx.posedge
  rw [hsm]
  dsimp only
  by_cases hlt : s.r_Clock_Count.toNat < N - 1
  · -- Between two samples nothing is written.
    have hheld : held N rx (e + 1) = held N rx e := by
      rw [held_succ_some hs, if_neg (by omega)]
    obtain ⟨hc', he'⟩ := counts_on hN (by omega) he
    rw [if_pos hlt]
    rw [← hheld] at hb
    exact .dataBits rfl hdv hb hc' he'
  · -- The sample edge of the bit that the index names.
    have hedge : e = t + 1 + half N + (s.r_Bit_Index.toNat + 1) * N := by omega
    rw [if_neg hlt]
    by_cases hi : s.r_Bit_Index.toNat < 7
    · have hheld : held N rx (e + 1) = held N rx e := by
        have : s.r_Bit_Index.toNat * N ≤ 6 * N := Nat.mul_le_mul_right N (by omega)
        rw [held_succ_some hs, if_neg (by omega)]
      rw [if_pos hi, if_pos hi]
      refine .dataBits rfl hdv ?_ ?_ ?_
      · intro j hj
        dsimp only
        rw [getLsbD_writeBit _ _ _ hj, hb j hj, toNat_add_one (by omega), hheld]
        -- Below the index are earlier samples, at it is this one, above it the last byte.
        rcases lt_trichotomy j s.r_Bit_Index.toNat with hji | rfl | hji
        · rw [if_neg (by omega), if_pos hji, if_pos (by omega)]
        · rw [if_pos rfl, if_pos (by omega), ← hedge]
        · rw [if_neg (by omega), if_neg (by omega), if_neg (by omega)]
      · simp
        omega
      · dsimp only
        rw [toNat_add_one (by omega)]
        simp
        omega
    · -- Bit 7: every bit of the register is now a sample of this frame.
      have hi7 : s.r_Bit_Index.toNat = 7 := by omega
      have hheld : held N rx (e + 1) = sampled N rx t := by
        rw [held_succ_some hs, if_pos (by rw [hi7] at hedge; omega)]
      rw [if_neg hi, if_neg hi]
      refine .stopBit rfl hdv ?_ ?_ ?_
      · dsimp only
        rw [hheld]
        apply BitVec.eq_of_getLsbD_eq
        intro j hj
        rw [getLsbD_writeBit _ _ _ hj, hb j hj, sampled_getLsbD N rx t hj, hi7]
        by_cases hj7 : j = 7
        · rw [if_pos hj7, hedge, hi7, hj7]
        · rw [if_neg hj7, if_pos (by omega)]
      · simp
        omega
      · rw [hi7] at hedge
        simp
        omega

/-- An edge in `RX_STOP_BIT` counts one bit period, and then raises `r_RX_DV`. -/
theorem Tracks.posedge_stopBit (hN : N ≤ 256) (h1 : 1 ≤ N) (hs : scan N rx e = some t)
    (hsm : s.r_SM_Main = .rxStopBit) (hdv : s.r_RX_DV = false) (hb : s.r_RX_Byte = held N rx e)
    (hc : s.r_Clock_Count.toNat < N) (he : e = t + 2 + half N + 8 * N + s.r_Clock_Count.toNat) :
    Tracks N rx (e + 1) (s.posedge N (rx e)) (scan N rx (e + 1)) := by
  have hscan : scan N rx (e + 1) = some t := by
    rw [scan_succ_some hs, if_neg (by omega), if_neg (by omega)]
  have hheld : held N rx (e + 1) = held N rx e := by
    rw [held_succ_some hs, if_neg (by omega)]
  rw [hscan]
  unfold UartRx.posedge
  rw [hsm]
  dsimp only
  by_cases hlt : s.r_Clock_Count.toNat < N - 1
  · obtain ⟨hc', he'⟩ := counts_on hN (by omega) he
    rw [if_pos hlt]
    exact .stopBit rfl hdv (hb.trans hheld.symm) hc' he'
  · rw [if_neg hlt]
    exact .cleanup rfl rfl (hb.trans hheld.symm) (by omega)

/-- The edge in `CLEANUP` lowers `r_RX_DV` and goes back to `IDLE`. -/
theorem Tracks.posedge_cleanup (hs : scan N rx e = some t) (hsm : s.r_SM_Main = .cleanup)
    (hb : s.r_RX_Byte = held N rx e) (he : e = t + 2 + half N + 9 * N) (h1 : 1 ≤ N) :
    Tracks N rx (e + 1) (s.posedge N (rx e)) (scan N rx (e + 1)) := by
  have hscan : scan N rx (e + 1) = none := by
    rw [scan_succ_some hs, if_neg (by omega), if_pos he]
  have hheld : held N rx (e + 1) = held N rx e := by
    rw [held_succ_some hs, if_neg (by omega)]
  rw [hscan]
  unfold UartRx.posedge
  rw [hsm]
  exact .idle rfl rfl (hb.trans hheld.symm)

/-- One clock edge of the receiver is one edge of the scan. -/
theorem Tracks.posedge (h1 : 1 ≤ N) (hN : N ≤ 256) (h : Tracks N rx e s (scan N rx e)) :
    Tracks N rx (e + 1) (s.posedge N (rx e)) (scan N rx (e + 1)) := by
  generalize hs : scan N rx e = o at h
  cases h with
  | idle hsm _ hb => exact posedge_idle hs hsm hb
  | startBit hsm hdv hb hi hc he => exact posedge_startBit hN hs hsm hdv hb hi hc he h1
  | dataBits hsm hdv hb hc he => exact posedge_dataBits hN h1 hs hsm hdv hb hc he
  | stopBit hsm hdv hb hc he => exact posedge_stopBit hN h1 hs hsm hdv hb hc he
  | cleanup hsm _ hb he => exact posedge_cleanup hs hsm hb he h1

end Posedge

section Run

variable {N : ℕ} (h1 : 1 ≤ N) (hN : N ≤ 256) (rx : ℕ → Bool)
include h1 hN

/-- The receiver follows the scan over its whole run. -/
theorem run_tracks (e : ℕ) : Tracks N rx e ((uartRx N).run rx e) (scan N rx e) :=
  Machine.run_induction (P := fun e s => Tracks N rx e s (scan N rx e)) (.idle rfl rfl rfl)
    (fun _ _ h => h.posedge h1 hN) e

/-- `o_RX_DV` is high exactly in the cycle after the report of a start. -/
theorem o_RX_DV_iff (e : ℕ) : ((uartRx N).run rx e).o_RX_DV = true ↔
    ∃ t, Reported N rx t ∧ e = t + 2 + half N + 9 * N := by
  have h := run_tracks h1 hN rx e
  unfold UartRx.o_RX_DV
  constructor
  · intro hdv
    obtain ⟨t, hs, -, he⟩ := h.of_r_RX_DV hdv
    exact ⟨t, reported_of_scan hs (by omega), he⟩
  · rintro ⟨t, ht, he⟩
    rw [ht.scan_eq (by omega) (by omega)] at h
    -- The other states are over before the report, so the counters put them at other edges.
    cases h with
    | startBit _ _ _ _ hc he' => omega
    | dataBits _ _ _ hc he' =>
      have := ((uartRx N).run rx e).r_Bit_Index.isLt
      have : ((uartRx N).run rx e).r_Bit_Index.toNat * N ≤ 7 * N :=
        Nat.mul_le_mul_right N (by omega)
      omega
    | stopBit _ _ _ hc he' => omega
    | cleanup _ hdv => exact hdv

/-- From a reported start to the sample of its stop bit `o_RX_DV` is low. -/
theorem o_RX_DV_of_reported {t e : ℕ} (ht : Reported N rx t) (hlt : t < e)
    (hle : e ≤ t + 1 + half N + 9 * N) : ((uartRx N).run rx e).o_RX_DV = false := by
  rw [Bool.eq_false_iff, Ne, o_RX_DV_iff h1 hN]
  rintro ⟨u, hu, rfl⟩
  -- Another report would be too close to this one.
  have := hu.eq_or_apart ht
  omega

/-- The byte that is on `o_RX_Byte` while `o_RX_DV` is high is the sampled one. -/
theorem o_RX_Byte_eq {t : ℕ} (ht : Reported N rx t) :
    ((uartRx N).run rx (t + 2 + half N + 9 * N)).o_RX_Byte = sampled N rx t := by
  have h := run_tracks h1 hN rx (t + 2 + half N + 9 * N)
  have hdv := (o_RX_DV_iff h1 hN rx (t + 2 + half N + 9 * N)).mpr ⟨t, ht, rfl⟩
  obtain ⟨-, -, hb, -⟩ := h.of_r_RX_DV hdv
  exact hb.trans (ht.held_eq_sampled h1 (by omega) le_rfl)

/-- The reports of the receiver are those of the rule. -/
theorem reports_iff (e : ℕ) (b : BitVec 8) : reports N rx e = some b ↔
    ∃ t, Reported N rx t ∧ e = t + 2 + half N + 9 * N ∧ b = sampled N rx t := by
  rw [reports_eq_some_iff, o_RX_DV_iff h1 hN]
  constructor
  · rintro ⟨⟨t, ht, rfl⟩, hb⟩
    exact ⟨t, ht, rfl, by rw [← hb, o_RX_Byte_eq h1 hN rx ht]⟩
  · rintro ⟨t, ht, rfl, rfl⟩
    exact ⟨⟨t, ht, rfl⟩, o_RX_Byte_eq h1 hN rx ht⟩

/-- Whatever the line does, two reports are at least one re-arm time apart. -/
theorem reports_spacing {e e' : ℕ} (he : reports N rx e ≠ none) (he' : reports N rx e' ≠ none)
    (hlt : e < e') : e + (half N + 9 * N + 3) ≤ e' := by
  obtain ⟨b, hb⟩ := Option.ne_none_iff_exists'.mp he
  obtain ⟨c, hc⟩ := Option.ne_none_iff_exists'.mp he'
  obtain ⟨t, ht, rfl, -⟩ := (reports_iff h1 hN rx e b).mp hb
  obtain ⟨u, hu, rfl, -⟩ := (reports_iff h1 hN rx e' c).mp hc
  have := ht.spacing hu (by omega)
  omega

/-- On a readable waveform the receiver reports exactly the frames, each `half N + 9 N + 2` edges
after its start. -/
theorem Readable.reports_iff {rx : ℕ → Bool} {F : Set (ℕ × BitVec 8)} (h : Readable N rx F) (e : ℕ)
    (b : BitVec 8) : reports N rx e = some b ↔ ∃ t, (t, b) ∈ F ∧ e = t + 2 + half N + 9 * N := by
  rw [Uart.reports_iff h1 hN]
  constructor
  · rintro ⟨t, ht, he, rfl⟩
    obtain ⟨b, hb⟩ := (h.reported_iff t).mp ht
    exact ⟨t, by rwa [h.sampled_eq hb], he⟩
  · rintro ⟨t, hb, he⟩
    exact ⟨t, (h.reported_iff t).mpr ⟨b, hb⟩, he, (h.sampled_eq hb).symm⟩

end Run

/-- `UART_RX` refines the scan of its waveform: from the initial registers, `o_RX_DV` is high
exactly in the cycle after edge `t + 1 + half N + 9 N` for the reported starts `t`, with the sampled
byte on `o_RX_Byte` in that cycle, and low in every other cycle. -/
theorem uartRx_refines_scan (N : ℕ) (h2 : 2 ≤ N) (hN : N ≤ 256) (rx : ℕ → Bool) :
    (∀ n, ((uartRx N).run rx n).o_RX_DV = true ↔
      ∃ t, Reported N rx t ∧ n = t + 1 + half N + 9 * N + 1) ∧
    ∀ t, Reported N rx t →
      ((uartRx N).run rx (t + 1 + half N + 9 * N + 1)).o_RX_Byte = sampled N rx t := by
  have hedge : ∀ t, t + 1 + half N + 9 * N + 1 = t + 2 + half N + 9 * N := fun t => by omega
  constructor
  · intro n
    simp only [hedge]
    exact o_RX_DV_iff (by omega) hN rx n
  · intro t ht
    rw [hedge]
    exact o_RX_Byte_eq (by omega) hN rx ht

/-- The refinement at the rate of the designs, on a line that is held low. -/
theorem uartRx_refines_scan_break :
    (∀ n, ((uartRx 217).run (fun _ => false) n).o_RX_DV = true ↔
      ∃ t, Reported 217 (fun _ => false) t ∧ n = t + 1 + half 217 + 9 * 217 + 1) ∧
    ∀ t, Reported 217 (fun _ => false) t →
      ((uartRx 217).run (fun _ => false) (t + 1 + half 217 + 9 * 217 + 1)).o_RX_Byte =
        sampled 217 (fun _ => false) t :=
  uartRx_refines_scan 217 (by decide) (by decide) fun _ => false

end GoBoard.Uart
