import GoBoard.Uart.RxByte
import Mathlib.Data.Nat.Find

/-!
# The receiver on lines that are not clean

What `UART_RX` makes of a line that does not carry frames only.

It samples the stop bit and does not look at it, so a start whose stop bit is low is reported like
any other: `o_RX_DV` is raised on high levels only exactly when the waveform has no framing error
(`stop_bit_high_iff`). It recovers by itself: after `9 N + 1` high levels it is back in `IDLE`, and
what it reports from then on does not depend on the waveform before (`uartRx_resyncs`). And it
rejects noise: low runs of at most `half N + 1` edges, with as much high between them, leave its
outputs alone, and frames that follow are reported as on a clean line (`noise_then_frames`).
-/

namespace GoBoard.Uart

open Serial (Separated frameBit)

/-! ## A low stop bit -/

/-- `o_RX_DV` is raised at edge `d`. -/
structure RaisedAt (N : ℕ) (rx : ℕ → Bool) (d : ℕ) : Prop where
  before : ((uartRx N).run rx d).o_RX_DV = false
  after : ((uartRx N).run rx (d + 1)).o_RX_DV = true

/-- A reported start has a framing error when the line is low at the sample of its stop bit. -/
structure FramingError (N : ℕ) (rx : ℕ → Bool) (t : ℕ) : Prop where
  reported : Reported N rx t
  stop : rx (t + 1 + half N + 9 * N) = false

section Run

variable {N : ℕ} (h1 : 1 ≤ N) (hN : N ≤ 256) (rx : ℕ → Bool)
include h1 hN

/-- `o_RX_DV` is raised at the samples of the stop bits of the reported starts. -/
theorem raisedAt_iff (d : ℕ) : RaisedAt N rx d ↔
    ∃ t, Reported N rx t ∧ d = t + 1 + half N + 9 * N := by
  constructor
  · intro hd
    obtain ⟨t, ht, he⟩ := (o_RX_DV_iff h1 hN rx (d + 1)).mp hd.after
    exact ⟨t, ht, by omega⟩
  · rintro ⟨t, ht, rfl⟩
    exact ⟨o_RX_DV_of_reported h1 hN rx ht (by omega) le_rfl,
      (o_RX_DV_iff h1 hN rx _).mpr ⟨t, ht, by omega⟩⟩

end Run

/-- Up to edge `T`, `o_RX_DV` is raised on a high line only exactly when no stop bit that is sampled
before `T` is low. A start with a low stop bit is reported all the same. -/
theorem stop_bit_high_iff (N : ℕ) (h2 : 2 ≤ N) (hN : N ≤ 256) (rx : ℕ → Bool) :
    (∀ T, (∀ d, d < T → RaisedAt N rx d → rx d = true) ↔
      ∀ t, FramingError N rx t → T ≤ t + 1 + half N + 9 * N) ∧
    ∀ t, FramingError N rx t → reports N rx (t + 2 + half N + 9 * N) = some (sampled N rx t) := by
  have h1 : 1 ≤ N := by omega
  refine ⟨fun T => ⟨fun hall t ht => ?_, fun hno d hd hraise => ?_⟩, fun t ht => ?_⟩
  · by_contra hT
    have hhigh := hall _ (by omega) ((raisedAt_iff h1 hN rx _).mpr ⟨t, ht.reported, rfl⟩)
    rw [ht.stop] at hhigh
    cases hhigh
  · obtain ⟨t, ht, rfl⟩ := (raisedAt_iff h1 hN rx d).mp hraise
    by_contra hlow
    have := hno t ⟨ht, Bool.eq_false_iff.mpr hlow⟩
    omega
  · exact (reports_iff h1 hN rx _ _).mpr ⟨t, ht.reported, rfl, rfl⟩

/-- The statement at the rate of the designs, on a line that is held low. -/
theorem stop_bit_high_iff_break :
    (∀ T, (∀ d, d < T → RaisedAt 217 (fun _ => false) d → false = true) ↔
      ∀ t, FramingError 217 (fun _ => false) t → T ≤ t + 1 + half 217 + 9 * 217) ∧
    ∀ t, FramingError 217 (fun _ => false) t →
      reports 217 (fun _ => false) (t + 2 + half 217 + 9 * 217) =
        some (sampled 217 (fun _ => false) t) :=
  stop_bit_high_iff 217 (by decide) (by decide) fun _ => false

/-- A break is delivered as data: on a line that is held low `o_RX_DV` is raised. -/
theorem break_raises : ¬∀ d, RaisedAt 217 (fun _ => false) d → false = true := by
  intro hclaim
  have ht : Reported 217 (fun _ => false) 0 := reported_iff.mpr ⟨rfl, rfl, rfl⟩
  have hd := (raisedAt_iff (by decide) (by decide) _ _).mpr ⟨0, ht, rfl⟩
  exact absurd (hclaim _ hd) (by decide)

/-! ## After an idle line -/

section Resync

variable {N : ℕ} {rx : ℕ → Bool} {m K : ℕ}

/-- After `9 N + 1` high levels the scan is armed. The longest it can take is from a start that is
confirmed at the last edge before them. -/
theorem scan_of_high (hK : 9 * N + 1 ≤ K) (hhigh : ∀ k, k < K → rx (m + k) = true) :
    scan N rx (m + K) = none := by
  have hhalf : half N = (N - 1) / 2 := rfl
  have hhigh' : ∀ u, m ≤ u → u < m + K → rx u = true := by
    intro u hle hlt
    rw [show u = m + (u - m) by omega]
    exact hhigh _ (by omega)
  cases hs : scan N rx m with
  | none => exact scan_wait hs (by omega) hhigh'
  | some t =>
    obtain ⟨hlt, hle, hmid⟩ := bounds_of_scan hs
    by_cases hpast : t + 1 + half N < m
    · -- The start was confirmed before, and is reported on the high line.
      have harm := scan_of_report hs (hmid hpast)
      exact scan_wait harm (by omega) fun u hu hu' => hhigh' u (by omega) hu'
    · -- The start is rejected by the high line.
      have harm := scan_of_reject hs (hhigh' _ (by omega) (by omega))
      exact scan_wait harm (by omega) fun u hu hu' => hhigh' u (by omega) hu'

/-- From an edge at which the scan is armed the receiver reports what a new one would. -/
theorem reports_add (h1 : 1 ≤ N) (hN : N ≤ 256) (hs : scan N rx m = none) (n : ℕ) :
    reports N rx (m + n) = reports N (tail rx m) n := by
  ext b
  rw [reports_iff h1 hN, reports_iff h1 hN]
  constructor
  · rintro ⟨t, ht, he, rfl⟩
    -- A start from before edge `m` was reported before it.
    have hmt : m ≤ t := by
      have := ht.over hs
      omega
    obtain ⟨u, rfl⟩ := Nat.exists_eq_add_of_le hmt
    exact ⟨u, (reported_add hs).mp ht, by omega, sampled_add N rx m u⟩
  · rintro ⟨u, hu, he, rfl⟩
    exact ⟨m + u, (reported_add hs).mpr hu, by omega, (sampled_add N rx m u).symm⟩

end Resync

/-- Equal reports are equal levels of `o_RX_DV`, and equal bytes where it is high. -/
theorem report_eq_iff {s s' : UartRx} : s.report = s'.report ↔
    s.o_RX_DV = s'.o_RX_DV ∧ (s.o_RX_DV = true → s.o_RX_Byte = s'.o_RX_Byte) := by
  unfold UartRx.report
  cases s.o_RX_DV with
  | false => cases s'.o_RX_DV with
    | false => simp
    | true => simp
  | true => cases s'.o_RX_DV with
    | false => simp
    | true => simp

/-- The receiver has forgotten the waveform before edge `a`: it is in `IDLE` with `o_RX_DV` low, and
its outputs on whatever follows are those of a receiver that starts there. -/
structure Resynced (N : ℕ) (rx : ℕ → Bool) (a : ℕ) : Prop where
  idle : ((uartRx N).run rx a).r_SM_Main = .idle
  low : ((uartRx N).run rx a).o_RX_DV = false
  dv : ∀ n, ((uartRx N).run rx (a + n)).o_RX_DV = ((uartRx N).run (tail rx a) n).o_RX_DV
  byte : ∀ n, ((uartRx N).run rx (a + n)).o_RX_DV = true →
    ((uartRx N).run rx (a + n)).o_RX_Byte = ((uartRx N).run (tail rx a) n).o_RX_Byte

/-- The receiver resynchronises itself: any history that ends in `9 N + 1` high levels is
forgotten. -/
theorem uartRx_resyncs (N : ℕ) (h2 : 2 ≤ N) (hN : N ≤ 256) (rx : ℕ → Bool) (m K : ℕ)
    (hK : 9 * N + 1 ≤ K) (hhigh : ∀ k, k < K → rx (m + k) = true) : Resynced N rx (m + K) := by
  have h1 : 1 ≤ N := by omega
  have hs := scan_of_high hK hhigh
  have hreport := fun n => report_eq_iff.mp (reports_add h1 hN hs n)
  have h := run_tracks h1 hN rx (m + K)
  rw [hs] at h
  cases h with
  | idle hsm hdv _ => exact ⟨hsm, hdv, fun n => (hreport n).1, fun n => (hreport n).2⟩

/-- At the rate of the designs, after a start bit that is cut short. -/
theorem uartRx_resyncs_217 : Resynced 217 (fun k => decide (200 ≤ k)) (200 + 1954) :=
  uartRx_resyncs 217 (by decide) (by decide) (fun k => decide (200 ≤ k)) 200 1954 (by decide)
    fun k _ => decide_eq_true (Nat.le_add_right 200 k)

/-! ## Noise -/

/-- The waveform up to edge `L` is noise for a receiver that waits `H` edges for the middle of a
start bit: it starts high, no `H + 2` consecutive levels are low, and a high run between two low
levels has at least `H + 1` edges. -/
structure Noise (H : ℕ) (rx : ℕ → Bool) (L : ℕ) : Prop where
  start : 0 < L → rx 0 = true
  low : ∀ t, t + H + 1 < L → ∃ k, k ≤ H + 1 ∧ rx (t + k) = true
  high : ∀ a b, a + 1 < b → b < L → rx a = false → rx b = false →
    (∀ k, a < k → k < b → rx k = true) → a + H + 2 ≤ b

/-- A level that a waveform has at edge `u` it has for a first time from edge `t` on. -/
theorem exists_first {rx : ℕ → Bool} {x : Bool} {t u : ℕ} (hle : t ≤ u) (hu : rx u = x) :
    ∃ c, t ≤ c ∧ c ≤ u ∧ rx c = x ∧ ∀ k, t ≤ k → k < c → rx k = !x := by
  have hex : ∃ c, t ≤ c ∧ rx c = x := ⟨u, hle, hu⟩
  refine ⟨Nat.find hex, (Nat.find_spec hex).1, Nat.find_min' hex ⟨hle, hu⟩, (Nat.find_spec hex).2,
    fun k htk hk => ?_⟩
  have hno := Nat.find_min hex hk
  rw [Bool.eq_not]
  exact fun hx => hno ⟨htk, hx⟩

/-- In noise a low level is followed by a high one half a bit later. -/
theorem Noise.rx_eq_true {H L t : ℕ} {rx : ℕ → Bool} (h : Noise H rx L) (hlow : rx t = false)
    (ht : t + 1 + H < L) : rx (t + 1 + H) = true := by
  by_contra hend
  rw [Bool.not_eq_true] at hend
  -- `c` is the first high level after `t`, and `b` the first low one after that.
  obtain ⟨k, hk, hhigh⟩ := h.low t (by omega)
  obtain ⟨c, htc, hck, hc, hlows⟩ := exists_first (show t ≤ t + k by omega) hhigh
  have hct : c ≠ t := by
    rintro rfl
    rw [hlow] at hc
    cases hc
  have hce : c ≠ t + 1 + H := by
    rintro rfl
    rw [hend] at hc
    cases hc
  obtain ⟨b, hcb, hbe, hb, hhighs⟩ := exists_first (show c ≤ t + 1 + H by omega) hend
  have hbc : b ≠ c := by
    rintro rfl
    rw [hb] at hc
    cases hc
  -- The high run between them is too short.
  have hgap := h.high (c - 1) b (by omega) (by omega) (hlows _ (by omega) (by omega)) hb
    fun k hk hkb => hhighs k (by omega) hkb
  omega

section Run

variable {N L : ℕ} {rx : ℕ → Bool}

/-- Noise has no start bit that is still low in the middle. -/
theorem Noise.not_reported (h : Noise (half N) rx L) {t : ℕ} (ht : Reported N rx t) :
    L ≤ t + 1 + half N := by
  by_contra hlt
  have hhigh := h.rx_eq_true (reported_iff.mp ht).2.1 (by omega)
  rw [ht.mid] at hhigh
  cases hhigh

/-- The receiver does not change its outputs while there is noise. -/
theorem Noise.outputs (h1 : 1 ≤ N) (hN : N ≤ 256) (h : Noise (half N) rx L) {e : ℕ} (he : e ≤ L) :
    ((uartRx N).run rx e).o_RX_DV = false ∧ ((uartRx N).run rx e).o_RX_Byte = 0 := by
  constructor
  · rw [Bool.eq_false_iff, Ne, o_RX_DV_iff h1 hN]
    rintro ⟨t, ht, rfl⟩
    have := h.not_reported ht
    omega
  · have hheld : ((uartRx N).run rx e).o_RX_Byte = held N rx e := by
      rw [o_RX_Byte_eq_held_iff h1 hN]
      intro t ht i _ hlt _
      have := h.not_reported ht
      omega
    calc ((uartRx N).run rx e).o_RX_Byte = held N rx e := hheld
      _ = held N rx 0 := held_eq_of_forall h1 (Nat.zero_le e) fun t ht => by
        have := h.not_reported ht
        omega
      _ = 0 := rfl

end Run

/-- Noise up to edge `L`, at least `half N + 1` high levels, and then the start bits and data bits
of the frames `F`, with the line high between them. A stop bit lasts until the next start bit, which
may come as soon as the receiver looks for it. -/
structure NoiseThenFrames (N : ℕ) (rx : ℕ → Bool) (L : ℕ) (F : Set (ℕ × BitVec 8)) : Prop where
  noise : Noise (half N) rx L
  after : ∀ f ∈ F, L + (half N + 1) ≤ f.1
  bit : ∀ f ∈ F, ∀ j, j < 9 → ∀ e, f.1 + j * N ≤ e → e < f.1 + (j + 1) * N → rx e = frameBit f.2 j
  high : ∀ e, L ≤ e → (∀ f ∈ F, e < f.1 ∨ f.1 + 9 * N ≤ e) → rx e = true
  spaced : Separated (9 * N + half N + 3) F

namespace NoiseThenFrames

variable {N L : ℕ} {rx : ℕ → Bool} {F : Set (ℕ × BitVec 8)}

/-- The high levels after the noise leave the scan armed. -/
theorem scan_eq (h : NoiseThenFrames N rx L F) : scan N rx (L + (half N + 1)) = none := by
  have hquiet : ∀ u, L ≤ u → u < L + (half N + 1) → rx u = true := by
    intro u hle hlt
    refine h.high u hle fun f hf => ?_
    have := h.after f hf
    omega
  cases hs : scan N rx L with
  | none => exact scan_wait hs (by omega) hquiet
  | some t =>
    obtain ⟨hlt, -, -⟩ := bounds_of_scan hs
    -- The last start of the noise is rejected by the high levels.
    have hmid : L ≤ t + 1 + half N := by
      by_contra hno
      have := h.noise.not_reported (reported_of_scan hs (by omega))
      omega
    have harm := scan_of_reject hs (hquiet _ hmid (by omega))
    exact scan_wait harm (by omega) fun u hu hu' => hquiet u (by omega) hu'

/-- From there on the line is readable. -/
theorem readable (h : NoiseThenFrames N rx L F) (h2 : 2 ≤ N) :
    Readable N (tail rx (L + (half N + 1))) {f | (L + (half N + 1) + f.1, f.2) ∈ F} := by
  refine readable_of_bits h2 (fun f hf j hj k hk => ?_) (fun e hout => ?_) fun f hf g hg hlt => ?_
  · have hsucc := Nat.add_one_mul j N
    refine h.bit _ hf j hj _ ?_ ?_
    · dsimp only
      omega
    · dsimp only
      omega
  · refine h.high _ (by omega) fun f hf => ?_
    have hle := h.after f hf
    have := hout (f.1 - (L + (half N + 1)), f.2) (by
      show (L + (half N + 1) + (f.1 - (L + (half N + 1))), f.2) ∈ F
      rwa [Nat.add_sub_cancel' hle])
    dsimp only at this
    omega
  · have := h.spaced _ hf _ hg (by dsimp only; omega)
    dsimp only at this
    omega

end NoiseThenFrames

/-- Noise is rejected, and frames after it are received: while there is noise the outputs do not
change, and of what follows exactly the frames are reported. -/
theorem noise_then_frames (N : ℕ) (h2 : 2 ≤ N) (hN : N ≤ 256) (rx : ℕ → Bool) (L : ℕ) :
    (Noise (half N) rx L → ∀ e, e ≤ L →
      ((uartRx N).run rx e).o_RX_DV = false ∧ ((uartRx N).run rx e).o_RX_Byte = 0) ∧
    ∀ F, NoiseThenFrames N rx L F → ∀ e b,
      reports N rx e = some b ↔ ∃ t, (t, b) ∈ F ∧ e = t + 2 + half N + 9 * N := by
  have h1 : 1 ≤ N := by omega
  have hhalf : half N = (N - 1) / 2 := rfl
  refine ⟨fun h e he => h.outputs h1 hN he, fun F h e b => ?_⟩
  by_cases he : e < L + (half N + 1)
  · -- Nothing is reported before the frames.
    refine iff_of_false (fun hr => ?_) ?_
    · obtain ⟨t, ht, rfl, -⟩ := (reports_iff h1 hN rx e b).mp hr
      have := h.noise.not_reported ht
      omega
    · rintro ⟨t, ht, rfl⟩
      have := h.after _ ht
      dsimp only at this
      omega
  · obtain ⟨n, rfl⟩ := Nat.exists_eq_add_of_le (Nat.le_of_not_lt he)
    rw [reports_add h1 hN h.scan_eq, (h.readable h2).reports_iff h1 hN]
    constructor
    · rintro ⟨t, ht, rfl⟩
      exact ⟨_, ht, by omega⟩
    · rintro ⟨t, ht, hn⟩
      have hle := h.after _ ht
      dsimp only at hle
      refine ⟨t - (L + (half N + 1)), ?_, by omega⟩
      show (L + (half N + 1) + (t - (L + (half N + 1))), b) ∈ F
      rwa [Nat.add_sub_cancel' hle]

/-- A glitch at edge 5, and the start bit of a frame of `0xFF` from edge 300 on. -/
def glitchThenFrame (e : ℕ) : Bool := decide (e ≠ 5) && decide (e < 300 ∨ 517 ≤ e)

theorem glitchThenFrame_eq_false {e : ℕ} :
    glitchThenFrame e = false ↔ e = 5 ∨ 300 ≤ e ∧ e < 517 := by
  simp [glitchThenFrame]
  omega

/-- At the rate of the designs, on that waveform. -/
theorem noise_then_frames_FF :
    (∀ e, e ≤ 10 → ((uartRx 217).run glitchThenFrame e).o_RX_DV = false ∧
      ((uartRx 217).run glitchThenFrame e).o_RX_Byte = 0) ∧
    ∀ e b, reports 217 glitchThenFrame e = some b ↔
      ∃ t, (t, b) ∈ ({(300, 0xFF)} : Set (ℕ × BitVec 8)) ∧ e = t + 2 + half 217 + 9 * 217 := by
  have hnoise : Noise (half 217) glitchThenFrame 10 := by
    refine ⟨fun _ => rfl, fun t ht => ?_, fun a b hab hb ha hb' _ => ?_⟩
    · have : half 217 = 108 := rfl
      omega
    · rw [glitchThenFrame_eq_false] at ha hb'
      omega
  have hframes : NoiseThenFrames 217 glitchThenFrame 10 {(300, 0xFF)} := by
    refine ⟨hnoise, ?_, ?_, fun e hle hout => ?_, ?_⟩
    · rintro _ rfl
      decide
    · -- Bit 0 of the frame is low, and the data bits are high.
      rintro _ rfl j hj e hle hlt
      dsimp only at hle hlt ⊢
      cases j with
      | zero => exact glitchThenFrame_eq_false.mpr (.inr ⟨by omega, by omega⟩)
      | succ i =>
        have hone : ∀ i, i < 8 → frameBit (0xFF : BitVec 8) (i + 1) = true := by decide
        rw [hone i (by omega), ← Bool.not_eq_false, glitchThenFrame_eq_false]
        omega
    · have := hout _ rfl
      dsimp only at this
      rw [← Bool.not_eq_false, glitchThenFrame_eq_false]
      omega
    · rintro _ rfl _ rfl hlt
      omega
  exact ⟨(noise_then_frames 217 (by decide) (by decide) glitchThenFrame 10).1 hnoise,
    (noise_then_frames 217 (by decide) (by decide) glitchThenFrame 10).2 _ hframes⟩

end GoBoard.Uart
