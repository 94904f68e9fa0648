import GoBoard.Clocked.Log
import GoBoard.Uart.RxSpec
import Mathlib.Algebra.Order.Archimedean.Basic
import Mathlib.Algebra.Order.Floor.Semiring
import Mathlib.Data.Rat.Floor
import Mathlib.Tactic.LinearCombination
import Mathlib.Tactic.Positivity

/-!
# `UART_RX` and a sender with its own clock

The sender puts 8N1 frames with a rational bit period `P` on a line in continuous time, and the
receiver samples the line at integer times. A frame that starts at time `s` is seen at the first
edge at or after `s`, less than one edge late. From there the sample point of bit `j` drifts by `j
(P - N)` against the bit, where `N` is the receiver's count of edges per bit. For `N ≥ 16` and a
mismatch of at most one part in forty all ten samples stay inside their bits, and the receiver is
armed again inside the stop bit and before the next frame (`readable_of_async`).
-/

namespace GoBoard.Uart

open Clocked (log log_eq_of_mem_iff)
open Serial (Spaced Transmits frameBit frameBit_data lineOf transmits_lineOf)

/-- The frames of a sender in continuous time as the receiver sees them: from the first edge at or
after the start. -/
def seenFrames (fs : List (ℚ × BitVec 8)) : Set (ℕ × BitVec 8) :=
  {g | ∃ f ∈ fs, g = (⌈f.1⌉₊, f.2)}

section Async

variable {N : ℕ} {P : ℚ} {fs : List (ℚ × BitVec 8)} {w : ℚ → Bool}

/-- Half a bit as a rational number: between `N / 2 - 1` and `(N - 1) / 2`. -/
theorem half_bounds (h1 : 1 ≤ N) : (N : ℚ) ≤ 2 * half N + 2 ∧ 2 * (half N : ℚ) + 1 ≤ N := by
  have hhalf : half N = (N - 1) / 2 := rfl
  constructor
  · exact_mod_cast (by omega : N ≤ 2 * half N + 2)
  · exact_mod_cast (by omega : 2 * half N + 1 ≤ N)

/-- The drift of the sender against the receiver over `j` bits. -/
theorem drift_bounds (hP : |P - N| ≤ N / 40) (j : ℕ) :
    j * (N : ℚ) - j * N / 40 ≤ j * P ∧ j * P ≤ j * (N : ℚ) + j * N / 40 := by
  have hj0 : (0 : ℚ) ≤ j := by positivity
  obtain ⟨hlo, hhi⟩ := abs_le.mp hP
  have hup : (j : ℚ) * (P - N) ≤ j * (N / 40) := mul_le_mul_of_nonneg_left hhi hj0
  have hdown : (j : ℚ) * -(N / 40) ≤ j * (P - N) := mul_le_mul_of_nonneg_left hlo hj0
  constructor <;> linarith

/-- The ten bits of a frame take more than one edge. -/
theorem one_le_ten_nsmul (hN : 16 ≤ N) (hP : |P - N| ≤ N / 40) : 1 ≤ 10 • P := by
  have hN' : (16 : ℚ) ≤ N := by exact_mod_cast hN
  obtain ⟨hlo, -⟩ := abs_le.mp hP
  rw [nsmul_eq_mul]
  push_cast
  linarith

/-- An edge inside bit `j` of a frame samples that bit. -/
theorem level_at_edge (h : Transmits P fs w) {f : ℚ × BitVec 8} (hf : f ∈ fs) {j : ℕ} (hj : j < 10)
    {e : ℕ} (hle : f.1 + j * P ≤ e) (hlt : (e : ℚ) < f.1 + (j + 1) * P) :
    w e = frameBit f.2 j := by
  refine h.carries.bit f hf j hj e ?_ ?_
  · rwa [nsmul_eq_mul]
  · rw [nsmul_eq_mul]
    push_cast
    exact hlt

/-- The samples of a frame: the edge `j` periods and half a bit after the first edge of the frame
samples bit `j`. -/
theorem sample_at (h : Transmits P fs w) (hN : 16 ≤ N) (hP : |P - N| ≤ N / 40)
    {f : ℚ × BitVec 8} (hf : f ∈ fs) (hpos : 0 < f.1) {j : ℕ} (hj : j < 9) :
    w ((⌈f.1⌉₊ + 1 + half N + j * N : ℕ) : ℚ) = frameBit f.2 j := by
  have hceil := Nat.le_ceil f.1
  have hlate := Nat.ceil_lt_add_one hpos.le
  obtain ⟨hhlo, hhhi⟩ := half_bounds (N := N) (by omega)
  have hN' : (16 : ℚ) ≤ N := by exact_mod_cast hN
  have hjN : (j : ℚ) * N ≤ 8 * N :=
    mul_le_mul_of_nonneg_right (by exact_mod_cast (by omega : j ≤ 8)) (by positivity)
  -- Half a bit of room on either side, against eight bits of drift and one edge of delay.
  have hdrift := drift_bounds hP j
  have hdrift' := drift_bounds hP (j + 1)
  push_cast at hdrift'
  refine level_at_edge h hf (by omega) ?_ ?_
  · push_cast
    linarith
  · push_cast
    linarith

/-- A low level is in a frame, before its stop bit. -/
theorem exists_of_low_at_edge (h : Transmits P fs w) {e : ℕ} (he : w e = false) :
    ∃ f ∈ fs, f.1 ≤ e ∧ (e : ℚ) < f.1 + 9 * P := by
  obtain ⟨f, hf, hle, hlt⟩ := h.carries.exists_of_low he
  refine ⟨f, hf, hle, ?_⟩
  rw [nsmul_eq_mul] at hlt
  push_cast at hlt
  by_contra hno
  push Not at hno
  -- The stop bit is high.
  have hstop : w e = frameBit f.2 9 :=
    level_at_edge h hf (j := 9) (by omega) (by exact_mod_cast hno) (by push_cast; linarith)
  rw [he] at hstop
  cases hstop

/-- A frame that starts later starts after the receiver is armed again. -/
theorem rearmed_of_lt (h : Transmits P fs w) (hN : 16 ≤ N) (hP : |P - N| ≤ N / 40)
    (hpos : ∀ f ∈ fs, 0 < f.1) {f g : ℚ × BitVec 8} (hf : f ∈ fs) (hg : g ∈ fs) (hfg : f.1 < g.1) :
    ⌈f.1⌉₊ + (half N + 9 * N + 3) ≤ ⌈g.1⌉₊ := by
  have hlate := Nat.ceil_lt_add_one (hpos f hf).le
  have hceil := Nat.le_ceil g.1
  obtain ⟨-, hhhi⟩ := half_bounds (N := N) (by omega)
  have hN' : (16 : ℚ) ≤ N := by exact_mod_cast hN
  have hdrift := drift_bounds hP 10
  have hP0 : 0 ≤ 10 • P := by linarith [one_le_ten_nsmul hN hP]
  have hsep := h.spaced.separated hP0 f hf g hg hfg
  rw [nsmul_eq_mul] at hsep
  push_cast at hsep hdrift
  have : ((⌈f.1⌉₊ + (half N + 9 * N + 3) : ℕ) : ℚ) ≤ ⌈g.1⌉₊ := by
    push_cast
    linarith
  exact_mod_cast this

/-- A sender whose period is within one part in forty of the receiver's is readable. -/
theorem readable_of_async (h : Transmits P fs w) (hN : 16 ≤ N) (hP : |P - N| ≤ N / 40)
    (hpos : ∀ f ∈ fs, 0 < f.1) : Readable N (fun e : ℕ => w e) (seenFrames fs) := by
  obtain ⟨hhlo, -⟩ := half_bounds (N := N) (by omega)
  have hN' : (16 : ℚ) ≤ N := by exact_mod_cast hN
  have hdrift1 := drift_bounds hP 1
  have hdrift9 := drift_bounds hP 9
  push_cast at hdrift1 hdrift9
  refine ⟨?_, ?_, ?_, ?_, ?_⟩
  · -- The first edge of the frame is less than one edge late, in the start bit.
    rintro _ ⟨f, hf, rfl⟩
    have hlate := Nat.ceil_lt_add_one (hpos f hf).le
    refine level_at_edge h hf (j := 0) (by omega) ?_ ?_
    · simpa using Nat.le_ceil f.1
    · push_cast
      linarith
  · rintro _ ⟨f, hf, rfl⟩
    simpa using sample_at h hN hP hf (hpos f hf) (j := 0) (by omega)
  · rintro _ ⟨f, hf, rfl⟩ i hi
    rw [← frameBit_data f.2 hi]
    exact sample_at h hN hP hf (hpos f hf) (by omega)
  · -- A low level is before the stop bit, and the receiver is not armed before the stop bit.
    intro e he
    obtain ⟨f, hf, hle, hstop⟩ := exists_of_low_at_edge h he
    refine ⟨(⌈f.1⌉₊, f.2), ⟨f, hf, rfl⟩, Nat.ceil_le.mpr hle, ?_⟩
    have hceil := Nat.le_ceil f.1
    have : (e : ℚ) < (⌈f.1⌉₊ + (half N + 9 * N + 3) : ℕ) := by
      push_cast
      linarith
    exact_mod_cast this
  · -- The receiver is armed again before the stop bit ends.
    rintro _ ⟨f, hf, rfl⟩ _ ⟨g, hg, rfl⟩ hlt
    dsimp only at hlt ⊢
    have hfg : f.1 < g.1 := by
      by_contra hno
      push Not at hno
      exact absurd hlt (Nat.ceil_le_ceil hno).not_gt
    exact rearmed_of_lt h hN hP hpos hf hg hfg

end Async

/-- A sender with its own clock: for every count `N ≥ 16` of edges per bit, every rational bit
period `P` within one part in forty of it, and every finite sequence of frames at rational times,
the receiver reports exactly the bytes of the frames, in order, each once, for one cycle each. -/
theorem async_reports (N : ℕ) (hN16 : 16 ≤ N) (hN : N ≤ 256) (P : ℚ) (hP : |P - N| ≤ N / 40)
    (fs : List (ℚ × BitVec 8)) (w : ℚ → Bool) (h : Transmits P fs w) (hpos : ∀ f ∈ fs, 0 < f.1) :
    (∀ E : ℕ, (∀ f ∈ fs, ⌈f.1⌉₊ + 2 + half N + 9 * N < E) →
      log (reports N fun e : ℕ => w e) E =
        fs.map fun f => (⌈f.1⌉₊ + 2 + half N + 9 * N, f.2)) ∧
    ∀ e : ℕ, reports N (fun e : ℕ => w e) e ≠ none →
      reports N (fun e : ℕ => w e) (e + 1) = none := by
  have hread := readable_of_async h hN16 hP hpos
  have hiff := hread.reports_iff (by omega) hN
  constructor
  · intro E hE
    apply log_eq_of_mem_iff
    · -- The first edges of the frames are in the order of the frames.
      have hP1 := one_le_ten_nsmul hN16 hP
      rw [List.pairwise_map]
      refine (h.spaced.pairwise (by linarith)).imp_of_mem fun {f g} hf hg hfg => ?_
      have hfg' : f.1 + 10 • P ≤ g.1 := hfg
      have hlt := rearmed_of_lt h hN16 hP hpos hf hg (by linarith)
      dsimp only
      omega
    · intro k a
      rw [hiff]
      simp only [List.mem_map, Prod.mk.injEq, seenFrames, Set.mem_ofPred_eq]
      constructor
      · rintro ⟨f, hf, rfl, rfl⟩
        exact ⟨hE f hf, _, ⟨f, hf, rfl, rfl⟩, rfl⟩
      · rintro ⟨-, _, ⟨f, hf, rfl, rfl⟩, rfl⟩
        exact ⟨f, hf, rfl, rfl⟩
  · -- Two reports in a row are further apart than one edge.
    intro e he
    by_contra hno
    have := reports_spacing (by omega) hN _ he hno (by omega)
    omega

/-- The byte of the receiver's testbench, sent with its bit period of 215 clock cycles, from halfway
between two edges. -/
theorem async_reports_215 :
    (∀ E : ℕ, (∀ f ∈ [((1 / 2 : ℚ), (0x37 : BitVec 8))],
        ⌈f.1⌉₊ + 2 + half 217 + 9 * 217 < E) →
      log (reports 217 fun e : ℕ => lineOf 215 [((1 / 2 : ℚ), (0x37 : BitVec 8))] e) E =
        [((1 / 2 : ℚ), (0x37 : BitVec 8))].map fun f =>
          (⌈f.1⌉₊ + 2 + half 217 + 9 * 217, f.2)) ∧
    ∀ e : ℕ, reports 217 (fun e : ℕ => lineOf 215 [((1 / 2 : ℚ), (0x37 : BitVec 8))] e) e ≠ none →
      reports 217 (fun e : ℕ => lineOf 215 [((1 / 2 : ℚ), (0x37 : BitVec 8))] e) (e + 1) =
        none := by
  refine async_reports 217 (by norm_num) (by norm_num) 215 ?_ _ _
    (transmits_lineOf (by norm_num) ?_) ?_
  · norm_num [abs_le]
  · exact List.isChain_singleton _
  · simp

end GoBoard.Uart
