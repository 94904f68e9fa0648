import GoBoard.Clocked.Bits
import GoBoard.Serial.Frame

/-!
# Scanning a waveform for bytes

What a receiver with `N` clock edges per bit is for, stated on the sampled waveform `rx` alone. From
an arming edge it looks for the first low level. If the level half a bit later is high again, the
start is rejected and the next edge is an arming edge; otherwise it samples eight data bits, one bit
period apart, reports the byte one period after the last of them, and arms again two edges later.
`Armed` and `Reported` are this rule, and `sampled` is the byte of a start edge.

`scan` is the same rule as a function of the edge: the start edge that the receiver is working on,
if any. `reported_iff` relates the two, and `scan_add` says that an armed scan has no memory of the
waveform before. `held` is the last byte all of whose data bits have been sampled, and `shown` is
this byte with the data bits of the next one written over it as they are sampled. `Readable` collects
what makes a waveform show a given set of frames to the receiver, and `Readable.reported_iff` shows
that it reports exactly these.
-/

namespace GoBoard.Uart

open Clocked (ofBits getLsbD_ofBits)
open Serial (Carries Separated frameBit frameBit_data)

/-! ## The rule -/

/-- The count of edges from the one after a start edge to the middle of the start bit. -/
def half (N : ℕ) : ℕ := (N - 1) / 2

/-- `t` is the first low edge of `rx` at or after `a`. -/
structure FirstLow (rx : ℕ → Bool) (a t : ℕ) : Prop where
  le : a ≤ t
  low : rx t = false
  high : ∀ u, a ≤ u → u < t → rx u = true

/-- The edges at which the receiver starts to look for a start bit. -/
inductive Armed (N : ℕ) (rx : ℕ → Bool) : ℕ → Prop
  /-- It looks from the first edge on. -/
  | init : Armed N rx 0
  /-- A start whose middle is high is rejected, and the search goes on at the next edge. -/
  | reject {a t : ℕ} : Armed N rx a → FirstLow rx a t → rx (t + 1 + half N) = true →
      Armed N rx (t + half N + 2)
  /-- After a reported start it looks again in the middle of the stop bit. -/
  | report {a t : ℕ} : Armed N rx a → FirstLow rx a t → rx (t + 1 + half N) = false →
      Armed N rx (t + half N + 9 * N + 3)

/-- The start edges whose byte is reported: first low edges from an arming edge whose start bit is
still low in the middle. -/
structure Reported (N : ℕ) (rx : ℕ → Bool) (t : ℕ) : Prop where
  start : ∃ a, Armed N rx a ∧ FirstLow rx a t
  mid : rx (t + 1 + half N) = false

/-- The byte of a start edge: its bit `i` is the level `i + 1` periods after the middle of the start
bit. -/
def sampled (N : ℕ) (rx : ℕ → Bool) (t : ℕ) : BitVec 8 :=
  ofBits 8 fun i => rx (t + 1 + half N + (i + 1) * N)

theorem sampled_getLsbD (N : ℕ) (rx : ℕ → Bool) (t : ℕ) {i : ℕ} (h : i < 8) :
    (sampled N rx t).getLsbD i = rx (t + 1 + half N + (i + 1) * N) := by
  unfold sampled
  rw [getLsbD_ofBits _ h]

/-! ## The scan as a function of the edge -/

/-- One edge of the scan at level `x`: the start edge that is being worked on, if any. -/
def scanStep (N e : ℕ) (x : Bool) : Option ℕ → Option ℕ
  | none => if x = false then some e else none
  | some t =>
    if e = t + 1 + half N ∧ x = true then none
    else if e = t + 2 + half N + 9 * N then none
    else some t

/-- The start edge that the receiver is working on before edge `e`. -/
def scan (N : ℕ) (rx : ℕ → Bool) : ℕ → Option ℕ
  | 0 => none
  | e + 1 => scanStep N e (rx e) (scan N rx e)

section Scan

variable {N : ℕ} {rx : ℕ → Bool} {a e t : ℕ}

theorem scan_succ_none (h : scan N rx e = none) :
    scan N rx (e + 1) = if rx e = false then some e else none := by
  rw [scan, h, scanStep]

theorem scan_succ_some (h : scan N rx e = some t) :
    scan N rx (e + 1) =
      if e = t + 1 + half N ∧ rx e = true then none
      else if e = t + 2 + half N + 9 * N then none
      else some t := by
  rw [scan, h, scanStep]

/-- The scan stays armed while the line is high. -/
theorem scan_wait (h : scan N rx a = none) (hle : a ≤ e)
    (hhigh : ∀ u, a ≤ u → u < e → rx u = true) : scan N rx e = none := by
  induction e, hle using Nat.le_induction with
  | base => exact h
  | succ e hle ih =>
    rw [scan_succ_none (ih fun u hu hue => hhigh u hu (by omega)), hhigh e hle (by omega)]
    rfl

/-- From a start edge to the middle of its start bit the scan works on it, whatever the line does.
-/
theorem scan_start (h : scan N rx t = none) (hlow : rx t = false) {m : ℕ} (hm : m ≤ half N) :
    scan N rx (t + 1 + m) = some t := by
  induction m with
  | zero => rw [Nat.add_zero, scan_succ_none h, if_pos hlow]
  | succ m ih =>
    rw [show t + 1 + (m + 1) = t + 1 + m + 1 by omega, scan_succ_some (ih (by omega)),
      if_neg (by omega), if_neg (by omega)]

/-- A start that is low in the middle keeps the scan until the edge after its report. -/
theorem scan_frame (h : scan N rx t = none) (hlow : rx t = false)
    (hmid : rx (t + 1 + half N) = false) {m : ℕ} (hm : m ≤ half N + 9 * N + 1) :
    scan N rx (t + 1 + m) = some t := by
  induction m with
  | zero => exact scan_start h hlow (Nat.zero_le _)
  | succ m ih =>
    rw [show t + 1 + (m + 1) = t + 1 + m + 1 by omega, scan_succ_some (ih (by omega)), if_neg,
      if_neg (by omega)]
    -- The only edge that could reject the start is its middle, which is low.
    rintro ⟨he, hhigh⟩
    rw [he, hmid] at hhigh
    cases hhigh

/-- Every arming edge of the rule finds the scan armed. -/
theorem scan_of_armed (h : Armed N rx a) : scan N rx a = none := by
  induction h with
  | init => rfl
  | @reject a t _ hfl hhigh ih =>
    have ht := scan_wait ih hfl.le hfl.high
    have hs := scan_start ht hfl.low (le_refl (half N))
    rw [show t + half N + 2 = t + 1 + half N + 1 by omega, scan_succ_some hs, if_pos ⟨rfl, hhigh⟩]
  | @report a t _ hfl hlow ih =>
    have ht := scan_wait ih hfl.le hfl.high
    have hs := scan_frame ht hfl.low hlow (le_refl (half N + 9 * N + 1))
    rw [show t + half N + 9 * N + 3 = t + 1 + (half N + 9 * N + 1) + 1 by omega, scan_succ_some hs,
      if_neg (by omega), if_pos (by omega)]

/-- What the scan says about the rule before edge `e`: an armed scan has seen only high levels since
an arming edge, and a scan that works on `t` is inside the window of a start that the rule found. -/
def ScanInv (N : ℕ) (rx : ℕ → Bool) (e : ℕ) : Option ℕ → Prop
  | none => ∃ a, Armed N rx a ∧ a ≤ e ∧ ∀ u, a ≤ u → u < e → rx u = true
  | some t => (∃ a, Armed N rx a ∧ FirstLow rx a t) ∧ t < e ∧ e ≤ t + 2 + half N + 9 * N ∧
      (t + 1 + half N < e → rx (t + 1 + half N) = false)

theorem scanInv_scan (N : ℕ) (rx : ℕ → Bool) (e : ℕ) : ScanInv N rx e (scan N rx e) := by
  induction e with
  | zero => exact ⟨0, .init, le_rfl, fun u _ hu => absurd hu (Nat.not_lt_zero u)⟩
  | succ e ih =>
    cases hs : scan N rx e with
    | none =>
      rw [hs] at ih
      obtain ⟨a, ha, hae, hhigh⟩ := ih
      rw [scan_succ_none hs]
      split_ifs with hlow
      · -- The first low level since the arming edge.
        exact ⟨⟨a, ha, hae, hlow, hhigh⟩, by omega, by omega, by omega⟩
      · -- One more high level.
        refine ⟨a, ha, by omega, fun u hau hu => ?_⟩
        rcases Nat.lt_succ_iff_lt_or_eq.mp hu with hu | rfl
        · exact hhigh u hau hu
        · simpa using hlow
    | some t =>
      rw [hs] at ih
      obtain ⟨⟨a, ha, hfl⟩, hte, hle, hmid⟩ := ih
      rw [scan_succ_some hs]
      split_ifs with hrej hend
      · -- The start was rejected at the middle of its start bit.
        obtain ⟨rfl, hhigh⟩ := hrej
        refine ⟨_, ha.reject hfl hhigh, by omega, fun u hu hu' => by omega⟩
      · -- The report was made at the previous edge, and the scan arms again.
        subst hend
        refine ⟨_, ha.report hfl (hmid (by omega)), by omega, fun u hu hu' => by omega⟩
      · refine ⟨⟨a, ha, hfl⟩, by omega, by omega, fun hlt => ?_⟩
        rcases Nat.lt_succ_iff_lt_or_eq.mp hlt with hlt | rfl
        · exact hmid hlt
        · simpa using hrej

/-- A reported start in terms of the scan: it is armed at a low level that is low half a bit
later. -/
theorem reported_iff :
    Reported N rx t ↔ scan N rx t = none ∧ rx t = false ∧ rx (t + 1 + half N) = false := by
  constructor
  · rintro ⟨⟨a, ha, hfl⟩, hmid⟩
    exact ⟨scan_wait (scan_of_armed ha) hfl.le hfl.high, hfl.low, hmid⟩
  · rintro ⟨hs, hlow, hmid⟩
    have hinv := scanInv_scan N rx t
    rw [hs] at hinv
    obtain ⟨a, ha, hle, hhigh⟩ := hinv
    exact ⟨⟨a, ha, hle, hlow, hhigh⟩, hmid⟩

/-- A scan that has passed the middle of the start bit works on a reported start. -/
theorem reported_of_scan (hs : scan N rx e = some t) (he : t + 1 + half N < e) :
    Reported N rx t := by
  have hinv := scanInv_scan N rx e
  rw [hs] at hinv
  exact ⟨hinv.1, hinv.2.2.2 he⟩

/-- The scan works on a reported start until the edge after its report. -/
theorem Reported.scan_eq (h : Reported N rx t) (hlt : t < e) (hle : e ≤ t + 2 + half N + 9 * N) :
    scan N rx e = some t := by
  obtain ⟨hs, hlow, hmid⟩ := reported_iff.mp h
  have := scan_frame hs hlow hmid (m := e - (t + 1)) (by omega)
  rwa [show t + 1 + (e - (t + 1)) = e by omega] at this

/-- The start that a scan works on is not far back, and low in the middle if it is past that. -/
theorem bounds_of_scan (hs : scan N rx e = some t) :
    t < e ∧ e ≤ t + 2 + half N + 9 * N ∧ (t + 1 + half N < e → rx (t + 1 + half N) = false) := by
  have hinv := scanInv_scan N rx e
  rw [hs] at hinv
  exact hinv.2

/-- A start whose middle is high leaves the scan armed at the next edge. -/
theorem scan_of_reject (hs : scan N rx e = some t) (hhigh : rx (t + 1 + half N) = true) :
    scan N rx (t + half N + 2) = none := by
  have hinv := scanInv_scan N rx e
  rw [hs] at hinv
  obtain ⟨⟨a, ha, hfl⟩, -⟩ := hinv
  exact scan_of_armed (ha.reject hfl hhigh)

/-- A start whose middle is low leaves the scan armed two edges after its report. -/
theorem scan_of_report (hs : scan N rx e = some t) (hlow : rx (t + 1 + half N) = false) :
    scan N rx (t + half N + 9 * N + 3) = none := by
  have hinv := scanInv_scan N rx e
  rw [hs] at hinv
  obtain ⟨⟨a, ha, hfl⟩, -⟩ := hinv
  exact scan_of_armed (ha.report hfl hlow)

/-- Reported starts are at least one re-arm time apart. -/
theorem Reported.spacing {t' : ℕ} (h : Reported N rx t) (h' : Reported N rx t') (hlt : t < t') :
    t + half N + 9 * N + 3 ≤ t' := by
  by_contra hno
  have hs := h.scan_eq hlt (by omega)
  rw [(reported_iff.mp h').1] at hs
  cases hs

/-- Two reported starts are the same or far apart. -/
theorem Reported.eq_or_apart {t' : ℕ} (h : Reported N rx t) (h' : Reported N rx t') :
    t = t' ∨ t + half N + 9 * N + 3 ≤ t' ∨ t' + half N + 9 * N + 3 ≤ t := by
  rcases lt_trichotomy t t' with hlt | heq | hlt
  · exact .inr (.inl (h.spacing h' hlt))
  · exact .inl heq
  · exact .inr (.inr (h'.spacing h hlt))

end Scan

/-! ## The scan from a later edge -/

/-- The waveform from edge `a` on. -/
def tail (rx : ℕ → Bool) (a : ℕ) : ℕ → Bool := fun k => rx (a + k)

section Tail

variable {N : ℕ} {rx : ℕ → Bool} {a t : ℕ}

/-- From an edge at which it is armed the scan goes on as one that starts there. -/
theorem scan_add (h : scan N rx a = none) (n : ℕ) :
    scan N rx (a + n) = (scan N (tail rx a) n).map (a + ·) := by
  induction n with
  | zero => exact h
  | succ n ih =>
    cases hs : scan N (tail rx a) n with
    | none =>
      rw [hs] at ih
      rw [← Nat.add_assoc, scan_succ_none ih, scan_succ_none hs]
      unfold tail
      split_ifs with hlow
      · rfl
      · rfl
    | some t =>
      rw [hs] at ih
      -- Both scans are equally far into the frame.
      have hrej : a + n = a + t + 1 + half N ↔ n = t + 1 + half N := by omega
      have hend : a + n = a + t + 2 + half N + 9 * N ↔ n = t + 2 + half N + 9 * N := by omega
      rw [← Nat.add_assoc, scan_succ_some ih, scan_succ_some hs]
      unfold tail
      simp only [hrej, hend]
      split_ifs with h1 h2
      · rfl
      · rfl
      · rfl

/-- So the reported starts from there on are those of the rest of the waveform. -/
theorem reported_add (h : scan N rx a = none) :
    Reported N rx (a + t) ↔ Reported N (tail rx a) t := by
  have hscan : scan N rx (a + t) = none ↔ scan N (tail rx a) t = none := by
    rw [scan_add h, Option.map_eq_none_iff]
  have hmid : a + t + 1 + half N = a + (t + 1 + half N) := by omega
  rw [reported_iff, reported_iff, hscan, hmid]
  rfl

theorem sampled_add (N : ℕ) (rx : ℕ → Bool) (a t : ℕ) :
    sampled N rx (a + t) = sampled N (tail rx a) t := by
  apply BitVec.eq_of_getLsbD_eq
  intro i hi
  rw [sampled_getLsbD N _ _ hi, sampled_getLsbD N _ _ hi]
  show rx (a + t + 1 + half N + (i + 1) * N) = rx (a + (t + 1 + half N + (i + 1) * N))
  rw [show a + t + 1 + half N + (i + 1) * N = a + (t + 1 + half N + (i + 1) * N) by omega]

/-- No reported start is still being worked on when the scan is armed. -/
theorem Reported.over (ht : Reported N rx t) (h : scan N rx a = none) :
    a ≤ t ∨ t + 2 + half N + 9 * N < a := by
  by_contra hno
  rw [ht.scan_eq (by omega) (by omega)] at h
  cases h

end Tail

/-! ## The last whole byte -/

/-- The last byte all of whose data bits have been sampled before edge `e`, and zero if there is
none. -/
def held (N : ℕ) (rx : ℕ → Bool) : ℕ → BitVec 8
  | 0 => 0
  | e + 1 =>
    match scan N rx e with
    | none => held N rx e
    | some t => if e = t + 1 + half N + 8 * N then sampled N rx t else held N rx e

section Held

variable {N : ℕ} {rx : ℕ → Bool} {e t : ℕ}

theorem held_succ_none (h : scan N rx e = none) : held N rx (e + 1) = held N rx e := by
  rw [held, h]

theorem held_succ_some (h : scan N rx e = some t) :
    held N rx (e + 1) = if e = t + 1 + half N + 8 * N then sampled N rx t else held N rx e := by
  rw [held, h]

/-- The edge that samples the last data bit of a reported start completes its byte. -/
theorem Reported.held_succ (h : Reported N rx t) :
    held N rx (t + 2 + half N + 8 * N) = sampled N rx t := by
  have hs := h.scan_eq (e := t + 1 + half N + 8 * N) (by omega) (by omega)
  rw [show t + 2 + half N + 8 * N = t + 1 + half N + 8 * N + 1 by omega, held_succ_some hs,
    if_pos rfl]

/-- The byte does not change between two edges when no reported start is completed there. -/
theorem held_eq_of_forall (hN : 0 < N) {e' : ℕ} (hle : e ≤ e')
    (hno : ∀ t, Reported N rx t → t + 1 + half N + 8 * N < e ∨ e' ≤ t + 1 + half N + 8 * N) :
    held N rx e' = held N rx e := by
  induction e', hle using Nat.le_induction with
  | base => rfl
  | succ e' hle ih =>
    have ih := ih fun t ht => by have := hno t ht; omega
    cases hs : scan N rx e' with
    | none => rw [held_succ_none hs, ih]
    | some t =>
      rw [held_succ_some hs, if_neg, ih]
      intro he
      have := hno t (reported_of_scan hs (by omega))
      omega

/-- While a reported start receives its data bits, the last whole byte is the one from before it. -/
theorem Reported.held_eq_before (hN : 0 < N) (h : Reported N rx t) (hte : t ≤ e)
    (hle : e ≤ t + 1 + half N + 8 * N) : held N rx e = held N rx t := by
  refine held_eq_of_forall hN hte fun u hu => ?_
  have := hu.eq_or_apart h
  omega

/-- From its last data bit to its report, the last whole byte is that of the reported start. -/
theorem Reported.held_eq_sampled (hN : 0 < N) (h : Reported N rx t)
    (hte : t + 2 + half N + 8 * N ≤ e) (hle : e ≤ t + 2 + half N + 9 * N) :
    held N rx e = sampled N rx t := by
  rw [← h.held_succ]
  -- No other reported start completes its byte in between.
  refine held_eq_of_forall hN hte fun u hu => ?_
  have := hu.eq_or_apart h
  omega

end Held

/-! ## The byte with the bits sampled so far -/

/-- The last whole byte, and over it the data bits sampled before edge `e` for the start that the
scan is working on. -/
def shown (N : ℕ) (rx : ℕ → Bool) (e : ℕ) : BitVec 8 :=
  match scan N rx e with
  | none => held N rx e
  | some t => ofBits 8 fun i =>
      if t + 1 + half N + (i + 1) * N < e then rx (t + 1 + half N + (i + 1) * N)
      else (held N rx e).getLsbD i

section Shown

variable {N : ℕ} {rx : ℕ → Bool} {e t : ℕ}

theorem shown_of_none (h : scan N rx e = none) : shown N rx e = held N rx e := by
  unfold shown
  rw [h]

theorem shown_getLsbD (h : scan N rx e = some t) {i : ℕ} (hi : i < 8) :
    (shown N rx e).getLsbD i =
      if t + 1 + half N + (i + 1) * N < e then rx (t + 1 + half N + (i + 1) * N)
      else (held N rx e).getLsbD i := by
  unfold shown
  rw [h]
  exact getLsbD_ofBits _ hi

/-- Before the first sample the byte is the last whole one. -/
theorem shown_eq_held (h : scan N rx e = some t) (hle : e ≤ t + 1 + half N + N) :
    shown N rx e = held N rx e := by
  apply BitVec.eq_of_getLsbD_eq
  intro i hi
  have hmul : 1 * N ≤ (i + 1) * N := Nat.mul_le_mul_right N (by omega)
  rw [shown_getLsbD h hi, if_neg (by omega)]

/-- After the last sample it is the byte of the start edge. -/
theorem shown_eq_sampled (h : scan N rx e = some t) (hlt : t + 1 + half N + 8 * N < e) :
    shown N rx e = sampled N rx t := by
  apply BitVec.eq_of_getLsbD_eq
  intro i hi
  have hmul : (i + 1) * N ≤ 8 * N := Nat.mul_le_mul_right N (by omega)
  rw [shown_getLsbD h hi, if_pos (by omega), sampled_getLsbD N rx t hi]

end Shown

/-! ## Readable waveforms -/

/-- The waveform `rx` shows the frames `F` to a receiver with `N` edges per bit: a frame is low at
its start and half a bit later, its data bits are on the line at the sample edges, every low level
belongs to a frame that the receiver is still working on, and it is armed again when the next frame
starts. -/
structure Readable (N : ℕ) (rx : ℕ → Bool) (F : Set (ℕ × BitVec 8)) : Prop where
  start : ∀ f ∈ F, rx f.1 = false
  mid : ∀ f ∈ F, rx (f.1 + 1 + half N) = false
  data : ∀ f ∈ F, ∀ i, i < 8 → rx (f.1 + 1 + half N + (i + 1) * N) = f.2.getLsbD i
  inside : ∀ e, rx e = false → ∃ f ∈ F, f.1 ≤ e ∧ e < f.1 + (half N + 9 * N + 3)
  spaced : Separated (half N + 9 * N + 3) F

namespace Readable

variable {N : ℕ} {rx : ℕ → Bool} {F : Set (ℕ × BitVec 8)}

/-- On a readable waveform the scan works on frames only, and is armed once a frame's window is
over. -/
def Inv (N : ℕ) (F : Set (ℕ × BitVec 8)) (e : ℕ) : Option ℕ → Prop
  | none => ∀ f ∈ F, f.1 < e → f.1 + (half N + 9 * N + 3) ≤ e
  | some t => t < e ∧ e < t + (half N + 9 * N + 3) ∧ ∃ b, (t, b) ∈ F

theorem inv_scan (h : Readable N rx F) (e : ℕ) : Inv N F e (scan N rx e) := by
  induction e with
  | zero => exact fun f _ hf => absurd hf (Nat.not_lt_zero _)
  | succ e ih =>
    cases hs : scan N rx e with
    | none =>
      rw [hs] at ih
      rw [scan_succ_none hs]
      split_ifs with hlow
      · -- The low level starts the frame that it belongs to.
        obtain ⟨⟨s, b⟩, hf, hle, hlt⟩ := h.inside e hlow
        have hse : s = e := by
          have := ih _ hf
          dsimp only at this hle hlt
          omega
        exact ⟨by omega, by omega, b, hse ▸ hf⟩
      · intro f hf hfe
        have hne : f.1 ≠ e := fun he => hlow (he ▸ h.start f hf)
        have := ih f hf (by omega)
        omega
    | some t =>
      rw [hs] at ih
      obtain ⟨hte, hlt, b, hb⟩ := ih
      have hmid := h.mid _ hb
      rw [scan_succ_some hs]
      split_ifs with hrej hend
      · -- The middle of a frame's start bit is low.
        obtain ⟨rfl, hhigh⟩ := hrej
        rw [hmid] at hhigh
        cases hhigh
      · -- The frames that started before are over, since the next one is not here yet.
        intro f hf hfe
        rcases lt_or_ge t f.1 with htf | hft
        · have := h.spaced _ hb f hf htf
          dsimp only at this
          omega
        · omega
      · exact ⟨by omega, by omega, b, hb⟩

/-- The reported starts of a readable waveform are exactly the starts of its frames. -/
theorem reported_iff (h : Readable N rx F) (t : ℕ) : Reported N rx t ↔ ∃ b, (t, b) ∈ F := by
  constructor
  · intro hr
    have hs := hr.scan_eq (e := t + 1) (by omega) (by omega)
    have hinv := h.inv_scan (t + 1)
    rw [hs] at hinv
    exact hinv.2.2
  · rintro ⟨b, hb⟩
    rw [Uart.reported_iff]
    refine ⟨?_, h.start _ hb, h.mid _ hb⟩
    -- The scan cannot be busy with another frame, which would start too close before this one.
    cases hs : scan N rx t with
    | none => rfl
    | some u =>
      have hinv := h.inv_scan t
      rw [hs] at hinv
      obtain ⟨hut, hlt, c, hc⟩ := hinv
      have := h.spaced _ hc _ hb hut
      dsimp only at this
      omega

/-- The byte that is sampled from a frame is the frame's byte. -/
theorem sampled_eq (h : Readable N rx F) {t : ℕ} {b : BitVec 8} (hb : (t, b) ∈ F) :
    sampled N rx t = b := by
  apply BitVec.eq_of_getLsbD_eq
  intro i hi
  rw [sampled_getLsbD N rx t hi, h.data _ hb i hi]

end Readable

/-- A line with the start bit and the data bits of frames of `N` edges per bit, and no other low
level, is readable when the receiver is armed again before the next frame. The samples fall half a
bit and one edge after the start of each bit, which is inside the bit from two edges per bit on. -/
theorem readable_of_bits {N : ℕ} {rx : ℕ → Bool} {F : Set (ℕ × BitVec 8)} (h2 : 2 ≤ N)
    (hbit : ∀ f ∈ F, ∀ j, j < 9 → ∀ k, k < N → rx (f.1 + j * N + k) = frameBit f.2 j)
    (hhigh : ∀ e, (∀ f ∈ F, e < f.1 ∨ f.1 + 9 * N ≤ e) → rx e = true)
    (hF : Separated (half N + 9 * N + 3) F) : Readable N rx F := by
  have hhalf : half N = (N - 1) / 2 := rfl
  refine ⟨fun f hf => ?_, fun f hf => ?_, fun f hf i hi => ?_, fun e he => ?_, hF⟩
  · have := hbit f hf 0 (by omega) 0 (by omega)
    rwa [Nat.zero_mul] at this
  · have := hbit f hf 0 (by omega) (1 + half N) (by omega)
    rwa [Nat.zero_mul, Nat.add_zero, ← Nat.add_assoc] at this
  · have := hbit f hf (i + 1) (by omega) (1 + half N) (by omega)
    rw [← frameBit_data f.2 hi, ← this]
    congr 1
    omega
  · by_contra hno
    -- A low level outside the windows of the frames is outside their bits.
    have hout : rx e = true := by
      refine hhigh e fun f hf => ?_
      by_contra hin
      exact hno ⟨f, hf, by omega, by omega⟩
    rw [he] at hout
    cases hout

/-- A line that carries frames of `N` edges per bit is readable when the receiver is armed again
before the next frame. -/
theorem readable_of_carries {N : ℕ} {rx : ℕ → Bool} {F : Set (ℕ × BitVec 8)} (h2 : 2 ≤ N)
    (h : Carries N F rx) (hF : Separated (half N + 9 * N + 3) F) : Readable N rx F := by
  -- The level of bit `j` from its first edge to its last.
  have hbit : ∀ f ∈ F, ∀ j, j < 10 → ∀ k, k < N → rx (f.1 + j * N + k) = frameBit f.2 j := by
    intro f hf j hj k hk
    have hsucc := Nat.add_one_mul j N
    refine h.bit f hf j hj _ ?_ ?_
    · simp only [smul_eq_mul]
      omega
    · simp only [smul_eq_mul]
      omega
  refine readable_of_bits h2 (fun f hf j hj => hbit f hf j (by omega)) (fun e hout => ?_) hF
  by_contra he
  obtain ⟨f, hf, hle, hlt⟩ := h.exists_of_low (Bool.eq_false_iff.mpr he)
  simp only [smul_eq_mul] at hlt
  -- A low level is not in the stop bit.
  have hout := hout f hf
  have hstop := hbit f hf 9 (by omega) (e - (f.1 + 9 * N)) (by omega)
  rw [show f.1 + 9 * N + (e - (f.1 + 9 * N)) = e by omega] at hstop
  exact he hstop

end GoBoard.Uart
