import Mathlib.Algebra.Order.Group.Nat
import Mathlib.Algebra.GroupWithZero.Action.Defs
import Mathlib.Algebra.Module.NatInt
import Mathlib.Data.List.Sort
import Mathlib.Order.WellFounded
import Mathlib.Tactic.Linarith

/-!
# Bytes on a serial line as 8N1 frames

A frame is ten bits of one period `P` each: a low start bit, eight data bits with the least
significant first, and a high stop bit. Times are any linearly ordered monoid, so that the same
definitions describe a line sampled at clock edges (`T = ℕ`) and a sender that is not synchronous
with the clock (`T = ℚ`).

`Carries P F w` says that the line `w` carries exactly the frames `F`, each a start time and a byte,
and is high otherwise. When time is well founded and frames do not overlap, a line carries at most
one set of frames (`Carries.eq`), so what a line carries is a property of the line alone.
`Transmits P fs w` is the form for a finite sequence of frames in the order in which they are sent.
-/

namespace GoBoard.Serial

/-! ## Frames -/

/-- Bit `j` of the 8N1 frame of `b`: the start bit is bit 0 and the stop bit is bit 9. -/
def frameBit (b : BitVec 8) : ℕ → Bool
  | 0 => false
  | i + 1 => if i < 8 then b.getLsbD i else true

@[simp] theorem frameBit_zero (b : BitVec 8) : frameBit b 0 = false := rfl

theorem frameBit_data (b : BitVec 8) {i : ℕ} (h : i < 8) : frameBit b (i + 1) = b.getLsbD i := by
  simp [frameBit, h]

@[simp] theorem frameBit_stop (b : BitVec 8) : frameBit b 9 = true := rfl

/-- Two bytes with the same data bits are equal. -/
theorem eq_of_frameBit {b c : BitVec 8} (h : ∀ i, i < 8 → frameBit b (i + 1) = frameBit c (i + 1)) :
    b = c := by
  apply BitVec.eq_of_getLsbD_eq
  intro i hi
  calc b.getLsbD i = frameBit b (i + 1) := (frameBit_data b hi).symm
    _ = frameBit c (i + 1) := h i hi
    _ = c.getLsbD i := frameBit_data c hi

variable {T : Type*} [AddCommMonoid T] [LinearOrder T]

/-! ## Lines -/

/-- The timed byte `g` starts at least `d` after `f`. -/
def Follows (d : T) (f g : T × BitVec 8) : Prop := f.1 + d ≤ g.1

/-- Consecutive starts of a list of timed bytes are at least `d` apart. -/
def Spaced (d : T) (fs : List (T × BitVec 8)) : Prop := fs.IsChain (Follows d)

/-- Starts of a set of timed bytes are at least `d` apart. -/
def Separated (d : T) (F : Set (T × BitVec 8)) : Prop :=
  ∀ f ∈ F, ∀ g ∈ F, f.1 < g.1 → f.1 + d ≤ g.1

/-- The line `w` carries the frames `F` with bit period `P`: bit `j` of the frame `(s, b)` occupies
the times from `s + j P` up to `s + (j + 1) P`, and the line is high outside the frames. -/
structure Carries (P : T) (F : Set (T × BitVec 8)) (w : T → Bool) : Prop where
  /-- Every frame is on the line, complete. -/
  bit : ∀ f ∈ F, ∀ j, j < 10 → ∀ τ, f.1 + j • P ≤ τ → τ < f.1 + (j + 1) • P → w τ = frameBit f.2 j
  /-- The line is high outside the frames. -/
  high : ∀ τ, (∀ f ∈ F, τ < f.1 ∨ f.1 + 10 • P ≤ τ) → w τ = true

/-- The line `w` carries the frames `fs`, one after the other in the order of the list, with any
idle time between them. -/
structure Transmits (P : T) (fs : List (T × BitVec 8)) (w : T → Bool) : Prop where
  /-- A frame starts no earlier than its predecessor's stop bit ends. -/
  spaced : Spaced (10 • P) fs
  /-- The line carries exactly these frames. -/
  carries : Carries P {f | f ∈ fs} w

namespace Carries

variable {P : T} {F F' : Set (T × BitVec 8)} {w : T → Bool}

/-- A low level belongs to a frame. -/
theorem exists_of_low (h : Carries P F w) {τ : T} (hτ : w τ = false) :
    ∃ f ∈ F, f.1 ≤ τ ∧ τ < f.1 + 10 • P := by
  by_contra hno
  push Not at hno
  have := h.high τ fun f hf => (lt_or_ge τ f.1).imp id (hno f hf)
  rw [hτ] at this
  cases this

section Ordered

variable [IsOrderedCancelAddMonoid T]

/-- The first instant of bit `j` lies in bit `j`. -/
theorem bit_start (h : Carries P F w) (hP : 0 < P) {f : T × BitVec 8} (hf : f ∈ F) {j : ℕ}
    (hj : j < 10) : w (f.1 + j • P) = frameBit f.2 j := by
  refine h.bit f hf j hj _ le_rfl ?_
  rw [succ_nsmul, ← add_assoc]
  exact lt_add_of_pos_right _ hP

/-- The line is low where a frame starts. -/
theorem low_start (h : Carries P F w) (hP : 0 < P) {f : T × BitVec 8} (hf : f ∈ F) :
    w f.1 = false := by
  have := h.bit_start hP hf (j := 0) (by omega)
  rwa [zero_nsmul, add_zero, frameBit_zero] at this

/-- Frames of one line that start together carry the same byte. -/
theorem byte_eq (h : Carries P F w) (h' : Carries P F' w) (hP : 0 < P) {f g : T × BitVec 8}
    (hf : f ∈ F) (hg : g ∈ F') (hs : f.1 = g.1) : f.2 = g.2 := by
  apply eq_of_frameBit
  intro i hi
  calc frameBit f.2 (i + 1) = w (f.1 + (i + 1) • P) := (h.bit_start hP hf (by omega)).symm
    _ = w (g.1 + (i + 1) • P) := by rw [hs]
    _ = frameBit g.2 (i + 1) := h'.bit_start hP hg (by omega)

/-- The induction step of `Carries.eq`: a frame of `F` is one of `F'` when the earlier frames of
`F'` are all in `F`. -/
theorem mem_of_earlier (h : Carries P F w) (h' : Carries P F' w) (hF : Separated (10 • P) F)
    (hP : 0 < P) {f : T × BitVec 8} (hf : f ∈ F)
    (ih : ∀ g ∈ F', g.1 < f.1 → g ∈ F) : f ∈ F' := by
  obtain ⟨g, hg, hle, hlt⟩ := h'.exists_of_low (h.low_start hP hf)
  rcases hle.lt_or_eq with hgf | hgf
  · -- A frame of `F'` that covers the start would overlap `f` in `F`.
    exact absurd hlt (hF g (ih g hg hgf) f hf hgf).not_gt
  · have : g = f := Prod.ext hgf (h'.byte_eq h hP hg hf hgf)
    rwa [← this]

/-- A line carries at most one set of frames. -/
theorem eq [WellFoundedLT T] (h : Carries P F w) (h' : Carries P F' w) (hF : Separated (10 • P) F)
    (hF' : Separated (10 • P) F') (hP : 0 < P) : F = F' := by
  have key : ∀ τ : T, ∀ b, (τ, b) ∈ F ↔ (τ, b) ∈ F' := by
    intro τ
    induction τ using WellFoundedLT.induction with
    | ind τ ih =>
      intro b
      constructor
      · intro hf
        exact h.mem_of_earlier h' hF hP hf fun g hg hlt => (ih g.1 hlt g.2).mpr hg
      · intro hf
        exact h'.mem_of_earlier h hF' hP hf fun g hg hlt => (ih g.1 hlt g.2).mp hg
  ext ⟨τ, b⟩
  exact key τ b

end Ordered

end Carries

/-! ## Sequences of frames -/

section Ordered

variable [IsOrderedCancelAddMonoid T] {P d : T} {fs gs : List (T × BitVec 8)} {w : T → Bool}

/-- Consecutive starts that are `d` apart are `d` apart from every earlier start too. -/
theorem Spaced.pairwise (hd : 0 ≤ d) (h : Spaced d fs) : fs.Pairwise (Follows d) := by
  have : Trans (Follows d) (Follows d) (Follows d) :=
    ⟨fun hfg hgh => le_trans hfg (le_trans (le_add_of_nonneg_right hd) hgh)⟩
  exact List.IsChain.pairwise h

theorem Spaced.pairwise_lt (hd : 0 < d) (h : Spaced d fs) : fs.Pairwise fun f g => f.1 < g.1 :=
  (h.pairwise hd.le).imp fun hfg => (lt_add_of_pos_right _ hd).trans_le hfg

theorem Spaced.separated (hd : 0 ≤ d) (h : Spaced d fs) : Separated d {f | f ∈ fs} := by
  have hp := h.pairwise hd
  refine List.Pairwise.forall_of_forall_of_flip (R := fun f g => f.1 < g.1 → f.1 + d ≤ g.1)
    (fun f _ hff => absurd hff (lt_irrefl _)) (hp.imp ?_) (hp.imp ?_)
  · intro f g hfg _
    exact hfg
  · -- A frame that precedes another one in the list does not start after it.
    intro f g hfg hgf
    exact absurd hgf (le_trans (le_add_of_nonneg_right hd) hfg).not_gt

/-- Frames of a spaced list that start together are the same frame. -/
theorem Spaced.eq_of_start_eq (hd : 0 < d) (h : Spaced d fs) {f g : T × BitVec 8} (hf : f ∈ fs)
    (hg : g ∈ fs) (hs : f.1 = g.1) : f = g := by
  have hp := h.pairwise_lt hd
  exact List.Pairwise.forall_of_forall_of_flip (R := fun f g => f.1 = g.1 → f = g)
    (fun f _ _ => rfl) (hp.imp fun hlt he => absurd he hlt.ne)
    (hp.imp fun hlt he => absurd he hlt.ne') hf hg hs

end Ordered

/-! ## The waveform of a sequence

The line of a sequence of frames, as a function that computes where the order on times is
decidable. -/

/-- The bit of a frame that starts at `s` which the time `τ` is in: the number of bit boundaries
passed. -/
def bitAt (P s τ : T) : ℕ := (List.range 9).countP fun i => s + (i + 1) • P ≤ τ

/-- The level at time `τ` of a line that transmits `fs` with bit period `P`. -/
def lineOf (P : T) (fs : List (T × BitVec 8)) (τ : T) : Bool :=
  match fs.find? fun f => f.1 ≤ τ ∧ τ < f.1 + 10 • P with
  | some f => frameBit f.2 (bitAt P f.1 τ)
  | none => true

section Ordered

variable [IsOrderedCancelAddMonoid T] {P : T}

theorem bitAt_eq (hP : 0 ≤ P) {s τ : T} {j : ℕ} (hj : j < 10) (hle : s + j • P ≤ τ)
    (hlt : τ < s + (j + 1) • P) : bitAt P s τ = j := by
  have hcount : ∀ j < 10, (List.range 9).countP (fun i => decide (i < j)) = j := by decide
  -- Boundary `i + 1` is passed exactly when the bit is beyond it.
  have hpassed : (fun i => decide (s + (i + 1) • P ≤ τ)) = fun i => decide (i < j) := by
    funext i
    rw [decide_eq_decide]
    rcases lt_or_ge i j with hij | hij
    · have hbound := add_le_add_right (nsmul_le_nsmul_left hP hij) s
      exact ⟨fun _ => hij, fun _ => hbound.trans hle⟩
    · have hbound := add_le_add_right (nsmul_le_nsmul_left hP (by omega : j + 1 ≤ i + 1)) s
      exact ⟨fun hpass => absurd hpass (hlt.trans_le hbound).not_ge,
        fun hlt' => absurd hlt' hij.not_gt⟩
  unfold bitAt
  rw [hpassed, hcount j hj]

/-- `lineOf` transmits the frames that it is given. -/
theorem transmits_lineOf (hP : 0 < P) {fs : List (T × BitVec 8)} (h : Spaced (10 • P) fs) :
    Transmits P fs (lineOf P fs) := by
  have h10 : 0 < 10 • P := nsmul_pos hP (by omega)
  have hsep := h.separated h10.le
  refine ⟨h, ?_, ?_⟩
  · intro f hf j hj τ hle hlt
    have hin : f.1 ≤ τ ∧ τ < f.1 + 10 • P := by
      constructor
      · exact le_trans (le_add_of_nonneg_right (nsmul_nonneg hP.le j)) hle
      · exact lt_of_lt_of_le hlt (add_le_add_right (nsmul_le_nsmul_left hP.le (by omega)) f.1)
    unfold lineOf
    cases hfind : fs.find? fun f => f.1 ≤ τ ∧ τ < f.1 + 10 • P with
    | none =>
      have := List.find?_eq_none.mp hfind f hf
      simp [hin] at this
    | some g =>
      -- The frame found is `f`, since no two frames overlap.
      have hg : g ∈ {f | f ∈ fs} := List.mem_of_find?_eq_some hfind
      have hgin : g.1 ≤ τ ∧ τ < g.1 + 10 • P := by simpa using List.find?_some hfind
      have hs : g.1 = f.1 := by
        rcases lt_trichotomy g.1 f.1 with hlt' | heq | hgt
        · exact absurd (hgin.2.trans_le (hsep g hg f hf hlt')) hin.1.not_gt
        · exact heq
        · exact absurd (hin.2.trans_le (hsep f hf g hg hgt)) hgin.1.not_gt
      rw [h.eq_of_start_eq h10 hg hf hs]
      simp only [bitAt_eq hP.le hj hle hlt]
  · intro τ hout
    have : fs.find? (fun f => f.1 ≤ τ ∧ τ < f.1 + 10 • P) = none := by
      rw [List.find?_eq_none]
      intro f hf
      simp only [decide_eq_true_eq, not_and, not_lt]
      intro hle
      exact (hout f hf).resolve_left hle.not_gt
    simp only [lineOf, this]

end Ordered

end GoBoard.Serial
