import GoBoard.Clocked.Bits

/-!
# Cyclic redundancy checks

The remainder of a polynomial of degree `w`, one bit at a time. A step is linear (`crcBit_xor`), and
keeps different remainders different when the polynomial has a constant term (`crcBit_injective`).
From these two it follows that a burst error of at most `w` bits always shows (`crcBits_burst`).
A remainder that is fed to itself leaves zero (`crcBits_self`), which is how a receiver checks it.
-/

namespace GoBoard.Coding

open Clocked (ofBits getLsbD_ofBits)

variable {w : ℕ}

/-- A step of the remainder `crc`: the next bit and the highest bit of the remainder decide whether
the polynomial is subtracted. -/
def crcBit (poly crc : BitVec w) (bit : Bool) : BitVec w :=
  (crc <<< 1) ^^^ (if crc.msb ^^ bit then poly else 0#w)

/-- The remainder after a sequence of bits. -/
def crcBits (poly crc : BitVec w) (bits : List Bool) : BitVec w := bits.foldl (crcBit poly) crc

@[simp] theorem crcBits_nil (poly crc : BitVec w) : crcBits poly crc [] = crc := rfl

@[simp] theorem crcBits_cons (poly crc : BitVec w) (bit : Bool) (bits : List Bool) :
    crcBits poly crc (bit :: bits) = crcBits poly (crcBit poly crc bit) bits := rfl

theorem crcBits_append (poly crc : BitVec w) (xs ys : List Bool) :
    crcBits poly crc (xs ++ ys) = crcBits poly (crcBits poly crc xs) ys :=
  List.foldl_append

/-! ## One step -/

/-- A step is linear. -/
theorem crcBit_xor (poly a b : BitVec w) (x y : Bool) :
    crcBit poly (a ^^^ b) (x ^^ y) = crcBit poly a x ^^^ crcBit poly b y := by
  have hif (c d : Bool) : (if c ^^ d then poly else 0#w) =
      (if c then poly else 0#w) ^^^ if d then poly else 0#w := by
    cases c <;> cases d <;> simp
  have hbits : ((a ^^^ b).msb ^^ (x ^^ y)) = ((a.msb ^^ x) ^^ (b.msb ^^ y)) := by
    rw [BitVec.msb_xor, Bool.xor_assoc, Bool.xor_assoc, Bool.xor_left_comm b.msb]
  unfold crcBit
  rw [BitVec.shiftLeft_xor_distrib, hbits, hif]
  ac_rfl

/-- With its own highest bit a remainder only moves up. -/
theorem crcBit_msb (poly crc : BitVec w) : crcBit poly crc crc.msb = crc <<< 1 := by
  simp [crcBit]

/-- What moves up to zero without its highest bit is zero. -/
theorem eq_zero_of_shift {d : BitVec w} (hmsb : d.msb = false) (hshift : d <<< 1 = 0#w) :
    d = 0#w := by
  apply BitVec.eq_of_getLsbD_eq
  intro i hi
  rw [BitVec.getLsbD_zero]
  by_cases htop : i + 1 = w
  · rw [BitVec.msb_eq_getLsbD_last] at hmsb
    rwa [show i = w - 1 by omega]
  · have hbit := congrArg (fun x => x.getLsbD (i + 1)) hshift
    simp only [BitVec.getLsbD_shiftLeft, BitVec.getLsbD_zero] at hbit
    simpa [show i + 1 < w by omega] using hbit

/-- A step keeps different remainders different. -/
theorem crcBit_injective {poly : BitVec w} (hpoly : poly.getLsbD 0 = true) {a b : BitVec w}
    {x : Bool} (h : crcBit poly a x = crcBit poly b x) : a = b := by
  have hzero : crcBit poly (a ^^^ b) false = 0#w := by
    rw [← Bool.xor_self x, crcBit_xor, h, BitVec.xor_self]
  -- The lowest bit of the new remainder is the highest bit of the old one.
  have hw : 0 < w := by
    by_contra hno
    rw [BitVec.getLsbD_of_ge poly 0 (by omega)] at hpoly
    cases hpoly
  have hmsb : (a ^^^ b).msb = false := by
    have hbit := congrArg (fun x => x.getLsbD 0) hzero
    cases hm : (a ^^^ b).msb with
    | false => rfl
    | true =>
      have hpoly' : poly[0] = true := hpoly
      simp [crcBit, hm, hpoly', hw] at hbit
  have hshift : (a ^^^ b) <<< 1 = 0#w := by
    rwa [← crcBit_msb poly, hmsb]
  exact BitVec.xor_eq_zero_iff.mp (eq_zero_of_shift hmsb hshift)

/-! ## Sequences -/

theorem crcBits_injective {poly : BitVec w} (hpoly : poly.getLsbD 0 = true) {a b : BitVec w}
    (bits : List Bool) (h : crcBits poly a bits = crcBits poly b bits) : a = b := by
  induction bits generalizing a b with
  | nil => exact h
  | cons bit bits ih => exact crcBit_injective hpoly (ih h)

/-- The bits at the top of a word, the first one highest. -/
def top (w : ℕ) (bits : List Bool) : BitVec w := ofBits w fun i => bits.getD (w - 1 - i) false

theorem msb_top (hw : 0 < w) (bit : Bool) (bits : List Bool) : (top w (bit :: bits)).msb = bit := by
  rw [BitVec.msb_eq_getLsbD_last, top, getLsbD_ofBits _ (by omega), Nat.sub_self]
  rfl

theorem top_shift (bit : Bool) {bits : List Bool} (h : bits.length < w) :
    top w (bit :: bits) <<< 1 = top w bits := by
  apply BitVec.eq_of_getLsbD_eq
  intro i hi
  rw [BitVec.getLsbD_shiftLeft]
  unfold top
  rw [getLsbD_ofBits _ hi]
  cases i with
  | zero => simp [List.getElem?_eq_none (show bits.length ≤ w - 1 by omega)]
  | succ i =>
    rw [Nat.add_sub_cancel, getLsbD_ofBits _ (by omega),
      show w - 1 - i = w - 1 - (i + 1) + 1 by omega]
    simp [hi]

/-- Words with the same bits at the top have the same bits. -/
theorem top_injective {bits bits' : List Bool} (hlen : bits.length = bits'.length)
    (h : bits.length ≤ w) (heq : top w bits = top w bits') : bits = bits' := by
  refine List.ext_getElem hlen fun i hi hi' => ?_
  have hbit := congrArg (fun x => x.getLsbD (w - 1 - i)) heq
  unfold top at hbit
  rw [getLsbD_ofBits _ (by omega), getLsbD_ofBits _ (by omega),
    show w - 1 - (w - 1 - i) = i by omega] at hbit
  simpa [hi, hi'] using hbit

/-- As many bits as fit into the remainder may be added to it at once. -/
theorem crcBits_eq_top (poly crc : BitVec w) {bits : List Bool} (h : bits.length ≤ w) :
    crcBits poly crc bits =
      crcBits poly (crc ^^^ top w bits) (List.replicate bits.length false) := by
  induction bits generalizing crc with
  | nil =>
    have hzero : top w [] = 0#w := by
      apply BitVec.eq_of_getLsbD_eq
      intro i hi
      rw [top, getLsbD_ofBits _ hi, BitVec.getLsbD_zero]
      rfl
    simp [hzero]
  | cons bit bits ih =>
    rw [List.length_cons] at h
    have hstep : crcBit poly (crc ^^^ top w (bit :: bits)) false =
        crcBit poly crc bit ^^^ top w bits := by
      have htop := crcBit_msb poly (top w (bit :: bits))
      rw [msb_top (by omega), top_shift bit (by omega)] at htop
      rw [← Bool.xor_self bit, crcBit_xor, htop]
    rw [List.length_cons, List.replicate_succ, crcBits_cons, crcBits_cons, hstep, ih _ (by omega)]

/-- A burst error shows: different bits that all fit into the remainder leave different remainders,
and no common bits afterwards make them equal. -/
theorem crcBits_burst {poly : BitVec w} (hpoly : poly.getLsbD 0 = true) (crc : BitVec w)
    {bits bits' : List Bool} (hlen : bits.length = bits'.length) (h : bits.length ≤ w)
    (hne : bits ≠ bits') (rest : List Bool) :
    crcBits poly crc (bits ++ rest) ≠ crcBits poly crc (bits' ++ rest) := by
  intro heq
  rw [crcBits_append, crcBits_append] at heq
  have heq := crcBits_injective hpoly rest heq
  rw [crcBits_eq_top poly crc h, crcBits_eq_top poly crc (hlen ▸ h), ← hlen] at heq
  have heq := crcBits_injective hpoly _ heq
  exact hne (top_injective hlen h ((BitVec.xor_right_inj crc).mp heq))

/-- The bits of a word, the highest first. -/
def wordBits (x : BitVec w) : List Bool := (List.range w).map x.getMsbD

@[simp] theorem length_wordBits (x : BitVec w) : (wordBits x).length = w := by
  simp [wordBits]

theorem wordBits_injective {x y : BitVec w} (h : wordBits x = wordBits y) : x = y := by
  apply BitVec.eq_of_getMsbD_eq
  intro i hi
  exact List.map_inj_left.mp h i (List.mem_range.mpr hi)

theorem length_flatMap_wordBits (xs : List (BitVec w)) :
    (xs.flatMap wordBits).length = xs.length * w := by
  induction xs with
  | nil => simp
  | cons x xs ih => rw [List.flatMap_cons, List.length_append, ih, length_wordBits,
      List.length_cons, Nat.add_one_mul, Nat.add_comm]

/-- A sequence of words can be told from its bits. -/
theorem flatMap_wordBits_injective {xs ys : List (BitVec w)} (hlen : xs.length = ys.length)
    (h : xs.flatMap wordBits = ys.flatMap wordBits) : xs = ys := by
  induction xs generalizing ys with
  | nil => exact (List.eq_nil_of_length_eq_zero hlen.symm).symm
  | cons x xs ih =>
    obtain ⟨y, ys, rfl⟩ := List.exists_cons_of_length_eq_add_one hlen.symm
    rw [List.flatMap_cons, List.flatMap_cons] at h
    obtain ⟨hx, hxs⟩ := List.append_inj h (by simp)
    rw [wordBits_injective hx, ih (Nat.succ.inj hlen) hxs]

/-- A remainder that is fed to itself leaves zero. -/
theorem crcBits_self (poly crc : BitVec w) : crcBits poly crc (wordBits crc) = 0#w := by
  have hshift : ∀ k ≤ w, crcBits poly crc ((List.range k).map crc.getMsbD) = crc <<< k := by
    intro k hk
    induction k with
    | zero => simp
    | succ k ih =>
      have hmsb : crc.getMsbD k = (crc <<< k).msb := by simp [BitVec.msb]
      rw [List.range_succ, List.map_append, crcBits_append, ih (by omega)]
      change crcBit poly (crc <<< k) (crc.getMsbD k) = _
      rw [hmsb, crcBit_msb, BitVec.shiftLeft_add]
  unfold wordBits
  rw [hshift w (le_refl w)]
  apply BitVec.eq_of_getLsbD_eq
  intro i hi
  simp [hi]

end GoBoard.Coding
