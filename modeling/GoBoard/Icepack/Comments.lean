import GoBoard.Icepack.Writer
import Mathlib.Data.List.Induction

/-!
# The comments in front of the preamble

The reader stops at the first place where the last four bytes are the preamble, or fails where they
are all `0xff` (`scanner_step`). So it finds the preamble behind the comments, and stores the comments,
exactly if they are `Clean` (`findPreamble_eq_ok`). The comments that `read_ascii` stores are, for
lines of ASCII characters (`clean_comments`).
-/

namespace GoBoard.Icepack

open Coding (Byte Parse Source)

/-! ## The last four bytes -/

theorem bigEndian_append (w : ℕ) (bytes : List Byte) (b : Byte) :
    bigEndian w (bytes ++ [b]) = bigEndian w bytes <<< 8 ||| b.setWidth w := by
  simp [bigEndian]

/-- The bits of a number from its bytes. -/
theorem getLsbD_bigEndian {w : ℕ} (bytes : List Byte) {i : ℕ} (hi : i < w) :
    (bigEndian w bytes).getLsbD i = (bytes.reverse.getD (i / 8) 0).getLsbD (i % 8) := by
  induction bytes using List.reverseRecOn generalizing i with
  | nil => simp [bigEndian]
  | append_singleton bytes b ih =>
    rw [bigEndian_append, BitVec.getLsbD_or, BitVec.getLsbD_shiftLeft, BitVec.getLsbD_setWidth,
      List.reverse_concat]
    by_cases hlow : i < 8
    · simp [hi, hlow, Nat.div_eq_of_lt hlow, Nat.mod_eq_of_lt hlow]
    · have hdiv : i / 8 = (i - 8) / 8 + 1 := by omega
      have hmod : i % 8 = (i - 8) % 8 := by omega
      rw [ih (by omega), hdiv, hmod, BitVec.getLsbD_of_ge b i (by omega)]
      simp [hi, hlow]

/-- Numbers of four bytes are equal if their last four bytes are. -/
theorem bigEndian_eq {xs ys : List Byte} :
    bigEndian 32 xs = bigEndian 32 ys ↔
      ∀ k < 4, xs.reverse.getD k 0 = ys.reverse.getD k 0 := by
  constructor
  · intro h k hk
    apply BitVec.eq_of_getLsbD_eq
    intro j hj
    have hbit := congrArg (fun v => v.getLsbD (8 * k + j)) h
    rw [getLsbD_bigEndian _ (by omega), getLsbD_bigEndian _ (by omega),
      show (8 * k + j) / 8 = k by omega, show (8 * k + j) % 8 = j by omega] at hbit
    exact hbit
  · intro h
    apply BitVec.eq_of_getLsbD_eq
    intro i hi
    rw [getLsbD_bigEndian _ hi, getLsbD_bigEndian _ hi, h (i / 8) (by omega)]

/-- A number of four bytes, the first of them not zero, is found behind these bytes only. -/
theorem bigEndian_eq_iff (target : List Byte) (hlen : target.length = 4)
    (hhead : target.reverse.getD 3 0 ≠ 0) (bytes : List Byte) :
    bigEndian 32 bytes = bigEndian 32 target ↔ target <:+ bytes := by
  rw [bigEndian_eq]
  constructor
  · intro h
    -- With fewer bytes, the first byte of the number would be zero.
    have hlong : 4 ≤ bytes.length := by
      by_contra hshort
      rw [← h 3 (by decide)] at hhead
      exact hhead (by simp [show bytes.length ≤ 3 by omega])
    rw [← List.reverse_prefix, List.prefix_iff_eq_take]
    refine List.ext_getElem (by simp [hlen, hlong]) fun k hk hk' => ?_
    rw [List.length_reverse, hlen] at hk
    have hbyte := h k hk
    simpa [hlen, hk, show k < bytes.length by omega] using hbyte.symm
  · rintro ⟨before, rfl⟩ k hk
    rw [List.reverse_append, List.getD_eq_getElem?_getD, List.getElem?_append_left (by simp [hlen, hk])]
    rfl

/-! ## The first loop -/

/-- The bytes that make the first loop fail. -/
def blank : List Byte := [0xff, 0xff, 0xff, 0xff]

/-- The first loop ends behind these bytes. -/
def Stops (bytes : List Byte) : Prop := blank <:+ bytes ∨ preamble <:+ bytes

/-- One turn of the first loop, behind the bytes `seen`. -/
theorem scanner_step (seen : List Byte) (config : FpgaConfig) (b : Byte) (rest : List Byte)
    (crc_value : BitVec 16) :
    (⟨bigEndian 32 seen, config⟩ : Scanner).step ⟨b :: rest, crc_value⟩ =
      if blank <:+ seen ++ [b] then .error .noPreamble
      else if preamble <:+ seen ++ [b] then .ok (.inr config, ⟨rest, updateCrc16 crc_value b⟩)
      else .ok (.inl ⟨bigEndian 32 (seen ++ [b]),
        { config with initblop := config.initblop ++ [b] }⟩, ⟨rest, updateCrc16 crc_value b⟩) := by
  have hblank : bigEndian 32 (seen ++ [b]) = 0xffffffff ↔ blank <:+ seen ++ [b] :=
    bigEndian_eq_iff blank rfl (by decide) _
  have hpreamble : bigEndian 32 (seen ++ [b]) = 0x7EAA997E ↔ preamble <:+ seen ++ [b] :=
    bigEndian_eq_iff preamble rfl (by decide) _
  have hstep : (⟨bigEndian 32 seen, config⟩ : Scanner).step ⟨b :: rest, crc_value⟩ =
      (if bigEndian 32 seen <<< 8 ||| b.setWidth 32 = 0xffffffff then throw .noPreamble
      else if bigEndian 32 seen <<< 8 ||| b.setWidth 32 = 0x7EAA997E then return .inr config
      else return .inl ⟨bigEndian 32 seen <<< 8 ||| b.setWidth 32,
        { config with initblop := config.initblop ++ [b] }⟩ : Read (Scanner ⊕ FpgaConfig))
          ⟨rest, updateCrc16 crc_value b⟩ := rfl
  rw [hstep, ← bigEndian_append]
  simp only [← hblank, ← hpreamble]
  split_ifs
  · rfl
  · rfl
  · rfl

/-- No part at the front of the bytes stops the first loop. -/
theorem scan_append (seen : List Byte) {bs : List Byte}
    (h : ∀ p, p <+: bs → p ≠ [] → ¬Stops (seen ++ p))
    (config : FpgaConfig) (rest : List Byte) (crc_value : BitVec 16) :
    Parse.loop Scanner.consuming ⟨bigEndian 32 seen, config⟩ ⟨bs ++ rest, crc_value⟩ =
      Parse.loop Scanner.consuming
        ⟨bigEndian 32 (seen ++ bs), { config with initblop := config.initblop ++ bs }⟩
        ⟨rest, crcBytes crc_value bs⟩ := by
  induction bs generalizing seen config crc_value with
  | nil => simp
  | cons b bs ih =>
    have hb := h [b] (by simp) (by simp)
    unfold Stops at hb
    push Not at hb
    have hstep := scanner_step seen config b (bs ++ rest) crc_value
    rw [if_neg hb.1, if_neg hb.2] at hstep
    have hih := ih (seen ++ [b]) (fun p hp hne => by
      rw [List.append_assoc]
      exact h (b :: p) (by simpa using hp) (by simp))
      { config with initblop := config.initblop ++ [b] } (updateCrc16 crc_value b)
    refine (Parse.loop_of_inl Scanner.consuming hstep).trans (hih.trans ?_)
    simp

/-- Where the first loop ends, nothing has stopped it before. -/
theorem scan_ok (seen : List Byte) {bytes : List Byte} {config config' : FpgaConfig} {crc_value : BitVec 16}
    {r : Source (BitVec 16)}
    (h : Parse.loop Scanner.consuming ⟨bigEndian 32 seen, config⟩ ⟨bytes, crc_value⟩ =
      .ok (config', r)) :
    ∃ bs b, bytes = bs ++ b :: r.rest ∧ (∀ p, p <+: bs → p ≠ [] → ¬Stops (seen ++ p)) ∧
      preamble <:+ seen ++ (bs ++ [b]) ∧
      config' = { config with initblop := config.initblop ++ bs } ∧
      r.state = crcBytes crc_value (bs ++ [b]) := by
  induction bytes generalizing seen config crc_value with
  | nil =>
    rw [Parse.loop_of_error Scanner.consuming (e := .endOfFile) rfl] at h
    cases h
  | cons b bytes ih =>
    have hstep := scanner_step seen config b bytes crc_value
    -- The loop fails, ends here or goes on behind this byte.
    split_ifs at hstep with hblank hpreamble
    · rw [Parse.loop_of_error Scanner.consuming hstep] at h
      cases h
    · rw [Parse.loop_of_inr Scanner.consuming hstep] at h
      cases h
      refine ⟨[], b, rfl, fun p hp hne => absurd (List.prefix_nil.mp hp) hne, hpreamble, ?_, rfl⟩
      simp
    · rw [Parse.loop_of_inl Scanner.consuming hstep] at h
      obtain ⟨bs, b', rfl, hbs, hend, rfl, hcrc⟩ := ih (seen ++ [b]) h
      refine ⟨b :: bs, b', rfl, fun p hp hne => ?_, by simpa using hend, by simp, hcrc⟩
      obtain rfl | ⟨p, rfl, hp'⟩ := List.prefix_cons_iff.mp hp
      · exact absurd rfl hne
      · by_cases hnil : p = []
        · subst hnil
          exact not_or.mpr ⟨hblank, hpreamble⟩
        · have := hbs p hp' hnil
          rwa [List.append_assoc] at this

/-- Comments in which the reader finds neither the preamble nor four bytes `0xff`. -/
def Clean (initblop : List Byte) : Prop :=
  ¬blank <:+: initblop ++ preamble.dropLast ∧ ¬preamble <:+: initblop ++ preamble.dropLast

instance (initblop : List Byte) : Decidable (Clean initblop) := inferInstanceAs (Decidable (_ ∧ _))

theorem clean_iff {initblop : List Byte} :
    Clean initblop ↔ ∀ p, p <+: initblop ++ preamble.dropLast → p ≠ [] → ¬Stops p := by
  unfold Clean Stops
  rw [List.infix_iff_suffix_prefix, List.infix_iff_suffix_prefix]
  push Not
  constructor
  · rintro ⟨hblank, hpreamble⟩ p hp -
    exact ⟨fun h => hblank p h hp, fun h => hpreamble p h hp⟩
  · intro h
    refine ⟨fun p hs hp => ?_, fun p hs hp => ?_⟩
    · exact (h p hp (List.IsSuffix.ne_nil hs (by decide))).1 hs
    · exact (h p hp (List.IsSuffix.ne_nil hs (by decide))).2 hs

/-- The reader finds the preamble behind the comments exactly if they are clean. -/
theorem findPreamble_eq_ok {config config' : FpgaConfig} {file rest : List Byte}
    {crc_value crc_value' : BitVec 16} :
    findPreamble config ⟨file, crc_value⟩ = .ok (config', ⟨rest, crc_value'⟩) ↔
      ∃ initblop, Clean initblop ∧ file = initblop ++ preamble ++ rest ∧
        config' = { config with initblop := config.initblop ++ initblop } ∧
        crc_value' = crcBytes crc_value (initblop ++ preamble) := by
  -- Everything but the last byte of the preamble is stored first.
  have hdrop (l : List Byte) : (l ++ preamble.dropLast).dropLast.dropLast.dropLast = l := by
    simp [preamble]
  constructor
  · intro h
    unfold findPreamble at h
    obtain ⟨found, r, hfound, h⟩ := Parse.bind_eq_ok.mp h
    cases h
    obtain ⟨bs, b, rfl, hbs, hend, rfl, hcrc⟩ := scan_ok [] hfound
    obtain ⟨initblop, hinit⟩ := hend
    have hsplit : (initblop ++ preamble.dropLast) ++ [0x7E] = bs ++ [b] := by
      rw [← List.nil_append (bs ++ [b]), ← hinit, List.append_assoc]
      rfl
    obtain ⟨rfl, hb⟩ := List.append_inj' hsplit rfl
    cases hb
    refine ⟨initblop, clean_iff.mpr hbs, ?_, ?_, ?_⟩
    · simp [preamble]
    · rw [← List.append_assoc, hdrop]
    · refine hcrc.trans ?_
      rw [List.append_assoc]
      rfl
  · rintro ⟨initblop, hclean, rfl, rfl, rfl⟩
    have hfile : initblop ++ preamble ++ rest = (initblop ++ preamble.dropLast) ++ 0x7E :: rest := by
      simp [preamble]
    have hpreamble : preamble <:+ initblop ++ preamble.dropLast ++ [0x7E] :=
      ⟨initblop, by simp [preamble]⟩
    have hblank : ¬blank <:+ initblop ++ preamble.dropLast ++ [0x7E] := fun h =>
      absurd (List.suffix_of_suffix_length_le h hpreamble (le_refl 4)) (by decide)
    have hstep := scanner_step (initblop ++ preamble.dropLast)
      { config with initblop := config.initblop ++ (initblop ++ preamble.dropLast) } 0x7E rest
      (crcBytes crc_value (initblop ++ preamble.dropLast))
    rw [if_neg hblank, if_pos hpreamble] at hstep
    have hscan := scan_append [] (clean_iff.mp hclean) config (0x7E :: rest) crc_value
    rw [hfile]
    refine Parse.bind_eq_ok.mpr
      ⟨_, _, hscan.trans (Parse.loop_of_inr Scanner.consuming hstep), ?_⟩
    have hcrc : updateCrc16 (crcBytes crc_value (initblop ++ preamble.dropLast)) 0x7E =
        crcBytes crc_value (initblop ++ preamble) := by
      rw [crcBytes_append, crcBytes_append]
      rfl
    change Except.ok ({ config with initblop := _ }, _) = _
    rw [← List.append_assoc, hdrop, hcrc]

/-- The comments that are read are clean. -/
theorem readBits_clean (skip_bram_initialization : Bool) :
    Parse.Ensures (readBits (.init skip_bram_initialization)) fun config =>
      Clean config.initblop := by
  refine Parse.Ensures.bind (P := fun config => Clean config.initblop) ?_ fun found hfound =>
    (mainLoop_initblop _).bind fun config hconfig => ?_
  · intro r found r' h
    obtain ⟨initblop, hclean, -, rfl, -⟩ := findPreamble_eq_ok.mp h
    exact hclean
  · have hclean : Clean config.initblop := hconfig.symm ▸ hfound
    split
    · exact .pure hclean
    · exact .throw _

/-! ## The comments of a text file -/

/-- What `read_ascii` stores for a `.comment` with these lines. -/
def comments (lines : List (List Byte)) : List Byte :=
  [0xff, 0x00] ++ lines.flatMap (· ++ [0x00]) ++ [0x00, 0xff]

/-- Comments of ASCII characters are clean. -/
theorem clean_comments {lines : List (List Byte)} (h : ∀ line ∈ lines, ∀ b ∈ line, b < 0x80) :
    Clean (comments lines) := by
  have hascii : ∀ b ∈ lines.flatMap (· ++ [0x00]), b < 0x80 := by
    intro b hb
    obtain ⟨line, hline, hb⟩ := List.mem_flatMap.mp hb
    obtain hb | hb := List.mem_append.mp hb
    · exact h line hline b hb
    · rw [List.mem_singleton.mp hb]
      decide
  have hff : (lines.flatMap (· ++ [0x00])).count 0xff = 0 :=
    List.count_eq_zero.mpr fun hmem => absurd (hascii _ hmem) (by decide)
  refine ⟨fun hblank => ?_, fun ⟨before, after, hfound⟩ => ?_⟩
  · -- There are only two bytes `0xff`.
    have hcount := hblank.sublist.count_le 0xff
    rw [comments, List.count_append, List.count_append, List.count_append, hff] at hcount
    exact absurd hcount (by decide)
  · -- The byte `0x99` occurs at the end only.
    have hmem : (0x99 : Byte) ∉ comments lines ++ [0x7E, 0xAA] := by
      intro hmem
      simp only [comments, List.mem_append, List.mem_cons, List.not_mem_nil, or_false] at hmem
      rcases hmem with ((hmem | hmem) | hmem) | hmem
      · exact absurd hmem (by decide)
      · exact absurd (hascii _ hmem) (by decide)
      · exact absurd hmem (by decide)
      · exact absurd hmem (by decide)
    have hend : before ++ preamble ++ after = (comments lines ++ [0x7E, 0xAA]) ++ [0x99] := by
      rw [hfound, List.append_assoc]
      rfl
    rcases List.eq_nil_or_concat after with rfl | ⟨after, b, rfl⟩
    · rw [List.append_nil] at hend
      have hlast := congrArg List.getLast? hend
      simp [preamble] at hlast
    · rw [List.concat_eq_append, ← List.append_assoc] at hend
      obtain ⟨hall, -⟩ := List.append_inj' hend rfl
      refine hmem (hall ▸ ?_)
      simp [preamble]

end GoBoard.Icepack
