import GoBoard.Icepack.Unpack

/-!
# `icepack` and `iceunpack`

The two modes of the program: from a text to a binary file, and back. A file that `icepack` has
written is unpacked, and the text is packed as the same file again (`icepack_iceunpack`). What
`icepack` accepts is a design, which `read_bits` finds in the file (`readFile_icepack`). The text of
the file is not the text that was packed, but it is a normal form: to pack and to unpack it does not
change it any more (`iceunpack_icepack`). Only the comments need care: a blank line is lost, and
characters that the two formats use for themselves are not comments.
-/

namespace GoBoard.Icepack

open Coding (Byte InStream Line lines)

/-- The errors of the two modes. -/
inductive IcepackError
  | readBits (e : ReadError)
  | writeAscii (e : WriteAsciiError)
  | readAscii (e : AsciiError)
  | writeBits (e : WriteError)
  deriving DecidableEq, Repr

/-- `main` in unpack mode. -/
def iceunpack (skip_bram_initialization : Bool) (file : List Byte) :
    Except IcepackError (List Char) := do
  let fpga_config ← (readFile skip_bram_initialization file).mapError .readBits
  fpga_config.writeAscii.mapError .writeAscii

/-- `main` in the other mode. -/
def icepack (skip_bram_initialization nosleep_mode : Bool) (text : List Char) :
    Except IcepackError (List Byte) := do
  let fpga_config ← (readAscii skip_bram_initialization nosleep_mode text).mapError .readAscii
  fpga_config.writeFile.mapError .writeBits

/-! ## Comments -/

theorem toByte_toChar (b : Byte) : toByte (toChar b) = b := by
  have hvalid : b.toNat.isValidChar := .inl (by omega)
  have hchar : (toChar b).toNat = b.toNat := by
    unfold toChar Char.ofNat
    rw [dif_pos hvalid]
    rfl
  rw [toByte, hchar, BitVec.ofNat_toNat, BitVec.setWidth_eq]

/-- A line of a comment that is written as it is. -/
structure Written (line : List Byte) : Prop where
  plain : ∀ b ∈ line, b ≠ 0x00 ∧ b ≠ 0xff ∧ b ≠ 0x0a
  dot : line.head? ≠ some 0x2e

theorem commentText_line {line : List Byte} (h : ∀ b ∈ line, b ≠ 0x00 ∧ b ≠ 0xff ∧ b ≠ 0x0a)
    (rest : List Byte) : commentText false (line ++ 0x00 :: rest) =
      line.map toChar ++ commentText true rest := by
  induction line with
  | nil => rfl
  | cons b line ih =>
    obtain ⟨⟨hzero, hff, -⟩, hline⟩ := List.forall_mem_cons.mp h
    rw [List.cons_append, commentText, if_neg hzero, if_neg hff, ih hline]
    rfl

/-- The lines of a comment that are not blank. -/
theorem commentText_lines {bs : List (List Byte)} (h : ∀ line ∈ bs, Written line)
    (rest : List Byte) : commentText true (bs.flatMap (· ++ [0x00]) ++ rest) =
      ((bs.filter (· ≠ [])).map (List.map toChar)).flatMap ('\n' :: ·) ++ commentText true rest := by
  induction bs with
  | nil => rfl
  | cons line bs ih =>
    obtain ⟨hline, hbs⟩ := List.forall_mem_cons.mp h
    rw [List.flatMap_cons, List.append_assoc, List.append_assoc, List.singleton_append]
    cases line with
    -- A blank line only asks for a new line, which has been asked for.
    | nil => exact ih hbs
    | cons b line =>
      obtain ⟨⟨hzero, hff, -⟩, hplain⟩ := List.forall_mem_cons.mp hline.plain
      rw [List.cons_append, commentText, if_neg hzero, if_neg hff, commentText_line hplain, ih hbs]
      simp

theorem commentText_comments {bs : List (List Byte)} (h : ∀ line ∈ bs, Written line) :
    commentText true (comments bs) =
      ((bs.filter (· ≠ [])).map (List.map toChar)).flatMap ('\n' :: ·) := by
  have hlines := commentText_lines h [0x00, 0xff]
  have hend : commentText true [0x00, 0xff] = [] := by decide
  rw [hend, List.append_nil] at hlines
  exact hlines

theorem Written.line {line : List Byte} (h : Written line) :
    '\n' ∉ line.map toChar ∧ isStatement (line.map toChar) = false := by
  have hback : ∀ {b : Byte} {c : Char}, toChar b = c → b = toByte c := fun hb => by
    rw [← hb, toByte_toChar]
  refine ⟨fun hmem => ?_, decide_eq_false fun hdot => h.dot ?_⟩
  · obtain ⟨b, hb, hchar⟩ := List.mem_map.mp hmem
    exact (h.plain b hb).2.2 (hback hchar)
  · cases line with
    | nil => cases hdot
    | cons b line => exact congrArg some (hback (List.cons.inj hdot).1)

/-- A design with comments is read back from its text without their blank lines. -/
theorem readAscii_comments {d : Design} (skip nosleep : Bool) {bs : List (List Byte)}
    (hbs : ∀ line ∈ bs, Written line) (hd : d.initblop = comments bs) :
    readAscii skip nosleep d.text =
      .ok ((d.repacked nosleep (bs.filter (· ≠ []))).config skip) := by
  have hread := d.readAscii_text skip nosleep (hd ▸ commentText_comments hbs) (by
    intro line hline
    obtain ⟨l, hl, rfl⟩ := List.mem_map.mp hline
    exact (hbs l (List.mem_filter.mp hl).1).line)
  have hbytes : ((bs.filter (· ≠ [])).map (List.map toChar)).map (List.map toByte) =
      bs.filter (· ≠ []) := by
    rw [List.map_map]
    simp [Function.comp_def, toByte_toChar]
  rwa [hbytes] at hread

/-! ## Files -/

/-- The file of a design is unpacked. -/
theorem iceunpack_file {d : Design} (hclean : Clean d.initblop) :
    iceunpack false (d.file false) = .ok d.text := by
  have hread := readFile_file false false hclean []
  rw [List.append_nil] at hread
  unfold iceunpack
  rw [hread]
  change (d.unpacked false false).writeAscii.mapError IcepackError.writeAscii = _
  rw [d.writeAscii_unpacked]
  rfl

/-- The text of a design is packed. -/
theorem icepack_text {d : Design} {skip nosleep : Bool} {text : List Char}
    (h : readAscii skip nosleep text = .ok (d.config skip)) :
    icepack skip nosleep text = .ok (d.file skip) := by
  unfold icepack
  rw [h]
  change (d.config skip).writeFile.mapError IcepackError.writeBits = _
  rw [writeFile_design]
  rfl

/-- A file is unpacked and packed again as the same file, if its comments have no blank line and its
settings are those of a text. -/
theorem icepack_iceunpack (d : Design) (nosleep : Bool) {bs : List (List Byte)}
    (hbs : ∀ line ∈ bs, Written line ∧ line ≠ []) (hclean : Clean (comments bs)) :
    ∃ text, iceunpack false ((d.repacked nosleep bs).file false) = .ok text ∧
      icepack false nosleep text = .ok ((d.repacked nosleep bs).file false) := by
  refine ⟨_, iceunpack_file hclean, icepack_text ?_⟩
  have hread := readAscii_comments (d := d.repacked nosleep bs) false nosleep
    (fun line hline => (hbs line hline).1) rfl
  have hfilter : bs.filter (· ≠ []) = bs :=
    List.filter_eq_self.mpr fun line hline => decide_eq_true (hbs line hline).2
  rw [hfilter] at hread
  exact hread

theorem icepack_iceunpack_sample : ∃ text,
    iceunpack false ((Design.sample.repacked true [[0x68, 0x69]]).file false) = .ok text ∧
      icepack false true text = .ok ((Design.sample.repacked true [[0x68, 0x69]]).file false) :=
  icepack_iceunpack .sample true
    (fun line hline => by
      rw [List.mem_singleton.mp hline]
      exact ⟨⟨by decide, by decide⟩, by decide⟩)
    (by decide)

/-! ## Texts -/

theorem toNat_toByte {c : Char} (h : c.toNat < 0x80) : (toByte c).toNat = c.toNat := by
  rw [toByte, BitVec.toNat_ofNat]
  omega

/-- Comments of ASCII characters are clean. -/
theorem clean_of_ascii {bs : List (List Byte)}
    (h : ∀ bytes ∈ bs, ∃ line : Line, line.map toByte = bytes ∧ ∀ ch ∈ line, ch.toNat < 0x80) :
    Clean (comments bs) := by
  refine clean_comments fun bytes hbytes b hb => ?_
  obtain ⟨line, rfl, hline⟩ := h bytes hbytes
  obtain ⟨ch, hch, rfl⟩ := List.mem_map.mp hb
  rw [BitVec.lt_def, toNat_toByte (hline ch hch)]
  exact hline ch hch

theorem Accepted.clean {skip nosleep : Bool} {c : FpgaConfig}
    (hc : Accepted skip nosleep (·.toNat < 0x80) c) : Clean c.initblop := by
  rcases hc.initblop with h | ⟨ls, h, hls⟩
  · rw [h]
    decide
  · rw [h]
    refine clean_of_ascii fun bytes hbytes => ?_
    obtain ⟨line, hline, rfl⟩ := List.mem_map.mp hbytes
    exact ⟨line, rfl, (hls line hline).chars⟩

/-- Where a file is written, `nosleep` is set. -/
theorem nosleep_of_writeFile {c : FpgaConfig} {file : List Byte} (h : c.writeFile = .ok file) :
    c.nosleep ≠ none := by
  intro hnone
  obtain ⟨e, he⟩ : ∃ e, c.missing = some e := by
    unfold FpgaConfig.missing
    rw [if_pos hnone]
    split_ifs
    · exact ⟨_, rfl⟩
    · exact ⟨_, rfl⟩
  unfold FpgaConfig.writeFile at h
  rw [writeBits_error.mpr he] at h
  cases h

/-- What `icepack` accepts is a design, but for `nosleep` where no statement has set it. If a file is
written, everything has been set, and `read_bits` finds the design in the file. -/
theorem readFile_icepack {skip nosleep : Bool} {text : List Char} {c : FpgaConfig}
    (hascii : ∀ ch ∈ text, ch.toNat < 0x80) (h : readAscii skip nosleep text = .ok c)
    (hdevice : c.device ≠ none) :
    ∃ d : Design, c = { d.config skip with nosleep := c.nosleep } ∧
      ∀ file, c.writeFile = .ok file →
        c = d.config skip ∧ readFile false file = .ok (d.unpacked skip false) := by
  have hc : Accepted skip nosleep (·.toNat < 0x80) c := .readAscii hascii h
  obtain ⟨device, hsome⟩ := Option.ne_none_iff_exists'.mp hdevice
  obtain ⟨d, hconfig, hall⟩ := hc.exists_design hsome
  refine ⟨d, hconfig, fun file hfile => ?_⟩
  obtain rfl := hall (nosleep_of_writeFile hfile)
  refine ⟨rfl, ?_⟩
  rw [writeFile_design] at hfile
  cases hfile
  have hread := readFile_file skip false hc.clean []
  rwa [List.append_nil] at hread

/-- The text of the sample is its own normal form. -/
theorem readAscii_sample :
    readAscii false true Design.sample.text = .ok (Design.sample.config false) := by
  have hbs : ∀ line ∈ [[0x68, 0x69]], Written line := fun line hline => by
    rw [List.mem_singleton.mp hline]
    exact ⟨by decide, by decide⟩
  exact readAscii_comments false true hbs rfl

theorem ascii_sample : ∀ ch ∈ Design.sample.text, 0 < ch.toNat ∧ ch.toNat < 0x80 :=
  Design.ascii_text (by decide)

theorem readFile_icepack_sample : ∃ d : Design,
    Design.sample.config false = { d.config false with nosleep := some .enabled } ∧
      ∀ file, (Design.sample.config false).writeFile = .ok file →
        Design.sample.config false = d.config false ∧
          readFile false file = .ok (d.unpacked false false) :=
  readFile_icepack (fun ch hch => (ascii_sample ch hch).2) readAscii_sample (by decide)

/-- A line of printable characters is written as it is. -/
theorem CommentLine.written {line : Line}
    (h : CommentLine (fun c => 0 < c.toNat ∧ c.toNat < 0x80) line) : Written (line.map toByte) := by
  have hchar : ∀ ch ∈ line, (toByte ch).toNat = ch.toNat := fun ch hch =>
    toNat_toByte (h.chars ch hch).2
  refine ⟨fun b hb => ?_, fun hhead => ?_⟩
  · obtain ⟨ch, hch, rfl⟩ := List.mem_map.mp hb
    obtain ⟨hpos, hlt⟩ := h.chars ch hch
    have heq := hchar ch hch
    -- A NUL, a byte `0xff` and a line end are no characters of the line.
    refine ⟨fun hzero => ?_, fun hff => ?_, fun hnewline => h.newline ?_⟩
    · rw [hzero] at heq
      exact absurd heq.symm (Nat.ne_of_gt hpos)
    · rw [hff] at heq
      exact absurd (heq ▸ hlt) (by decide)
    · rw [hnewline] at heq
      have hch' : ch = '\n' := Char.toNat_inj.mp heq.symm
      exact hch' ▸ hch
  · cases line with
    | nil => cases hhead
    | cons ch line =>
      have heq := hchar ch List.mem_cons_self
      rw [Option.some.inj hhead] at heq
      have hch : ch = '.' := Char.toNat_inj.mp heq.symm
      have hdot := h.dot
      rw [hch] at hdot
      cases hdot

/-- The comments of an accepted text, as they are read back. -/
theorem Accepted.exists_comments {nosleep : Bool} {d : Design}
    (hd : Accepted false nosleep (fun c => 0 < c.toNat ∧ c.toNat < 0x80) (d.config false)) :
    ∃ bs, Icepack.readAscii false nosleep d.text = .ok ((d.repacked nosleep bs).config false) ∧
      commentText true (comments bs) = commentText true d.initblop ∧ Clean (comments bs) := by
  rcases hd.initblop with h | ⟨ls, h, hls⟩
  · have hd : d.initblop = [] := h
    have htext : commentText true d.initblop = ([] : List Line).flatMap ('\n' :: ·) := by
      rw [hd]
      rfl
    refine ⟨[], d.readAscii_text false nosleep htext nofun, ?_, by decide⟩
    rw [hd]
    rfl
  · have hd : d.initblop = comments (ls.map (List.map toByte)) := h
    have hbs : ∀ line ∈ ls.map (List.map toByte), Written line := by
      intro bytes hbytes
      obtain ⟨line, hline, rfl⟩ := List.mem_map.mp hbytes
      exact (hls line hline).written
    refine ⟨_, readAscii_comments false nosleep hbs hd, ?_, ?_⟩
    -- The text has no blank lines, so to drop them again changes nothing.
    · rw [hd, commentText_comments hbs, commentText_comments fun line hline =>
        hbs line (List.mem_filter.mp hline).1, List.filter_filter]
      simp
    · refine clean_of_ascii fun bytes hbytes => ?_
      obtain ⟨line, hline, rfl⟩ := List.mem_map.mp (List.mem_filter.mp hbytes).1
      exact ⟨line, rfl, fun ch hch => ((hls line hline).chars ch hch).2⟩

/-- To pack and to unpack a text again does not change it, after the first time. -/
theorem iceunpack_icepack {nosleep : Bool} {text : List Char} {c : FpgaConfig} {file : List Byte}
    (htext : ∀ ch ∈ text, 0 < ch.toNat ∧ ch.toNat < 0x80)
    (h : readAscii false nosleep text = .ok c) (hdevice : c.device ≠ none)
    (hfile : c.writeFile = .ok file) :
    ∃ text' file', iceunpack false file = .ok text' ∧
      icepack false nosleep text' = .ok file' ∧ iceunpack false file' = .ok text' := by
  have hc : Accepted false nosleep (fun c => 0 < c.toNat ∧ c.toNat < 0x80) c := .readAscii htext h
  have hclean : Clean c.initblop :=
    (Accepted.readAscii (fun ch hch => (htext ch hch).2) h).clean
  obtain ⟨device, hsome⟩ := Option.ne_none_iff_exists'.mp hdevice
  obtain ⟨d, -, hall⟩ := hc.exists_design hsome
  obtain rfl := hall (nosleep_of_writeFile hfile)
  obtain ⟨bs, hread, hcomments, hclean'⟩ := hc.exists_comments
  rw [writeFile_design] at hfile
  cases hfile
  -- The text depends on the comments through what is printed of them.
  have hsame : (d.repacked nosleep bs).text = d.text := by
    have hinitblop : (d.repacked nosleep bs).initblop = comments bs := rfl
    unfold Design.text
    rw [hinitblop, hcomments]
    rfl
  refine ⟨d.text, _, iceunpack_file hclean, icepack_text hread, ?_⟩
  rw [iceunpack_file hclean', hsame]

theorem iceunpack_icepack_sample : ∃ text' file',
    iceunpack false (Design.sample.file false) = .ok text' ∧
      icepack false true text' = .ok file' ∧ iceunpack false file' = .ok text' :=
  iceunpack_icepack ascii_sample readAscii_sample (by decide) (writeFile_design .sample false)

end GoBoard.Icepack
