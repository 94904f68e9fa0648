import GoBoard.Icepack.RoundTrip

/-!
# What the reader rejects

An accepted bitstream ends where the reader stops, and no part of one is accepted
(`readFile_prefix`). In the file of a design, a change of one or two adjacent bytes in
the data of a memory is always found by the checksum (`readFile_corrupt`): the variables of the
reader do not depend on the data, and the remainder of a burst of at most sixteen bits is not zero.
-/

namespace GoBoard.Icepack

open Coding (Byte length_packBytes packBytes)

/-! ## Parts of a file -/

/-- An accepted bitstream is a part at the front of the file. With anything else behind it, it is
accepted with the same configuration, and everything that is shorter ends too early. -/
theorem readFile_prefix {skip : Bool} {file : List Byte} {config : FpgaConfig}
    (h : readFile skip file = .ok config) :
    ∃ bits, bits <+: file ∧ (∀ rest, readFile skip (bits ++ rest) = .ok config) ∧
      ∀ cut, cut <+: bits → cut ≠ bits → readFile skip cut = .error .endOfFile := by
  obtain ⟨r, hread⟩ := readFile_eq_ok.mp h
  obtain ⟨bits, hfile, hbits⟩ := (readBits_regular _).takes _ _ _ hread
  refine ⟨bits, ⟨r.rest, hfile.symm⟩, fun rest => readFile_eq_ok.mpr ⟨_, hbits rest⟩,
    fun cut hcut hne => ?_⟩
  obtain ⟨missing, rfl⟩ := hcut
  have hall := hbits []
  rw [List.append_nil] at hall
  have hcut := (readBits_regular _).truncated hall fun hnil => hne (by rw [hnil, List.append_nil])
  unfold readFile
  rw [hcut]

/-- A `1k` with a comment, a bit of a logic tile, a bit that belongs to no tile, and a bit of a block
memory. -/
def Design.sample : Design where
  device := .ice1k
  freqrange := .low
  nosleep := .enabled
  warmboot := .disabled
  cram b x y := decide ((b, x, y) = (0, 100, 50) ∨ (b, x, y) = (1, 331, 143))
  bram b x y := decide ((b, x, y) = (2, 40, 200))
  initblop := comments [[0x68, 0x69]]
  cram_inside b x y h := by
    rcases of_decide_eq_true h with h | h
    · cases h
      decide
    · cases h
      decide
  bram_inside b x y h := by
    cases of_decide_eq_true h
    decide

theorem readFile_sample : readFile false (Design.sample.file false) =
    .ok (Design.sample.unpacked false false) := by
  have hread := readFile_file (d := .sample) false false (by decide) []
  rwa [List.append_nil] at hread

theorem readFile_prefix_sample : ∃ bits, bits <+: Design.sample.file false ∧
    (∀ rest, readFile false (bits ++ rest) = .ok (Design.sample.unpacked false false)) ∧
    ∀ cut, cut <+: bits → cut ≠ bits → readFile false cut = .error .endOfFile :=
  readFile_prefix readFile_sample

/-! ## Changes of the data -/

/-- The reader has the same variables, but maybe another configuration. -/
def Parser.SameVariables (s s' : Parser) : Prop :=
  s.current_bank = s'.current_bank ∧ s.current_width = s'.current_width ∧
    s.current_height = s'.current_height ∧ s.current_offset = s'.current_offset

theorem fits_congr {s s' : Parser} (h : s.SameVariables s') (c : Command) :
    c.Fits s ↔ c.Fits s' := by
  obtain ⟨hbank, hwidth, hheight, hoffset⟩ := h
  cases c <;> simp [Command.Fits, hbank, hwidth, hheight, hoffset]

theorem run_congr {s s' : Parser} (h : s.SameVariables s') (c : Command) :
    (c.run s).SameVariables (c.run s') := by
  obtain ⟨hbank, hwidth, hheight, hoffset⟩ := h
  cases c
  all_goals exact ⟨by first | rfl | exact hbank, by first | rfl | exact hwidth,
    by first | rfl | exact hheight, by first | rfl | exact hoffset⟩

theorem fitsAll_congr {s s' : Parser} (h : s.SameVariables s') (cs : List Command) :
    FitsAll s cs ↔ FitsAll s' cs := by
  induction cs generalizing s s' with
  | nil => rfl
  | cons c cs ih => simp only [FitsAll, fits_congr h c, ih (run_congr h c)]

/-- Other data of the same length fit as well. -/
theorem fitsAll_data {s : Parser} {before after : List Command} {t : Target}
    {data data' : List Byte} (hlen : data.length = data'.length) :
    FitsAll s (before ++ .data t data :: after) ↔ FitsAll s (before ++ .data t data' :: after) := by
  rw [fitsAll_append, fitsAll_append]
  refine and_congr_right fun _ => and_congr ?_ (fitsAll_congr ?_ after)
  · simp [Command.Fits, hlen]
  · exact ⟨rfl, rfl, rfl, rfl⟩

/-- Without a reset, a sequence of commands updates the checksum with all its bytes. -/
theorem foldl_crc {cs : List Command} (h : .resetCrc ∉ cs) (crc_value : BitVec 16) :
    cs.foldl Command.crc crc_value = crcBytes crc_value (cs.flatMap Command.bytes) := by
  induction cs generalizing crc_value with
  | nil => rfl
  | cons c cs ih =>
    obtain ⟨hc, hcs⟩ := not_or.mp fun hmem => h (List.mem_cons.mpr hmem)
    have hcrc : c.crc crc_value = crcBytes crc_value c.bytes := if_neg fun h => hc h.symm
    rw [List.foldl_cons, ih hcs, hcrc, List.flatMap_cons, crcBytes_append]

theorem resetCrc_notMem_cram (c : FpgaConfig) : .resetCrc ∉ c.cramCommands := by
  simp [FpgaConfig.cramCommands, FpgaConfig.cramBankCommands]

theorem resetCrc_notMem_bram (c : FpgaConfig) : .resetCrc ∉ c.bramCommands := by
  unfold FpgaConfig.bramCommands
  by_cases h : c.bram.width ≠ 0 ∧ c.bram.height ≠ 0
  · rw [if_pos h]
    simp [FpgaConfig.bramBankCommands, FpgaConfig.bramChunkCommands]
  · rw [if_neg h]
    exact List.not_mem_nil

/-- The checksum is not reset after a block of data. -/
theorem resetCrc_notMem {d : Design} {skip : Bool} {before after : List Command} {t : Target}
    {data : List Byte} (h : d.commands skip = before ++ .data t data :: after) :
    .resetCrc ∉ after := by
  intro hmem
  -- The settings are in front of the block.
  rcases before with _ | ⟨c₀, _ | ⟨c₁, _ | ⟨c₂, before⟩⟩⟩
  · cases h
  · cases h
  · cases h
  · have hrest : (d.config skip).cramCommands ++ (d.config skip).bramCommands =
        before ++ .data t data :: after := (List.cons.inj (List.cons.inj (List.cons.inj h).2).2).2
    have hall : .resetCrc ∈ (d.config skip).cramCommands ++ (d.config skip).bramCommands := by
      rw [hrest]
      simp [hmem]
    rcases List.mem_append.mp hall with hcram | hbram
    · exact resetCrc_notMem_cram _ hcram
    · exact resetCrc_notMem_bram _ hbram

/-- The blocks have the same length and differ in one or two bytes next to each other. -/
def Burst (data data' : List Byte) : Prop :=
  ∃ before u v after, data = before ++ u ++ after ∧ data' = before ++ v ++ after ∧
    u.length = v.length ∧ u.length ≤ 2 ∧ u ≠ v

theorem Burst.length_eq {data data' : List Byte} (h : Burst data data') :
    data.length = data'.length := by
  obtain ⟨before, u, v, after, rfl, rfl, hlen, -⟩ := h
  simp [hlen]

/-- A burst changes the checksum, whatever is in front of the data and behind them. -/
theorem Burst.crc_ne {data data' : List Byte} (h : Burst data data') (crc_value : BitVec 16)
    (rest : List Byte) : crcBytes crc_value (data ++ rest) ≠ crcBytes crc_value (data' ++ rest) := by
  obtain ⟨before, u, v, after, rfl, rfl, hlen, hle, hne⟩ := h
  intro heq
  simp only [crcBytes_append] at heq
  exact crcBytes_burst _ hlen hle hne (crcBytes_injective after (crcBytes_injective rest heq))

/-- The checksum finds every change of one or two adjacent bytes in the data of a memory. -/
theorem readFile_corrupt {d : Design} (skip skip' : Bool) (hclean : Clean d.initblop)
    {before after : List Command} {t : Target} {data data' : List Byte}
    (hcommands : d.commands skip = before ++ .data t data :: after) (hburst : Burst data data') :
    readFile skip' (fileOf d.initblop (before ++ .data t data' :: after)
      (checksum (d.commands skip))) = .error .crcFailed := by
  obtain ⟨hfits, -⟩ := leads_commands d skip
    { FpgaConfig.init skip' with initblop := d.initblop }
    (.init { FpgaConfig.init skip' with initblop := d.initblop }) rfl
  rw [hcommands, fitsAll_data hburst.length_eq] at hfits
  refine (readBits_commands hclean rfl hfits _ [0x00]).trans ?_
  rw [if_neg]
  intro hzero
  -- The bytes behind the data keep a difference of the checksums, so the data give the same one.
  have horig := crc_ending d skip (crcBytes 0 (d.initblop ++ preamble))
  have hreset := resetCrc_notMem hcommands
  have hsame := crcBytes_injective _ (horig.trans hzero.symm)
  rw [hcommands, List.foldl_append, List.foldl_append, List.foldl_cons, List.foldl_cons,
    foldl_crc hreset, foldl_crc hreset] at hsame
  have hdata := crcBytes_injective _ hsame
  have hbytes : ∀ bytes, (Command.data t bytes).crc
      (before.foldl Command.crc (crcBytes 0 (d.initblop ++ preamble))) =
      crcBytes (crcBytes (before.foldl Command.crc (crcBytes 0 (d.initblop ++ preamble)))
        [0x01, t.payload]) (bytes ++ [0x00, 0x00]) := by
    intro bytes
    rw [← crcBytes_append, ← List.append_assoc]
    rfl
  rw [hbytes, hbytes] at hdata
  exact hburst.crc_ne _ _ hdata

/-- The first byte of the CRAM is changed. -/
theorem readFile_corrupt_sample : ∃ before data data' after,
    Design.sample.commands false = before ++ .data .cram data :: after ∧ Burst data data' ∧
      readFile false (fileOf Design.sample.initblop (before ++ .data .cram data' :: after)
        (checksum (Design.sample.commands false))) = .error .crcFailed := by
  let data := packBytes ((Design.sample.config false).cram.block 0 332 144 0)
  obtain ⟨b, rest, hdata⟩ : ∃ b rest, data = b :: rest := by
    refine List.exists_cons_of_ne_nil fun hnil => ?_
    have hlen := congrArg List.length hnil
    rw [length_packBytes, Memory.length_block] at hlen
    exact absurd hlen (by decide)
  have hsplit : Design.sample.commands false = [.freqRange .low, .resetCrc,
      .bootMode .disabled .enabled, .bankWidth 331, .bankHeight 144, .bankOffset 0, .bank 0] ++
      .data .cram data :: ([1, 2, 3].flatMap (Design.sample.config false).cramBankCommands ++
        (Design.sample.config false).bramCommands) := rfl
  have hburst : Burst data ((b + 1) :: rest) :=
    ⟨[], [b], [b + 1], rest, hdata, rfl, rfl, by simp, by simp⟩
  exact ⟨_, data, (b + 1) :: rest, _, hsplit, hburst,
    readFile_corrupt (d := .sample) false false (by decide) hsplit hburst⟩

end GoBoard.Icepack
