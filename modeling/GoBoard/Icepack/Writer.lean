import GoBoard.Icepack.Commands

/-!
# `write_bits`

The writer of the binary format. Its parts write commands (`Writes`), so what it writes for a
configuration whose settings are made is a sequence of commands between the preamble and the
checksum (`writeBits_eq`). Without a setting it fails (`writeBits_error`).
-/

namespace GoBoard.Icepack

open Coding (Byte packBytes)

/-- The file so far and the checksum. -/
structure Writer where
  ofs : List Byte
  crc_value : BitVec 16
  deriving DecidableEq, Repr

/-- The calls of `error`. -/
inductive WriteError
  | unknownFreqrange
  | unknownNosleep
  | unknownWarmboot
  deriving DecidableEq, Repr

/-- The texts of the errors, for a setting that has not been made. -/
def WriteError.text : WriteError → String
  | unknownFreqrange => "Unknown freqrange ''.\n"
  | unknownNosleep => "Unknown nosleep setting ''.\n"
  | unknownWarmboot => "Unknown warmboot setting ''.\n"

/-- A part of the writer. -/
abbrev Write := StateT Writer (Except WriteError) Unit

/-- `write_byte`. -/
def writeByte (byte : Byte) : Write :=
  modify fun w => ⟨w.ofs ++ [byte], updateCrc16 w.crc_value byte⟩

/-- The two calls of `write_byte` for a number of two bytes. -/
def writeWord (n : ℤ) : Write := do
  writeByte (BitVec.ofInt 8 (n >>> (8 : ℕ)))
  writeByte (BitVec.ofInt 8 n)

/-! ## Commands, each between two messages of `debug` -/

/-- "Resetting CRC." -/
def writeResetCrc : Write := do
  writeByte 0x01
  writeByte 0x05
  modify fun w => { w with crc_value := 0xffff }

/-- "Setting bank width to %d." -/
def writeBankWidth (width : ℤ) : Write := do
  writeByte 0x62
  writeWord (width - 1)

/-- "Setting bank height to %d." -/
def writeBankHeight (height : ℤ) : Write := do
  writeByte 0x72
  writeWord height

/-- "Setting bank offset to %d." -/
def writeBankOffset (offset : ℤ) : Write := do
  writeByte 0x82
  writeWord offset

/-- "Setting bank %d." -/
def writeBank (bank : ℤ) : Write := do
  writeByte 0x11
  writeByte (BitVec.ofInt 8 bank)

/-- "Writing bank %d data.", with eight bits in a byte. -/
def writeBankData (payload : Byte) (bits : List Bool) : Write := do
  writeByte 0x01
  writeByte payload
  (packBytes bits).forM writeByte
  writeByte 0x00
  writeByte 0x00

/-- A part of the writer that depends on the configuration. -/
def writeIf (p : Prop) [Decidable p] (write : Write) : Write := if p then write else pure ()

namespace FpgaConfig

variable (c : FpgaConfig)

/-- The comments, without the checksum, and the preamble. -/
def writePreamble : Write := do
  modify fun w => { w with ofs := w.ofs ++ c.initblop }
  writeByte 0x7E
  writeByte 0xAA
  writeByte 0x99
  writeByte 0x7E

/-- "Setting freqrange to '%s'." -/
def writeFreqrange : Write := do
  writeByte 0x51
  match c.freqrange with
  | some .low => writeByte 0x00
  | some .medium => writeByte 0x01
  | some .high => writeByte 0x02
  | none => throw .unknownFreqrange

/-- "Setting warmboot to '%s', nosleep to '%s'." -/
def writeBootMode : Write := do
  writeByte 0x92
  writeByte 0x00
  let nosleep_flag : Byte ← match c.nosleep with
    | some .disabled => pure 0
    | some .enabled => pure 1
    | none => throw .unknownNosleep
  match c.warmboot with
  | some .disabled => writeByte (0x00 ||| nosleep_flag)
  | some .enabled => writeByte (0x20 ||| nosleep_flag)
  | none => throw .unknownWarmboot

/-- The `height` of a bank of the CRAM. -/
def cramHeight (cram_bank : ℕ) : ℕ :=
  if c.device = some .ice5k ∧ cram_bank % 2 = 1 then c.cram.height / 2 + 8 else c.cram.height

/-- One turn of the loop over the banks of the CRAM. -/
def writeCramBank (cram_bank : ℕ) : Write := do
  writeIf (c.device = some .ice5k) (writeBankHeight (c.cramHeight cram_bank))
  writeBank cram_bank
  writeBankData 0x01 (c.cram.block cram_bank c.cram.width (c.cramHeight cram_bank) 0)

/-- The CRAM. -/
def writeCram : Write := do
  writeBankWidth c.cram.width
  writeIf (c.device ≠ some .ice5k) (writeBankHeight c.cram.height)
  writeBankOffset 0
  (List.range 4).forM c.writeCramBank

/-- `bram_chunk_size`. -/
def bram_chunk_size : ℕ := 128

/-- The `width` of a bank of the BRAM. -/
def bramWidth (bram_bank : ℕ) : ℕ :=
  if c.device = some .ice5k ∧ bram_bank % 2 = 1 then c.bram.width / 2 else c.bram.width

/-- One turn of the loop over the chunks of a bank of the BRAM. -/
def writeBramChunk (bram_bank offset : ℕ) : Write := do
  writeBankOffset offset
  writeIf (c.device = some .ice5k) (writeBankWidth (c.bramWidth bram_bank))
  writeIf (¬c.skip_bram_initialization) (writeBankData 0x03
    (c.bram.block bram_bank (c.bramWidth bram_bank) bram_chunk_size offset))

/-- The values of `offset`. -/
def offsets : List ℕ :=
  (List.range ((c.bram.height + bram_chunk_size - 1) / bram_chunk_size)).map (bram_chunk_size * ·)

/-- One turn of the loop over the banks of the BRAM. -/
def writeBramBank (bram_bank : ℕ) : Write := do
  writeBank bram_bank
  c.offsets.forM (c.writeBramChunk bram_bank)

/-- The BRAM, if there is one. -/
def writeBram : Write :=
  writeIf (c.bram.width ≠ 0 ∧ c.bram.height ≠ 0) do
    writeIf (c.device ≠ some .ice5k) (writeBankWidth c.bram.width)
    writeBankHeight bram_chunk_size
    (List.range 4).forM c.writeBramBank

/-- The checksum, the command that wakes the chip up, and a byte of padding. -/
def writeEnding : Write := do
  writeByte 0x22
  let crc_value := (← get).crc_value
  writeByte (BitVec.ofNat 8 (crc_value >>> 8).toNat)
  writeByte (BitVec.ofNat 8 crc_value.toNat)
  writeByte 0x01
  writeByte 0x06
  writeByte 0x00

/-- `write_bits`. -/
def writeBits : Write := do
  c.writePreamble
  c.writeFreqrange
  writeResetCrc
  c.writeBootMode
  c.writeCram
  c.writeBram
  writeEnding

/-- The file, as `icepack` writes it. -/
def writeFile : Except WriteError (List Byte) :=
  match c.writeBits ⟨[], 0⟩ with
  | .ok (_, w) => .ok w.ofs
  | .error e => .error e

end FpgaConfig

/-! ## Parts of the writer -/

/-- The part writes the bytes. -/
def WritesBytes (p : Write) (bytes : List Byte) : Prop :=
  ∀ w, p w = .ok ((), ⟨w.ofs ++ bytes, crcBytes w.crc_value bytes⟩)

/-- The part writes the commands. -/
def Writes (p : Write) (cs : List Command) : Prop :=
  ∀ w, p w = .ok ((), ⟨w.ofs ++ cs.flatMap Command.bytes, cs.foldl Command.crc w.crc_value⟩)

theorem writesBytes_writeByte (byte : Byte) : WritesBytes (writeByte byte) [byte] := fun _ => rfl

theorem write_bind {p : Write} {q : Unit → Write} {w w' : Writer} (h : p w = .ok ((), w')) :
    (p >>= q) w = q () w' := by
  change (p w >>= fun x => q x.1 x.2) = _
  rw [h]
  rfl

theorem WritesBytes.append {p q : Write} {bs cs : List Byte} (hp : WritesBytes p bs)
    (hq : WritesBytes q cs) : WritesBytes (do p; q) (bs ++ cs) := by
  intro w
  rw [write_bind (hp w), hq, crcBytes_append, List.append_assoc]

theorem WritesBytes.cons {q : Write} {bytes : List Byte} (byte : Byte) (hq : WritesBytes q bytes) :
    WritesBytes (do writeByte byte; q) (byte :: bytes) :=
  (writesBytes_writeByte byte).append hq

theorem writesBytes_forM (bytes : List Byte) : WritesBytes (bytes.forM writeByte) bytes := by
  induction bytes with
  | nil => exact fun w => by simp; rfl
  | cons byte bytes ih => exact ih.cons byte

/-- The two bytes of a number. -/
theorem writesBytes_writeWord (n : ℤ) : WritesBytes (writeWord n) (wordBytes (BitVec.ofInt 16 n)) := by
  have hword : ((BitVec.ofInt 16 n).toNat : ℤ) = n % 65536 := by
    rw [BitVec.toNat_ofInt]
    omega
  have hhigh : BitVec.ofInt 8 (n >>> (8 : ℕ)) = (BitVec.ofInt 16 n).extractLsb' 8 8 := by
    apply BitVec.eq_of_toNat_eq
    rw [BitVec.extractLsb'_toNat, BitVec.toNat_ofInt, Int.shiftRight_eq_div_pow,
      Nat.shiftRight_eq_div_pow]
    omega
  have hlow : BitVec.ofInt 8 n = (BitVec.ofInt 16 n).extractLsb' 0 8 := by
    apply BitVec.eq_of_toNat_eq
    rw [BitVec.extractLsb'_toNat, BitVec.toNat_ofInt, Nat.shiftRight_zero]
    omega
  unfold writeWord wordBytes
  rw [hhigh, hlow]
  exact (writesBytes_writeByte _).cons _

namespace Writes

theorem nil : Writes (pure ()) [] := fun w => by simp; rfl

theorem append {p q : Write} {cs ds : List Command} (hp : Writes p cs) (hq : Writes q ds) :
    Writes (do p; q) (cs ++ ds) := by
  intro w
  rw [write_bind (hp w), hq, List.flatMap_append, List.foldl_append, List.append_assoc]

theorem forM {α : Type} {f : α → Write} {g : α → List Command} (h : ∀ a, Writes (f a) (g a))
    (as : List α) : Writes (as.forM f) (as.flatMap g) := by
  induction as with
  | nil => exact nil
  | cons a as ih => exact (h a).append ih

theorem writeIf (p : Prop) [Decidable p] {write : Write} {cs : List Command} (h : Writes write cs) :
    Writes (writeIf p write) (if p then cs else []) := by
  unfold Icepack.writeIf
  split_ifs
  · exact h
  · exact nil

/-- The bytes of a command. -/
theorem of_bytes {p : Write} {c : Command} (h : WritesBytes p c.bytes) (hc : c ≠ .resetCrc) :
    Writes p [c] := by
  intro w
  rw [h w]
  simp [Command.crc, hc]

end Writes

theorem writes_resetCrc : Writes writeResetCrc [.resetCrc] := by
  intro w
  have hreset : writeResetCrc w = .ok ((), ⟨w.ofs ++ [0x01] ++ [0x05], 0xffff⟩) := rfl
  rw [hreset]
  simp [Command.bytes, Command.crc]

theorem writes_bankWidth (width : ℤ) :
    Writes (writeBankWidth width) [.bankWidth (BitVec.ofInt 16 (width - 1))] :=
  .of_bytes ((writesBytes_writeWord _).cons _) nofun

theorem writes_bankHeight (height : ℤ) :
    Writes (writeBankHeight height) [.bankHeight (BitVec.ofInt 16 height)] :=
  .of_bytes ((writesBytes_writeWord _).cons _) nofun

theorem writes_bankOffset (offset : ℤ) :
    Writes (writeBankOffset offset) [.bankOffset (BitVec.ofInt 16 offset)] :=
  .of_bytes ((writesBytes_writeWord _).cons _) nofun

theorem writes_bank (bank : ℤ) : Writes (writeBank bank) [.bank (BitVec.ofInt 8 bank)] :=
  .of_bytes ((writesBytes_writeByte _).cons _) nofun

theorem writes_bankData (t : Target) (bits : List Bool) :
    Writes (writeBankData t.payload bits) [.data t (packBytes bits)] := by
  refine .of_bytes ?_ nofun
  have hend : WritesBytes (do writeByte 0x00; writeByte 0x00) [0x00, 0x00] :=
    (writesBytes_writeByte _).cons _
  have hdata := (((writesBytes_forM (packBytes bits)).append hend).cons t.payload).cons 0x01
  exact hdata

/-! ## What is written -/

namespace FpgaConfig

variable (c : FpgaConfig)

/-- The commands for a bank of the CRAM. -/
def cramBankCommands (cram_bank : ℕ) : List Command :=
  (if c.device = some .ice5k then [.bankHeight (BitVec.ofInt 16 (c.cramHeight cram_bank))] else []) ++
    ([.bank (BitVec.ofInt 8 cram_bank)] ++
      [.data .cram (packBytes (c.cram.block cram_bank c.cram.width (c.cramHeight cram_bank) 0))])

/-- The commands for the CRAM. -/
def cramCommands : List Command :=
  [.bankWidth (BitVec.ofInt 16 (c.cram.width - 1))] ++
    ((if c.device ≠ some .ice5k then [.bankHeight (BitVec.ofInt 16 c.cram.height)] else []) ++
      ([.bankOffset (BitVec.ofInt 16 0)] ++ (List.range 4).flatMap c.cramBankCommands))

/-- The commands for a chunk of the BRAM. -/
def bramChunkCommands (bram_bank offset : ℕ) : List Command :=
  [.bankOffset (BitVec.ofInt 16 offset)] ++
    ((if c.device = some .ice5k then [.bankWidth (BitVec.ofInt 16 (c.bramWidth bram_bank - 1))]
      else []) ++
      if ¬c.skip_bram_initialization then
        [.data .bram (packBytes
          (c.bram.block bram_bank (c.bramWidth bram_bank) bram_chunk_size offset))]
      else [])

/-- The commands for a bank of the BRAM. -/
def bramBankCommands (bram_bank : ℕ) : List Command :=
  [.bank (BitVec.ofInt 8 bram_bank)] ++ c.offsets.flatMap (c.bramChunkCommands bram_bank)

/-- The commands for the BRAM. -/
def bramCommands : List Command :=
  if c.bram.width ≠ 0 ∧ c.bram.height ≠ 0 then
    (if c.device ≠ some .ice5k then [.bankWidth (BitVec.ofInt 16 (c.bram.width - 1))] else []) ++
      ([.bankHeight (BitVec.ofInt 16 bram_chunk_size)] ++ (List.range 4).flatMap c.bramBankCommands)
  else []

theorem writes_cram : Writes c.writeCram c.cramCommands := by
  refine (writes_bankWidth _).append (.append (.writeIf _ (writes_bankHeight _))
    ((writes_bankOffset 0).append (.forM (fun bank => ?_) _)))
  exact .append (.writeIf _ (writes_bankHeight _)) ((writes_bank _).append (writes_bankData .cram _))

theorem writes_bram : Writes c.writeBram c.bramCommands := by
  refine .writeIf _ (.append (.writeIf _ (writes_bankWidth _)) ((writes_bankHeight _).append
    (.forM (fun bank => (writes_bank _).append (.forM (fun offset => ?_) _)) _)))
  exact (writes_bankOffset _).append (.append (.writeIf _ (writes_bankWidth _))
    (.writeIf _ (writes_bankData .bram _)))

end FpgaConfig

/-- The preamble. -/
def preamble : List Byte := [0x7E, 0xAA, 0x99, 0x7E]

/-- The commands for a configuration whose settings are made. -/
def FpgaConfig.commands (c : FpgaConfig) (f : FreqRange) (warmboot nosleep : Setting) :
    List Command :=
  [.freqRange f, .resetCrc, .bootMode warmboot nosleep] ++ (c.cramCommands ++ c.bramCommands)

/-- The checksum of a sequence of commands, with the byte in front of it. -/
def checksum (cs : List Command) : BitVec 16 :=
  updateCrc16 (cs.foldl Command.crc (crcBytes 0 preamble)) 0x22

theorem writes_freqrange {c : FpgaConfig} {f : FreqRange} (hf : c.freqrange = some f) :
    Writes c.writeFreqrange [.freqRange f] := by
  unfold FpgaConfig.writeFreqrange
  rw [hf]
  cases f with
  | low => exact .of_bytes ((writesBytes_writeByte _).cons _) nofun
  | medium => exact .of_bytes ((writesBytes_writeByte _).cons _) nofun
  | high => exact .of_bytes ((writesBytes_writeByte _).cons _) nofun

theorem writes_bootMode {c : FpgaConfig} {warmboot nosleep : Setting}
    (hw : c.warmboot = some warmboot) (hn : c.nosleep = some nosleep) :
    Writes c.writeBootMode [.bootMode warmboot nosleep] := by
  unfold FpgaConfig.writeBootMode
  rw [hw, hn]
  cases warmboot <;> cases nosleep
  all_goals exact .of_bytes (((writesBytes_writeByte _).cons _).cons _) nofun

theorem writePreamble_eq (c : FpgaConfig) :
    c.writePreamble ⟨[], 0⟩ = .ok ((), ⟨c.initblop ++ preamble, crcBytes 0 preamble⟩) := by
  have hpreamble : WritesBytes (do
      writeByte 0x7E
      writeByte 0xAA
      writeByte 0x99
      writeByte 0x7E) preamble := (((writesBytes_writeByte _).cons _).cons _).cons _
  exact hpreamble ⟨c.initblop, 0⟩

theorem writeEnding_eq (w : Writer) : ∃ crc_value, FpgaConfig.writeEnding w =
    .ok ((), ⟨w.ofs ++ (ending (updateCrc16 w.crc_value 0x22) ++ [0x00]), crc_value⟩) := by
  generalize hcrc : updateCrc16 w.crc_value 0x22 = crc
  have hhigh : BitVec.ofNat 8 (crc >>> 8).toNat = crc.extractLsb' 8 8 := by
    apply BitVec.eq_of_toNat_eq
    rw [BitVec.toNat_ofNat, BitVec.extractLsb'_toNat, BitVec.toNat_ushiftRight]
  have hlow : BitVec.ofNat 8 crc.toNat = crc.extractLsb' 0 8 := by
    apply BitVec.eq_of_toNat_eq
    rw [BitVec.toNat_ofNat, BitVec.extractLsb'_toNat, Nat.shiftRight_zero]
  have hbytes : WritesBytes (do
      writeByte (crc.extractLsb' 8 8)
      writeByte (crc.extractLsb' 0 8)
      writeByte 0x01
      writeByte 0x06
      writeByte 0x00) (wordBytes crc ++ [0x01, 0x06, 0x00]) :=
    ((((writesBytes_writeByte _).cons _).cons _).cons _).cons _
  refine ⟨crcBytes crc (wordBytes crc ++ [0x01, 0x06, 0x00]), ?_⟩
  refine (write_bind (q := fun _ => _) (writesBytes_writeByte 0x22 w)).trans ?_
  change (do
    writeByte (BitVec.ofNat 8 (updateCrc16 w.crc_value 0x22 >>> 8).toNat)
    writeByte (BitVec.ofNat 8 (updateCrc16 w.crc_value 0x22).toNat)
    writeByte 0x01
    writeByte 0x06
    writeByte 0x00 : Write) _ = _
  rw [hcrc, hhigh, hlow, hbytes, List.append_assoc]
  subst hcrc
  rfl

/-- What is written for a configuration whose settings are made. -/
theorem writeBits_eq {c : FpgaConfig} {f : FreqRange} {warmboot nosleep : Setting}
    (hf : c.freqrange = some f) (hw : c.warmboot = some warmboot) (hn : c.nosleep = some nosleep) :
    ∃ crc_value, c.writeBits ⟨[], 0⟩ = .ok ((), ⟨c.initblop ++ preamble ++
      (c.commands f warmboot nosleep).flatMap Command.bytes ++
        ending (checksum (c.commands f warmboot nosleep)) ++ [0x00], crc_value⟩) := by
  unfold FpgaConfig.writeBits
  rw [write_bind (writePreamble_eq c), write_bind (writes_freqrange hf _),
    write_bind (writes_resetCrc _), write_bind (writes_bootMode hw hn _),
    write_bind (c.writes_cram _), write_bind (c.writes_bram _)]
  obtain ⟨crc_value, hending⟩ := writeEnding_eq _
  refine ⟨crc_value, hending.trans ?_⟩
  simp only [FpgaConfig.commands, checksum, List.flatMap_append, List.foldl_append,
    List.flatMap_cons, List.flatMap_nil, List.foldl_cons, List.foldl_nil, List.append_assoc,
    List.append_nil]

/-- The first setting that has not been made. -/
def FpgaConfig.missing (c : FpgaConfig) : Option WriteError :=
  if c.freqrange = none then some .unknownFreqrange
  else if c.nosleep = none then some .unknownNosleep
  else if c.warmboot = none then some .unknownWarmboot
  else none

/-- The writer fails where a setting has not been made, and nowhere else. -/
theorem writeBits_error {c : FpgaConfig} {e : WriteError} :
    c.writeBits ⟨[], 0⟩ = .error e ↔ c.missing = some e := by
  unfold FpgaConfig.missing
  -- The settings are checked in this order, before the memories are written.
  cases hf : c.freqrange with
  | none =>
    have hwrite : c.writeBits ⟨[], 0⟩ = .error .unknownFreqrange := by
      unfold FpgaConfig.writeBits
      rw [write_bind (writePreamble_eq c)]
      unfold FpgaConfig.writeFreqrange
      rw [hf]
      rfl
    rw [hwrite]
    simp
  | some f =>
    cases hn : c.nosleep with
    | none =>
      have hwrite : c.writeBits ⟨[], 0⟩ = .error .unknownNosleep := by
        unfold FpgaConfig.writeBits
        rw [write_bind (writePreamble_eq c), write_bind (writes_freqrange hf _),
          write_bind (writes_resetCrc _)]
        unfold FpgaConfig.writeBootMode
        rw [hn]
        rfl
      rw [hwrite]
      simp
    | some nosleep =>
      cases hw : c.warmboot with
      | none =>
        have hwrite : c.writeBits ⟨[], 0⟩ = .error .unknownWarmboot := by
          unfold FpgaConfig.writeBits
          rw [write_bind (writePreamble_eq c), write_bind (writes_freqrange hf _),
            write_bind (writes_resetCrc _)]
          unfold FpgaConfig.writeBootMode
          rw [hn, hw]
          cases nosleep <;> rfl
        rw [hwrite]
        simp
      | some warmboot =>
        obtain ⟨crc_value, hwrite⟩ := writeBits_eq hf hw hn
        rw [hwrite]
        simp

end GoBoard.Icepack
