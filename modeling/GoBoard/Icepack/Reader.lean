import GoBoard.Coding.Parse
import GoBoard.Icepack.Crc16

/-!
# `read_bits`

The reader of the binary format. It skips to the preamble, and then runs commands until one of them
wakes the chip up. The lower half of a command byte is the number of payload bytes, and a block of
memory follows the command that announces it. Every byte updates the checksum.

The reader is put together from regular parts, and so it is regular (`readBits_regular`): what
follows an accepted bitstream does not matter, and no part of one is accepted
(`readBits_prefix_free`). The memories of an accepted configuration have nothing outside their sizes
(`readBits_inside`).
-/

namespace GoBoard.Icepack

open Coding (Byte Consuming Parse Regular)

/-! ## Errors -/

/-- The calls of `error`, each with the numbers of its message. -/
inductive ReadError
  | endOfFile
  | noPreamble
  | cramEndToken (end_token : BitVec 16)
  | bramEndToken (end_token : BitVec 16)
  | unknownCommand (command : Byte) (payload : BitVec 32)
  | crcFailed
  | unknownFreqRange (payload : BitVec 32)
  | unknownBootMode (payload : BitVec 32)
  | unknownChip
  /-- A bank that does not exist, an `int` that overflows, or a bit with a negative coordinate: the
  source has no check. -/
  | undefined
  deriving DecidableEq, Repr

/-- A number in hexadecimal, with leading zeros up to a width. -/
def hex (width n : ℕ) : String :=
  let ds := Nat.toDigits 16 n
  "0x" ++ String.ofList (List.replicate (width - ds.length) '0' ++ ds)

/-- The texts of the errors. There is none where the source has no check. -/
def ReadError.text : ReadError → String
  | endOfFile => "Unexpected end of file.\n"
  | noPreamble => "No preamble found in bitstream.\n"
  | cramEndToken v => "Expeded 0x0000 after CRAM data, got " ++ hex 4 v.toNat ++ "\n"
  | bramEndToken v => "Expected 0x0000 after BRAM data, got " ++ hex 4 v.toNat ++ "\n"
  | unknownCommand c p => "Unknown command: " ++ hex 2 c.toNat ++ " " ++ hex 2 p.toNat ++ "\n"
  | crcFailed => "CRC Check FAILED.\n"
  | unknownFreqRange p => "Unknown freqrange payload " ++ hex 2 p.toNat ++ "\n"
  | unknownBootMode p => "Unknown warmboot/nosleep payload " ++ hex 2 p.toNat ++ "\n"
  | unknownChip => "Failed to detect chip type.\n"
  | undefined => ""

/-! ## Bytes -/

/-- A part of the reader. Its state is the checksum. -/
abbrev Read (α : Type) := Parse (BitVec 16) ReadError α

/-- `read_byte`. -/
def readByte : Read Byte := Parse.next updateCrc16 .endOfFile

/-- A loop around `read_byte`. -/
def readBytes (n : ℕ) : Read (List Byte) := Parse.times readByte n

theorem readBytes_append (bytes rest : List Byte) (crc : BitVec 16) :
    readBytes bytes.length ⟨bytes ++ rest, crc⟩ = .ok (bytes, ⟨rest, crcBytes crc bytes⟩) :=
  Parse.times_next_append updateCrc16 ReadError.endOfFile bytes rest crc

/-- The bytes of a number, the highest first. -/
def bigEndian (w : ℕ) (bytes : List Byte) : BitVec w :=
  bytes.foldl (fun v b => v <<< 8 ||| b.setWidth w) 0

/-! ## The preamble -/

/-- The local variable of the first loop, and the configuration. -/
structure Scanner where
  preamble : BitVec 32
  config : FpgaConfig

/-- One turn of the first loop. -/
def Scanner.step (s : Scanner) : Read (Scanner ⊕ FpgaConfig) := do
  let byte ← readByte
  let preamble := s.preamble <<< 8 ||| byte.setWidth 32
  if preamble = 0xffffffff then throw .noPreamble
  else if preamble = 0x7EAA997E then return .inr s.config
  else return .inl ⟨preamble, { s.config with initblop := s.config.initblop ++ [byte] }⟩

theorem Scanner.consuming (s : Scanner) : Consuming ReadError.endOfFile s.step := by
  refine (Consuming.next _).bind fun byte => ?_
  dsimp only
  split_ifs
  · exact .throw _
  · exact .pure _
  · exact .pure _

/-- The first loop, and what it takes back: the part of the preamble that has been stored. -/
def findPreamble (config : FpgaConfig) : Read FpgaConfig := do
  let config ← Parse.loop Scanner.consuming ⟨0, config⟩
  return { config with initblop := config.initblop.dropLast.dropLast.dropLast }

/-! ## Commands -/

/-- A payload as an `int`. -/
def asInt (payload : ℕ) : ℤ :=
  if payload < 2147483648 then payload else payload - 4294967296

theorem asInt_of_lt {payload : ℕ} (h : payload < 2147483648) : asInt payload = payload := if_pos h

/-- An `int` has this value. -/
def IsInt (n : ℤ) : Prop := -2147483648 ≤ n ∧ n < 2147483648

instance (n : ℤ) : Decidable (IsInt n) := inferInstanceAs (Decidable (_ ∧ _))

/-- The local variables of the main loop, and the configuration. A number is kept as its payload. -/
structure Parser where
  current_bank : ℕ
  current_width : ℕ
  current_height : ℕ
  current_offset : ℕ
  config : FpgaConfig

namespace Parser

/-- The data of a block of memory, between the command that announces it and the end token. A block
without a byte may have a negative size or offset. -/
def readData (s : Parser) (m : Memory) (badToken : BitVec 16 → ReadError) : Read Memory := do
  let width := asInt s.current_width
  let height := asInt s.current_height
  let offset := asInt s.current_offset
  if 4 ≤ s.current_bank ∨ ¬IsInt (offset + height) ∨ ¬IsInt (height * width) then throw .undefined
  else if 8 ≤ height * width ∧ (width < 0 ∨ offset < 0) then throw .undefined
  else
    let m := m.resize s.current_bank width.toNat (offset + height).toNat
    let bytes ← readBytes (height * width / 8).toNat
    let token ← readBytes 2
    if bigEndian 16 token ≠ 0 then throw (badToken (bigEndian 16 token))
    else return m.store s.current_bank width.toNat offset.toNat bytes

/-- The `switch` on a command. -/
def execute (s : Parser) (command : Byte) (payload : BitVec 32) : Read (Parser ⊕ FpgaConfig) :=
  match (command &&& 0xf0).toNat with
  | 0x00 =>
    match payload.toNat with
    | 0x01 => do
      let cram ← s.readData s.config.cram .cramEndToken
      return .inl { s with config := { s.config with cram := cram } }
    | 0x03 => do
      let bram ← s.readData s.config.bram .bramEndToken
      return .inl { s with config := { s.config with bram := bram } }
    | 0x05 => Parse.onState fun _ => .ok (.inl s, 0xffff)
    | 0x06 => return .inr s.config
    | _ => throw (.unknownCommand command payload)
  | 0x10 => return .inl { s with current_bank := payload.toNat }
  | 0x20 => Parse.onState fun crc => if crc ≠ 0 then .error .crcFailed else .ok (.inl s, crc)
  | 0x50 =>
    match payload.toNat with
    | 0 => return .inl { s with config := { s.config with freqrange := some .low } }
    | 1 => return .inl { s with config := { s.config with freqrange := some .medium } }
    | 2 => return .inl { s with config := { s.config with freqrange := some .high } }
    | _ => throw (.unknownFreqRange payload)
  | 0x60 => return .inl { s with current_width := (payload + 1).toNat }
  | 0x70 => return .inl { s with current_height := payload.toNat }
  | 0x80 => return .inl { s with current_offset := payload.toNat }
  | 0x90 =>
    match payload.toNat with
    | 0 => return .inl { s with config := { s.config with
        warmboot := some .disabled, nosleep := some .disabled } }
    | 1 => return .inl { s with config := { s.config with
        warmboot := some .disabled, nosleep := some .enabled } }
    | 32 => return .inl { s with config := { s.config with
        warmboot := some .enabled, nosleep := some .disabled } }
    | 33 => return .inl { s with config := { s.config with
        warmboot := some .enabled, nosleep := some .enabled } }
    | _ => throw (.unknownBootMode payload)
  | _ => throw (.unknownCommand command payload)

/-- One turn of the main loop: a command byte, its payload and what it does. -/
def step (s : Parser) : Read (Parser ⊕ FpgaConfig) := do
  let command ← readByte
  let payload ← readBytes (command &&& 0x0f).toNat
  s.execute command (bigEndian 32 payload)

/-! ### The parts are regular -/

theorem readData_regular (s : Parser) (m : Memory) (badToken : BitVec 16 → ReadError) :
    Regular ReadError.endOfFile (s.readData m badToken) := by
  unfold readData
  dsimp only
  split_ifs
  · exact .throw _
  · exact .throw _
  · refine ((Regular.next _).times _).bind fun bytes => ((Regular.next _).times _).bind fun token => ?_
    split_ifs
    · exact .throw _
    · exact .pure _

theorem execute_regular (s : Parser) (command : Byte) (payload : BitVec 32) :
    Regular ReadError.endOfFile (s.execute command payload) := by
  unfold execute
  split
  · split
    · exact (s.readData_regular _ _).bind fun cram => .pure _
    · exact (s.readData_regular _ _).bind fun bram => .pure _
    · exact .onState _
    · exact .pure _
    · exact .throw _
  · exact .pure _
  · exact .onState _
  · split
    · exact .pure _
    · exact .pure _
    · exact .pure _
    · exact .throw _
  · exact .pure _
  · exact .pure _
  · exact .pure _
  · split
    · exact .pure _
    · exact .pure _
    · exact .pure _
    · exact .pure _
    · exact .throw _
  · exact .throw _

theorem consuming (s : Parser) : Consuming ReadError.endOfFile s.step :=
  (Consuming.next _).bind fun command => ((Regular.next _).times _).bind fun _ =>
    s.execute_regular command _

end Parser

/-- The main loop. -/
def mainLoop (s : Parser) : Read FpgaConfig := Parse.loop Parser.consuming s

/-! ## The whole reader -/

/-- The chip type, from the size of the CRAM. -/
def detect (cram_width cram_height : ℕ) : Option Device :=
  if cram_width = 182 ∧ cram_height = 80 then some .ice384
  else if cram_width = 332 ∧ cram_height = 144 then some .ice1k
  else if cram_width = 872 ∧ cram_height = 272 then some .ice8k
  else if cram_width = 692 ∧ cram_height = 336 then some .ice5k
  else if cram_width = 692 ∧ cram_height = 176 then some .iceU4k
  else if cram_width = 656 ∧ cram_height = 176 then some .iceLm4k
  else none

/-- The variables of the main loop at its start. -/
def Parser.init (config : FpgaConfig) : Parser where
  current_bank := 0
  current_width := 0
  current_height := 0
  current_offset := 0
  config := { config with
    cram := { config.cram with width := 0, height := 0 }
    bram := { config.bram with width := 0, height := 0 } }

/-- `read_bits`. -/
def readBits (config : FpgaConfig) : Read FpgaConfig := do
  let config ← findPreamble config
  let config ← mainLoop (.init config)
  match detect config.cram.width config.cram.height with
  | some device => return { config with device := some device }
  | none => throw .unknownChip

/-- The configuration of a file, as `iceunpack` reads it. -/
def readFile (skip_bram_initialization : Bool) (file : List Byte) : Except ReadError FpgaConfig :=
  match readBits (.init skip_bram_initialization) ⟨file, 0⟩ with
  | .ok (config, _) => .ok config
  | .error e => .error e

theorem findPreamble_regular (config : FpgaConfig) :
    Regular ReadError.endOfFile (findPreamble config) :=
  (Regular.loop Scanner.consuming _).bind fun _ => .pure _

theorem mainLoop_regular (s : Parser) : Regular ReadError.endOfFile (mainLoop s) :=
  .loop Parser.consuming s

theorem readBits_regular (config : FpgaConfig) :
    Regular ReadError.endOfFile (readBits config) := by
  refine (findPreamble_regular config).bind fun config => (mainLoop_regular _).bind fun config => ?_
  split
  · exact .pure _
  · exact .throw _

/-- A file that is read is accepted by `read_bits`. -/
theorem readFile_eq_ok {skip_bram_initialization : Bool} {file : List Byte} {config : FpgaConfig} :
    readFile skip_bram_initialization file = .ok config ↔
      ∃ r, readBits (.init skip_bram_initialization) ⟨file, 0⟩ = .ok (config, r) := by
  unfold readFile
  cases readBits (.init skip_bram_initialization) ⟨file, 0⟩ with
  | error e => simp
  | ok x =>
    obtain ⟨config', r⟩ := x
    simp

/-! ## What is accepted -/

/-- The vectors are not larger than what is recorded, and there are no rows without a column and no
columns without a bank. -/
structure Sizes.Nested (z : Sizes) : Prop where
  banks : z.banks = 0 ∨ z.banks = 4
  columns_le : ∀ b, z.columns b ≤ z.width
  columns_zero : ∀ b, z.banks ≤ b → z.columns b = 0
  rows_le : ∀ b x, z.rows b x ≤ z.height
  rows_zero : ∀ b x, z.columns b ≤ x → z.rows b x = 0

namespace Memory

/-- No bit is set that does not exist. -/
structure Inside (m : Memory) : Prop where
  nested : m.Nested
  bits : ∀ b x y, m.bits b x y = true → m.Has b x y

variable {m : Memory} {bank width height offset : ℕ}

theorem inside_empty : Memory.empty.Inside where
  nested := ⟨.inl rfl, fun _ => le_rfl, fun _ _ => rfl, fun _ _ => le_rfl, fun _ _ _ => rfl⟩
  bits _ _ _ h := Bool.noConfusion h

theorem nested_resize (hm : m.Nested) (hbank : bank < 4) :
    (m.resize bank width height).Nested where
  banks := .inr rfl
  columns_le b := by
    have := hm.columns_le b
    dsimp only [resize]
    split_ifs
    all_goals omega
  columns_zero b (hb : 4 ≤ b) := by
    have hbanks := hm.banks
    dsimp only [resize]
    rw [if_neg (by omega)]
    exact hm.columns_zero b (by omega)
  rows_le b x := by
    have := hm.rows_le b x
    dsimp only [resize]
    split_ifs
    all_goals omega
  rows_zero b x := by
    have hle := hm.columns_le b
    have hzero := hm.rows_zero b x
    dsimp only [resize]
    -- The columns of the block are columns of the bank.
    split_ifs with hb hbx hbx
    all_goals omega

/-- A bit that exists still does after a resize. -/
theorem Has.resize {b x y : ℕ} (hm : m.Nested) (h : m.Has b x y) :
    (m.resize bank width height).Has b x y := by
  obtain ⟨hb, hx, hy⟩ := h
  have hbanks := hm.banks
  have hcolumns := hm.columns_le b
  have hrows := hm.rows_le b x
  refine ⟨show b < 4 by omega, ?_, ?_⟩
  · dsimp only [Memory.resize]
    split_ifs
    all_goals omega
  · dsimp only [Memory.resize]
    split_ifs
    all_goals omega

theorem Inside.resize (hm : m.Inside) (hbank : bank < 4) : (m.resize bank width height).Inside where
  nested := nested_resize hm.nested hbank
  bits b x y h := (hm.bits b x y h).resize hm.nested

/-- The bytes of a block are stored in columns and rows that exist. -/
theorem Inside.store (hm : m.Inside) (height : ℕ) {bytes : List Byte}
    (hlen : bytes.length ≤ height * width / 8)
    (hhas : ∀ x < width, ∀ y, offset ≤ y → y < offset + height → m.Has bank x y) :
    (m.store bank width offset bytes).Inside := by
  have hsizes := toSizes_store m bank width offset bytes
  refine ⟨hsizes ▸ hm.nested, fun b x y hbit => ?_⟩
  have hold : m.Has b x y → (m.store bank width offset bytes).Has b x y := fun h => by
    unfold Has at h ⊢
    rwa [hsizes]
  apply hold
  -- Without columns there are no bytes.
  by_cases hpos : 0 < width
  · rw [bits_store _ _ _ _ hpos] at hbit
    split_ifs at hbit with hin
    · obtain ⟨rfl, hx, hy, hk⟩ := hin
      have hrow : (y - offset) * width < height * width := by omega
      have hrow := Nat.lt_of_mul_lt_mul_right hrow
      exact hhas x hx y hy (by omega)
    · exact hm.bits b x y hbit
  · have hnil : bytes = [] := by
      rw [← List.length_eq_zero_iff]
      rw [Nat.eq_zero_of_not_pos hpos, Nat.mul_zero, Nat.zero_div] at hlen
      omega
    rw [hnil] at hbit
    exact hm.bits b x y hbit

end Memory

/-- The block that the sizes announce, as `int`s, fits after the resize. -/
theorem Memory.Inside.store_resize {m : Memory} (hm : m.Inside) {bank : ℕ} (hbank : bank < 4)
    {width height offset : ℤ} (hneg : ¬(8 ≤ height * width ∧ (width < 0 ∨ offset < 0)))
    {bytes : List Byte} (hlen : bytes.length = (height * width / 8).toNat) :
    ((m.resize bank width.toNat (offset + height).toNat).store bank width.toNat offset.toNat
      bytes).Inside := by
  by_cases hdata : 8 ≤ height * width
  · have hheight : 0 ≤ height := by
      by_contra hlt
      have := Int.mul_nonpos_of_nonpos_of_nonneg (show height ≤ 0 by omega)
        (show 0 ≤ width by omega)
      omega
    obtain ⟨w, rfl⟩ := Int.eq_ofNat_of_zero_le (show 0 ≤ width by omega)
    obtain ⟨o, rfl⟩ := Int.eq_ofNat_of_zero_le (show 0 ≤ offset by omega)
    obtain ⟨h, rfl⟩ := Int.eq_ofNat_of_zero_le hheight
    refine (hm.resize hbank).store h (le_of_eq ?_) fun x hx y _ hy => ⟨hbank, ?_, ?_⟩
    · rw [hlen]
      norm_cast
    · dsimp only [Memory.resize]
      rw [if_pos rfl]
      omega
    · dsimp only [Memory.resize]
      rw [if_pos ⟨rfl, hx⟩]
      omega
  · exact (hm.resize hbank).store 0 (by omega) fun x _ y _ hy => by omega

theorem Parser.readData_inside {s : Parser} {m : Memory} {badToken : BitVec 16 → ReadError}
    (hm : m.Inside) : Parse.Ensures (s.readData m badToken) Memory.Inside := by
  unfold readData
  dsimp only
  split_ifs with hfits hneg
  · exact .throw _
  · exact .throw _
  · refine (Parse.Ensures.times _ _).bind fun bytes hlen => (Parse.Ensures.trivial _).bind fun _ _ => ?_
    split_ifs
    · exact .throw _
    · exact .pure (hm.store_resize (by omega) hneg hlen)

/-- What a command may do to the configuration: it stores a block of memory or makes a setting. -/
theorem Parser.execute_ensures {P : FpgaConfig → Prop} {s : Parser} (command : Byte)
    (payload : BitVec 32) (hs : P s.config)
    (hcram : ∀ badToken, Parse.Ensures (s.readData s.config.cram badToken) fun cram =>
      P { s.config with cram := cram })
    (hbram : ∀ badToken, Parse.Ensures (s.readData s.config.bram badToken) fun bram =>
      P { s.config with bram := bram })
    (hfreqrange : ∀ freqrange, P { s.config with freqrange := freqrange })
    (hboot : ∀ warmboot nosleep, P { s.config with warmboot := warmboot, nosleep := nosleep }) :
    Parse.Ensures (s.execute command payload) fun x => x.elim (fun s' => P s'.config) P := by
  -- The cases are the commands, in the order of the source.
  unfold execute
  split
  · split
    · exact (hcram _).bind fun cram h => .pure h
    · exact (hbram _).bind fun bram h => .pure h
    · refine .onState fun crc x crc' h => ?_
      cases h
      exact hs
    · exact .pure hs
    · exact .throw _
  · exact .pure hs
  · refine .onState fun crc x crc' h => ?_
    split_ifs at h
    cases h
    exact hs
  · split
    · exact .pure (hfreqrange _)
    · exact .pure (hfreqrange _)
    · exact .pure (hfreqrange _)
    · exact .throw _
  · exact .pure hs
  · exact .pure hs
  · exact .pure hs
  · split
    · exact .pure (hboot _ _)
    · exact .pure (hboot _ _)
    · exact .pure (hboot _ _)
    · exact .pure (hboot _ _)
    · exact .throw _
  · exact .throw _

/-- What every command keeps is kept by the main loop. -/
theorem mainLoop_ensures {P : FpgaConfig → Prop} {s : Parser} (hs : P s.config)
    (hstep : ∀ s command payload, P s.config → Parse.Ensures (Parser.execute s command payload)
      fun x => x.elim (fun s' => P s'.config) P) : Parse.Ensures (mainLoop s) P := by
  refine .loop Parser.consuming (P := fun s => P s.config) (fun s hs => ?_) hs
  exact (Parse.Ensures.trivial _).bind fun command _ => (Parse.Ensures.trivial _).bind fun _ _ =>
    hstep s command _ hs

/-- The comments stay. -/
theorem mainLoop_initblop (s : Parser) :
    Parse.Ensures (mainLoop s) fun config => config.initblop = s.config.initblop := by
  refine mainLoop_ensures (P := fun config => config.initblop = s.config.initblop) rfl
    fun s' command payload hs' => ?_
  exact s'.execute_ensures (P := fun config => config.initblop = s.config.initblop) command payload
    hs' (fun _ _ _ _ _ => hs') (fun _ _ _ _ _ => hs') (fun _ => hs') fun _ _ => hs'

/-- Both memories have nothing outside their sizes. -/
def FpgaConfig.Inside (c : FpgaConfig) : Prop := c.cram.Inside ∧ c.bram.Inside

theorem mainLoop_inside {s : Parser} (hs : s.config.Inside) :
    Parse.Ensures (mainLoop s) FpgaConfig.Inside := by
  refine mainLoop_ensures hs fun s' command payload hs' => ?_
  exact s'.execute_ensures command payload hs'
    (fun _ r cram r' h => ⟨Parser.readData_inside hs'.1 r cram r' h, hs'.2⟩)
    (fun _ r bram r' h => ⟨hs'.1, Parser.readData_inside hs'.2 r bram r' h⟩)
    (fun _ => hs') fun _ _ => hs'

theorem findPreamble_inside {config : FpgaConfig} (hc : (Parser.init config).config.Inside) :
    Parse.Ensures (findPreamble config) fun config => (Parser.init config).config.Inside := by
  refine .bind (.loop Scanner.consuming (P := fun s => (Parser.init s.config).config.Inside)
    (Q := fun config => (Parser.init config).config.Inside) (fun s hs => ?_) hc) fun config hc => .pure hc
  refine (Parse.Ensures.trivial _).bind fun byte _ => ?_
  dsimp only
  split_ifs
  · exact .throw _
  · exact .pure hs
  · exact .pure hs

theorem detect_eq {cram_width cram_height : ℕ} {d : Device}
    (h : detect cram_width cram_height = some d) :
    cram_width = d.cram_width ∧ cram_height = d.cram_height := by
  unfold detect at h
  split_ifs at h
  all_goals
    cases h
  all_goals assumption

/-- What the reader accepts is a configuration of a device, with nothing outside its memories. -/
theorem readBits_inside (skip_bram_initialization : Bool) :
    Parse.Ensures (readBits (.init skip_bram_initialization)) fun config => config.Inside ∧
      ∃ d, config.device = some d ∧ config.cram.width = d.cram_width ∧
        config.cram.height = d.cram_height := by
  refine (findPreamble_inside ?_).bind fun config hc => (mainLoop_inside hc).bind fun config hc => ?_
  · exact ⟨Memory.inside_empty, Memory.inside_empty⟩
  · split
    · rename_i d hd
      exact .pure ⟨hc, d, rfl, detect_eq hd⟩
    · exact .throw _

end GoBoard.Icepack
