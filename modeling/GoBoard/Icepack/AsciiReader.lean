import GoBoard.Coding.Text
import GoBoard.Icepack.Comments
import GoBoard.Icepack.Tiles

/-!
# `read_ascii`

The reader of the text format: statements that begin with a dot, some of them with lines of data
behind them. A tile has rows of `0` and `1`, the data of a block memory is hexadecimal, and there is
a statement for a bit that belongs to no tile.

A blank line repeats the command of the line before, without its numbers: `>>` leaves `command` as
it was, and the numbers are variables without a value. To use such a variable is undefined.
-/

namespace GoBoard.Icepack

open Coding (Byte InStream Line lines)

/-! ## Names -/

/-- A byte of a comment as a character. -/
def toChar (b : Byte) : Char := Char.ofNat b.toNat

/-- A character of a comment as a byte. -/
def toByte (c : Char) : Byte := BitVec.ofNat 8 c.toNat

def Device.name : Device → Line
  | ice384 => "384".toList
  | ice1k => "1k".toList
  | ice8k => "8k".toList
  | ice5k => "5k".toList
  | iceU4k => "u4k".toList
  | iceLm4k => "lm4k".toList

/-- The device of a `.device` statement. -/
def Device.ofName (name : Line) : Option Device :=
  [ice384, ice1k, ice8k, ice5k, iceU4k, iceLm4k].find? fun d => d.name = name

def Setting.name : Setting → Line
  | disabled => "disabled".toList
  | enabled => "enabled".toList

def TileType.name : TileType → Line
  | corner => "corner".toList
  | io => "io".toList
  | logic => "logic".toList
  | ramb => "ramb".toList
  | ramt => "ramt".toList
  | dsp0 => "dsp0".toList
  | dsp1 => "dsp1".toList
  | dsp2 => "dsp2".toList
  | dsp3 => "dsp3".toList
  | ipcon => "ipcon".toList

/-- The command for a tile. -/
def TileType.command (t : TileType) : Line := '.' :: t.name ++ "_tile".toList

/-! ## The bits of a memory -/

/-- A bit of a memory: the bank, the column and the row. -/
abbrev Place := ℕ × ℕ × ℕ

instance (p : Place) (places : List Place) : Decidable (p ∈ places) :=
  List.instDecidableMemOfLawfulBEq p places

/-- The memories of a device have a bit at this place. -/
def Device.Holds (d : Device) (p : Place) : Target → Prop
  | .cram => p.1 < 4 ∧ p.2.1 < d.cram_width ∧ p.2.2 < d.cramHeight p.1
  | .bram => p.1 < 4 ∧ p.2.1 < d.bramWidth p.1 ∧ p.2.2 < d.bram_height

instance (d : Device) (p : Place) : (t : Target) → Decidable (d.Holds p t)
  | .cram => inferInstanceAs (Decidable (_ ∧ _))
  | .bram => inferInstanceAs (Decidable (_ ∧ _))

/-! ## The reader -/

/-- The calls of `error`, each with what its message contains. -/
inductive AsciiError
  | moreDevices
  | unsupportedChip (device : Line)
  | unknownWarmboot (warmboot : Line)
  | missingDevice (command : Line)
  | wrongTile (command : Line) (tile_type : TileType) (tile_x tile_y : ℤ)
  | notHex (ch : Char) (line : Line)
  | unknownStatement (command : Line)
  | unexpectedData (line : Line)
  /-- The exception of `chip_cols.at`, for a column of tiles that does not exist. -/
  | outOfRange
  /-- A number that has not been read, or a bit that does not exist: the source has no check. -/
  | undefined
  deriving DecidableEq, Repr

/-- The texts of the errors. -/
def AsciiError.text : AsciiError → String
  | moreDevices => "More than one .device statement.\n"
  | unsupportedChip device => "Unsupported chip type '" ++ String.ofList device ++ "'.\n"
  | unknownWarmboot warmboot => "Unknown warmboot setting '" ++ String.ofList warmboot ++ "'.\n"
  | missingDevice command =>
    "Missing .device statement before " ++ String.ofList command ++ ".\n"
  | wrongTile command tile_type tile_x tile_y =>
    "Got " ++ String.ofList command ++ " statement for " ++ String.ofList tile_type.name ++
      " tile " ++ toString tile_x ++ " " ++ toString tile_y ++ ".\n"
  | notHex ch line =>
    "Not a hex character: '" ++ String.singleton ch ++ "' (in line '" ++ String.ofList line ++ "')\n"
  | unknownStatement command => "Unknown statement: " ++ String.ofList command ++ "\n"
  | unexpectedData line => "Unexpected data line: " ++ String.ofList line ++ "\n"
  | outOfRange => ""
  | undefined => ""

/-- One bit of a memory is set, without a check. -/
def setBit (t : Target) (d : Device) (c : FpgaConfig) (p : Place) : Except AsciiError FpgaConfig :=
  if d.Holds p t then .ok (c.setMemory ((c.memory t).set p.1 p.2.1 p.2.2 true) t)
  else .error .undefined

/-- The statements. -/
inductive Keyword
  | comment
  | device
  | warmboot
  | tile
  | ram_data
  | extra_bit
  | sym
  | unknown
  | data
  deriving DecidableEq, Repr

/-- The statement that a command begins. -/
def keyword (command : Line) : Keyword :=
  if command = ".comment".toList then .comment
  else if command = ".device".toList then .device
  else if command = ".warmboot".toList then .warmboot
  else if command ∈ [".io_tile".toList, ".logic_tile".toList, ".ramb_tile".toList,
      ".ramt_tile".toList, ".ipcon_tile".toList] ∨ command.take 4 = ".dsp".toList then .tile
  else if command = ".ram_data".toList then .ram_data
  else if command = ".extra_bit".toList then .extra_bit
  else if command = ".sym".toList then .sym
  else if command.take 1 = ['.'] then .unknown
  else .data

/-- The first character of the line is a dot. -/
def isStatement (line : Line) : Bool := line.take 1 = ['.']

/-- The lines that belong to a statement. -/
def body (k : Keyword) (rest : List Line) : List Line :=
  match k with
  | .comment => rest.takeWhile (!isStatement ·)
  | .tile => (rest.take 16).takeWhile (!isStatement ·)
  | .ram_data => (rest.take 16).takeWhile (!isStatement ·)
  | _ => []

/-- The `.device` statement: all bits of the memories are zero. -/
def FpgaConfig.setDevice (c : FpgaConfig) (d : Device) : FpgaConfig :=
  { c with
    device := some d
    cram := ⟨d.cramSizes, fun _ _ _ => false⟩
    bram := ⟨d.bramSizes, fun _ _ _ => false⟩ }

/-- The bits of a device are those for which the statement makes vectors. -/
theorem Device.holds_iff_has {c : FpgaConfig} {d : Device} {p : Place} {t : Target} :
    d.Holds p t ↔ ((c.setDevice d).memory t).Has p.1 p.2.1 p.2.2 := by
  cases t with
  | cram =>
    simp only [Holds, FpgaConfig.setDevice, FpgaConfig.memory, Memory.Has, cramSizes]
    split_ifs
    all_goals omega
  | bram =>
    simp only [Holds, FpgaConfig.setDevice, FpgaConfig.memory, Memory.Has, bramSizes]
    split_ifs
    all_goals omega

/-- The bits of a tile for which its rows have a `1`. -/
def CramIndexConverter.ones (cic : CramIndexConverter) (rows : List Line) : List Place :=
  (List.range rows.length).flatMap fun bit_y =>
    ((List.range (min (rows.getD bit_y []).length cic.tile_width)).filter fun bit_x =>
      (rows.getD bit_y []).getD bit_x ' ' = '1').map fun bit_x => cic.get_cram_index bit_x bit_y

/-- The converter for a tile of a column of the chip. In a row outside the chip the bits do not exist:
the offset is negative there, and here the rows of the memory end in front of it. -/
def Device.tileConverter (d : Device) (tile_x : ℕ) (tile_y : ℤ) : CramIndexConverter :=
  -- Below the chip, a tile has the type of those in an even row.
  if tile_y < 0 then { d.cramIndexConverter tile_x 2 with bank_yoff := d.cram_height }
  else if d.chip_height + 1 < tile_y then
    { d.cramIndexConverter tile_x tile_y.toNat with bank_yoff := d.cram_height }
  else d.cramIndexConverter tile_x tile_y.toNat

/-- A statement for a tile. -/
def readTile (c : FpgaConfig) (d : Device) (command : Line) (tile_x tile_y : ℤ)
    (rows : List Line) : Except AsciiError FpgaConfig := do
  if tile_x < 0 ∨ d.chip_width + 1 < tile_x then throw .outOfRange
  let cic := d.tileConverter tile_x.toNat tile_y
  if cic.tile_type.command ≠ command then throw (.wrongTile command cic.tile_type tile_x tile_y)
  (cic.ones rows).foldlM (setBit .cram d) c

/-- The `value` of a hexadecimal digit. -/
def hexValue (ch : Char) : Option ℕ :=
  if '0' ≤ ch ∧ ch ≤ '9' then some (ch.toNat - '0'.toNat)
  else if 'a' ≤ ch ∧ ch ≤ 'f' then some (ch.toNat - 'a'.toNat + 10)
  else if 'A' ≤ ch ∧ ch ≤ 'F' then some (ch.toNat - 'A'.toNat + 10)
  else none

/-- A digit of a line of data. -/
def readDigit (d : Device) (bic : BramIndexConverter) (bit_y : ℕ) (line : Line) (c : FpgaConfig)
    (digit : Char × ℕ) : Except AsciiError FpgaConfig :=
  match hexValue digit.1 with
  | none => .error (.notHex digit.1 line)
  | some value => ((List.range 4).filter value.testBit).foldlM (fun c i =>
      setBit .bram d c (bic.get_bram_index (252 - 4 * digit.2 + i) bit_y)) c

/-- A line of data: the digits for `bit_x` from 252 down to zero. -/
def readRow (d : Device) (bic : BramIndexConverter) (c : FpgaConfig) (row : Line × ℕ) :
    Except AsciiError FpgaConfig :=
  (row.1.take 64).zipIdx.foldlM (readDigit d bic row.2 row.1) c

/-- The converter for the data of a tile. Its offset is negative in a row below the chip, and here the
columns of the memory end in front of it. -/
def Device.dataConverter (d : Device) (tile_x tile_y : ℤ) : BramIndexConverter :=
  if tile_y < 0 then { d.bramIndexConverter tile_x.toNat 0 with bank_off := d.bram_width }
  else d.bramIndexConverter tile_x.toNat tile_y.toNat

/-- The `.ram_data` statement. -/
def readRam (c : FpgaConfig) (d : Device) (tile_x tile_y : ℤ) (rows : List Line) :
    Except AsciiError FpgaConfig :=
  rows.zipIdx.foldlM (readRow d (d.dataConverter tile_x tile_y)) c

/-- The `.extra_bit` statement. -/
def readExtraBit (c : FpgaConfig) (d : Device) (cram_bank cram_x cram_y : ℤ) :
    Except AsciiError FpgaConfig := do
  if cram_bank < 0 ∨ cram_x < 0 ∨ cram_y < 0 then throw .undefined
  setBit .cram d c (cram_bank.toNat, cram_x.toNat, cram_y.toNat)

/-- The device, which a statement needs. -/
def FpgaConfig.getDevice (c : FpgaConfig) (command : Line) : Except AsciiError Device :=
  match c.device with
  | some d => .ok d
  | none => .error (.missingDevice command)

/-- A number that a statement uses. -/
def used : Option ℤ → Except AsciiError ℤ
  | some n => .ok n
  | none => .error .undefined

/-- One statement. The first three leave `nosleep` as it is. -/
def execute (nosleep : Bool) (c : FpgaConfig) (command : Line) (is : InStream) (line : Line)
    (body : List Line) : Except AsciiError FpgaConfig :=
  let injected : FpgaConfig := { c with nosleep := some (if nosleep then .enabled else .disabled) }
  match keyword command with
  | .comment => .ok { c with initblop := comments (body.map (List.map toByte)) }
  | .device =>
    match c.device, Device.ofName (is.word.1.getD []) with
    | some _, _ => .error .moreDevices
    | none, none => .error (.unsupportedChip (is.word.1.getD []))
    | none, some d => .ok (c.setDevice d)
  | .warmboot =>
    match is.word.1 with
    | none => .ok c
    | some warmboot =>
      if warmboot = Setting.disabled.name then .ok { c with warmboot := some .disabled }
      else if warmboot = Setting.enabled.name then .ok { c with warmboot := some .enabled }
      else .error (.unknownWarmboot warmboot)
  | .tile => do
    let d ← c.getDevice command
    let tile_x ← used is.int.1
    let tile_y ← used is.int.2.int.1
    readTile injected d command tile_x tile_y body
  | .ram_data => do
    let d ← c.getDevice command
    let tile_x ← used is.int.1
    let tile_y ← used is.int.2.int.1
    readRam injected d tile_x tile_y body
  | .extra_bit => do
    let d ← c.getDevice command
    let cram_bank ← used is.int.1
    let cram_x ← used is.int.2.int.1
    let cram_y ← used is.int.2.int.2.int.1
    readExtraBit injected d cram_bank cram_x cram_y
  | .sym => .ok injected
  | .unknown => .error (.unknownStatement command)
  | .data => .error (.unexpectedData line)

/-- The loop over the lines, with the command of the line before. -/
def readLines (nosleep : Bool) : List Line → Line → FpgaConfig → Except AsciiError FpgaConfig
  | [], _, c => .ok c
  | line :: rest, command, c =>
    let is := (⟨line, true⟩ : InStream).word
    let command := is.1.getD command
    if command = [] then readLines nosleep rest command c
    else do
      let body := body (keyword command) rest
      let c ← execute nosleep c command is.2 line body
      readLines nosleep (rest.drop body.length) command c
termination_by lines => lines.length

/-- The settings before the first statement. -/
def FpgaConfig.asciiInit (skip_bram_initialization : Bool) : FpgaConfig :=
  { FpgaConfig.init skip_bram_initialization with
    freqrange := some .low
    warmboot := some .enabled }

/-- `read_ascii`. The first line that it looks at is empty. -/
def readAscii (skip_bram_initialization nosleep : Bool) (text : List Char) :
    Except AsciiError FpgaConfig :=
  readLines nosleep ([] :: lines text) [] (.asciiInit skip_bram_initialization)

end GoBoard.Icepack
