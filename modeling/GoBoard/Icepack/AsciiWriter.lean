import GoBoard.Icepack.AsciiReader

/-!
# `write_ascii`

The writer of the text format: the comments, the settings, the tiles from the lowest row on, and the
bits that belong to no tile. It is used on what `read_bits` has read. A file may leave a bank, or
some columns of it, without a bit, and then the writer fails one of its checks, or reads a bit that
does not exist.
-/

namespace GoBoard.Icepack

open Coding (Byte Line)

/-- The calls of `error` and `panic`, each with the numbers of its message. -/
inductive WriteAsciiError
  | unknownChip
  | cramX (cram_x bit_x bit_y size : ℕ)
  | cramY (cram_y bit_x bit_y cram_bank size : ℕ)
  | bramX (bit_x bit_y bram_x size : ℕ)
  | bramY (bram_y size : ℕ)
  /-- A bit that does not exist: the source has no check, or one that is off by one. -/
  | undefined
  deriving DecidableEq, Repr

/-- The texts of the errors. -/
def WriteAsciiError.text : WriteAsciiError → String
  | unknownChip => "Unknown chip type ''.\n"
  | cramX cram_x bit_x bit_y size =>
    "cram_x " ++ toString cram_x ++ " (bit " ++ toString bit_x ++ ", " ++ toString bit_y ++
      ") larger than bank size " ++ toString size ++ "\n"
  | cramY cram_y bit_x bit_y cram_bank size =>
    "cram_y " ++ toString cram_y ++ " (bit " ++ toString bit_x ++ ", " ++ toString bit_y ++
      ") larger than bank " ++ toString cram_bank ++ " size " ++ toString size ++ "\n"
  | bramX bit_x bit_y bram_x size =>
    toString bit_x ++ " " ++ toString bit_y ++ " bram_x " ++ toString bram_x ++
      " higher than loaded bram size " ++ toString size ++ "\n"
  | bramY bram_y size =>
    "bram_y " ++ toString bram_y ++ " higher than loaded bram size " ++ toString size ++ "\n"
  | undefined => ""

/-- The numbers of a statement. -/
def argText (args : List ℕ) : Line := args.flatMap fun n => ' ' :: Nat.toDigits 10 n

def statement (command : Line) (args : List ℕ) : Line := command ++ argText args

/-- The comments. Each of them begins a new line, if `insert_newline` is true in front of it. -/
def commentText (insert_newline : Bool) : List Byte → List Char
  | [] => []
  | ch :: rest =>
    if ch = 0 then commentText true rest
    else if ch = 0xff then commentText false rest
    else (if insert_newline then ['\n'] else []) ++ toChar ch :: commentText false rest

namespace FpgaConfig

variable (c : FpgaConfig) (d : Device)

/-- A bit of the CRAM, without a check. -/
def readBit (p : Place) : Except WriteAsciiError Bool :=
  if c.cram.Has p.1 p.2.1 p.2.2 then .ok (c.cram.bits p.1 p.2.1 p.2.2) else .error .undefined

/-- A bit of a tile. The two checks let a column or a row pass that is one too large. -/
def tileChar (cic : CramIndexConverter) (bit_x bit_y : ℕ) : Except WriteAsciiError Char := do
  let (cram_bank, cram_x, cram_y) := cic.get_cram_index bit_x bit_y
  if c.cram.banks ≤ cram_bank then throw .undefined
  if c.cram.columns cram_bank < cram_x then
    throw (.cramX cram_x bit_x bit_y (c.cram.columns cram_bank))
  if cram_x = c.cram.columns cram_bank then throw .undefined
  if c.cram.rows cram_bank cram_x < cram_y then
    throw (.cramY cram_y bit_x bit_y cram_bank (c.cram.rows cram_bank cram_x))
  return if ← c.readBit (cram_bank, cram_x, cram_y) then '1' else '0'

/-- A bit of a digit is added to its `value`. -/
def digitBit (bic : BramIndexConverter) (bit_x bit_y value i : ℕ) : Except WriteAsciiError ℕ := do
  let (bram_bank, bram_x, bram_y) := bic.get_bram_index (bit_x + i) bit_y
  if c.bram.banks ≤ bram_bank then throw .undefined
  if c.bram.columns bram_bank ≤ bram_x then
    throw (.bramX (bit_x + i) bit_y bram_x (c.bram.columns bram_bank))
  if c.bram.rows bram_bank bram_x ≤ bram_y then
    throw (.bramY bram_y (c.bram.rows bram_bank bram_x))
  return if c.bram.bits bram_bank bram_x bram_y then value + 1 <<< i else value

def hexDigits : Line := "0123456789abcdef".toList

/-- A digit of the data of a block memory. -/
def ramChar (bic : BramIndexConverter) (bit_x bit_y : ℕ) : Except WriteAsciiError Char := do
  let value ← (List.range 4).foldlM (c.digitBit bic bit_x bit_y) 0
  return hexDigits.getD value ' '

/-- The `.ram_data` of a tile. -/
def ramText (x y : ℕ) : Except WriteAsciiError (List Char) := do
  let bic := d.bramIndexConverter x y
  let rows ← (List.range 16).mapM fun bit_y =>
    (List.range 64).mapM fun k => c.ramChar bic (252 - 4 * k) bit_y
  return statement ".ram_data".toList [x, y] ++ '\n' :: rows.flatMap (· ++ ['\n'])

/-- A tile. The corners have no text. -/
def tileText (x y : ℕ) : Except WriteAsciiError (List Char) := do
  let cic := d.cramIndexConverter x y
  if cic.tile_type = .corner then return []
  let rows ← (List.range 16).mapM fun bit_y =>
    (List.range cic.tile_width).mapM fun bit_x => c.tileChar cic bit_x bit_y
  let ram ← if cic.tile_type = .ramb ∧ c.bram.banks ≠ 0 then c.ramText d x y else pure []
  return statement cic.tile_type.command [x, y] ++ '\n' :: rows.flatMap (· ++ ['\n']) ++ ram

end FpgaConfig

/-- The tiles, in the order in which they are written. -/
def Device.tiles (d : Device) : List (ℕ × ℕ) :=
  (List.range (d.chip_height + 2)).flatMap fun y =>
    (List.range (d.chip_width + 2)).map fun x => (x, y)

/-- The places of the bits of a tile. -/
def CramIndexConverter.places (cic : CramIndexConverter) : List Place :=
  (List.range 16).flatMap fun bit_y =>
    (List.range cic.tile_width).map fun bit_x => cic.get_cram_index bit_x bit_y

/-- The set `tile_bits`, after all tiles. -/
def Device.tile_bits (d : Device) : List Place :=
  d.tiles.flatMap fun t => (d.cramIndexConverter t.1 t.2).places

namespace FpgaConfig

variable (c : FpgaConfig) (d : Device)

/-- The bits that the loop over the `.extra_bit` statements looks at. -/
def cramPlaces : List Place :=
  (List.range 4).flatMap fun i => (List.range c.cram.width).flatMap fun x =>
    (List.range c.cram.height).map fun y => (i, x, y)

/-- The statement for a bit that belongs to no tile. -/
def extraText (p : Place) : Except WriteAsciiError (List Char) := do
  if (← c.readBit p) ∧ p ∉ d.tile_bits then
    return statement ".extra_bit".toList [p.1, p.2.1, p.2.2] ++ ['\n']
  else return []

/-- `write_ascii`. -/
def writeAscii : Except WriteAsciiError (List Char) :=
  match c.device with
  | none => .error .unknownChip
  | some d => do
    let comment := ".comment".toList ++ commentText true c.initblop
    let device := "\n.device ".toList ++ d.name ++ ['\n']
    let warmboot := if c.warmboot ≠ some .enabled then
      ".warmboot ".toList ++ (c.warmboot.map Setting.name).getD [] ++ ['\n'] else []
    let tiles ← d.tiles.mapM fun t => c.tileText d t.1 t.2
    let extra ← c.cramPlaces.mapM (c.extraText d)
    return comment ++ device ++ warmboot ++ tiles.flatten ++ extra.flatten

end FpgaConfig

end GoBoard.Icepack
