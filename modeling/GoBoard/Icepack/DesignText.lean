import GoBoard.Coding.Fallible
import GoBoard.Icepack.AsciiWriter
import GoBoard.Icepack.RoundTrip

/-!
# The text of a design

The text that `write_ascii` writes for a design, as a function of its bits. All bits of the tiles
exist, so no check of the writer fails (`writeAscii_unpacked`).
-/

namespace GoBoard.Icepack

open Coding (Line foldlM_ok mapM_ok)

/-! ## Bits that exist -/

namespace FpgaConfig

variable {c : FpgaConfig}

theorem mem_cramPlaces {p : Place} : p ∈ c.cramPlaces ↔
    p.1 < 4 ∧ p.2.1 < c.cram.width ∧ p.2.2 < c.cram.height := by
  obtain ⟨i, x, y⟩ := p
  simp [cramPlaces]

theorem readBit_of_has {p : Place} (h : c.cram.Has p.1 p.2.1 p.2.2) :
    c.readBit p = .ok (c.cram.bits p.1 p.2.1 p.2.2) :=
  if_pos h

/-- A bit of a tile passes all checks of the writer. -/
theorem tileChar_of_has {cic : CramIndexConverter} {bit_x bit_y : ℕ} {p : Place}
    (hp : cic.get_cram_index bit_x bit_y = p) (h : c.cram.Has p.1 p.2.1 p.2.2) :
    c.tileChar cic bit_x bit_y = .ok (if c.cram.bits p.1 p.2.1 p.2.2 then '1' else '0') := by
  have hread := readBit_of_has h
  obtain ⟨cram_bank, cram_x, cram_y⟩ := p
  obtain ⟨hbanks, hcolumn, hrow⟩ := h
  unfold tileChar
  rw [hp]
  dsimp only at *
  rw [if_neg (Nat.not_le_of_lt hbanks), if_neg (Nat.not_lt_of_lt hcolumn),
    if_neg (Nat.ne_of_lt hcolumn), if_neg (Nat.not_lt_of_lt hrow), hread]
  rfl

/-- And so does a bit of the data of a block memory. -/
theorem digitBit_of_has {bic : BramIndexConverter} {bit_x bit_y i : ℕ} {p : Place}
    (hp : bic.get_bram_index (bit_x + i) bit_y = p) (h : c.bram.Has p.1 p.2.1 p.2.2)
    (value : ℕ) : c.digitBit bic bit_x bit_y value i =
      .ok (if c.bram.bits p.1 p.2.1 p.2.2 then value + 1 <<< i else value) := by
  obtain ⟨bram_bank, bram_x, bram_y⟩ := p
  obtain ⟨hbanks, hcolumn, hrow⟩ := h
  unfold digitBit
  rw [hp]
  dsimp only at *
  rw [if_neg (Nat.not_le_of_lt hbanks), if_neg (Nat.not_le_of_lt hcolumn),
    if_neg (Nat.not_le_of_lt hrow)]
  rfl

end FpgaConfig

/-! ## The parts of the text -/

theorem Device.mem_tiles {d : Device} {t : ℕ × ℕ} :
    t ∈ d.tiles ↔ t.1 ≤ d.chip_width + 1 ∧ t.2 ≤ d.chip_height + 1 := by
  obtain ⟨x, y⟩ := t
  simp [tiles]
  omega

/-- A device with a `ramb` tile has a BRAM. -/
theorem Device.bram_width_ne_zero {d : Device} {x y : ℕ} (hy : y ≤ d.chip_height + 1)
    (h : d.tile_type x y = .ramb) : d.bram_width ≠ 0 := by
  obtain ⟨bank, -, k, hk, -⟩ := exists_ramTile hy h
  unfold bramWidth at hk
  split_ifs at hk
  · omega
  · omega

namespace Design

variable (d : Design)

/-- A bit of a memory of the design. -/
def bit (t : Target) (p : Place) : Bool :=
  match t with
  | .cram => d.cram p.1 p.2.1 p.2.2
  | .bram => d.bram p.1 p.2.1 p.2.2

variable {d} {skip : Bool}

theorem holds_of_bit {t : Target} {p : Place} (h : d.bit t p = true) : d.device.Holds p t := by
  cases t with
  | cram => exact d.cram_inside _ _ _ h
  | bram => exact d.bram_inside _ _ _ h

theorem has_cram {p : Place} (h : p.1 < 4 ∧ p.2.1 < d.device.cram_width ∧
    p.2.2 < d.device.cram_height) :
    (d.unpacked false skip).cram.Has p.1 p.2.1 p.2.2 := by
  obtain ⟨hbank, hx, hy⟩ := h
  unfold Memory.Has unpacked Device.cramStored
  dsimp only
  rw [if_pos hbank, if_pos ⟨hbank, hx⟩]
  exact ⟨hbank, hx, hy⟩

theorem has_bram {p : Place} (h : d.device.Holds p .bram) :
    (d.unpacked false skip).bram.Has p.1 p.2.1 p.2.2 := by
  obtain ⟨hbank, hx, hy⟩ := h
  rcases d.device.bram_size with ⟨-, hzero⟩ | ⟨-, -, hbanks⟩
  · rw [hzero] at hy
    exact absurd hy (Nat.not_lt_zero _)
  · have hwidth := Nat.lt_of_lt_of_le hx (hbanks p.1).2
    have hbram : (d.unpacked false skip).bram = ⟨d.device.bramStored, d.bram⟩ := rfl
    unfold Memory.Has
    rw [hbram, Device.bramStored, if_neg (by omega)]
    dsimp only
    rw [if_pos hbank, if_pos ⟨hbank, hx⟩]
    exact ⟨hbank, hwidth, hy⟩

variable (d)

/-- A row of a tile. -/
def tileRow (cic : CramIndexConverter) (bit_y : ℕ) : Line :=
  (List.range cic.tile_width).map fun bit_x =>
    if d.bit .cram (cic.get_cram_index bit_x bit_y) then '1' else '0'

/-- The value of a digit. -/
def digit (bic : BramIndexConverter) (bit_x bit_y : ℕ) : ℕ :=
  (List.range 4).foldl (fun value i =>
    if d.bit .bram (bic.get_bram_index (bit_x + i) bit_y) then value + 1 <<< i else value) 0

/-- A line of data. -/
def ramRow (bic : BramIndexConverter) (bit_y : ℕ) : Line :=
  (List.range 64).map fun k => FpgaConfig.hexDigits.getD (d.digit bic (252 - 4 * k) bit_y) ' '

/-- The `.ram_data` of a tile. -/
def ramText (x y : ℕ) : List Char :=
  statement ".ram_data".toList [x, y] ++ '\n' ::
    ((List.range 16).map (d.ramRow (d.device.bramIndexConverter x y))).flatMap (· ++ ['\n'])

/-- The text of a tile. -/
def tileText (x y : ℕ) : List Char :=
  if d.device.tile_type x y = .corner then []
  else statement (d.device.tile_type x y).command [x, y] ++ '\n' ::
    ((List.range 16).map (d.tileRow (d.device.cramIndexConverter x y))).flatMap (· ++ ['\n']) ++
      if d.device.tile_type x y = .ramb then d.ramText x y else []

/-- The statement for a bit, if it belongs to no tile. -/
def extraText (p : Place) : List Char :=
  if d.bit .cram p ∧ p ∉ d.device.tile_bits then
    statement ".extra_bit".toList [p.1, p.2.1, p.2.2] ++ ['\n']
  else []

theorem tileChar_unpacked (b : TileBit d.device) :
    (d.unpacked false skip).tileChar (d.device.cramIndexConverter b.tile_x b.tile_y) b.bit_x b.bit_y =
      .ok (if d.bit .cram b.index then '1' else '0') := by
  obtain ⟨hbank, hx, hy⟩ := b.index_inside
  have hheight := (d.device.cram_size b.index.1).2.2.2.1
  exact FpgaConfig.tileChar_of_has rfl (has_cram ⟨hbank, hx, Nat.lt_of_lt_of_le hy hheight⟩)

theorem digitBit_unpacked (b : RamBit d.device) {bit_x i : ℕ} (hbit : bit_x + i = b.bit_x)
    (value : ℕ) : (d.unpacked false skip).digitBit
      (d.device.bramIndexConverter b.tile_x b.tile_y) bit_x b.bit_y value i =
      .ok (if d.bit .bram ((d.device.bramIndexConverter b.tile_x b.tile_y).get_bram_index
        (bit_x + i) b.bit_y) then value + 1 <<< i else value) := by
  have hholds : d.device.Holds b.index .bram :=
    ⟨b.bramIndex.bank_lt, b.bramIndex.x_lt, b.bramIndex.y_lt⟩
  exact FpgaConfig.digitBit_of_has rfl (has_bram (by rw [hbit]; exact hholds)) value

theorem ramText_unpacked {x y : ℕ} (hx : x ≤ d.device.chip_width + 1)
    (hy : y ≤ d.device.chip_height + 1) (hramb : d.device.tile_type x y = .ramb) :
    (d.unpacked false skip).ramText d.device x y = .ok (d.ramText x y) := by
  have hvalue : ∀ k < 64, ∀ bit_y < 16, ∀ i ∈ List.range 4, ∀ value,
      (d.unpacked false skip).digitBit (d.device.bramIndexConverter x y) (252 - 4 * k) bit_y value i =
        .ok (if d.bit .bram ((d.device.bramIndexConverter x y).get_bram_index (252 - 4 * k + i) bit_y)
          then value + 1 <<< i else value) := fun k hk bit_y hbit_y i hi value =>
    digitBit_unpacked d ⟨x, y, 252 - 4 * k + i, bit_y, hx, hy, hramb,
      by have := List.mem_range.mp hi; omega, hbit_y⟩ rfl value
  have hchar : ∀ bit_y < 16, ∀ k ∈ List.range 64,
      (d.unpacked false skip).ramChar (d.device.bramIndexConverter x y) (252 - 4 * k) bit_y =
        .ok (FpgaConfig.hexDigits.getD
          (d.digit (d.device.bramIndexConverter x y) (252 - 4 * k) bit_y) ' ') := by
    intro bit_y hbit_y k hk
    unfold FpgaConfig.ramChar
    rw [foldlM_ok (hvalue k (List.mem_range.mp hk) bit_y hbit_y)]
    rfl
  have hrow : ∀ bit_y ∈ List.range 16, ((List.range 64).mapM fun k =>
      (d.unpacked false skip).ramChar (d.device.bramIndexConverter x y) (252 - 4 * k) bit_y) =
        .ok (d.ramRow (d.device.bramIndexConverter x y) bit_y) := fun bit_y hbit_y =>
    mapM_ok (hchar bit_y (List.mem_range.mp hbit_y))
  unfold FpgaConfig.ramText
  dsimp only
  rw [mapM_ok hrow]
  rfl

theorem tileText_unpacked {x y : ℕ} (hx : x ≤ d.device.chip_width + 1)
    (hy : y ≤ d.device.chip_height + 1) :
    (d.unpacked false skip).tileText d.device x y = .ok (d.tileText x y) := by
  have hrow : ∀ bit_y ∈ List.range 16,
      ((List.range (d.device.cramIndexConverter x y).tile_width).mapM fun bit_x =>
        (d.unpacked false skip).tileChar (d.device.cramIndexConverter x y) bit_x bit_y) =
        .ok (d.tileRow (d.device.cramIndexConverter x y) bit_y) := fun bit_y hbit_y =>
    mapM_ok fun bit_x hbit_x => tileChar_unpacked d
      ⟨x, y, bit_x, bit_y, hx, hy, List.mem_range.mp hbit_x, List.mem_range.mp hbit_y⟩
  have htype : (d.device.cramIndexConverter x y).tile_type = d.device.tile_type x y := rfl
  unfold FpgaConfig.tileText tileText
  dsimp only
  rw [htype]
  by_cases hcorner : d.device.tile_type x y = .corner
  · rw [if_pos hcorner, if_pos hcorner]
    rfl
  · rw [if_neg hcorner, if_neg hcorner, mapM_ok hrow]
    by_cases hramb : d.device.tile_type x y = .ramb
    · have hbanks : d.device.bramStored.banks ≠ 0 := by
        rw [Device.bramStored, if_neg (Device.bram_width_ne_zero hy hramb)]
        exact Nat.succ_ne_zero 3
      rw [if_pos hramb]
      -- A device with such a tile has a BRAM, so the writer finds one.
      refine (if_pos ⟨hramb, hbanks⟩).trans ?_
      rw [ramText_unpacked d hx hy hramb]
      rfl
    · rw [if_neg hramb]
      exact if_neg fun h => hramb h.1

theorem extraText_unpacked {p : Place} (h : p.1 < 4 ∧ p.2.1 < d.device.cram_width ∧
    p.2.2 < d.device.cram_height) :
    (d.unpacked false skip).extraText d.device p = .ok (d.extraText p) := by
  unfold FpgaConfig.extraText extraText
  rw [FpgaConfig.readBit_of_has (has_cram h)]
  exact (apply_ite Except.ok _ _ _).symm

/-- The text of a design. -/
def text : List Char :=
  ".comment".toList ++ commentText true d.initblop ++
    ("\n.device ".toList ++ d.device.name ++ ['\n']) ++
    (if d.warmboot ≠ .enabled then ".warmboot ".toList ++ d.warmboot.name ++ ['\n'] else []) ++
    (d.device.tiles.map fun t => d.tileText t.1 t.2).flatten ++
    ((d.config false).cramPlaces.map d.extraText).flatten

/-- What is written for the bits of a design, as `read_bits` leaves them. -/
theorem writeAscii_unpacked (skip : Bool) : (d.unpacked false skip).writeAscii = .ok d.text := by
  have htiles : ∀ t ∈ d.device.tiles,
      (d.unpacked false skip).tileText d.device t.1 t.2 = .ok (d.tileText t.1 t.2) := fun t ht =>
    tileText_unpacked d (Device.mem_tiles.mp ht).1 (Device.mem_tiles.mp ht).2
  have hplaces : ∀ p ∈ (d.config false).cramPlaces,
      (d.unpacked false skip).extraText d.device p = .ok (d.extraText p) := fun p hp =>
    extraText_unpacked d (FpgaConfig.mem_cramPlaces.mp hp)
  have hsame : (d.unpacked false skip).cramPlaces = (d.config false).cramPlaces := rfl
  have hdevice : (d.unpacked false skip).device = some d.device := rfl
  have hwarmboot : (if (d.unpacked false skip).warmboot ≠ some .enabled then
      ".warmboot ".toList ++ ((d.unpacked false skip).warmboot.map Setting.name).getD [] ++ ['\n']
      else []) =
      if d.warmboot ≠ .enabled then ".warmboot ".toList ++ d.warmboot.name ++ ['\n'] else [] := by
    unfold unpacked config
    cases d.warmboot <;> rfl
  unfold FpgaConfig.writeAscii
  rw [hdevice]
  dsimp only
  rw [mapM_ok htiles, hwarmboot, hsame, mapM_ok hplaces]
  rfl

end Design

/-! ## Characters -/

/-- All characters are ASCII characters, and none is a NUL. -/
def Ascii (text : List Char) : Prop := ∀ ch ∈ text, 0 < ch.toNat ∧ ch.toNat < 0x80

instance (text : List Char) : Decidable (Ascii text) := List.decidableBAll _ _

theorem ascii_append {text text' : List Char} (h : Ascii text) (h' : Ascii text') :
    Ascii (text ++ text') :=
  List.forall_mem_append.mpr ⟨h, h'⟩

theorem ascii_flatMap {α : Type} {l : List α} {f : α → List Char} (h : ∀ a ∈ l, Ascii (f a)) :
    Ascii (l.flatMap f) := by
  intro ch hch
  obtain ⟨a, ha, hmem⟩ := List.mem_flatMap.mp hch
  exact h a ha ch hmem

theorem ascii_statement {command : Line} (h : Ascii command) (args : List ℕ) :
    Ascii (statement command args) := by
  refine ascii_append h (ascii_flatMap fun n _ => List.forall_mem_cons.mpr ⟨by decide, ?_⟩)
  intro ch hch
  have hdigit : ch.isDigit = true := Nat.isDigit_of_mem_toDigits (by decide) (by decide) hch
  simp only [Char.isDigit, Bool.and_eq_true, decide_eq_true_eq] at hdigit
  obtain ⟨hle, hge⟩ := hdigit
  have hle : 48 ≤ ch.toNat := hle
  have hge : ch.toNat ≤ 57 := hge
  omega

theorem ascii_hexDigit (value : ℕ) : 0 < (FpgaConfig.hexDigits.getD value ' ').toNat ∧
    (FpgaConfig.hexDigits.getD value ' ').toNat < 0x80 := by
  have hall : Ascii (' ' :: FpgaConfig.hexDigits) := by decide
  refine hall _ ?_
  rw [List.getD_eq_getElem?_getD]
  cases h : FpgaConfig.hexDigits[value]? with
  | none => exact List.mem_cons_self
  | some ch => exact List.mem_cons_of_mem _ (List.mem_of_getElem? h)

namespace Design

variable {d : Design}

/-- Rows of characters, each on a line of its own. -/
theorem ascii_rows {l : List ℕ} {row : ℕ → Line} (h : ∀ bit_y ∈ l, Ascii (row bit_y)) :
    Ascii ((l.map row).flatMap (· ++ ['\n'])) := by
  rw [List.flatMap_map]
  exact ascii_flatMap fun bit_y hbit_y => ascii_append (h bit_y hbit_y) (by decide)

theorem ascii_ramText (x y : ℕ) : Ascii (d.ramText x y) := by
  refine ascii_append (ascii_statement (by decide) _) (List.forall_mem_cons.mpr ⟨by decide, ?_⟩)
  refine ascii_rows fun bit_y _ ch hch => ?_
  obtain ⟨k, -, rfl⟩ := List.mem_map.mp hch
  exact ascii_hexDigit _

theorem ascii_tileText (x y : ℕ) : Ascii (d.tileText x y) := by
  have hcommand : ∀ t : TileType, Ascii t.command := fun t => by cases t <;> decide
  have hrows : Ascii (((List.range 16).map (d.tileRow (d.device.cramIndexConverter x y))).flatMap
      (· ++ ['\n'])) := ascii_rows fun bit_y _ ch hch => by
    obtain ⟨bit_x, -, rfl⟩ := List.mem_map.mp hch
    split_ifs
    · decide
    · decide
  have htile := ascii_append (ascii_statement (hcommand (d.device.tile_type x y)) [x, y])
    (List.forall_mem_cons.mpr ⟨(by decide : 0 < '\n'.toNat ∧ '\n'.toNat < 0x80), hrows⟩)
  unfold tileText
  split_ifs with hcorner hramb
  · exact nofun
  · exact ascii_append htile (ascii_ramText x y)
  · exact ascii_append htile nofun

/-- The text of a design consists of ASCII characters, if its comments do. -/
theorem ascii_text (h : Ascii (commentText true d.initblop)) : Ascii d.text := by
  have hdevice : Ascii ("\n.device ".toList ++ d.device.name ++ ['\n']) := by
    cases d.device <;> decide
  have hwarmboot : Ascii (if d.warmboot ≠ .enabled then
      ".warmboot ".toList ++ d.warmboot.name ++ ['\n'] else []) := by
    cases d.warmboot <;> decide
  have htiles : Ascii (d.device.tiles.map fun t => d.tileText t.1 t.2).flatten :=
    ascii_flatMap fun t _ => ascii_tileText t.1 t.2
  have hextra : Ascii ((d.config false).cramPlaces.map d.extraText).flatten :=
    ascii_flatMap fun p _ => by
      unfold extraText
      split_ifs
      · exact ascii_append (ascii_statement (by decide) _) (by decide)
      · exact nofun
  exact ascii_append (ascii_append (ascii_append (ascii_append (ascii_append (by decide) h)
    hdevice) hwarmboot) htiles) hextra

end Design

end GoBoard.Icepack
