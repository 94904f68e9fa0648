import GoBoard.Icepack.Config
import Mathlib.Logic.Function.Basic

/-!
# Tiles

A chip is a grid of tiles with a frame of io tiles around it. The CRAM of each quarter of the chip
is a bank, in which a column of tiles takes as many columns of bits as `chip_cols` says, and a row
of tiles sixteen rows. `CramIndexConverter` and `BramIndexConverter` find the bits of a tile.

The bits of all tiles of a chip are different bits of the CRAM (`cramIndex_injective`), and the data
of the `ramb` tiles are just the bits of the BRAM (`bramIndex_bijective`).
-/

namespace GoBoard.Icepack

/-! ## The chip -/

/-- The types of tiles. -/
inductive TileType
  | corner
  | io
  | logic
  | ramb
  | ramt
  | dsp0
  | dsp1
  | dsp2
  | dsp3
  | ipcon
  deriving DecidableEq, Repr

namespace Device

def chip_width : Device → ℕ
  | ice384 => 6
  | ice1k => 12
  | ice5k => 24
  | iceU4k => 24
  | iceLm4k => 24
  | ice8k => 32

def chip_height : Device → ℕ
  | ice384 => 8
  | ice1k => 16
  | ice5k => 30
  | iceU4k => 20
  | iceLm4k => 20
  | ice8k => 32

def chip_cols : Device → List ℕ
  | ice384 => [18, 54, 54, 54, 54]
  | ice1k => [18, 54, 54, 42, 54, 54, 54]
  | iceU4k => [54, 54, 54, 54, 54, 54, 42, 54, 54, 54, 54, 54, 54]
  | iceLm4k => [18, 54, 54, 54, 54, 54, 42, 54, 54, 54, 54, 54, 54]
  | ice5k => [54, 54, 54, 54, 54, 54, 42, 54, 54, 54, 54, 54, 54]
  | ice8k => [18, 54, 54, 54, 54, 54, 54, 54, 42, 54, 54, 54, 54, 54, 54, 54, 54]

/-- The first or the last column. -/
def OnSide (d : Device) (x : ℕ) : Prop := x = 0 ∨ x = d.chip_width + 1

/-- The first or the last row. -/
def OnEdge (d : Device) (y : ℕ) : Prop := y = 0 ∨ y = d.chip_height + 1

instance (d : Device) (x : ℕ) : Decidable (d.OnSide x) := inferInstanceAs (Decidable (_ ∨ _))

instance (d : Device) (y : ℕ) : Decidable (d.OnEdge y) := inferInstanceAs (Decidable (_ ∨ _))

/-- `tile_type`. -/
def tile_type (d : Device) (x y : ℕ) : TileType :=
  if d.OnSide x ∧ d.OnEdge y then .corner
  else if d = ice5k ∧ d.OnSide x then
    if y = 5 ∨ y = 10 ∨ y = 15 ∨ y = 23 then .dsp0
    else if y = 6 ∨ y = 11 ∨ y = 16 ∨ y = 24 then .dsp1
    else if y = 7 ∨ y = 12 ∨ y = 17 ∨ y = 25 then .dsp2
    else if y = 8 ∨ y = 13 ∨ y = 18 ∨ y = 26 then .dsp3
    else .ipcon
  else if d = iceU4k ∧ d.OnSide x then
    if y = 5 ∨ y = 13 then .dsp0
    else if y = 6 ∨ y = 14 then .dsp1
    else if y = 7 ∨ y = 15 then .dsp2
    else if y = 8 ∨ y = 16 then .dsp3
    else .ipcon
  else if d.OnSide x ∨ d.OnEdge y then .io
  else match d with
    | ice384 => .logic
    | ice1k => if x = 3 ∨ x = 10 then if y % 2 = 1 then .ramb else .ramt else .logic
    | ice5k | iceU4k | iceLm4k =>
      if x = 6 ∨ x = 19 then if y % 2 = 1 then .ramb else .ramt else .logic
    | ice8k => if x = 8 ∨ x = 25 then if y % 2 = 1 then .ramb else .ramt else .logic

end Device

/-- `tile_width`. -/
def TileType.width : TileType → ℕ
  | corner => 0
  | logic => 54
  | ramb => 42
  | ramt => 42
  | io => 18
  | dsp0 | dsp1 | dsp2 | dsp3 => 54
  | ipcon => 54

/-! ## The converters -/

/-- `CramIndexConverter`. -/
structure CramIndexConverter where
  tile_type : TileType
  tile_width : ℕ
  column_width : ℕ
  left_right_io : Bool
  right_half : Bool
  top_half : Bool
  bank_num : ℕ
  bank_xoff : ℕ
  bank_yoff : ℕ
  deriving DecidableEq, Repr

namespace Device

variable (d : Device)

def rightHalf (tile_x : ℕ) : Bool := d.chip_width / 2 < tile_x

def topHalf (tile_y : ℕ) : Bool :=
  if d = ice5k then d.chip_height * 2 / 3 < tile_y else d.chip_height / 2 < tile_y

/-- `bank_num`. -/
def bankNum (tile_x tile_y : ℕ) : ℕ :=
  (if d.topHalf tile_y then 1 else 0) ||| (if d.rightHalf tile_x then 2 else 0)

/-- `bank_tx`. -/
def bankTx (tile_x : ℕ) : ℕ := if d.rightHalf tile_x then d.chip_width + 1 - tile_x else tile_x

/-- `bank_ty`. -/
def bankTy (tile_y : ℕ) : ℕ := if d.topHalf tile_y then d.chip_height + 1 - tile_y else tile_y

/-- The constructor of `CramIndexConverter`. -/
def cramIndexConverter (tile_x tile_y : ℕ) : CramIndexConverter where
  tile_type := d.tile_type tile_x tile_y
  tile_width := (d.tile_type tile_x tile_y).width
  column_width := d.chip_cols.getD (d.bankTx tile_x) 0
  left_right_io := d.OnSide tile_x
  right_half := d.rightHalf tile_x
  top_half := d.topHalf tile_y
  bank_num := d.bankNum tile_x tile_y
  bank_xoff := (d.chip_cols.take (d.bankTx tile_x)).sum
  bank_yoff := 16 * d.bankTy tile_y

end Device

namespace CramIndexConverter

def io_top_bottom_permx : List ℕ :=
  [23, 25, 26, 27, 16, 17, 18, 19, 20, 14, 32, 33, 34, 35, 36, 37, 4, 5]

def io_top_bottom_permy : List ℕ := [0, 1, 3, 2, 4, 5, 7, 6, 8, 9, 11, 10, 12, 13, 15, 14]

variable (c : CramIndexConverter)

/-- The column of a bit, `cram_x`. -/
def cramX (bit_x : ℕ) : ℕ :=
  if c.tile_type = .io then
    if c.left_right_io then c.bank_xoff + c.column_width - 1 - bit_x
    else if c.right_half then
      c.bank_xoff + c.column_width - 1 - io_top_bottom_permx.getD bit_x 0
    else c.bank_xoff + io_top_bottom_permx.getD bit_x 0
  else if c.right_half then c.bank_xoff + c.column_width - 1 - bit_x
  else c.bank_xoff + bit_x

/-- The row of a bit, `cram_y`. -/
def cramY (bit_y : ℕ) : ℕ :=
  if c.tile_type = .io then
    if c.left_right_io then
      if c.top_half then c.bank_yoff + 15 - bit_y else c.bank_yoff + bit_y
    else c.bank_yoff + 15 - io_top_bottom_permy.getD bit_y 0
  else if c.top_half then c.bank_yoff + (15 - bit_y)
  else c.bank_yoff + bit_y

/-- `get_cram_index`: the bank, the column and the row. -/
def get_cram_index (bit_x bit_y : ℕ) : ℕ × ℕ × ℕ := (c.bank_num, c.cramX bit_x, c.cramY bit_y)

end CramIndexConverter

/-- `BramIndexConverter`. -/
structure BramIndexConverter where
  bank_num : ℕ
  bank_off : ℕ
  deriving DecidableEq, Repr

/-- The constructor of `BramIndexConverter`. -/
def Device.bramIndexConverter (d : Device) (tile_x tile_y : ℕ) : BramIndexConverter :=
  let top_half : Bool :=
    if d = ice5k then 2 * d.chip_height / 3 < tile_y else d.chip_height / 2 < tile_y
  let y_offset :=
    if d = ice5k then
      if top_half then tile_y - 2 * d.chip_height / 3 else tile_y - 1
    else if top_half then tile_y - d.chip_height / 2
    else tile_y - 1
  { bank_num := (if top_half then 1 else 0) ||| (if d.rightHalf tile_x then 2 else 0)
    bank_off := 16 * (y_offset / 2) }

/-- `get_bram_index`: the bank, the column and the row. -/
def BramIndexConverter.get_bram_index (c : BramIndexConverter) (bit_x bit_y : ℕ) : ℕ × ℕ × ℕ :=
  let index := 256 * bit_y + (16 * (bit_x / 16) + 15 - bit_x % 16)
  (c.bank_num, c.bank_off + index % 16, index / 16)

/-! ## The places of the bits -/

/-- Offsets of consecutive columns: a place in one of them tells which it is. -/
theorem column_unique {cols : List ℕ} {i j a b : ℕ} (ha : a < cols.getD i 0)
    (hb : b < cols.getD j 0) (h : (cols.take i).sum + a = (cols.take j).sum + b) :
    i = j ∧ a = b := by
  induction cols generalizing i j with
  | nil => simp at ha
  | cons col cols ih =>
    -- Both are in the first column, both behind it, or the offset tells them apart.
    cases i with
    | zero =>
      cases j with
      | zero => simpa using h
      | succ j =>
        simp only [List.take_succ_cons, List.sum_cons, List.take_zero, List.sum_nil,
          List.getD_cons_zero] at h ha
        omega
    | succ i =>
      cases j with
      | zero =>
        simp only [List.take_succ_cons, List.sum_cons, List.take_zero, List.sum_nil,
          List.getD_cons_zero] at h hb
        omega
      | succ j =>
        simp only [List.take_succ_cons, List.sum_cons, List.getD_cons_succ] at h ha hb
        obtain ⟨rfl, hab⟩ := ih ha hb (by omega)
        exact ⟨rfl, hab⟩

namespace CramIndexConverter

/-- The bits of the tile fit into its column. The permutation of an io tile in the first or the last
row needs more of it than the width of the tile. -/
def Fits (c : CramIndexConverter) : Prop :=
  if c.tile_type = .io ∧ c.left_right_io = false then c.tile_width = 18 ∧ 38 ≤ c.column_width
  else c.tile_width ≤ c.column_width

variable {c : CramIndexConverter}

/-- The bits lie in the column of the tile. -/
theorem cramX_bounds (hc : c.Fits) {i : ℕ} (hi : i < c.tile_width) :
    c.bank_xoff ≤ c.cramX i ∧ c.cramX i < c.bank_xoff + c.column_width := by
  have hbound : ∀ i < 18, io_top_bottom_permx.getD i 0 < 38 := by decide
  unfold Fits at hc
  unfold cramX
  cases hside : c.left_right_io <;> by_cases hio : c.tile_type = .io <;>
    simp only [hio, hside, true_and, false_and, if_true, if_false, Bool.false_eq_true,
      Bool.true_eq_false] at hc ⊢
  · obtain ⟨hwidth, hcolumn⟩ := hc
    have hperm := hbound i (by omega)
    split_ifs <;> omega
  · split_ifs <;> omega
  · omega
  · split_ifs <;> omega

theorem cramX_injective (hc : c.Fits) {i j : ℕ} (hi : i < c.tile_width) (hj : j < c.tile_width)
    (h : c.cramX i = c.cramX j) : i = j := by
  have hbound : ∀ i < 18, io_top_bottom_permx.getD i 0 < 38 := by decide
  have hinj : ∀ i < 18, ∀ j < 18,
      io_top_bottom_permx.getD i 0 = io_top_bottom_permx.getD j 0 → i = j := by decide
  unfold Fits at hc
  unfold cramX at h
  cases hside : c.left_right_io <;> by_cases hio : c.tile_type = .io <;>
    simp only [hio, hside, true_and, false_and, if_true, if_false, Bool.false_eq_true,
      Bool.true_eq_false] at hc h
  · obtain ⟨hwidth, hcolumn⟩ := hc
    have hpermi := hbound i (by omega)
    have hpermj := hbound j (by omega)
    refine hinj i (by omega) j (by omega) ?_
    split_ifs at h <;> omega
  · split_ifs at h <;> omega
  · omega
  · split_ifs at h <;> omega

/-- The bits lie in the sixteen rows of the tile. -/
theorem cramY_bounds {i : ℕ} (hi : i < 16) :
    c.bank_yoff ≤ c.cramY i ∧ c.cramY i < c.bank_yoff + 16 := by
  have hbound : ∀ i < 16, io_top_bottom_permy.getD i 0 < 16 := by decide
  have hperm := hbound i hi
  unfold cramY
  split_ifs <;> omega

theorem cramY_injective {i j : ℕ} (hi : i < 16) (hj : j < 16) (h : c.cramY i = c.cramY j) :
    i = j := by
  have hbound : ∀ i < 16, io_top_bottom_permy.getD i 0 < 16 := by decide
  have hinj : ∀ i < 16, ∀ j < 16,
      io_top_bottom_permy.getD i 0 = io_top_bottom_permy.getD j 0 → i = j := by decide
  have hpermi := hbound i hi
  have hpermj := hbound j hj
  unfold cramY at h
  split_ifs at h
  · omega
  · omega
  · exact hinj i hi j hj (by omega)
  · omega
  · omega

end CramIndexConverter

namespace Device

/-- The columns of the block memories. -/
def RamColumn (d : Device) (x : ℕ) : Prop :=
  match d with
  | ice384 => False
  | ice1k => x = 3 ∨ x = 10
  | ice5k | iceU4k | iceLm4k => x = 6 ∨ x = 19
  | ice8k => x = 8 ∨ x = 25

instance (d : Device) (x : ℕ) : Decidable (d.RamColumn x) := by
  unfold RamColumn
  cases d <;> infer_instance

/-- The sides of a `5k` and a `u4k` have no io tiles. -/
def WideSide (d : Device) : Prop := d = ice5k ∨ d = iceU4k

instance (d : Device) : Decidable d.WideSide := inferInstanceAs (Decidable (_ ∨ _))

/-- The tiles of a column have one width, but for the frame. -/
theorem width_tile_type (d : Device) (x y : ℕ) : (d.tile_type x y).width =
    if d.OnSide x ∧ d.OnEdge y then 0
    else if d.WideSide ∧ d.OnSide x then 54
    else if d.OnSide x ∨ d.OnEdge y then 18
    else if d.RamColumn x then 42
    else 54 := by
  unfold tile_type WideSide RamColumn
  by_cases hside : d.OnSide x
  · by_cases hedge : d.OnEdge y
    · simp [hside, hedge, TileType.width]
    · cases d <;> simp [hside, hedge, TileType.width]
      all_goals
        split_ifs
      all_goals rfl
  · by_cases hedge : d.OnEdge y
    · simp [hside, hedge, TileType.width]
    · cases d
      case ice384 => simp [hside, hedge, TileType.width]
      all_goals
        simp [hside, hedge]
        split_ifs
      all_goals simp [TileType.width, *]

/-- The tiles of type io are on the frame. -/
theorem frame_of_io {d : Device} {x y : ℕ} (h : d.tile_type x y = .io) :
    ¬(d.OnSide x ∧ d.OnEdge y) ∧ ¬(d.WideSide ∧ d.OnSide x) ∧ (d.OnSide x ∨ d.OnEdge y) := by
  have hwidth := d.width_tile_type x y
  rw [h] at hwidth
  split_ifs at hwidth with h1 h2 h3
  all_goals first | exact ⟨h1, h2, h3⟩ | cases hwidth

/-- The widths of the columns. -/
theorem column_width_eq (d : Device) {x : ℕ} (hx : x ≤ d.chip_width + 1) :
    d.chip_cols.getD (d.bankTx x) 0 =
      if d.OnSide x then if d.WideSide then 54 else 18
      else if d.RamColumn x then 42
      else 54 := by
  revert x
  cases d <;> decide

theorem fits (d : Device) {x : ℕ} (y : ℕ) (hx : x ≤ d.chip_width + 1) :
    (d.cramIndexConverter x y).Fits := by
  have hcolumn := d.column_width_eq hx
  have hwidth := d.width_tile_type x y
  unfold CramIndexConverter.Fits cramIndexConverter
  dsimp only
  rw [hwidth, hcolumn]
  -- The permuted io tiles are the ones in the first and the last row.
  by_cases hedge : d.tile_type x y = .io ∧ decide (d.OnSide x) = false
  · obtain ⟨hio, hside⟩ := hedge
    have hside : ¬d.OnSide x := of_decide_eq_false hside
    obtain ⟨-, -, hframe⟩ := frame_of_io hio
    rw [if_pos ⟨hio, decide_eq_false hside⟩]
    split_ifs <;> simp_all
  · rw [if_neg hedge]
    split_ifs <;> simp_all

theorem bankNum_lt (d : Device) (x y : ℕ) : d.bankNum x y < 4 := by
  unfold bankNum
  cases d.topHalf y <;> cases d.rightHalf x <;> decide

/-- The lowest bit of the bank is the upper half of the chip. -/
theorem bankNum_mod_two (d : Device) (x y : ℕ) :
    d.bankNum x y % 2 = if d.topHalf y then 1 else 0 := by
  unfold bankNum
  cases d.topHalf y <;> cases d.rightHalf x <;> decide

/-- The bank tells in which quarter of the chip a tile is. -/
theorem halves_of_bankNum {d : Device} {x y x' y' : ℕ} (h : d.bankNum x y = d.bankNum x' y') :
    d.rightHalf x = d.rightHalf x' ∧ d.topHalf y = d.topHalf y' := by
  unfold bankNum at h
  revert h
  cases d.topHalf y <;> cases d.rightHalf x <;> cases d.topHalf y' <;> cases d.rightHalf x' <;>
    decide

theorem tile_x_unique {d : Device} {x x' : ℕ} (hx : x ≤ d.chip_width + 1)
    (hx' : x' ≤ d.chip_width + 1) (hhalf : d.rightHalf x = d.rightHalf x')
    (h : d.bankTx x = d.bankTx x') : x = x' := by
  unfold bankTx at h
  rw [hhalf] at h
  split_ifs at h <;> omega

theorem tile_y_unique {d : Device} {y y' : ℕ} (hy : y ≤ d.chip_height + 1)
    (hy' : y' ≤ d.chip_height + 1) (hhalf : d.topHalf y = d.topHalf y')
    (h : d.bankTy y = d.bankTy y') : y = y' := by
  unfold bankTy at h
  rw [hhalf] at h
  split_ifs at h <;> omega

/-- The columns and the rows of the tiles are inside the banks. -/
theorem columns_inside (d : Device) {x : ℕ} (hx : x ≤ d.chip_width + 1) :
    (d.chip_cols.take (d.bankTx x)).sum + d.chip_cols.getD (d.bankTx x) 0 ≤ d.cram_width := by
  revert x
  cases d <;> decide

theorem rows_inside (d : Device) {x y : ℕ} (hy : y ≤ d.chip_height + 1) :
    16 * d.bankTy y + 16 ≤ d.cramHeight (d.bankNum x y) := by
  have hrows : ∀ y ≤ d.chip_height + 1,
      16 * d.bankTy y + 16 ≤ d.cramHeight (if d.topHalf y then 1 else 0) := by
    cases d <;> decide
  have hbank : d.cramHeight (d.bankNum x y) = d.cramHeight (if d.topHalf y then 1 else 0) := by
    unfold cramHeight
    rw [bankNum_mod_two]
    cases d.topHalf y <;> rfl
  rw [hbank]
  exact hrows y hy

end Device

/-! ## The bits of the tiles -/

/-- A bit of a tile of the chip. -/
@[ext] structure TileBit (d : Device) where
  tile_x : ℕ
  tile_y : ℕ
  bit_x : ℕ
  bit_y : ℕ
  tile_x_le : tile_x ≤ d.chip_width + 1
  tile_y_le : tile_y ≤ d.chip_height + 1
  bit_x_lt : bit_x < (d.tile_type tile_x tile_y).width
  bit_y_lt : bit_y < 16

/-- A bit of the CRAM. -/
@[ext] structure CramBit (d : Device) where
  bank : ℕ
  x : ℕ
  y : ℕ
  bank_lt : bank < 4
  x_lt : x < d.cram_width
  y_lt : y < d.cramHeight bank

namespace TileBit

variable {d : Device}

/-- The place of a bit in the CRAM, as `get_cram_index` has it. -/
def index (b : TileBit d) : ℕ × ℕ × ℕ :=
  (d.cramIndexConverter b.tile_x b.tile_y).get_cram_index b.bit_x b.bit_y

/-- The columns and the rows of the bit, as parts of those of the tile. -/
theorem bounds (b : TileBit d) :
    ∃ cx cy, b.index = (d.bankNum b.tile_x b.tile_y,
        (d.chip_cols.take (d.bankTx b.tile_x)).sum + cx, 16 * d.bankTy b.tile_y + cy) ∧
      cx < d.chip_cols.getD (d.bankTx b.tile_x) 0 ∧ cy < 16 := by
  obtain ⟨hxle, hxlt⟩ := CramIndexConverter.cramX_bounds (d.fits b.tile_y b.tile_x_le) b.bit_x_lt
  obtain ⟨hyle, hylt⟩ :=
    CramIndexConverter.cramY_bounds (c := d.cramIndexConverter b.tile_x b.tile_y) b.bit_y_lt
  obtain ⟨cx, hcx⟩ := Nat.le.dest hxle
  obtain ⟨cy, hcy⟩ := Nat.le.dest hyle
  rw [← hcx] at hxlt
  rw [← hcy] at hylt
  refine ⟨cx, cy, ?_, Nat.lt_of_add_lt_add_left hxlt, Nat.lt_of_add_lt_add_left hylt⟩
  unfold index CramIndexConverter.get_cram_index
  rw [← hcx, ← hcy]
  rfl

/-- The bits of the tiles are inside the CRAM. -/
theorem index_inside (b : TileBit d) :
    b.index.1 < 4 ∧ b.index.2.1 < d.cram_width ∧ b.index.2.2 < d.cramHeight b.index.1 := by
  obtain ⟨cx, cy, hindex, hcx, hcy⟩ := b.bounds
  have hcolumns := d.columns_inside b.tile_x_le
  have hrows := d.rows_inside (x := b.tile_x) b.tile_y_le
  rw [hindex]
  exact ⟨d.bankNum_lt _ _, by dsimp only; omega, by dsimp only; omega⟩

/-- The bit of the CRAM. -/
def cramIndex (b : TileBit d) : CramBit d where
  bank := b.index.1
  x := b.index.2.1
  y := b.index.2.2
  bank_lt := b.index_inside.1
  x_lt := b.index_inside.2.1
  y_lt := b.index_inside.2.2

end TileBit

/-- Different bits of the tiles are different bits of the CRAM. -/
theorem cramIndex_injective (d : Device) :
    Function.Injective (TileBit.cramIndex : TileBit d → CramBit d) := by
  intro b b' h
  have hparts : b.index = b'.index := Prod.ext (congrArg CramBit.bank h)
    (Prod.ext (congrArg CramBit.x h) (congrArg CramBit.y h))
  have hsame := hparts
  obtain ⟨cx, cy, hindex, hcx, hcy⟩ := b.bounds
  obtain ⟨cx', cy', hindex', hcx', hcy'⟩ := b'.bounds
  rw [hindex, hindex'] at hparts
  obtain ⟨hbank, hplace⟩ := Prod.mk.inj hparts
  obtain ⟨hcolumn, hrow⟩ := Prod.mk.inj hplace
  obtain ⟨hright, htop⟩ := Device.halves_of_bankNum hbank
  -- The column and the row of the tile, and so the tile itself.
  obtain ⟨htx, -⟩ := column_unique hcx hcx' hcolumn
  have hx := Device.tile_x_unique b.tile_x_le b'.tile_x_le hright htx
  have hy := Device.tile_y_unique b.tile_y_le b'.tile_y_le htop (by omega)
  obtain ⟨x, y, i, j, hxle, hyle, hi, hj⟩ := b
  obtain ⟨x', y', i', j', hxle', hyle', hi', hj'⟩ := b'
  dsimp only at hx hy
  subst hx hy
  obtain ⟨hX, hY⟩ := Prod.mk.inj (Prod.mk.inj hsame).2
  have hii := CramIndexConverter.cramX_injective (d.fits y hxle) hi hi' hX
  have hjj := CramIndexConverter.cramY_injective hj hj' hY
  subst hii hjj
  rfl

/-! ## The bits of the block memories -/

namespace Device

/-- The `ramb` tile whose data are the columns from `16 * k` on in a bank of the BRAM. -/
def ramTile (d : Device) (bank k : ℕ) : ℕ × ℕ :=
  match d with
  | ice384 => (0, 0)
  | ice1k => (if bank < 2 then 3 else 10, if bank % 2 = 0 then 2 * k + 1 else 2 * k + 9)
  | ice5k => (if bank < 2 then 6 else 19, if bank % 2 = 0 then 2 * k + 1 else 2 * k + 21)
  | iceU4k | iceLm4k =>
    (if bank < 2 then 6 else 19, if bank % 2 = 0 then 2 * k + 1 else 2 * k + 11)
  | ice8k => (if bank < 2 then 8 else 25, if bank % 2 = 0 then 2 * k + 1 else 2 * k + 17)

theorem ramTile_spec {d : Device} {bank k : ℕ} (hbank : bank < 4)
    (hk : 16 * k + 16 ≤ d.bramWidth bank) :
    (d.ramTile bank k).1 ≤ d.chip_width + 1 ∧ (d.ramTile bank k).2 ≤ d.chip_height + 1 ∧
      d.tile_type (d.ramTile bank k).1 (d.ramTile bank k).2 = .ramb ∧
      d.bramIndexConverter (d.ramTile bank k).1 (d.ramTile bank k).2 = ⟨bank, 16 * k⟩ := by
  have hall : ∀ bank < 4, ∀ k < 10, 16 * k + 16 ≤ d.bramWidth bank →
      (d.ramTile bank k).1 ≤ d.chip_width + 1 ∧ (d.ramTile bank k).2 ≤ d.chip_height + 1 ∧
        d.tile_type (d.ramTile bank k).1 (d.ramTile bank k).2 = .ramb ∧
        d.bramIndexConverter (d.ramTile bank k).1 (d.ramTile bank k).2 = ⟨bank, 16 * k⟩ := by
    cases d <;> decide
  have hle : d.bramWidth bank ≤ 160 := by
    unfold bramWidth
    cases d <;> simp [bram_width]
    split_ifs <;> decide
  exact hall bank hbank k (by omega) hk

theorem ramColumn_of_ramb {d : Device} {x y : ℕ} (h : d.tile_type x y = .ramb) : d.RamColumn x := by
  have hwidth := d.width_tile_type x y
  rw [h] at hwidth
  split_ifs at hwidth with h1 h2 h3 h4
  all_goals first | exact h4 | cases hwidth

/-- Every `ramb` tile is one of these. -/
theorem exists_ramTile {d : Device} {x y : ℕ} (hy : y ≤ d.chip_height + 1)
    (h : d.tile_type x y = .ramb) : ∃ bank < 4, ∃ k, 16 * k + 16 ≤ d.bramWidth bank ∧
      d.ramTile bank k = (x, y) := by
  have hcolumn := ramColumn_of_ramb h
  have hbank : ∀ x ≤ 25, d.RamColumn x → ∀ y ≤ d.chip_height + 1, d.tile_type x y = .ramb →
      (d.bramIndexConverter x y).bank_num < 4 := by
    cases d <;> decide
  have hwidth : ∀ x ≤ 25, d.RamColumn x → ∀ y ≤ d.chip_height + 1, d.tile_type x y = .ramb →
      16 * ((d.bramIndexConverter x y).bank_off / 16) + 16 ≤
        d.bramWidth (d.bramIndexConverter x y).bank_num := by
    cases d <;> decide
  have htile : ∀ x ≤ 25, d.RamColumn x → ∀ y ≤ d.chip_height + 1, d.tile_type x y = .ramb →
      d.ramTile (d.bramIndexConverter x y).bank_num
        ((d.bramIndexConverter x y).bank_off / 16) = (x, y) := by
    cases d <;> decide
  -- No chip has a column of block memories further to the right.
  have hx : x ≤ 25 := by
    unfold RamColumn at hcolumn
    cases d <;> simp at hcolumn <;> omega
  exact ⟨_, hbank x hx hcolumn y hy h, _, hwidth x hx hcolumn y hy h, htile x hx hcolumn y hy h⟩

end Device

/-- A word of the BRAM is sixteen bits of the data, the last one first. -/
theorem BramIndexConverter.get_bram_index_eq (c : BramIndexConverter) (bit_x bit_y : ℕ) :
    c.get_bram_index bit_x bit_y =
      (c.bank_num, c.bank_off + (15 - bit_x % 16), 16 * bit_y + bit_x / 16) := by
  unfold get_bram_index
  exact Prod.ext rfl (Prod.ext (by dsimp only; omega) (by dsimp only; omega))

/-- A bit of the data of a `ramb` tile of the chip. -/
structure RamBit (d : Device) where
  tile_x : ℕ
  tile_y : ℕ
  bit_x : ℕ
  bit_y : ℕ
  tile_x_le : tile_x ≤ d.chip_width + 1
  tile_y_le : tile_y ≤ d.chip_height + 1
  ramb : d.tile_type tile_x tile_y = .ramb
  bit_x_lt : bit_x < 256
  bit_y_lt : bit_y < 16

/-- A bit of the BRAM. -/
@[ext] structure BramBit (d : Device) where
  bank : ℕ
  x : ℕ
  y : ℕ
  bank_lt : bank < 4
  x_lt : x < d.bramWidth bank
  y_lt : y < d.bram_height

namespace RamBit

variable {d : Device}

/-- The place of a bit in the BRAM, as `get_bram_index` has it. -/
def index (b : RamBit d) : ℕ × ℕ × ℕ :=
  (d.bramIndexConverter b.tile_x b.tile_y).get_bram_index b.bit_x b.bit_y

/-- The tile is one of the columns of the BRAM. -/
theorem index_eq (b : RamBit d) : ∃ bank < 4, ∃ k, 16 * k + 16 ≤ d.bramWidth bank ∧
    d.ramTile bank k = (b.tile_x, b.tile_y) ∧
    b.index = (bank, 16 * k + (15 - b.bit_x % 16), 16 * b.bit_y + b.bit_x / 16) := by
  obtain ⟨bank, hbank, k, hk, htile⟩ := Device.exists_ramTile b.tile_y_le b.ramb
  obtain ⟨-, -, -, hconverter⟩ := Device.ramTile_spec hbank hk
  rw [htile] at hconverter
  refine ⟨bank, hbank, k, hk, htile, ?_⟩
  rw [index, BramIndexConverter.get_bram_index_eq, hconverter]

/-- The bit of the BRAM. -/
def bramIndex (b : RamBit d) : BramBit d where
  bank := b.index.1
  x := b.index.2.1
  y := b.index.2.2
  bank_lt := by
    obtain ⟨bank, hbank, k, -, -, hindex⟩ := b.index_eq
    rw [hindex]
    exact hbank
  x_lt := by
    obtain ⟨bank, -, k, hk, -, hindex⟩ := b.index_eq
    rw [hindex]
    dsimp only
    omega
  y_lt := by
    obtain ⟨bank, -, k, hk, -, hindex⟩ := b.index_eq
    have hx := b.bit_x_lt
    have hy := b.bit_y_lt
    rw [hindex]
    rcases d.bram_size with ⟨hzero, -⟩ | ⟨hheight, -⟩
    · have hwidth : d.bramWidth bank ≤ d.bram_width := by
        unfold Device.bramWidth
        split_ifs <;> omega
      omega
    · dsimp only
      omega

end RamBit

/-- Different bits of the data are different bits of the BRAM. -/
theorem RamBit.eq_of_bramIndex {d : Device} {b b' : RamBit d} (h : b.bramIndex = b'.bramIndex) :
    b = b' := by
  obtain ⟨bank, hbank, k, hk, htile, hindex⟩ := b.index_eq
  obtain ⟨bank', hbank', k', hk', htile', hindex'⟩ := b'.index_eq
  have hx := b.bit_x_lt
  have hx' := b'.bit_x_lt
  have hy := b.bit_y_lt
  have hy' := b'.bit_y_lt
  have hb := congrArg BramBit.bank h
  have hcolumn := congrArg BramBit.x h
  have hrow := congrArg BramBit.y h
  simp only [bramIndex, hindex, hindex'] at hb hcolumn hrow
  subst hb
  -- The column is a multiple of sixteen, plus less than sixteen.
  have hkk : k = k' := by omega
  subst hkk
  rw [htile] at htile'
  obtain ⟨htx, hty⟩ := Prod.mk.inj htile'
  have hbx : b.bit_x = b'.bit_x := by omega
  have hby : b.bit_y = b'.bit_y := by omega
  cases b
  cases b'
  simp_all

/-- Every bit of the BRAM is a bit of the data. -/
theorem exists_ramBit {d : Device} {bank x y : ℕ} (hbank : bank < 4) (hx : x < d.bramWidth bank)
    (hy : y < d.bram_height) : ∃ b : RamBit d, b.index = (bank, x, y) := by
  have hheight : d.bram_height ≤ 256 := by
    rcases d.bram_size with ⟨-, hzero⟩ | ⟨hheight, -⟩ <;> omega
  have hdvd : 16 ∣ d.bramWidth bank := by
    unfold Device.bramWidth
    cases d <;> simp [Device.bram_width]
    split_ifs <;> decide
  obtain ⟨htx, hty, hramb, hconverter⟩ :=
    Device.ramTile_spec (d := d) (k := x / 16) hbank (by omega)
  refine ⟨⟨_, _, 16 * (y % 16) + (15 - x % 16), y / 16, htx, hty, hramb, by omega, by omega⟩, ?_⟩
  rw [RamBit.index, BramIndexConverter.get_bram_index_eq, hconverter]
  exact Prod.ext rfl (Prod.ext (by dsimp only; omega) (by dsimp only; omega))

/-- The data of the `ramb` tiles are the bits of the BRAM, each of them once. -/
theorem bramIndex_bijective (d : Device) :
    Function.Bijective (RamBit.bramIndex : RamBit d → BramBit d) := by
  refine ⟨fun b b' => RamBit.eq_of_bramIndex, fun p => ?_⟩
  obtain ⟨b, hb⟩ := exists_ramBit p.bank_lt p.x_lt p.y_lt
  refine ⟨b, BramBit.ext ?_ ?_ ?_⟩
  · exact congrArg Prod.fst hb
  · exact congrArg (fun p => p.2.1) hb
  · exact congrArg (fun p => p.2.2) hb

end GoBoard.Icepack
