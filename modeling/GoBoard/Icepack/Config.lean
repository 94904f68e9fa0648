import GoBoard.Coding.Packing

/-!
# `FpgaConfig`

The configuration that `icepack` moves between its two file formats: the bits of the configuration
memory (CRAM) and of the block memory (BRAM), in four banks each, and three settings. A memory is a
function of the bank and two coordinates, `false` where nothing was written, with the sizes of its
vectors: a bank that nothing was written to is empty, whatever width and height are recorded.
`resize` makes room for a block, `store` is the loop that writes the bytes of the block to a bank,
and `bits_store` says which bits it leaves.

A device determines the sizes of its memories. A `Design` is a complete configuration of a device,
which has nothing outside these sizes.
-/

namespace GoBoard.Icepack

open Coding (Byte byteBit byteBit_packBytes length_packBytes packBytes)

/-! ## Devices and settings -/

/-- The devices: `384`, `1k`, `5k`, `u4k`, `lm4k` and `8k`. -/
inductive Device
  | ice384
  | ice1k
  | ice5k
  | iceU4k
  | iceLm4k
  | ice8k
  deriving DecidableEq, Repr

/-- The values of `freqrange`. -/
inductive FreqRange
  | low
  | medium
  | high
  deriving DecidableEq, Repr

/-- The values of `nosleep` and `warmboot`. -/
inductive Setting
  | disabled
  | enabled
  deriving DecidableEq, Repr

namespace Device

/-- The `cram_width` of the `.device` statement. -/
def cram_width : Device → ℕ
  | ice384 => 182
  | ice1k => 332
  | ice8k => 872
  | ice5k => 692
  | iceU4k => 692
  | iceLm4k => 656

/-- The `cram_height` of the `.device` statement. -/
def cram_height : Device → ℕ
  | ice384 => 80
  | ice1k => 144
  | ice8k => 272
  | ice5k => 336
  | iceU4k => 176
  | iceLm4k => 176

/-- The `bram_width` of the `.device` statement. -/
def bram_width : Device → ℕ
  | ice384 => 0
  | ice1k => 64
  | ice8k => 128
  | ice5k => 160
  | iceU4k => 80
  | iceLm4k => 80

/-- The `bram_height` of the `.device` statement. -/
def bram_height : Device → ℕ
  | ice384 => 0
  | ice1k => 2 * 128
  | ice8k => 2 * 128
  | ice5k => 2 * 128
  | iceU4k => 2 * 128
  | iceLm4k => 2 * 128

/-- The height of a bank of the CRAM: the banks in the upper half of a `5k` are lower. -/
def cramHeight (d : Device) (bank : ℕ) : ℕ :=
  if d = ice5k ∧ bank % 2 = 1 then d.cram_height / 2 + 8 else d.cram_height

/-- The width of a bank of the BRAM: the banks in the upper half of a `5k` are narrower. -/
def bramWidth (d : Device) (bank : ℕ) : ℕ :=
  if d = ice5k ∧ bank % 2 = 1 then d.bram_width / 2 else d.bram_width

/-- The sizes of the memories fit into the payloads of the commands, and a bank of the CRAM fills
its bytes. -/
theorem cram_size (d : Device) (bank : ℕ) :
    0 < d.cram_width ∧ d.cram_width < 1000 ∧ d.cram_height < 1000 ∧
      d.cramHeight bank ≤ d.cram_height ∧ 8 ∣ d.cramHeight bank * d.cram_width := by
  unfold cramHeight
  cases d <;> simp [cram_width, cram_height]
  split_ifs <;> decide

/-- A device has a BRAM of two chunks in each bank, or none. -/
theorem bram_size (d : Device) : (d.bram_width = 0 ∧ d.bram_height = 0) ∨
    (d.bram_height = 256 ∧ d.bram_width < 1000 ∧
      ∀ bank, 0 < d.bramWidth bank ∧ d.bramWidth bank ≤ d.bram_width) := by
  unfold bramWidth
  cases d <;> simp [bram_width, bram_height]
  intro bank
  split_ifs <;> decide

end Device

/-! ## Memories -/

/-- The sizes of a memory: the width and the height that are recorded for it, the number of its
banks, the number of columns of each bank, and the number of rows of each column. -/
@[ext] structure Sizes where
  width : ℕ
  height : ℕ
  banks : ℕ
  columns : ℕ → ℕ
  rows : ℕ → ℕ → ℕ

/-- A memory: vectors of vectors of vectors of bits. -/
structure Memory extends Sizes where
  bits : ℕ → ℕ → ℕ → Bool

namespace Memory

theorem ext {m m' : Memory} (hsizes : m.toSizes = m'.toSizes)
    (hbits : ∀ b x y, m.bits b x y = m'.bits b x y) : m = m' := by
  obtain ⟨sizes, bits⟩ := m
  obtain ⟨sizes', bits'⟩ := m'
  obtain rfl : sizes = sizes' := hsizes
  obtain rfl : bits = bits' := funext fun b => funext fun x => funext fun y => hbits b x y
  rfl

/-- A memory without a bit. -/
def empty : Memory where
  width := 0
  height := 0
  banks := 0
  columns _ := 0
  rows _ _ := 0
  bits _ _ _ := false

/-- The bit exists. -/
def Has (m : Memory) (bank x y : ℕ) : Prop :=
  bank < m.banks ∧ x < m.columns bank ∧ y < m.rows bank x

instance (m : Memory) (bank x y : ℕ) : Decidable (m.Has bank x y) :=
  inferInstanceAs (Decidable (_ ∧ _ ∧ _))

/-- The calls of `resize` in front of a block of data for a bank, with `height` rows up to the end of
the block. All sizes grow: a vector is never larger than what is recorded. -/
def resize (m : Memory) (bank width height : ℕ) : Memory :=
  { m with
    width := max m.width width
    height := max m.height height
    banks := 4
    columns := fun b => if b = bank then max m.width width else m.columns b
    rows := fun b x => if b = bank ∧ x < width then max m.height height else m.rows b x }

/-- One bit is assigned. -/
def set (m : Memory) (bank x y : ℕ) (v : Bool) : Memory :=
  { m with bits := fun b i j => if b = bank ∧ i = x ∧ j = y then v else m.bits b i j }

/-- The loops over the bytes of a block and over the bits of each: bit `k` of the block goes to
column `k % width` of row `k / width`, from row `offset` on. -/
def store (m : Memory) (bank width offset : ℕ) (bytes : List Byte) : Memory :=
  (List.range (bytes.length * 8)).foldl (fun m k =>
    m.set bank (k % width) (k / width + offset) (byteBit (bytes.getD (k / 8) 0) (k % 8))) m

/-- The order in which the bits of a block are written: row after row. -/
def block (m : Memory) (bank width height offset : ℕ) : List Bool :=
  (List.range height).flatMap fun y => (List.range width).map fun x => m.bits bank x (y + offset)

section Store

variable (m : Memory) (bank width offset : ℕ)

/-- The first `n` bits of a block, with bit `k` of it as `bit k`. -/
theorem bits_foldl_set (hw : 0 < width) (bit : ℕ → Bool) (n b x y : ℕ) :
    ((List.range n).foldl (fun m k => m.set bank (k % width) (k / width + offset) (bit k))
      m).bits b x y =
      if b = bank ∧ x < width ∧ offset ≤ y ∧ (y - offset) * width + x < n then
        bit ((y - offset) * width + x)
      else m.bits b x y := by
  induction n with
  | zero => simp
  | succ n ih =>
    rw [List.range_succ, List.foldl_append, List.foldl_cons, List.foldl_nil]
    -- The bit that is assigned last is the one at this position, or leaves it alone.
    have hpos : (x = n % width ∧ y = n / width + offset) ↔
        (x < width ∧ offset ≤ y ∧ (y - offset) * width + x = n) := by
      constructor
      · rintro ⟨rfl, rfl⟩
        refine ⟨Nat.mod_lt n hw, Nat.le_add_left _ _, ?_⟩
        rw [Nat.add_sub_cancel, Nat.mul_comm, Nat.div_add_mod]
      · rintro ⟨hx, hy, rfl⟩
        rw [Nat.mul_add_mod_self_right, Nat.mod_eq_of_lt hx, Nat.mul_comm,
          Nat.mul_add_div hw, Nat.div_eq_of_lt hx]
        omega
    change (if b = bank ∧ x = n % width ∧ y = n / width + offset then bit n else _) = _
    rw [ih]
    simp only [hpos]
    split_ifs with h1 h2 h3
    · rw [h1.2.2.2]
    · omega
    · rfl
    · omega
    · omega
    · rfl

/-- The bits after a block has been stored. -/
theorem bits_store (hw : 0 < width) (bytes : List Byte) (b x y : ℕ) :
    (m.store bank width offset bytes).bits b x y =
      if b = bank ∧ x < width ∧ offset ≤ y ∧ (y - offset) * width + x < bytes.length * 8 then
        byteBit (bytes.getD (((y - offset) * width + x) / 8) 0) (((y - offset) * width + x) % 8)
      else m.bits b x y :=
  bits_foldl_set m bank width offset hw _ _ b x y

/-- A block is stored in place. -/
theorem toSizes_store (bytes : List Byte) :
    (m.store bank width offset bytes).toSizes = m.toSizes := by
  unfold store
  generalize bytes.length * 8 = n
  induction n with
  | zero => rfl
  | succ n ih =>
    rw [List.range_succ, List.foldl_append]
    exact ih

/-- A block as one sequence. -/
theorem block_eq (height : ℕ) : m.block bank width height offset =
    (List.range (height * width)).map fun k => m.bits bank (k % width) (k / width + offset) := by
  unfold block
  induction height with
  | zero => simp
  | succ height ih =>
    rw [List.range_succ, List.flatMap_append, ih, Nat.add_one_mul, List.range_add, List.map_append]
    congr 1
    rw [List.flatMap_cons, List.flatMap_nil, List.append_nil, List.map_map]
    refine List.map_congr_left fun x hx => ?_
    have hx := List.mem_range.mp hx
    simp only [Function.comp_apply]
    rw [Nat.mul_add_mod_self_right, Nat.mod_eq_of_lt hx, Nat.mul_comm,
      Nat.mul_add_div (by omega), Nat.div_eq_of_lt hx, Nat.add_zero]

theorem length_block (height : ℕ) : (m.block bank width height offset).length = height * width := by
  rw [block_eq, List.length_map, List.length_range]

end Store

/-- A block that is packed and stored again copies its bits. -/
theorem bits_store_packBytes (m m' : Memory) (bank width height offset : ℕ) (hw : 0 < width)
    (hdvd : 8 ∣ height * width) (b x y : ℕ) :
    (m'.store bank width offset (packBytes (m.block bank width height offset))).bits b x y =
      if b = bank ∧ x < width ∧ offset ≤ y ∧ y < offset + height then m.bits b x y
      else m'.bits b x y := by
  have hlen : (packBytes (m.block bank width height offset)).length * 8 = height * width := by
    rw [length_packBytes, length_block]
    omega
  -- The bits are stored row by row, so a bit is in the block if its row is.
  have hrow : x < width → offset ≤ y →
      ((y - offset) * width + x < height * width ↔ y < offset + height) := fun hx hy => by
    constructor
    · intro h
      by_contra hno
      have := Nat.mul_le_mul_right width (show height ≤ y - offset by omega)
      omega
    · intro h
      have := Nat.mul_le_mul_right width (show y - offset + 1 ≤ height by omega)
      rw [Nat.add_one_mul] at this
      omega
  rw [bits_store m' bank width offset hw, hlen]
  split_ifs with h1 h2 h2
  · obtain ⟨rfl, hx, hy, hk⟩ := h1
    have hk' : (y - offset) * width + x < (m.block b width height offset).length := by
      rwa [length_block]
    rw [byteBit_packBytes _ hk']
    simp only [block_eq, List.getElem_map, List.getElem_range]
    rw [Nat.mul_add_mod_self_right, Nat.mod_eq_of_lt hx, Nat.mul_comm, Nat.mul_add_div hw,
      Nat.div_eq_of_lt hx, Nat.add_zero, Nat.sub_add_cancel hy]
  · obtain ⟨hb, hx, hy, hk⟩ := h1
    exact absurd ⟨hb, hx, hy, (hrow hx hy).mp hk⟩ h2
  · obtain ⟨hb, hx, hy, hk⟩ := h2
    exact absurd ⟨hb, hx, hy, (hrow hx hy).mpr hk⟩ h1
  · rfl

end Memory

/-! ## Configurations -/

/-- `FpgaConfig`. A setting that has not been made is an empty string in the source. -/
structure FpgaConfig where
  device : Option Device
  freqrange : Option FreqRange
  nosleep : Option Setting
  warmboot : Option Setting
  cram : Memory
  bram : Memory
  skip_bram_initialization : Bool
  /-- The data before the preamble. -/
  initblop : List Byte

/-- The configuration that the program starts with. -/
def FpgaConfig.init (skip_bram_initialization : Bool) : FpgaConfig where
  device := none
  freqrange := none
  nosleep := none
  warmboot := none
  cram := .empty
  bram := .empty
  skip_bram_initialization := skip_bram_initialization
  initblop := []

/-- A complete configuration of a device: all settings are made, and no bit is set outside the
memories of the device. -/
structure Design where
  device : Device
  freqrange : FreqRange
  nosleep : Setting
  warmboot : Setting
  cram : ℕ → ℕ → ℕ → Bool
  bram : ℕ → ℕ → ℕ → Bool
  initblop : List Byte
  cram_inside : ∀ b x y, cram b x y = true →
    b < 4 ∧ x < device.cram_width ∧ y < device.cramHeight b
  bram_inside : ∀ b x y, bram b x y = true →
    b < 4 ∧ x < device.bramWidth b ∧ y < device.bram_height

namespace Device

variable (d : Device)

/-- The sizes of the CRAM after the `.device` statement. -/
def cramSizes : Sizes where
  width := d.cram_width
  height := d.cram_height
  banks := 4
  columns b := if b < 4 then d.cram_width else 0
  rows b x := if b < 4 ∧ x < d.cram_width then d.cramHeight b else 0

/-- The sizes of the BRAM after the `.device` statement. -/
def bramSizes : Sizes where
  width := d.bram_width
  height := d.bram_height
  banks := 4
  columns b := if b < 4 then d.bramWidth b else 0
  rows b x := if b < 4 ∧ x < d.bramWidth b then d.bram_height else 0

@[simp] theorem cramSizes_width : d.cramSizes.width = d.cram_width := rfl

@[simp] theorem cramSizes_height : d.cramSizes.height = d.cram_height := rfl

@[simp] theorem bramSizes_width : d.bramSizes.width = d.bram_width := rfl

@[simp] theorem bramSizes_height : d.bramSizes.height = d.bram_height := rfl

end Device

/-- The design as the configuration that `read_ascii` makes of its text. -/
def Design.config (d : Design) (skip_bram_initialization : Bool) : FpgaConfig where
  device := some d.device
  freqrange := some d.freqrange
  nosleep := some d.nosleep
  warmboot := some d.warmboot
  cram := ⟨d.device.cramSizes, d.cram⟩
  bram := ⟨d.device.bramSizes, d.bram⟩
  skip_bram_initialization := skip_bram_initialization
  initblop := d.initblop

end GoBoard.Icepack
