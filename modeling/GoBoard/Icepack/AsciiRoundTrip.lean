import GoBoard.Icepack.DesignText
import GoBoard.Icepack.Integrity
import GoBoard.Icepack.Statements

/-!
# A text is read back

`read_ascii` reads the text of a design as the same design, but for the settings that a text does not
have (`readAscii_writeAscii`). Every bit of the CRAM is in the text, as a bit of a tile or with an
`.extra_bit`, and every bit of the BRAM is a bit of a `.ram_data`. The statements only set bits, so
the reader has set, after a part of the text, the bits of the design that this part is about
(`Design.restrict`).
-/

namespace GoBoard.Icepack

open Coding (Byte InStream IsWord Line foldlM_flatMap lines lines_append lines_flatMap)

/-! ## Bits of a design -/

namespace Design

variable (d : Design)

/-- The bits of the design at some places, and zero elsewhere. -/
def restrict (t : Target) (places : List Place) : Memory where
  toSizes := ((d.config false).memory t).toSizes
  bits b x y := d.bit t (b, x, y) && decide ((b, x, y) ∈ places)

theorem restrict_nil (t : Target) :
    d.restrict t [] = ⟨(d.restrict t []).toSizes, fun _ _ _ => false⟩ :=
  Memory.ext rfl fun b x y => by simp [restrict]

theorem restrict_congr {t : Target} {ps ps' : List Place}
    (h : ∀ p, d.bit t p = true → (p ∈ ps ↔ p ∈ ps')) : d.restrict t ps = d.restrict t ps' := by
  refine Memory.ext rfl fun b x y => ?_
  cases hbit : d.bit t (b, x, y) with
  | false => simp [restrict, hbit]
  | true => simp [restrict, hbit, h _ hbit]

/-- The bits of the design at some more places are set. -/
theorem restrict_setAll {t : Target} (ps : List Place) {ones places : List Place}
    (h : ∀ p, p ∈ ones ↔ p ∈ places ∧ d.bit t p = true) :
    (d.restrict t ps).setAll ones = d.restrict t (ps ++ places) := by
  refine Memory.ext (Memory.toSizes_setAll _ _) fun b x y => ?_
  rw [Memory.bits_setAll]
  cases hbit : d.bit t (b, x, y) with
  | false => simp [restrict, hbit, h]
  | true => simp [restrict, hbit, h]

/-- What has been read: the bits of the design at some places. -/
def loaded (skip : Bool) (initblop : List Byte) (nosleep : Option Setting) (cram bram : List Place) :
    FpgaConfig where
  device := some d.device
  freqrange := some .low
  nosleep := nosleep
  warmboot := some d.warmboot
  cram := d.restrict .cram cram
  bram := d.restrict .bram bram
  skip_bram_initialization := skip
  initblop := initblop

end Design

/-! ## Tiles -/

theorem TileType.command_spec {t : TileType} (h : t ≠ .corner) :
    IsWord t.command ∧ keyword t.command = .tile := by
  cases t
  case corner => exact absurd rfl h
  all_goals exact ⟨by decide, by decide⟩

theorem Device.tileConverter_natCast {d : Device} {x y : ℕ} (hy : y ≤ d.chip_height + 1) :
    d.tileConverter x y = d.cramIndexConverter x y := by
  rw [tileConverter, if_neg (by omega), if_neg (by omega), Int.toNat_natCast]

theorem Device.dataConverter_natCast (d : Device) (x y : ℕ) :
    d.dataConverter x y = d.bramIndexConverter x y := by
  rw [dataConverter, if_neg (by omega), Int.toNat_natCast, Int.toNat_natCast]

/-- The numbers of tiles are small. -/
theorem Device.chip_le (d : Device) : d.chip_width ≤ 32 ∧ d.chip_height ≤ 32 := by
  cases d <;> decide

namespace Design

variable (d : Design)

theorem ones_tileRow (cic : CramIndexConverter) (p : Place) :
    p ∈ cic.ones ((List.range 16).map (d.tileRow cic)) ↔
      p ∈ cic.places ∧ d.bit .cram p = true := by
  have hrow : ∀ bit_y < 16,
      ((List.range 16).map (d.tileRow cic)).getD bit_y [] = d.tileRow cic bit_y := fun bit_y h => by
    simp [h]
  have hchar : ∀ bit_y, ∀ bit_x < cic.tile_width, (d.tileRow cic bit_y).getD bit_x ' ' =
      if d.bit .cram (cic.get_cram_index bit_x bit_y) then '1' else '0' := fun bit_y bit_x h => by
    simp [tileRow, h]
  have hlength : ∀ bit_y, (d.tileRow cic bit_y).length = cic.tile_width := fun bit_y => by
    simp [tileRow]
  simp only [CramIndexConverter.ones, CramIndexConverter.places, List.mem_flatMap, List.mem_map,
    List.mem_filter, List.mem_range, List.length_map, List.length_range, decide_eq_true_eq]
  -- A place is found by its row and column, and a `1` stands there just for a bit that is set.
  constructor
  · rintro ⟨bit_y, hy, bit_x, ⟨hx, hone⟩, rfl⟩
    rw [hrow bit_y hy, hlength, min_self] at hx
    rw [hrow bit_y hy, hchar bit_y bit_x hx] at hone
    refine ⟨⟨bit_y, hy, bit_x, hx, rfl⟩, ?_⟩
    by_contra hbit
    rw [if_neg hbit] at hone
    exact absurd hone (by decide)
  · rintro ⟨⟨bit_y, hy, bit_x, hx, rfl⟩, hbit⟩
    refine ⟨bit_y, hy, bit_x, ⟨?_, ?_⟩, rfl⟩
    · rwa [hrow bit_y hy, hlength, min_self]
    · rw [hrow bit_y hy, hchar bit_y bit_x hx, if_pos hbit]

variable (skip nosleep : Bool) (initblop : List Byte) (cram bram : List Place)

/-- The setting of the command line. -/
def slept : Option Setting := some (if nosleep then .enabled else .disabled)

/-- The rows of a tile set its bits. -/
theorem reads_tileRows {x y : ℕ} (hx : x ≤ d.device.chip_width + 1)
    (hy : y ≤ d.device.chip_height + 1) (hcorner : d.device.tile_type x y ≠ .corner) :
    Reads nosleep (fun c => ∃ n, c = d.loaded skip initblop n cram bram)
      (statement (d.device.tile_type x y).command [x, y] ++ '\n' ::
        ((List.range 16).map (d.tileRow (d.device.cramIndexConverter x y))).flatMap (· ++ ['\n']))
      (fun c => c = d.loaded skip initblop (slept nosleep)
        (cram ++ (d.device.cramIndexConverter x y).places) bram) := by
  obtain ⟨hcommand, hkeyword⟩ := TileType.command_spec hcorner
  obtain ⟨hwidth, hheight⟩ := d.device.chip_le
  have hrows : ∀ row ∈ (List.range 16).map (d.tileRow (d.device.cramIndexConverter x y)),
      '\n' ∉ row ∧ '.' ∉ row := by
    intro row hrow
    obtain ⟨bit_y, -, rfl⟩ := List.mem_map.mp hrow
    unfold tileRow
    refine ⟨fun hmem => ?_, fun hmem => ?_⟩
    · obtain ⟨bit_x, -, h⟩ := List.mem_map.mp hmem
      split_ifs at h <;> cases h
    · obtain ⟨bit_x, -, h⟩ := List.mem_map.mp hmem
      split_ifs at h <;> cases h
  -- The statement injects `nosleep`, whatever it was before.
  refine reads_rows hcommand (.inl hkeyword) (by simp) hrows ?_
  rintro c ⟨n, rfl⟩
  have hones := d.ones_tileRow (d.device.cramIndexConverter x y)
  refine ⟨_, ?_, rfl⟩
  unfold execute
  rw [hkeyword, int_argStream (by omega), int_argStream (by omega)]
  change readTile _ d.device _ x y _ = _
  unfold readTile
  dsimp only
  rw [if_neg (by omega), Int.toNat_natCast, Device.tileConverter_natCast hy]
  refine (if_neg (not_not.mpr rfl)).trans
    ((foldlM_setBit (fun p hp => holds_of_bit ((hones p).mp hp).2) _).trans ?_)
  exact congrArg (fun m => Except.ok { d.loaded skip initblop (slept nosleep) cram bram with
    cram := m }) (d.restrict_setAll cram hones)

end Design

/-! ## Block memories -/

theorem zipIdx_map_range {α : Type} (f : ℕ → α) (n : ℕ) :
    ((List.range n).map f).zipIdx = (List.range n).map fun i => (f i, i) := by
  refine List.ext_getElem (by simp) fun i hi hi' => ?_
  simp

theorem hexValue_hexDigits : ∀ value < 16,
    hexValue (FpgaConfig.hexDigits.getD value ' ') = some value := by
  decide

/-- A digit from its four bits. -/
def digitOf (b₀ b₁ b₂ b₃ : Bool) : ℕ :=
  [(b₀, 0), (b₁, 1), (b₂, 2), (b₃, 3)].foldl (fun value b =>
    if b.1 then value + 1 <<< b.2 else value) 0

theorem digitOf_spec : ∀ b₀ b₁ b₂ b₃ : Bool, digitOf b₀ b₁ b₂ b₃ < 16 ∧
    (digitOf b₀ b₁ b₂ b₃).testBit 0 = b₀ ∧ (digitOf b₀ b₁ b₂ b₃).testBit 1 = b₁ ∧
      (digitOf b₀ b₁ b₂ b₃).testBit 2 = b₂ ∧ (digitOf b₀ b₁ b₂ b₃).testBit 3 = b₃ := by
  decide

/-- The places of the data of a tile. -/
def BramIndexConverter.places (bic : BramIndexConverter) : List Place :=
  (List.range 16).flatMap fun bit_y =>
    (List.range 256).map fun bit_x => bic.get_bram_index bit_x bit_y

namespace Design

variable (d : Design)

/-- The bits of a digit. -/
theorem digit_spec (bic : BramIndexConverter) (bit_x bit_y : ℕ) :
    d.digit bic bit_x bit_y < 16 ∧ ∀ i < 4, (d.digit bic bit_x bit_y).testBit i =
      d.bit .bram (bic.get_bram_index (bit_x + i) bit_y) := by
  have hvalue : d.digit bic bit_x bit_y = digitOf
      (d.bit .bram (bic.get_bram_index (bit_x + 0) bit_y))
      (d.bit .bram (bic.get_bram_index (bit_x + 1) bit_y))
      (d.bit .bram (bic.get_bram_index (bit_x + 2) bit_y))
      (d.bit .bram (bic.get_bram_index (bit_x + 3) bit_y)) := rfl
  obtain ⟨hlt, h₀, h₁, h₂, h₃⟩ := digitOf_spec
    (d.bit .bram (bic.get_bram_index (bit_x + 0) bit_y))
    (d.bit .bram (bic.get_bram_index (bit_x + 1) bit_y))
    (d.bit .bram (bic.get_bram_index (bit_x + 2) bit_y))
    (d.bit .bram (bic.get_bram_index (bit_x + 3) bit_y))
  rw [hvalue]
  refine ⟨hlt, fun i hi => ?_⟩
  match i with
  | 0 => exact h₀
  | 1 => exact h₁
  | 2 => exact h₂
  | 3 => exact h₃

/-- The places of the data of a tile where the design has a bit. -/
def ramOnes (bic : BramIndexConverter) : List Place :=
  (List.range 16).flatMap fun bit_y => (List.range 64).flatMap fun k =>
    ((List.range 4).filter fun i =>
      d.bit .bram (bic.get_bram_index (252 - 4 * k + i) bit_y)).map fun i =>
        bic.get_bram_index (252 - 4 * k + i) bit_y

theorem mem_ramOnes (bic : BramIndexConverter) (p : Place) :
    p ∈ d.ramOnes bic ↔ p ∈ bic.places ∧ d.bit .bram p = true := by
  simp only [ramOnes, BramIndexConverter.places, List.mem_flatMap, List.mem_map, List.mem_filter,
    List.mem_range]
  constructor
  · rintro ⟨bit_y, hy, k, hk, i, ⟨hi, hbit⟩, rfl⟩
    exact ⟨⟨bit_y, hy, 252 - 4 * k + i, by omega, rfl⟩, hbit⟩
  · rintro ⟨⟨bit_y, hy, bit_x, hx, rfl⟩, hbit⟩
    -- The bits are counted from the left in digits, and from the right inside a digit.
    have hsplit : 252 - 4 * (63 - bit_x / 4) + bit_x % 4 = bit_x := by omega
    exact ⟨bit_y, hy, 63 - bit_x / 4, by omega, bit_x % 4, ⟨by omega, by rwa [hsplit]⟩,
      by rw [hsplit]⟩

/-- A line of data sets its bits. -/
theorem readRow_ramRow (bic : BramIndexConverter) (c : FpgaConfig) (bit_y : ℕ) :
    readRow d.device bic c (d.ramRow bic bit_y, bit_y) =
      ((List.range 64).flatMap fun k => ((List.range 4).filter fun i =>
        d.bit .bram (bic.get_bram_index (252 - 4 * k + i) bit_y)).map fun i =>
          bic.get_bram_index (252 - 4 * k + i) bit_y).foldlM (setBit .bram d.device) c := by
  have htake : (d.ramRow bic bit_y).take 64 = d.ramRow bic bit_y :=
    List.take_of_length_le (by simp [ramRow])
  unfold readRow
  dsimp only
  rw [htake]
  unfold ramRow
  rw [zipIdx_map_range, List.foldlM_map]
  refine foldlM_flatMap (fun k hk c => ?_) c
  obtain ⟨hlt, hbits⟩ := d.digit_spec bic (252 - 4 * k) bit_y
  unfold readDigit
  dsimp only
  rw [hexValue_hexDigits _ hlt, List.foldlM_map]
  dsimp only
  rw [List.filter_congr fun i hi => hbits i (List.mem_range.mp hi)]

theorem readRam_ramRows (c : FpgaConfig) (x y : ℕ) :
    readRam c d.device x y ((List.range 16).map (d.ramRow (d.device.bramIndexConverter x y))) =
      (d.ramOnes (d.device.bramIndexConverter x y)).foldlM (setBit .bram d.device) c := by
  unfold readRam
  rw [Device.dataConverter_natCast, zipIdx_map_range]
  rw [List.foldlM_map]
  exact foldlM_flatMap (fun bit_y _ c => d.readRow_ramRow _ c bit_y) c

variable (skip nosleep : Bool) (initblop : List Byte) (cram bram : List Place)

/-- The data of a tile set its bits. -/
theorem reads_ramText {x y : ℕ} (hx : x ≤ d.device.chip_width + 1)
    (hy : y ≤ d.device.chip_height + 1) :
    Reads nosleep (fun c => c = d.loaded skip initblop (slept nosleep) cram bram) (d.ramText x y)
      (fun c => c = d.loaded skip initblop (slept nosleep) cram
        (bram ++ (d.device.bramIndexConverter x y).places)) := by
  obtain ⟨hwidth, hheight⟩ := d.device.chip_le
  have hdigit : ∀ value < 16, FpgaConfig.hexDigits.getD value ' ' ≠ '\n' ∧
      FpgaConfig.hexDigits.getD value ' ' ≠ '.' := by
    decide
  have hrows : ∀ row ∈ (List.range 16).map (d.ramRow (d.device.bramIndexConverter x y)),
      '\n' ∉ row ∧ '.' ∉ row := by
    intro row hrow
    obtain ⟨bit_y, -, rfl⟩ := List.mem_map.mp hrow
    refine ⟨fun hmem => ?_, fun hmem => ?_⟩
    · obtain ⟨k, -, h⟩ := List.mem_map.mp hmem
      exact (hdigit _ (d.digit_spec _ _ _).1).1 h
    · obtain ⟨k, -, h⟩ := List.mem_map.mp hmem
      exact (hdigit _ (d.digit_spec _ _ _).1).2 h
  refine reads_rows (by decide) (.inr (by decide)) (by simp) hrows ?_
  rintro c rfl
  have hones := d.mem_ramOnes (d.device.bramIndexConverter x y)
  refine ⟨_, ?_, rfl⟩
  have hkeyword : keyword ".ram_data".toList = .ram_data := by decide
  unfold execute
  rw [hkeyword, int_argStream (by omega), int_argStream (by omega)]
  change readRam _ d.device x y _ = _
  rw [readRam_ramRows]
  refine (foldlM_setBit (fun p hp => holds_of_bit ((hones p).mp hp).2) _).trans ?_
  exact congrArg (fun m => Except.ok { d.loaded skip initblop (slept nosleep) cram bram with
    bram := m }) (d.restrict_setAll bram hones)

end Design

/-! ## All tiles -/

/-- The places of the data of a tile, if it is a `ramb` tile. -/
def Device.ramPlaces (d : Device) (t : ℕ × ℕ) : List Place :=
  if d.tile_type t.1 t.2 = .ramb then (d.bramIndexConverter t.1 t.2).places else []

theorem places_corner {d : Device} {x y : ℕ} (h : d.tile_type x y = .corner) :
    (d.cramIndexConverter x y).places = [] := by
  have hwidth : (d.cramIndexConverter x y).tile_width = 0 := congrArg TileType.width h
  simp [CramIndexConverter.places, hwidth]

namespace Design

variable (d : Design) (skip nosleep : Bool) (initblop : List Byte)

/-- What has been read after some tiles. Without a tile, `nosleep` has not been set yet. -/
def ReadTiles (tiles : List (ℕ × ℕ)) (c : FpgaConfig) : Prop :=
  ∃ n, c = d.loaded skip initblop n
      (tiles.flatMap fun t => (d.device.cramIndexConverter t.1 t.2).places)
      (tiles.flatMap d.device.ramPlaces) ∧
    ((∃ t ∈ tiles, d.device.tile_type t.1 t.2 ≠ .corner) → n = slept nosleep)

theorem reads_tile {t : ℕ × ℕ} (ht : t ∈ d.device.tiles) (before : List (ℕ × ℕ)) :
    Reads nosleep (d.ReadTiles skip nosleep initblop before) (d.tileText t.1 t.2)
      (d.ReadTiles skip nosleep initblop (before ++ [t])) := by
  obtain ⟨hx, hy⟩ := Device.mem_tiles.mp ht
  have hcram : (before ++ [t]).flatMap (fun t => (d.device.cramIndexConverter t.1 t.2).places) =
      before.flatMap (fun t => (d.device.cramIndexConverter t.1 t.2).places) ++
        (d.device.cramIndexConverter t.1 t.2).places := by
    simp
  have hbram : (before ++ [t]).flatMap d.device.ramPlaces =
      before.flatMap d.device.ramPlaces ++ d.device.ramPlaces t := by
    simp
  unfold ReadTiles tileText
  rw [hcram, hbram]
  -- A corner has no text and no bits. The other tiles may have data behind their rows.
  by_cases hcorner : d.device.tile_type t.1 t.2 = .corner
  · have hram : d.device.ramPlaces t = [] := if_neg (by rw [hcorner]; exact nofun)
    rw [if_pos hcorner, places_corner hcorner, hram, List.append_nil, List.append_nil]
    refine .nil fun c => ?_
    rintro ⟨n, rfl, hn⟩
    refine ⟨n, rfl, ?_⟩
    rintro ⟨t', ht', htype⟩
    rcases List.mem_append.mp ht' with ht' | ht'
    · exact hn ⟨t', ht', htype⟩
    · rw [List.mem_singleton.mp ht'] at htype
      exact absurd hcorner htype
  · rw [if_neg hcorner]
    have hrows := d.reads_tileRows skip nosleep initblop
      (before.flatMap fun t => (d.device.cramIndexConverter t.1 t.2).places)
      (before.flatMap d.device.ramPlaces) hx hy hcorner
    refine (hrows.mono (fun c hc => ⟨hc.choose, hc.choose_spec.1⟩) fun c => id).append
      ((Reads.ite (fun hramb => ?_) fun hramb c hc => ?_).mono (fun c => id) fun c hc =>
        ⟨slept nosleep, hc, fun _ => rfl⟩)
    · have hram : d.device.ramPlaces t = (d.device.bramIndexConverter t.1 t.2).places :=
        if_pos hramb
      rw [hram]
      exact d.reads_ramText skip nosleep initblop _ _ hx hy
    · have hram : d.device.ramPlaces t = [] := if_neg hramb
      rw [hram, List.append_nil]
      exact hc

/-- After the tiles, all their bits are set. -/
theorem reads_tiles : Reads nosleep (fun c => c = d.loaded skip initblop none [] [])
    (d.device.tiles.map fun t => d.tileText t.1 t.2).flatten
    (fun c => c = d.loaded skip initblop (slept nosleep) d.device.tile_bits
      (d.device.tiles.flatMap d.device.ramPlaces)) := by
  -- `nosleep` is set by any tile that is not a corner, and there is one.
  have htile : ∃ t ∈ d.device.tiles, d.device.tile_type t.1 t.2 ≠ .corner := by
    refine ⟨(1, 1), Device.mem_tiles.mpr ⟨Nat.le_add_left _ _, Nat.le_add_left _ _⟩, ?_⟩
    cases d.device <;> decide
  have hloop := Reads.flatten (l := d.device.tiles)
    (f := fun t => d.tileText t.1 t.2) (P := d.ReadTiles skip nosleep initblop)
    fun before t after ht => d.reads_tile skip nosleep initblop
      (ht ▸ List.mem_append_right before List.mem_cons_self) before
  refine hloop.mono (fun c hc => ⟨none, hc, fun ⟨t, ht, _⟩ => absurd ht List.not_mem_nil⟩) ?_
  rintro c ⟨n, rfl, hn⟩
  rw [hn htile]
  rfl

end Design

/-! ## The bits that belong to no tile -/

namespace Design

variable (d : Design) (skip nosleep : Bool) (initblop : List Byte) (cram bram : List Place)

theorem reads_extraText {p : Place} (hcram : d.device.tile_bits ⊆ cram) :
    Reads nosleep (fun c => c = d.loaded skip initblop (slept nosleep) cram bram) (d.extraText p)
      (fun c => c = d.loaded skip initblop (slept nosleep) (cram ++ [p]) bram) := by
  refine .ite (fun hbit => ?_) fun hbit c hc => ?_
  · obtain ⟨hbank, hx, hy⟩ := holds_of_bit hbit.1
    obtain ⟨-, hwidth, hheight, hle, -⟩ := d.device.cram_size p.1
    have hrows : ∀ row ∈ ([] : List Line), '\n' ∉ row := nofun
    refine reads_statement (by decide) hrows (fun rest => rfl) ?_
    rintro c rfl
    have hones : ∀ q, q ∈ [p] ↔ q ∈ [p] ∧ d.bit .cram q = true := fun q =>
      ⟨fun hq => ⟨hq, List.mem_singleton.mp hq ▸ hbit.1⟩, fun hq => hq.1⟩
    refine ⟨_, ?_, rfl⟩
    have hkeyword : keyword ".extra_bit".toList = .extra_bit := by decide
    unfold execute
    rw [hkeyword, int_argStream (by omega), int_argStream (by omega), int_argStream (by omega)]
    change readExtraBit _ d.device p.1 p.2.1 p.2.2 = _
    unfold readExtraBit
    rw [if_neg (by omega), Int.toNat_natCast, Int.toNat_natCast, Int.toNat_natCast]
    refine (if_pos ⟨hbank, hx, hy⟩).trans ?_
    exact congrArg (fun m => Except.ok { d.loaded skip initblop (slept nosleep) cram bram with
      cram := m }) (d.restrict_setAll cram hones)
  -- Without a statement, the bit is zero or has been set with its tile.
  · have hsame : d.restrict .cram cram = d.restrict .cram (cram ++ [p]) := by
      refine d.restrict_congr fun q hq => ⟨fun h => List.mem_append_left _ h, fun h => ?_⟩
      rcases List.mem_append.mp h with h | h
      · exact h
      · rw [List.mem_singleton.mp h] at hq ⊢
        exact hcram (not_not.mp fun hmem => hbit ⟨hq, hmem⟩)
    rw [hc]
    exact congrArg (fun m => { d.loaded skip initblop (slept nosleep) cram bram with
      cram := m }) hsame

theorem reads_extra : Reads nosleep
    (fun c => c = d.loaded skip initblop (slept nosleep) d.device.tile_bits bram)
    ((d.config false).cramPlaces.map d.extraText).flatten
    (fun c => c = d.loaded skip initblop (slept nosleep)
      (d.device.tile_bits ++ (d.config false).cramPlaces) bram) := by
  have hloop := Reads.flatten (l := (d.config false).cramPlaces)
    (f := d.extraText) (P := fun before c => c = d.loaded skip initblop (slept nosleep)
      (d.device.tile_bits ++ before) bram) fun before p after hp => by
    rw [← List.append_assoc]
    exact d.reads_extraText skip nosleep initblop _ bram (List.subset_append_left _ _)
  rw [List.append_nil] at hloop
  exact hloop

end Design

/-! ## The settings -/

/-- Lines that are begun and lines that are ended. -/
theorem append_flatMap (first : Line) (ls : List Line) :
    first ++ ls.flatMap ('\n' :: ·) ++ ['\n'] = (first :: ls).flatMap (· ++ ['\n']) := by
  induction ls generalizing first with
  | nil => simp
  | cons line ls ih =>
    rw [List.flatMap_cons, List.flatMap_cons, ← ih line]
    simp

/-- The comments and the device. -/
theorem readLines_comment {nosleep : Bool} {initblop : List Byte} {ls : List Line}
    (htext : commentText true initblop = ls.flatMap ('\n' :: ·))
    (hls : ∀ line ∈ ls, '\n' ∉ line ∧ isStatement line = false) (d : Device) (command : Line)
    {c : FpgaConfig} (hc : c.device = none) (rest : List Char) :
    readLines nosleep (lines (".comment".toList ++ commentText true initblop ++
      ("\n.device ".toList ++ d.name ++ ['\n']) ++ rest)) command c =
      readLines nosleep (lines rest) ".device".toList
        ({ c with initblop := comments (ls.map (List.map toByte)) }.setDevice d) := by
  have hdevice : '\n' ∉ ".device ".toList ++ d.name := by cases d <;> decide
  have hlines : lines (".comment".toList ++ commentText true initblop ++
      ("\n.device ".toList ++ d.name ++ ['\n']) ++ rest) =
      ".comment".toList :: (ls ++ (".device ".toList ++ d.name) :: lines rest) := by
    have hsplit : ".comment".toList ++ commentText true initblop ++
        ("\n.device ".toList ++ d.name ++ ['\n']) ++ rest =
        (".comment".toList :: ls).flatMap (· ++ ['\n']) ++
          ((".device ".toList ++ d.name) ++ '\n' :: rest) := by
      rw [← append_flatMap, htext]
      simp
    rw [hsplit, lines_flatMap (List.forall_mem_cons.mpr ⟨by decide, fun l hl => (hls l hl).1⟩),
      lines_append hdevice]
    rfl
  -- The comment ends in front of the `.device`, since none of its lines begins a statement.
  have hbody : body .comment (ls ++ (".device ".toList ++ d.name) :: lines rest) = ls := by
    have hpos : ∀ line ∈ ls, (!isStatement line) = true := fun line hline => by
      rw [(hls line hline).2]
      rfl
    unfold body
    rw [List.takeWhile_append_of_pos hpos]
    exact List.append_nil ls
  have hword : (⟨".device ".toList ++ d.name, true⟩ : InStream).word =
      (some ".device".toList, ⟨' ' :: d.name, true⟩) := by
    cases d <;> rfl
  have hname : Device.ofName ((⟨' ' :: d.name, true⟩ : InStream).word.1.getD []) = some d := by
    cases d <;> rfl
  have hcomment : (⟨".comment".toList, true⟩ : InStream).word =
      (some ".comment".toList, ⟨[], false⟩) := rfl
  have hkeyword : keyword ".comment".toList = .comment := by decide
  have hkeyword' : keyword ".device".toList = .device := by decide
  rw [hlines, readLines_cons hcomment (by decide), hkeyword, hbody, List.drop_left]
  unfold execute
  rw [hkeyword]
  change readLines nosleep ((".device ".toList ++ d.name) :: lines rest) _ _ = _
  rw [readLines_cons hword (by decide), hkeyword']
  unfold execute
  rw [hkeyword', hc, hname]
  rfl

namespace Design

variable (d : Design) (skip nosleep : Bool) (initblop : List Byte)

/-- The `.warmboot` statement, where there is one. -/
theorem reads_warmboot : Reads nosleep
    (fun c => c = { d.loaded skip initblop none [] [] with warmboot := some .enabled })
    (if d.warmboot ≠ .enabled then ".warmboot ".toList ++ d.warmboot.name ++ ['\n'] else [])
    (fun c => c = d.loaded skip initblop none [] []) := by
  refine .ite (fun hwarmboot => ?_) fun hwarmboot c hc => ?_
  · have hdisabled : d.warmboot = .disabled := by
      cases h : d.warmboot with
      | disabled => rfl
      | enabled => exact absurd h hwarmboot
    rintro c command rest rfl
    refine ⟨_, ".warmboot".toList, rfl, ?_⟩
    have hword : (⟨".warmboot ".toList ++ Setting.disabled.name, true⟩ : InStream).word =
        (some ".warmboot".toList, ⟨" disabled".toList, true⟩) := rfl
    have hkeyword : keyword ".warmboot".toList = .warmboot := by decide
    have hline : ".warmboot ".toList ++ Setting.disabled.name ++ ['\n'] ++ rest =
        (".warmboot ".toList ++ Setting.disabled.name) ++ '\n' :: rest := by
      simp
    rw [hdisabled, hline, lines_append (by decide), readLines_cons hword (by decide), hkeyword]
    unfold execute
    rw [hkeyword]
    change readLines nosleep (lines rest) _ _ = _
    rw [loaded, hdisabled]
  · rw [hc, loaded, not_not.mp hwarmboot]

/-- The design with the settings that are read from its text, and with these comments. -/
def repacked (bs : List (List Byte)) : Design :=
  { d with
    freqrange := .low
    nosleep := if nosleep then .enabled else .disabled
    initblop := comments bs }

/-- All bits of the design have been read. -/
theorem loaded_all (bs : List (List Byte)) :
    d.loaded skip (comments bs) (slept nosleep)
      (d.device.tile_bits ++ (d.config false).cramPlaces)
      (d.device.tiles.flatMap d.device.ramPlaces) = (d.repacked nosleep bs).config skip := by
  have hcram : d.restrict .cram (d.device.tile_bits ++ (d.config false).cramPlaces) =
      ⟨d.device.cramSizes, d.cram⟩ := by
    refine Memory.ext rfl fun b x y => ?_
    cases hbit : d.cram b x y with
    | false => simp [restrict, bit, hbit]
    | true =>
      obtain ⟨hbank, hx, hy⟩ := d.cram_inside b x y hbit
      have hy := Nat.lt_of_lt_of_le hy (d.device.cram_size b).2.2.2.1
      have hmem : (b, x, y) ∈ (d.config false).cramPlaces :=
        FpgaConfig.mem_cramPlaces.mpr ⟨hbank, hx, hy⟩
      simp [restrict, bit, hbit, hmem]
  have hbram : d.restrict .bram (d.device.tiles.flatMap d.device.ramPlaces) =
      ⟨d.device.bramSizes, d.bram⟩ := by
    refine Memory.ext rfl fun b x y => ?_
    cases hbit : d.bram b x y with
    | false => simp [restrict, bit, hbit]
    | true =>
      obtain ⟨hbank, hx, hy⟩ := d.bram_inside b x y hbit
      -- Every bit of the BRAM is a bit of the data of some tile.
      obtain ⟨r, hr⟩ := exists_ramBit hbank hx hy
      have hmem : (b, x, y) ∈ d.device.tiles.flatMap d.device.ramPlaces := by
        refine List.mem_flatMap.mpr ⟨(r.tile_x, r.tile_y),
          Device.mem_tiles.mpr ⟨r.tile_x_le, r.tile_y_le⟩, ?_⟩
        rw [Device.ramPlaces, if_pos r.ramb, ← hr]
        exact List.mem_flatMap.mpr ⟨r.bit_y, List.mem_range.mpr r.bit_y_lt,
          List.mem_map.mpr ⟨r.bit_x, List.mem_range.mpr r.bit_x_lt, rfl⟩⟩
      simp [restrict, bit, hbit, hmem]
  unfold loaded
  rw [hcram, hbram]
  rfl

/-- The text of a design is read back. -/
theorem readAscii_text {ls : List Line}
    (htext : commentText true d.initblop = ls.flatMap ('\n' :: ·))
    (hls : ∀ line ∈ ls, '\n' ∉ line ∧ isStatement line = false) :
    readAscii skip nosleep d.text = .ok ((d.repacked nosleep (ls.map (List.map toByte))).config skip) := by
  let blop := comments (ls.map (List.map toByte))
  have hreads := (d.reads_warmboot skip nosleep blop).append
    ((d.reads_tiles skip nosleep blop).append (d.reads_extra skip nosleep blop
      (d.device.tiles.flatMap d.device.ramPlaces)))
  obtain ⟨c, command, rfl, hread⟩ := hreads _ ".device".toList [] rfl
  -- After the `.device` nothing is set, and the warmboot setting is the one without a statement.
  have hstart : { FpgaConfig.asciiInit skip with initblop := blop }.setDevice d.device =
      { d.loaded skip blop none [] [] with warmboot := some .enabled } := by
    unfold FpgaConfig.setDevice loaded
    rw [d.restrict_nil .cram, d.restrict_nil .bram]
    rfl
  have hsplit : d.text = ".comment".toList ++ commentText true d.initblop ++
      ("\n.device ".toList ++ d.device.name ++ ['\n']) ++
      ((if d.warmboot ≠ .enabled then ".warmboot ".toList ++ d.warmboot.name ++ ['\n'] else []) ++
        ((d.device.tiles.map fun t => d.tileText t.1 t.2).flatten ++
          ((d.config false).cramPlaces.map d.extraText).flatten) ++ []) := by
    unfold text
    simp only [List.append_assoc, List.append_nil]
  unfold readAscii
  rw [readLines]
  refine (if_pos rfl).trans ?_
  rw [hsplit]
  refine (readLines_comment htext hls d.device [] (c := .asciiInit skip) rfl _).trans ?_
  rw [hstart, hread, d.loaded_all, lines, readLines]

end Design

/-- The text that is written for a design, as `read_bits` leaves it, is read back with all bits of the
memories. `ls` are the lines of its comments. -/
theorem readAscii_writeAscii (d : Design) (skip skip' nosleep : Bool) {ls : List Line}
    (htext : commentText true d.initblop = ls.flatMap ('\n' :: ·))
    (hls : ∀ line ∈ ls, '\n' ∉ line ∧ isStatement line = false) :
    ∃ text, (d.unpacked false skip).writeAscii = .ok text ∧
      readAscii skip' nosleep text = .ok ((d.repacked nosleep (ls.map (List.map toByte))).config skip') :=
  ⟨d.text, d.writeAscii_unpacked skip, d.readAscii_text skip' nosleep htext hls⟩

theorem readAscii_writeAscii_sample : ∃ text,
    (Design.sample.unpacked false false).writeAscii = .ok text ∧
      readAscii true false text = .ok ((Design.sample.repacked false [[0x68, 0x69]]).config true) :=
  have htext : commentText true Design.sample.initblop = ["hi".toList].flatMap ('\n' :: ·) := by
    decide
  readAscii_writeAscii .sample false true false htext (by decide)

end GoBoard.Icepack
