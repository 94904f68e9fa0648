import GoBoard.Icepack.AsciiAccepted

/-!
# What is unpacked

`read_bits` accepts files that do not write to all banks, and the vectors of the others stay empty.
`write_ascii` reads all bits of the device, so it prints what has vectors for all of them, and
nothing else (`writeAscii_isOk_iff`). Together they say what happens to any file that is accepted
(`readFile_wellFormed`).
-/

namespace GoBoard.Icepack

open Coding (Byte Parse bind_eq_ok bind_isOk_iff bind_pure_isOk_iff foldlM_isOk_iff
  mapM_isOk_iff)

/-! ## The writer -/

/-- The vectors have all bits that `write_ascii` reads: those of the CRAM up to the recorded sizes,
and those of the BRAM of the device, if there are any vectors for the BRAM. -/
structure FpgaConfig.Printable (c : FpgaConfig) (d : Device) : Prop where
  cram : ∀ p ∈ c.cramPlaces, c.cram.Has p.1 p.2.1 p.2.2
  bram : c.bram.banks ≠ 0 → ∀ p, d.Holds p .bram → c.bram.Has p.1 p.2.1 p.2.2

theorem BramIndexConverter.mem_places {bic : BramIndexConverter} {p : Place} :
    p ∈ bic.places ↔ ∃ bit_y < 16, ∃ bit_x < 256, bic.get_bram_index bit_x bit_y = p := by
  simp [places]

namespace FpgaConfig

variable {c : FpgaConfig} {d : Device}

theorem extraText_isOk_iff {p : Place} :
    (∃ text, c.extraText d p = .ok text) ↔ c.cram.Has p.1 p.2.1 p.2.2 := by
  unfold extraText readBit
  split_ifs with h
  · exact iff_of_true ⟨_, (apply_ite Except.ok _ _ _).symm⟩ h
  · exact iff_of_false (fun ⟨_, h⟩ => nomatch h) h

theorem digitBit_isOk_iff {bic : BramIndexConverter} {bit_x bit_y i : ℕ} {p : Place} (value : ℕ)
    (hp : bic.get_bram_index (bit_x + i) bit_y = p) :
    (∃ value', c.digitBit bic bit_x bit_y value i = .ok value') ↔ c.bram.Has p.1 p.2.1 p.2.2 := by
  refine ⟨fun h => ?_, fun h => ⟨_, digitBit_of_has hp h value⟩⟩
  obtain ⟨bram_bank, bram_x, bram_y⟩ := p
  obtain ⟨value', h⟩ := h
  unfold digitBit at h
  rw [hp] at h
  dsimp only at h
  -- The three checks are what it means that the bit exists.
  by_cases hbanks : c.bram.banks ≤ bram_bank
  · rw [if_pos hbanks] at h
    cases h
  by_cases hcolumn : c.bram.columns bram_bank ≤ bram_x
  · rw [if_neg hbanks, if_pos hcolumn] at h
    cases h
  by_cases hrow : c.bram.rows bram_bank bram_x ≤ bram_y
  · rw [if_neg hbanks, if_neg hcolumn, if_pos hrow] at h
    cases h
  exact ⟨Nat.lt_of_not_le hbanks, Nat.lt_of_not_le hcolumn, Nat.lt_of_not_le hrow⟩

theorem ramChar_isOk_iff {bic : BramIndexConverter} {bit_x bit_y : ℕ} :
    (∃ ch, c.ramChar bic bit_x bit_y = .ok ch) ↔ ∀ i ∈ List.range 4,
      c.bram.Has (bic.get_bram_index (bit_x + i) bit_y).1
        (bic.get_bram_index (bit_x + i) bit_y).2.1 (bic.get_bram_index (bit_x + i) bit_y).2.2 := by
  have hbit := fun value i =>
    digitBit_isOk_iff (c := c) value (rfl : bic.get_bram_index (bit_x + i) bit_y = _)
  unfold ramChar
  rw [bind_pure_isOk_iff]
  exact foldlM_isOk_iff hbit

/-- The data of a tile are printed if all bits exist. -/
theorem ramText_isOk_iff {x y : ℕ} : (∃ text, c.ramText d x y = .ok text) ↔
    ∀ p ∈ (d.bramIndexConverter x y).places, c.bram.Has p.1 p.2.1 p.2.2 := by
  unfold ramText
  dsimp only
  rw [bind_pure_isOk_iff, mapM_isOk_iff]
  simp only [mapM_isOk_iff, ramChar_isOk_iff, List.mem_range, BramIndexConverter.mem_places]
  constructor
  · rintro h p ⟨bit_y, hy, bit_x, hx, rfl⟩
    have hsplit : 252 - 4 * (63 - bit_x / 4) + bit_x % 4 = bit_x := by omega
    have hbit := h bit_y hy (63 - bit_x / 4) (by omega) (bit_x % 4) (by omega)
    rwa [hsplit] at hbit
  · intro h bit_y hy k hk i hi
    exact h _ ⟨bit_y, hy, 252 - 4 * k + i, by omega, rfl⟩

/-- A tile with data is printed only with its data. -/
theorem ramText_of_tileText {x y : ℕ} {text : List Char} (h : c.tileText d x y = .ok text)
    (hramb : d.tile_type x y = .ramb) (hbanks : c.bram.banks ≠ 0) :
    ∃ ram, c.ramText d x y = .ok ram := by
  have htype : (d.cramIndexConverter x y).tile_type = .ramb := hramb
  unfold tileText at h
  dsimp only at h
  rw [htype, if_neg nofun] at h
  obtain ⟨rows, -, h⟩ := bind_eq_ok.mp h
  rw [if_pos ⟨rfl, hbanks⟩] at h
  obtain ⟨ram, hram, -⟩ := bind_eq_ok.mp h
  exact ⟨ram, hram⟩

section

variable (hwidth : c.cram.width = d.cram_width) (hheight : c.cram.height = d.cram_height)
include hwidth hheight

/-- A tile whose bits exist is printed. -/
theorem Printable.tileText (h : c.Printable d) {x y : ℕ} (hx : x ≤ d.chip_width + 1)
    (hy : y ≤ d.chip_height + 1) : ∃ text, c.tileText d x y = .ok text := by
  have hrow : ∀ bit_y ∈ List.range 16, ∃ row,
      ((List.range (d.cramIndexConverter x y).tile_width).mapM fun bit_x =>
        c.tileChar (d.cramIndexConverter x y) bit_x bit_y) = .ok row := fun bit_y hbit_y =>
    mapM_isOk_iff.mpr fun bit_x hbit_x => by
      let b : TileBit d := ⟨x, y, bit_x, bit_y, hx, hy, List.mem_range.mp hbit_x,
        List.mem_range.mp hbit_y⟩
      obtain ⟨hbank, hcolumn, hrow⟩ := b.index_inside
      have hrow := Nat.lt_of_lt_of_le hrow (d.cram_size b.index.1).2.2.2.1
      have hplace : b.index ∈ c.cramPlaces :=
        mem_cramPlaces.mpr ⟨hbank, hwidth ▸ hcolumn, hheight ▸ hrow⟩
      exact ⟨_, tileChar_of_has rfl (h.cram _ hplace)⟩
  obtain ⟨rows, hrows⟩ := mapM_isOk_iff.mpr hrow
  unfold FpgaConfig.tileText
  dsimp only
  split_ifs with hcorner hramb
  · exact ⟨[], rfl⟩
  · have hram : ∃ ram, c.ramText d x y = .ok ram := ramText_isOk_iff.mpr fun p hp => by
      obtain ⟨bit_y, hbit_y, bit_x, hbit_x, rfl⟩ := BramIndexConverter.mem_places.mp hp
      let b : RamBit d := ⟨x, y, bit_x, bit_y, hx, hy, hramb.1, hbit_x, hbit_y⟩
      exact h.bram hramb.2 _ ⟨b.bramIndex.bank_lt, b.bramIndex.x_lt, b.bramIndex.y_lt⟩
    exact bind_isOk_iff.mpr ⟨rows, hrows, bind_pure_isOk_iff.mpr hram⟩
  · exact bind_isOk_iff.mpr ⟨rows, hrows, _, rfl⟩

/-- The writer prints just the configurations whose vectors have all bits that it reads. -/
theorem writeAscii_isOk_iff (hdevice : c.device = some d) :
    (∃ text, c.writeAscii = .ok text) ↔ c.Printable d := by
  unfold writeAscii
  rw [hdevice]
  dsimp only
  constructor
  · rintro ⟨text, h⟩
    obtain ⟨tiles, htiles, h⟩ := bind_eq_ok.mp h
    obtain ⟨extra, hextra, -⟩ := bind_eq_ok.mp h
    refine ⟨fun p hp => extraText_isOk_iff.mp (mapM_isOk_iff.mp ⟨_, hextra⟩ p hp),
      fun hbanks p hp => ?_⟩
    -- The bit is one of the data of some tile.
    obtain ⟨r, hr⟩ := exists_ramBit hp.1 hp.2.1 hp.2.2
    obtain ⟨tile, htile⟩ := mapM_isOk_iff.mp ⟨_, htiles⟩ (r.tile_x, r.tile_y)
      (Device.mem_tiles.mpr ⟨r.tile_x_le, r.tile_y_le⟩)
    have hram := ramText_of_tileText htile r.ramb hbanks
    refine ramText_isOk_iff.mp hram p (BramIndexConverter.mem_places.mpr ?_)
    exact ⟨r.bit_y, r.bit_y_lt, r.bit_x, r.bit_x_lt, hr⟩
  · intro h
    obtain ⟨tiles, htiles⟩ := mapM_isOk_iff.mpr fun t ht =>
      h.tileText hwidth hheight (Device.mem_tiles.mp ht).1 (Device.mem_tiles.mp ht).2
    obtain ⟨extra, hextra⟩ := mapM_isOk_iff.mpr fun p hp =>
      extraText_isOk_iff.mpr (h.cram p hp)
    rw [htiles]
    exact bind_pure_isOk_iff.mpr ⟨extra, hextra⟩

end

end FpgaConfig

/-- What `read_bits` accepts has the recorded sizes of a device, vectors inside these sizes, bits
inside its vectors, and clean comments. It is printed if and only if the vectors have all bits of the
device. -/
theorem readFile_wellFormed {skip : Bool} {file : List Byte} {config : FpgaConfig}
    (h : readFile skip file = .ok config) :
    Clean config.initblop ∧ config.cram.Inside ∧ config.bram.Inside ∧
      ∃ d, config.device = some d ∧ config.cram.width = d.cram_width ∧
        config.cram.height = d.cram_height ∧
        ((∃ text, config.writeAscii = .ok text) ↔ config.Printable d) := by
  obtain ⟨r, hread⟩ := readFile_eq_ok.mp h
  obtain ⟨⟨hcram, hbram⟩, d, hdevice, hwidth, hheight⟩ := readBits_inside skip _ _ r hread
  exact ⟨readBits_clean skip _ _ r hread, hcram, hbram, d, hdevice, hwidth, hheight,
    FpgaConfig.writeAscii_isOk_iff hwidth hheight hdevice⟩

/-- A file that makes the vectors of bank 0 for a `384`, with no data. -/
def unwritten : List Byte :=
  preamble ++ ([.bankWidth 181, .bankOffset 80, .data .cram []].flatMap Command.bytes ++ [0x01, 0x06])

theorem readFile_unwritten : readFile false unwritten = .ok { FpgaConfig.init false with
    device := some .ice384
    cram := Memory.empty.resize 0 182 80 } := by
  have hfind : findPreamble (.init false) ⟨unwritten, 0⟩ = .ok (.init false,
      ⟨[.bankWidth 181, .bankOffset 80, .data .cram []].flatMap Command.bytes ++ [0x01, 0x06],
        crcBytes 0 preamble⟩) :=
    findPreamble_eq_ok.mpr ⟨[], by decide, rfl, rfl, rfl⟩
  have hfits : FitsAll (.init (.init false)) [.bankWidth 181, .bankOffset 80, .data .cram []] :=
    ⟨trivial, trivial, ⟨by decide, by decide, by decide, by decide, rfl⟩, trivial⟩
  have hloop := (mainLoop_commands hfits [0x01, 0x06] (crcBytes 0 preamble)).trans
    (Parse.loop_of_inr Parser.consuming (Parser.step_eq _ 0x01 [0x06] [] _ rfl))
  unfold readFile readBits
  rw [Parse.bind_apply, hfind]
  dsimp only
  rw [Parse.bind_apply, hloop]
  rfl

/-- The file is accepted, but it is not printed: banks 1 to 3 have no vectors. -/
theorem readFile_wellFormed_unwritten : ∃ config, readFile false unwritten = .ok config ∧
    Clean config.initblop ∧ config.cram.Inside ∧ config.bram.Inside ∧
    ¬∃ text, config.writeAscii = .ok text := by
  obtain ⟨hclean, hcram, hbram, d, -, -, -, hiff⟩ := readFile_wellFormed readFile_unwritten
  refine ⟨_, readFile_unwritten, hclean, hcram, hbram, fun hprinted => ?_⟩
  have hplace : (1, 0, 0) ∈ ({ FpgaConfig.init false with
      device := some .ice384
      cram := Memory.empty.resize 0 182 80 } : FpgaConfig).cramPlaces :=
    FpgaConfig.mem_cramPlaces.mpr (by decide)
  exact absurd ((hiff.mp hprinted).cram _ hplace) (by decide)

end GoBoard.Icepack
