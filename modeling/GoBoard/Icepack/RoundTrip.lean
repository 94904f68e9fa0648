import GoBoard.Icepack.Comments

/-!
# What is written can be read

`write_bits` and `read_bits` agree on the configuration of a device: the file that the writer
produces is read back as the same configuration, exactly if the comments are clean
(`readFile_writeFile`). The BRAM is missing if its initialisation has been skipped.

The commands of the writer are followed through the variables of the reader. `CramDone` and
`BramDone` say what the reader has after some of the banks.
-/

namespace GoBoard.Icepack

open Coding (Byte Parse packBytes length_packBytes)

/-! ## Payloads -/

theorem toNat_ofInt_natCast {n : ℕ} (hn : n < 65536) : (BitVec.ofInt 16 (n : ℤ)).toNat = n := by
  rw [BitVec.toNat_ofInt]
  omega

theorem toNat_ofInt_sub_one {n : ℕ} (hpos : 0 < n) (hn : n < 65536) :
    (BitVec.ofInt 16 ((n : ℤ) - 1)).toNat + 1 = n := by
  rw [BitVec.toNat_ofInt]
  omega

theorem toNat_ofInt_bank {n : ℕ} (hn : n < 4) : (BitVec.ofInt 8 (n : ℤ)).toNat = n := by
  rw [BitVec.toNat_ofInt]
  omega

section

variable (d : Design) (skip : Bool) (config : FpgaConfig)

/-! ## The CRAM -/

theorem cramHeight_config (bank : ℕ) :
    (d.config skip).cramHeight bank = d.device.cramHeight bank := by
  simp [FpgaConfig.cramHeight, Device.cramHeight, Design.config]

/-- The sizes of the CRAM after its four banks. All columns have the recorded height, those of the
lower banks of a `5k` too. -/
def Device.cramStored (d : Device) : Sizes where
  width := d.cram_width
  height := d.cram_height
  banks := 4
  columns b := if b < 4 then d.cram_width else 0
  rows b x := if b < 4 ∧ x < d.cram_width then d.cram_height else 0

/-- The CRAM after the first `n` banks. -/
def Design.cramDone (n : ℕ) : Memory where
  width := if n = 0 then 0 else d.device.cram_width
  height := if n = 0 then 0 else d.device.cram_height
  banks := if n = 0 then 0 else 4
  columns b := if b < n then d.device.cram_width else 0
  rows b x := if b < n ∧ x < d.device.cram_width then d.device.cram_height else 0
  bits b x y := decide (b < n) && d.cram b x y

/-- The first bank is as high as any, so the recorded sizes are those of the first bank. -/
theorem resize_cramDone (n : ℕ) :
    ((d.cramDone n).resize n d.device.cram_width (0 + d.device.cramHeight n)).toSizes =
      (d.cramDone (n + 1)).toSizes := by
  have hwidth : max (d.cramDone n).width d.device.cram_width = d.device.cram_width := by
    by_cases hn : n = 0 <;> simp [Design.cramDone, hn]
  have hheight : max (d.cramDone n).height (0 + d.device.cramHeight n) = d.device.cram_height := by
    by_cases hn : n = 0
    · simp [Design.cramDone, Device.cramHeight, hn]
    · simp [Design.cramDone, hn, (d.device.cram_size n).2.2.2.1]
  unfold Memory.resize
  rw [hwidth, hheight]
  ext b x
  · simp [Design.cramDone]
  · simp [Design.cramDone]
  · simp [Design.cramDone]
  · dsimp only [Design.cramDone]
    split_ifs
    all_goals omega
  · dsimp only [Design.cramDone]
    split_ifs
    all_goals omega

/-- The next bank is stored. -/
theorem stored_cramDone {s : Parser} {n : ℕ} (hbank : s.current_bank = n)
    (hwidth : s.current_width = d.device.cram_width)
    (hheight : s.current_height = d.device.cramHeight n) (hoffset : s.current_offset = 0) :
    s.stored (d.cramDone n) (packBytes ((d.config skip).cram.block n d.device.cram_width
      (d.device.cramHeight n) 0)) = d.cramDone (n + 1) := by
  obtain ⟨hpos, -, -, hle, hdvd⟩ := d.device.cram_size n
  unfold Parser.stored
  rw [hbank, hwidth, hheight, hoffset]
  refine Memory.ext ?_ fun b x y => ?_
  · rw [Memory.toSizes_store, resize_cramDone]
  · rw [Memory.bits_store_packBytes _ _ n _ _ 0 hpos hdvd]
    -- A bit is copied if it is in this bank, and kept otherwise. Zeros stay zero in any case.
    cases hbit : d.cram b x y with
    | false => simp [Memory.resize, Design.cramDone, Design.config, hbit]
    | true =>
      obtain ⟨-, hx, hy⟩ := d.cram_inside b x y hbit
      by_cases hb : b = n
      · subst hb
        simp [Design.cramDone, Design.config, hbit, hx, hy]
      · rw [Bool.eq_iff_iff]
        simp [Memory.resize, Design.cramDone, hbit, hb]
        omega

/-- What the reader has after the first `n` banks of the CRAM. -/
structure CramDone (n : ℕ) (s : Parser) : Prop where
  width : s.current_width = d.device.cram_width
  height : d.device ≠ .ice5k → s.current_height = d.device.cram_height
  offset : s.current_offset = 0
  config : s.config = { config with cram := d.cramDone n }

theorem leads_cramBank {n : ℕ} (hn : n < 4) :
    Leads (CramDone d config n) ((d.config skip).cramBankCommands n) (CramDone d config (n + 1)) := by
  obtain ⟨hpos, hwidth, hheight, hle, hdvd⟩ := d.device.cram_size n
  -- Only a `5k` has banks of different heights.
  have hsame : d.device ≠ .ice5k → d.device.cramHeight n = d.device.cram_height := fun h => by
    simp [Device.cramHeight, h]
  unfold FpgaConfig.cramBankCommands
  rw [cramHeight_config]
  refine .append (Q := fun s => CramDone d config n s ∧ s.current_height = d.device.cramHeight n)
    (.ite (fun h5k => .single fun s hs => ⟨trivial, ?_⟩) fun h5k s hs => ?_)
    (.append (Q := fun s => (CramDone d config n s ∧ s.current_height = d.device.cramHeight n) ∧
      s.current_bank = n) (.single fun s hs => ⟨trivial, ?_⟩) (.single fun s hs => ⟨?_, ?_⟩))
  · have h5k : d.device = .ice5k := Option.some.inj h5k
    refine ⟨⟨hs.width, fun h => absurd h5k h, hs.offset, hs.config⟩, ?_⟩
    exact toNat_ofInt_natCast (by omega)
  · have h5k : d.device ≠ .ice5k := fun h => h5k (congrArg some h)
    exact ⟨hs, (hs.height h5k).trans (hsame h5k).symm⟩
  · exact ⟨⟨⟨hs.1.width, hs.1.height, hs.1.offset, hs.1.config⟩, hs.2⟩, toNat_ofInt_bank hn⟩
  · obtain ⟨⟨hs, hsheight⟩, hsbank⟩ := hs
    have hsize := Nat.mul_le_mul (show d.device.cramHeight n ≤ 1000 by omega)
      (show d.device.cram_width ≤ 1000 by omega)
    refine ⟨by omega, by rw [hs.width]; omega, by rw [hs.offset, hsheight]; omega, ?_, ?_⟩
    · rw [hs.width, hsheight]
      omega
    · rw [hs.width, hsheight, length_packBytes, Memory.length_block]
      change (_ * d.device.cram_width + 7) / 8 = _
      omega
  · obtain ⟨⟨hs, hsheight⟩, hsbank⟩ := hs
    refine ⟨hs.width, hs.height, hs.offset, ?_⟩
    have hstored := stored_cramDone d skip hsbank hs.width hsheight hs.offset
    simp only [Command.run, FpgaConfig.memory, FpgaConfig.setMemory, hs.config]
    rw [show (d.config skip).cram.width = d.device.cram_width from rfl, hstored]

/-- The commands for the CRAM store it. -/
theorem leads_cram : Leads (fun s => s.config = { config with cram := .empty })
    (d.config skip).cramCommands
    (fun s => s.config = { config with cram := ⟨d.device.cramStored, d.cram⟩ }) := by
  obtain ⟨hpos, hwidth, hheight, -, -⟩ := d.device.cram_size 0
  have hstart : d.cramDone 0 = .empty := by
    refine Memory.ext ?_ fun b x y => ?_
    · ext b x <;> simp [Design.cramDone, Memory.empty]
    · simp [Design.cramDone, Memory.empty]
  have hend : d.cramDone 4 = ⟨d.device.cramStored, d.cram⟩ := by
    refine Memory.ext rfl fun b x y => ?_
    cases hbit : d.cram b x y with
    | false => simp [Design.cramDone, hbit]
    | true => simp [Design.cramDone, hbit, (d.cram_inside b x y hbit).1]
  have hdone : ∀ s, CramDone d config 4 s →
      s.config = { config with cram := ⟨d.device.cramStored, d.cram⟩ } := fun s hs => by
    rw [hs.config, hend]
  unfold FpgaConfig.cramCommands
  refine .append (Q := fun s => s.current_width = d.device.cram_width ∧
      s.config = { config with cram := .empty }) (.single fun s hs => ⟨trivial, ?_, hs⟩)
    (.append (Q := fun s => s.current_width = d.device.cram_width ∧
      (d.device ≠ .ice5k → s.current_height = d.device.cram_height) ∧
      s.config = { config with cram := .empty })
      (.ite (fun h5k => .single fun s hs => ⟨trivial, hs.1, fun _ => ?_, hs.2⟩) fun h5k s hs =>
        ⟨hs.1, fun h => absurd h ?_, hs.2⟩)
      (.append (Q := CramDone d config 0) (.single fun s hs => ⟨trivial, ?_⟩) ?_))
  · exact toNat_ofInt_sub_one hpos (Nat.lt_trans hwidth (by decide))
  · exact toNat_ofInt_natCast (Nat.lt_trans hheight (by decide))
  · exact fun h => h5k fun h' => h (Option.some.inj h')
  · exact ⟨hs.1, hs.2.1, rfl, hs.2.2.trans (by rw [hstart])⟩
  · have hloop := Leads.range (P := CramDone d config) fun n hn => leads_cramBank d skip config hn
    exact fun s hs => ⟨(hloop s hs).1, hdone _ (hloop s hs).2⟩

/-! ## The BRAM -/

theorem bramWidth_config (bank : ℕ) :
    (d.config skip).bramWidth bank = d.device.bramWidth bank := by
  simp [FpgaConfig.bramWidth, Device.bramWidth, Design.config]

/-- The sizes of the BRAM after its four banks. The narrower banks of a `5k` have all columns too, but
those that no block reaches are empty. -/
def Device.bramStored (d : Device) : Sizes :=
  if d.bram_width = 0 then Memory.empty.toSizes
  else
    { width := d.bram_width
      height := d.bram_height
      banks := 4
      columns := fun b => if b < 4 then d.bram_width else 0
      rows := fun b x => if b < 4 ∧ x < d.bramWidth b then d.bram_height else 0 }

/-- The BRAM after the first `n` banks and `k` chunks of the next one. -/
def Design.bramDone (n k : ℕ) : Memory where
  width := if n = 0 ∧ k = 0 then 0 else d.device.bram_width
  height := if n = 0 then 128 * k else d.device.bram_height
  banks := if n = 0 ∧ k = 0 then 0 else 4
  columns b := if b < n ∨ b = n ∧ 0 < k then d.device.bram_width else 0
  rows b x :=
    if (b < n ∨ b = n ∧ 0 < k) ∧ x < d.device.bramWidth b then
      if n = 0 then 128 * k else d.device.bram_height
    else 0
  bits b x y := decide (b < n ∨ b = n ∧ y < 128 * k) && d.bram b x y

/-- The height is recorded with the two chunks of the first bank. -/
theorem resize_bramDone {n k : ℕ} (hk : k < 2) (hheight : d.device.bram_height = 256)
    (hle : d.device.bramWidth n ≤ d.device.bram_width) :
    ((d.bramDone n k).resize n (d.device.bramWidth n) (128 * k + 128)).toSizes =
      (d.bramDone n (k + 1)).toSizes := by
  have hwidth : max (d.bramDone n k).width (d.device.bramWidth n) = d.device.bram_width := by
    by_cases hn : n = 0 ∧ k = 0
    · simp [Design.bramDone, Device.bramWidth, hn]
    · simp [Design.bramDone, hn, hle]
  have hheight' : max (d.bramDone n k).height (128 * k + 128) =
      if n = 0 then 128 * (k + 1) else d.device.bram_height := by
    by_cases hn : n = 0
    · simp [Design.bramDone, hn]
      omega
    · simp [Design.bramDone, hn]
      omega
  unfold Memory.resize
  rw [hwidth, hheight']
  ext b x
  · simp [Design.bramDone]
  · simp [Design.bramDone]
  · simp [Design.bramDone]
  · dsimp only [Design.bramDone]
    split_ifs
    all_goals omega
  · have hsame : b = n → d.device.bramWidth b = d.device.bramWidth n := congrArg _
    dsimp only [Design.bramDone]
    split_ifs
    all_goals omega

/-- The next chunk is stored. -/
theorem stored_bramDone {s : Parser} {n k : ℕ} (hk : k < 2) (hheight : d.device.bram_height = 256)
    (hpos : 0 < d.device.bramWidth n) (hle : d.device.bramWidth n ≤ d.device.bram_width)
    (hsbank : s.current_bank = n) (hswidth : s.current_width = d.device.bramWidth n)
    (hsheight : s.current_height = 128) (hsoffset : s.current_offset = 128 * k) :
    s.stored (d.bramDone n k) (packBytes ((d.config skip).bram.block n (d.device.bramWidth n)
      128 (128 * k))) = d.bramDone n (k + 1) := by
  unfold Parser.stored
  rw [hsbank, hswidth, hsheight, hsoffset]
  refine Memory.ext ?_ fun b x y => ?_
  · rw [Memory.toSizes_store, resize_bramDone d hk hheight hle]
  · rw [Memory.bits_store_packBytes _ _ n _ _ _ hpos (by omega)]
    -- As for the CRAM, but a bank comes in two chunks of 128 rows.
    cases hbit : d.bram b x y with
    | false => simp [Memory.resize, Design.bramDone, Design.config, hbit]
    | true =>
      obtain ⟨-, hx, hy⟩ := d.bram_inside b x y hbit
      by_cases hb : b = n
      · subst hb
        rw [Bool.eq_iff_iff]
        simp [Memory.resize, Design.bramDone, Design.config, hbit, hx]
        omega
      · simp [Memory.resize, Design.bramDone, hbit, hb]

/-- What the reader has after the first `n` banks of the BRAM and `k` chunks of the next one. -/
structure BramDone (n k : ℕ) (s : Parser) : Prop where
  width : d.device ≠ .ice5k → s.current_width = d.device.bram_width
  height : s.current_height = 128
  config : s.config = { config with bram := if skip then .empty else d.bramDone n k }

theorem leads_bramChunk {n k : ℕ} (hn : n < 4) (hk : k < 2) (hheight : d.device.bram_height = 256)
    (hwidth : d.device.bram_width < 1000) (hpos : 0 < d.device.bramWidth n)
    (hle : d.device.bramWidth n ≤ d.device.bram_width) :
    Leads (fun s => BramDone d skip config n k s ∧ s.current_bank = n)
      ((d.config skip).bramChunkCommands n (128 * k))
      (fun s => BramDone d skip config n (k + 1) s ∧ s.current_bank = n) := by
  -- Only a `5k` has banks of different widths.
  have hsame : d.device ≠ .ice5k → d.device.bramWidth n = d.device.bram_width := fun h => by
    simp [Device.bramWidth, h]
  unfold FpgaConfig.bramChunkCommands
  rw [bramWidth_config]
  refine .append (Q := fun s => (BramDone d skip config n k s ∧ s.current_bank = n) ∧
      s.current_offset = 128 * k) (.single fun s hs => ⟨trivial, ?_⟩)
    (.append (Q := fun s => ((BramDone d skip config n k s ∧ s.current_bank = n) ∧
      s.current_offset = 128 * k) ∧ s.current_width = d.device.bramWidth n)
      (.ite (fun h5k => .single fun s hs => ⟨trivial, ?_⟩) fun h5k s hs => ⟨hs, ?_⟩)
      (.ite (fun hskip => .single fun s hs => ⟨?_, ?_, hs.1.1.2⟩) fun hskip s hs => ⟨?_, hs.1.1.2⟩))
  · exact ⟨⟨⟨hs.1.width, hs.1.height, hs.1.config⟩, hs.2⟩, toNat_ofInt_natCast (by omega)⟩
  · have h5k : d.device = .ice5k := Option.some.inj h5k
    exact ⟨⟨⟨⟨fun h => absurd h5k h, hs.1.1.height, hs.1.1.config⟩, hs.1.2⟩, hs.2⟩,
      toNat_ofInt_sub_one hpos (by omega)⟩
  · have h5k : d.device ≠ .ice5k := fun h => h5k (congrArg some h)
    exact (hs.1.1.width h5k).trans (hsame h5k).symm
  · obtain ⟨⟨⟨hs, hsbank⟩, hsoffset⟩, hswidth⟩ := hs
    have hsheight := hs.height
    refine ⟨by omega, by omega, by omega, by rw [hsheight]; omega, ?_⟩
    rw [hsheight, hswidth, length_packBytes, Memory.length_block]
    change (128 * _ + 7) / 8 = _
    omega
  · obtain ⟨⟨⟨hs, hsbank⟩, hsoffset⟩, hswidth⟩ := hs
    have hstored := stored_bramDone d skip hk hheight hpos hle hsbank hswidth hs.height hsoffset
    have hskip' : skip = false := Bool.eq_false_iff.mpr hskip
    refine ⟨hs.width, hs.height, ?_⟩
    simp only [Command.run, FpgaConfig.memory, FpgaConfig.setMemory, hs.config, hskip']
    exact congrArg (fun m => { config with bram := m }) hstored
  · obtain ⟨⟨⟨hs, hsbank⟩, hsoffset⟩, hswidth⟩ := hs
    have hskip' : skip = true := not_not.mp hskip
    exact ⟨hs.width, hs.height, by rw [hs.config, hskip']; rfl⟩

theorem leads_bramBank {n : ℕ} (hn : n < 4) (hheight : d.device.bram_height = 256)
    (hwidth : d.device.bram_width < 1000) (hpos : 0 < d.device.bramWidth n)
    (hle : d.device.bramWidth n ≤ d.device.bram_width) :
    Leads (BramDone d skip config n 0) ((d.config skip).bramBankCommands n)
      (BramDone d skip config (n + 1) 0) := by
  have hoffsets : (d.config skip).offsets = (List.range 2).map (128 * ·) := by
    simp [FpgaConfig.offsets, FpgaConfig.bram_chunk_size, Design.config, hheight]
  -- Two chunks are a bank.
  have hnext : d.bramDone n 2 = d.bramDone (n + 1) 0 := by
    refine Memory.ext ?_ fun b x y => ?_
    · ext b x
      · simp [Design.bramDone]
      · by_cases h : n = 0 <;> simp [Design.bramDone, h, hheight]
      · simp [Design.bramDone]
      · dsimp only [Design.bramDone]
        split_ifs
        all_goals omega
      · dsimp only [Design.bramDone]
        rw [if_neg (Nat.add_one_ne_zero n)]
        split_ifs
        all_goals omega
    · cases hbit : d.bram b x y with
      | false => simp [Design.bramDone, hbit]
      | true =>
        obtain ⟨-, -, hy⟩ := d.bram_inside b x y hbit
        rw [Bool.eq_iff_iff]
        simp [Design.bramDone, hbit]
        omega
  have hloop := Leads.range (P := fun k s => BramDone d skip config n k s ∧ s.current_bank = n)
    (f := fun k => (d.config skip).bramChunkCommands n (128 * k)) (n := 2)
    fun k hk => leads_bramChunk d skip config hn hk hheight hwidth hpos hle
  unfold FpgaConfig.bramBankCommands
  rw [hoffsets, List.flatMap_map]
  refine .append (.single fun s hs => ⟨trivial, ⟨hs.width, hs.height, hs.config⟩,
    toNat_ofInt_bank hn⟩) fun s hs => ⟨(hloop s hs).1, ?_⟩
  obtain ⟨hs', -⟩ := (hloop s hs).2
  exact ⟨hs'.width, hs'.height, hnext ▸ hs'.config⟩

/-- The commands for the BRAM store it, unless its initialisation is skipped. -/
theorem leads_bram : Leads (fun s => s.config = { config with bram := .empty })
    (d.config skip).bramCommands (fun s => s.config =
      { config with bram := if skip then .empty else ⟨d.device.bramStored, d.bram⟩ }) := by
  unfold FpgaConfig.bramCommands
  rcases d.device.bram_size with ⟨hzero, hzero'⟩ | ⟨hheight, hwidth, hbanks⟩
  · -- Without a BRAM, all bits are zero.
    have hempty : ⟨d.device.bramStored, d.bram⟩ = Memory.empty := by
      refine Memory.ext (if_pos hzero) fun b x y => Bool.eq_false_iff.mpr fun hbit => ?_
      have hy := (d.bram_inside b x y hbit).2.2
      omega
    rw [if_neg fun h => h.1 hzero, hempty, ite_self]
    exact .nil fun s => id
  · have hpos : 0 < d.device.bram_width := Nat.lt_of_lt_of_le (hbanks 0).1 (hbanks 0).2
    have hstart : d.bramDone 0 0 = .empty := by
      refine Memory.ext ?_ fun b x y => ?_
      · ext b x <;> simp [Design.bramDone, Memory.empty]
      · simp [Design.bramDone, Memory.empty]
    have hend : d.bramDone 4 0 = ⟨d.device.bramStored, d.bram⟩ := by
      refine Memory.ext ?_ fun b x y => ?_
      · rw [Device.bramStored, if_neg (Nat.ne_of_gt hpos)]
        ext b x <;> simp [Design.bramDone]
      · cases hbit : d.bram b x y with
        | false => simp [Design.bramDone, hbit]
        | true => simp [Design.bramDone, hbit, (d.bram_inside b x y hbit).1]
    have hloop := Leads.range (P := fun n => BramDone d skip config n 0) (n := 4) fun n hn =>
      leads_bramBank d skip config hn hheight hwidth (hbanks n).1 (hbanks n).2
    rw [if_pos ⟨Nat.pos_iff_ne_zero.mp hpos, fun hzero => by
      rw [show (d.config skip).bram.height = 256 from hheight] at hzero
      cases hzero⟩]
    refine .append (Q := fun s => (d.device ≠ .ice5k → s.current_width = d.device.bram_width) ∧
        s.config = { config with bram := .empty })
      (.ite (fun h5k => .single fun s hs => ⟨trivial, fun _ => ?_, hs⟩) fun h5k s hs =>
        ⟨fun h => absurd h ?_, hs⟩)
      (.append (Q := BramDone d skip config 0 0) (.single fun s hs => ⟨trivial, ?_⟩) ?_)
    · exact toNat_ofInt_sub_one hpos (Nat.lt_trans hwidth (by decide))
    · exact fun h => h5k fun h' => h (Option.some.inj h')
    · exact ⟨hs.1, rfl, hs.2.trans (by rw [hstart, ite_self])⟩
    · exact fun s hs => ⟨(hloop s hs).1, hend ▸ (hloop s hs).2.config⟩

/-- The commands of a design. -/
def Design.commands (d : Design) (skip : Bool) : List Command :=
  (d.config skip).commands d.freqrange d.warmboot d.nosleep

/-- The commands of a design configure the device. -/
theorem leads_commands : Leads (fun s => s.config = { config with cram := .empty, bram := .empty })
    (d.commands skip) (fun s => s.config =
      { config with
        freqrange := some d.freqrange
        warmboot := some d.warmboot
        nosleep := some d.nosleep
        cram := ⟨d.device.cramStored, d.cram⟩
        bram := if skip then .empty else ⟨d.device.bramStored, d.bram⟩ }) := by
  let set : FpgaConfig := { config with
    freqrange := some d.freqrange
    warmboot := some d.warmboot
    nosleep := some d.nosleep
    bram := .empty }
  have hsettings : Leads (fun s => s.config = { config with cram := .empty, bram := .empty })
      [.freqRange d.freqrange, .resetCrc, .bootMode d.warmboot d.nosleep]
      (fun s => s.config = { set with cram := .empty }) := fun s hs =>
    ⟨⟨trivial, trivial, trivial, trivial⟩, by simp [Command.run, hs, set]⟩
  exact hsettings.append ((leads_cram d skip set).append
    (leads_bram d skip { set with cram := ⟨d.device.cramStored, d.cram⟩ }))

end

/-! ## Files -/

/-- The reader of a file that consists of commands that fit. -/
theorem readBits_commands {skip : Bool} {initblop : List Byte} {cs : List Command} {s : Parser}
    (hclean : Clean initblop)
    (hs : s = .init { FpgaConfig.init skip with initblop := initblop }) (hfits : FitsAll s cs)
    (v : BitVec 16) (rest : List Byte) :
    readFile skip (initblop ++ preamble ++ (cs.flatMap Command.bytes ++ (ending v ++ rest))) =
      if crcBytes (cs.foldl Command.crc (crcBytes 0 (initblop ++ preamble))) (0x22 :: wordBytes v) = 0
      then
        match detect (cs.foldl Command.run s).config.cram.width
            (cs.foldl Command.run s).config.cram.height with
        | some device => .ok { (cs.foldl Command.run s).config with device := some device }
        | none => .error .unknownChip
      else .error .crcFailed := by
  have hfind : findPreamble (.init skip)
      ⟨initblop ++ preamble ++ (cs.flatMap Command.bytes ++ (ending v ++ rest)), 0⟩ =
      .ok ({ FpgaConfig.init skip with initblop := initblop },
        ⟨cs.flatMap Command.bytes ++ (ending v ++ rest), crcBytes 0 (initblop ++ preamble)⟩) :=
    findPreamble_eq_ok.mpr ⟨initblop, hclean, rfl, rfl, rfl⟩
  have hloop := (mainLoop_commands hfits (ending v ++ rest)
    (crcBytes 0 (initblop ++ preamble))).trans (mainLoop_ending _ v rest _)
  unfold readFile readBits
  rw [Parse.bind_apply, hfind]
  dsimp only
  rw [Parse.bind_apply, ← hs, hloop]
  split_ifs
  · dsimp only
    cases detect (cs.foldl Command.run s).config.cram.width
        (cs.foldl Command.run s).config.cram.height with
    | none => rfl
    | some device => rfl
  · rfl

theorem detect_device (d : Device) : detect d.cram_width d.cram_height = some d := by
  cases d <;> decide

/-- The configuration that is read from the file of a design: it has the bits of the design, in
vectors of the sizes that the blocks of the file have left. -/
def Design.unpacked (d : Design) (skip skip' : Bool) : FpgaConfig :=
  { d.config skip' with
    cram := ⟨d.device.cramStored, d.cram⟩
    bram := if skip then .empty else ⟨d.device.bramStored, d.bram⟩ }

/-- A file that consists of comments, commands and a checksum. -/
def fileOf (initblop : List Byte) (cs : List Command) (v : BitVec 16) : List Byte :=
  initblop ++ preamble ++ (cs.flatMap Command.bytes ++ (ending v ++ [0x00]))

/-- The file of a design. -/
def Design.file (d : Design) (skip : Bool) : List Byte :=
  fileOf d.initblop (d.commands skip) (checksum (d.commands skip))

/-- The checksum is reset, so it does not depend on what is in front of the commands. -/
theorem crc_commands (d : Design) (skip : Bool) (crc_value crc_value' : BitVec 16) :
    (d.commands skip).foldl Command.crc crc_value =
      (d.commands skip).foldl Command.crc crc_value' := by
  have hreset (crc_value : BitVec 16) :
      [.freqRange d.freqrange, .resetCrc, .bootMode d.warmboot d.nosleep].foldl
        Command.crc crc_value = crcBytes 0xffff (Command.bootMode d.warmboot d.nosleep).bytes := rfl
  simp only [Design.commands, FpgaConfig.commands, List.foldl_append, hreset]

/-- The checksum in the file of a design clears the checksum of the reader. -/
theorem crc_ending (d : Design) (skip : Bool) (crc_value : BitVec 16) :
    crcBytes ((d.commands skip).foldl Command.crc crc_value)
      (0x22 :: wordBytes (checksum (d.commands skip))) = 0 := by
  rw [crc_commands _ _ _ (crcBytes 0 preamble), crcBytes_cons]
  exact crcBytes_self _

theorem writeFile_design (d : Design) (skip : Bool) :
    (d.config skip).writeFile = .ok (d.file skip) := by
  obtain ⟨crc_value, hwrite⟩ := writeBits_eq (c := d.config skip) rfl rfl rfl
  unfold FpgaConfig.writeFile
  rw [hwrite]
  simp [Design.file, fileOf, Design.commands, Design.config]

/-- The file of a design with clean comments is read back, whatever follows it. -/
theorem readFile_file {d : Design} (skip skip' : Bool) (hclean : Clean d.initblop)
    (rest : List Byte) : readFile skip' (d.file skip ++ rest) = .ok (d.unpacked skip skip') := by
  obtain ⟨hfits, hrun⟩ := leads_commands d skip
    { FpgaConfig.init skip' with initblop := d.initblop }
    (.init { FpgaConfig.init skip' with initblop := d.initblop }) rfl
  have hread := readBits_commands hclean rfl hfits (checksum (d.commands skip)) ([0x00] ++ rest)
  have hfile : d.file skip ++ rest = d.initblop ++ preamble ++
      ((d.commands skip).flatMap Command.bytes ++
        (ending (checksum (d.commands skip)) ++ ([0x00] ++ rest))) := by
    simp [Design.file, fileOf]
  rw [hfile]
  refine hread.trans ?_
  rw [hrun, if_pos (crc_ending d skip _)]
  change (match detect d.device.cram_width d.device.cram_height with
    | some device => Except.ok _
    | none => .error ReadError.unknownChip) = _
  rw [detect_device]
  rfl

/-- The configuration of a device is written, and the file is read back as the same configuration
exactly if the comments are clean. -/
theorem readFile_writeFile (d : Design) (skip skip' : Bool) :
    ∃ file, (d.config skip).writeFile = .ok file ∧
      (readFile skip' file = .ok (d.unpacked skip skip') ↔ Clean d.initblop) := by
  refine ⟨d.file skip, writeFile_design d skip, fun h => ?_, fun hclean => ?_⟩
  · obtain ⟨r, hread⟩ := readFile_eq_ok.mp h
    exact readBits_clean skip' _ _ r hread
  · have hread := readFile_file skip skip' hclean []
    rwa [List.append_nil] at hread

end GoBoard.Icepack
