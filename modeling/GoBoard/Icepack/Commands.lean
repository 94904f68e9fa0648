import GoBoard.Icepack.Reader

/-!
# Commands

The commands that `write_bits` writes, as data: the bytes of each, what it does to the variables of
the reader (`Command.run`), and what it does to the checksum (`Command.crc`). The reader, in front
of the bytes of a command, does what the command says (`step_bytes`), and so it does for a sequence
of commands (`mainLoop_commands`). The command that compares the checksum is not among them: the
reader goes on after it if the checksum is zero, and fails otherwise (`step_check`).
-/

namespace GoBoard.Icepack

open Coding (Byte Parse)

/-- The memory that a block of data is for. -/
inductive Target
  | cram
  | bram
  deriving DecidableEq, Repr

/-- The payload of the command that announces a block of data. -/
def Target.payload : Target → Byte
  | cram => 0x01
  | bram => 0x03

namespace FpgaConfig

def memory (c : FpgaConfig) : Target → Memory
  | .cram => c.cram
  | .bram => c.bram

def setMemory (c : FpgaConfig) (m : Memory) : Target → FpgaConfig
  | .cram => { c with cram := m }
  | .bram => { c with bram := m }

end FpgaConfig

def FreqRange.payload : FreqRange → Byte
  | low => 0x00
  | medium => 0x01
  | high => 0x02

/-- A setting as a bit of the payload of the boot mode. -/
def Setting.flag (s : Setting) (bit : Byte) : Byte :=
  match s with
  | disabled => 0x00
  | enabled => bit

/-- The two bytes of a word, the higher one first. -/
def wordBytes (v : BitVec 16) : List Byte := [v.extractLsb' 8 8, v.extractLsb' 0 8]

@[simp] theorem length_wordBytes (v : BitVec 16) : (wordBytes v).length = 2 := rfl

/-- The commands. -/
inductive Command
  | freqRange (f : FreqRange)
  | resetCrc
  | bootMode (warmboot nosleep : Setting)
  | bankWidth (payload : BitVec 16)
  | bankHeight (payload : BitVec 16)
  | bankOffset (payload : BitVec 16)
  | bank (payload : Byte)
  | data (t : Target) (bytes : List Byte)
  deriving DecidableEq, Repr

/-- A block of data in the current bank of a memory. -/
def Parser.stored (s : Parser) (m : Memory) (bytes : List Byte) : Memory :=
  (m.resize s.current_bank s.current_width (s.current_offset + s.current_height)).store
    s.current_bank s.current_width s.current_offset bytes

namespace Command

/-- The command in the file. -/
def bytes : Command → List Byte
  | freqRange f => [0x51, f.payload]
  | resetCrc => [0x01, 0x05]
  | bootMode warmboot nosleep => [0x92, 0x00, warmboot.flag 0x20 ||| nosleep.flag 0x01]
  | bankWidth payload => 0x62 :: wordBytes payload
  | bankHeight payload => 0x72 :: wordBytes payload
  | bankOffset payload => 0x82 :: wordBytes payload
  | bank payload => [0x11, payload]
  | data t bytes => [0x01, t.payload] ++ bytes ++ [0x00, 0x00]

/-- What the command does to the variables of the reader. -/
def run (s : Parser) : Command → Parser
  | freqRange f => { s with config := { s.config with freqrange := some f } }
  | resetCrc => s
  | bootMode warmboot nosleep => { s with config := { s.config with
      warmboot := some warmboot, nosleep := some nosleep } }
  | bankWidth payload => { s with current_width := payload.toNat + 1 }
  | bankHeight payload => { s with current_height := payload.toNat }
  | bankOffset payload => { s with current_offset := payload.toNat }
  | bank payload => { s with current_bank := payload.toNat }
  | data t bytes => { s with
      config := s.config.setMemory (s.stored (s.config.memory t) bytes) t }

/-- What the command does to the checksum. -/
def crc (crc_value : BitVec 16) (c : Command) : BitVec 16 :=
  if c = resetCrc then 0xffff else crcBytes crc_value c.bytes

/-- A block of data is as long as the variables of the reader say, and the bank exists. -/
def Fits (s : Parser) : Command → Prop
  | data _ bytes => s.current_bank < 4 ∧ s.current_width < 2147483648 ∧
      s.current_offset + s.current_height < 2147483648 ∧
      s.current_height * s.current_width < 2147483648 ∧
      bytes.length = s.current_height * s.current_width / 8
  | _ => True

end Command

/-! ## One command -/

theorem bigEndian_wordBytes (w : ℕ) (v : BitVec 16) : bigEndian w (wordBytes v) = v.setWidth w := by
  apply BitVec.eq_of_getLsbD_eq
  intro i hi
  simp only [bigEndian, wordBytes, List.foldl_cons, List.foldl_nil, BitVec.getLsbD_or,
    BitVec.getLsbD_shiftLeft, BitVec.getLsbD_setWidth, BitVec.getLsbD_extractLsb']
  by_cases hlow : i < 8
  · simp [hi, hlow]
  · by_cases hhigh : i < 16
    · simp [hi, hlow, show i - 8 < 8 by omega, show i - 8 < w by omega, show 8 + (i - 8) = i by omega]
    · simp [hi, hlow, show ¬i - 8 < 8 by omega, show v.getLsbD i = false from
        BitVec.getLsbD_of_ge v i (by omega)]

namespace Parser

/-- The command byte and its payload are read before anything is done. -/
theorem step_eq (s : Parser) (command : Byte) (payload rest : List Byte) (crc_value : BitVec 16)
    (hlen : payload.length = (command &&& 0x0f).toNat) :
    s.step ⟨command :: payload ++ rest, crc_value⟩ =
      s.execute command (bigEndian 32 payload) ⟨rest, crcBytes crc_value (command :: payload)⟩ := by
  have hstep : s.step ⟨command :: payload ++ rest, crc_value⟩ =
      (readBytes (command &&& 0x0f).toNat >>= fun payload =>
        s.execute command (bigEndian 32 payload)) ⟨payload ++ rest, updateCrc16 crc_value command⟩ := rfl
  rw [hstep, Parse.bind_apply, ← hlen, readBytes_append]
  rfl

/-- A block of data that fits is stored. -/
theorem readData_append (s : Parser) (m : Memory) (badToken : BitVec 16 → ReadError)
    {t : Target} {bytes : List Byte} (h : (Command.data t bytes).Fits s) (rest : List Byte)
    (crc_value : BitVec 16) :
    s.readData m badToken ⟨bytes ++ [0x00, 0x00] ++ rest, crc_value⟩ =
      .ok (s.stored m bytes, ⟨rest, crcBytes crc_value (bytes ++ [0x00, 0x00])⟩) := by
  obtain ⟨hbank, hwidth, hheight, hsize, hlen⟩ := h
  have htoken : readBytes 2 ⟨[0x00, 0x00] ++ rest, crcBytes crc_value bytes⟩ =
      .ok ([0x00, 0x00], ⟨rest, crcBytes (crcBytes crc_value bytes) [0x00, 0x00]⟩) :=
    readBytes_append [0x00, 0x00] rest _
  have hsum : (s.current_offset : ℤ) + s.current_height =
      ((s.current_offset + s.current_height : ℕ) : ℤ) := by
    norm_cast
  have hproduct : (s.current_height : ℤ) * s.current_width =
      ((s.current_height * s.current_width : ℕ) : ℤ) := by
    norm_cast
  have hbytes : ((s.current_height * s.current_width : ℕ) / 8 : ℤ).toNat = bytes.length := by
    rw [hlen]
    norm_cast
  have hints : ¬(4 ≤ s.current_bank ∨ ¬IsInt ((s.current_offset + s.current_height : ℕ) : ℤ) ∨
      ¬IsInt ((s.current_height * s.current_width : ℕ) : ℤ)) := by
    unfold IsInt
    omega
  have hneg : ¬(8 ≤ ((s.current_height * s.current_width : ℕ) : ℤ) ∧
      ((s.current_width : ℤ) < 0 ∨ (s.current_offset : ℤ) < 0)) := by
    omega
  -- As long as the numbers are small, the `int`s are the payloads.
  unfold readData
  dsimp only
  rw [asInt_of_lt hwidth, asInt_of_lt (show s.current_height < 2147483648 by omega),
    asInt_of_lt (show s.current_offset < 2147483648 by omega), hsum, hproduct, if_neg hints,
    if_neg hneg, Int.toNat_natCast, Int.toNat_natCast, Int.toNat_natCast, hbytes, Parse.bind_apply,
    List.append_assoc, readBytes_append]
  change (readBytes 2 >>= _) _ = _
  rw [Parse.bind_apply, htoken, crcBytes_append]
  rfl

/-- A command with a word as its payload. -/
theorem step_word (s : Parser) {command : Byte} (hcommand : (command &&& 0x0f).toNat = 2)
    (v : BitVec 16) (rest : List Byte) (crc_value : BitVec 16) :
    s.step ⟨command :: wordBytes v ++ rest, crc_value⟩ =
      s.execute command (v.setWidth 32) ⟨rest, crcBytes crc_value (command :: wordBytes v)⟩ := by
  rw [s.step_eq command (wordBytes v) rest crc_value (by rw [hcommand, length_wordBytes]),
    bigEndian_wordBytes]

/-- The reader in front of a command. -/
theorem step_bytes {s : Parser} {c : Command} (h : c.Fits s) (rest : List Byte)
    (crc_value : BitVec 16) :
    s.step ⟨c.bytes ++ rest, crc_value⟩ = .ok (.inl (c.run s), ⟨rest, c.crc crc_value⟩) := by
  have hword (v : BitVec 16) : (v.setWidth 32).toNat = v.toNat := by
    rw [BitVec.toNat_setWidth, Nat.mod_eq_of_lt (by omega)]
  -- The reader makes a word of the one or two bytes of the payload.
  cases c with
  | freqRange f =>
    cases f <;> exact s.step_eq 0x51 [_] rest crc_value rfl
  | resetCrc => exact s.step_eq 0x01 [_] rest crc_value rfl
  | bootMode warmboot nosleep =>
    cases warmboot <;> cases nosleep <;> exact s.step_eq 0x92 [_, _] rest crc_value rfl
  | bankWidth payload =>
    have hnext : (payload.setWidth 32 + 1).toNat = payload.toNat + 1 := by
      rw [BitVec.toNat_add, hword]
      exact Nat.mod_eq_of_lt (Nat.lt_of_le_of_lt payload.isLt (by decide))
    refine (s.step_word rfl payload rest crc_value).trans ?_
    change Except.ok (Sum.inl { s with current_width := (payload.setWidth 32 + 1).toNat }, _) = _
    rw [hnext]
    rfl
  | bankHeight payload =>
    refine (s.step_word rfl payload rest crc_value).trans ?_
    change Except.ok (Sum.inl { s with current_height := (payload.setWidth 32).toNat }, _) = _
    rw [hword]
    rfl
  | bankOffset payload =>
    refine (s.step_word rfl payload rest crc_value).trans ?_
    change Except.ok (Sum.inl { s with current_offset := (payload.setWidth 32).toNat }, _) = _
    rw [hword]
    rfl
  | bank payload =>
    have hbyte : (bigEndian 32 [payload]).toNat = payload.toNat := by
      simp [bigEndian]
      omega
    refine (s.step_eq 0x11 [payload] rest crc_value rfl).trans ?_
    change Except.ok (Sum.inl { s with current_bank := (bigEndian 32 [payload]).toNat }, _) = _
    rw [hbyte]
    rfl
  | data t bytes =>
    have hrest : (Command.data t bytes).bytes ++ rest =
        0x01 :: [t.payload] ++ (bytes ++ [0x00, 0x00] ++ rest) := by
      simp [Command.bytes]
    -- The data and the two bytes behind it are read by the command that announces them.
    have hcrc : (Command.data t bytes).crc crc_value =
        crcBytes (crcBytes crc_value [0x01, t.payload]) (bytes ++ [0x00, 0x00]) := by
      rw [← crcBytes_append, ← List.append_assoc]
      rfl
    rw [hrest, s.step_eq 0x01 [t.payload] _ crc_value rfl, hcrc]
    cases t with
    | cram =>
      change (s.readData s.config.cram .cramEndToken >>= fun cram => _) _ = _
      rw [Parse.bind_apply, s.readData_append _ _ h]
      rfl
    | bram =>
      change (s.readData s.config.bram .bramEndToken >>= fun bram => _) _ = _
      rw [Parse.bind_apply, s.readData_append _ _ h]
      rfl

/-- The reader in front of a checksum. -/
theorem step_check (s : Parser) (v : BitVec 16) (rest : List Byte) (crc_value : BitVec 16) :
    s.step ⟨0x22 :: wordBytes v ++ rest, crc_value⟩ =
      if crcBytes crc_value (0x22 :: wordBytes v) = 0 then .ok (.inl s, ⟨rest, 0⟩)
      else .error .crcFailed := by
  refine (s.step_word rfl v rest crc_value).trans ?_
  change Parse.onState (fun crc => if crc ≠ 0 then .error ReadError.crcFailed
    else .ok (Sum.inl s, crc)) _ = _
  unfold Parse.onState
  generalize crcBytes crc_value (0x22 :: wordBytes v) = crc
  dsimp only
  by_cases hcrc : crc = 0
  · rw [if_neg (not_not.mpr hcrc), if_pos hcrc, hcrc]
  · rw [if_pos hcrc, if_neg hcrc]

end Parser

/-! ## Sequences of commands -/

/-- Each command of a sequence fits when its turn comes. -/
def FitsAll (s : Parser) : List Command → Prop
  | [] => True
  | c :: cs => c.Fits s ∧ FitsAll (c.run s) cs

theorem fitsAll_append {s : Parser} {cs ds : List Command} :
    FitsAll s (cs ++ ds) ↔ FitsAll s cs ∧ FitsAll (cs.foldl Command.run s) ds := by
  induction cs generalizing s with
  | nil => simp [FitsAll]
  | cons c cs ih => simp only [List.cons_append, FitsAll, ih, List.foldl_cons, and_assoc]

/-- From every state with `P`, the commands fit, and they lead to a state with `Q`. -/
def Leads (P : Parser → Prop) (cs : List Command) (Q : Parser → Prop) : Prop :=
  ∀ s, P s → FitsAll s cs ∧ Q (cs.foldl Command.run s)

namespace Leads

variable {P Q R : Parser → Prop}

theorem nil (h : ∀ s, P s → Q s) : Leads P [] Q := fun s hs => ⟨trivial, h s hs⟩

theorem single {c : Command} (h : ∀ s, P s → c.Fits s ∧ Q (c.run s)) : Leads P [c] Q :=
  fun s hs => ⟨⟨(h s hs).1, trivial⟩, (h s hs).2⟩

/-- A command that is only written under a condition. -/
theorem ite {p : Prop} [Decidable p] {cs : List Command} (hpos : p → Leads P cs Q)
    (hneg : ¬p → ∀ s, P s → Q s) : Leads P (if p then cs else []) Q := by
  split_ifs with hp
  · exact hpos hp
  · exact nil (hneg hp)

theorem append {cs ds : List Command} (hcs : Leads P cs Q) (hds : Leads Q ds R) :
    Leads P (cs ++ ds) R := by
  intro s hs
  obtain ⟨hfits, hq⟩ := hcs s hs
  obtain ⟨hfits', hr⟩ := hds _ hq
  rw [List.foldl_append]
  exact ⟨fitsAll_append.mpr ⟨hfits, hfits'⟩, hr⟩

/-- A loop that has done `k` turns has `P k`. -/
theorem range {P : ℕ → Parser → Prop} {f : ℕ → List Command} {n : ℕ}
    (h : ∀ k < n, Leads (P k) (f k) (P (k + 1))) : Leads (P 0) ((List.range n).flatMap f) (P n) := by
  induction n with
  | zero => exact nil fun _ => id
  | succ n ih =>
    rw [List.range_succ, List.flatMap_append, List.flatMap_cons, List.flatMap_nil, List.append_nil]
    exact (ih fun k hk => h k (by omega)).append (h n (by omega))

end Leads

/-- The reader in front of a sequence of commands. -/
theorem mainLoop_commands {s : Parser} {cs : List Command} (h : FitsAll s cs) (rest : List Byte)
    (crc_value : BitVec 16) :
    mainLoop s ⟨cs.flatMap Command.bytes ++ rest, crc_value⟩ =
      mainLoop (cs.foldl Command.run s) ⟨rest, cs.foldl Command.crc crc_value⟩ := by
  induction cs generalizing s crc_value with
  | nil => rfl
  | cons c cs ih =>
    rw [List.flatMap_cons, List.append_assoc, List.foldl_cons, List.foldl_cons, ← ih h.2]
    exact Parse.loop_of_inl Parser.consuming (Parser.step_bytes h.1 _ crc_value)

/-- The end of a bitstream: the checksum and the command that wakes the chip up. -/
def ending (crc_value : BitVec 16) : List Byte := 0x22 :: wordBytes crc_value ++ [0x01, 0x06]

/-- The reader in front of the end of a bitstream. -/
theorem mainLoop_ending (s : Parser) (v : BitVec 16) (rest : List Byte) (crc_value : BitVec 16) :
    mainLoop s ⟨ending v ++ rest, crc_value⟩ =
      if crcBytes crc_value (0x22 :: wordBytes v) = 0 then
        .ok (s.config, ⟨rest, crcBytes 0 [0x01, 0x06]⟩)
      else .error .crcFailed := by
  have hending : ending v ++ rest = 0x22 :: wordBytes v ++ ([0x01, 0x06] ++ rest) :=
    List.append_assoc _ _ _
  have hcheck := s.step_check v ([0x01, 0x06] ++ rest) crc_value
  rw [hending]
  split_ifs at hcheck ⊢ with hcrc
  · refine (Parse.loop_of_inl Parser.consuming hcheck).trans ?_
    exact Parse.loop_of_inr Parser.consuming (s.step_eq 0x01 [0x06] rest 0 rfl)
  · exact Parse.loop_of_error Parser.consuming hcheck

end GoBoard.Icepack
