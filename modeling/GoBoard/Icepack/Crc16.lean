import GoBoard.Icepack.Config

/-!
# `update_crc16`

The checksum of a bitstream is the remainder of the polynomial `0x1021`, which a byte updates with
its bits from the top (`updateCrc16_eq`).
-/

namespace GoBoard.Icepack

open Coding

/-- `update_crc16`. -/
def updateCrc16 (crc : BitVec 16) (byte : Byte) : BitVec 16 :=
  [7, 6, 5, 4, 3, 2, 1, 0].foldl (fun crc i =>
    let xor_value : BitVec 16 :=
      if (crc >>> 15) ^^^ ((byte >>> i) &&& 1).setWidth 16 ≠ 0 then 0x1021 else 0
    crc <<< 1 ^^^ xor_value) crc

/-- The checksum after a sequence of bytes. -/
def crcBytes (crc : BitVec 16) (bytes : List Byte) : BitVec 16 := bytes.foldl updateCrc16 crc

@[simp] theorem crcBytes_nil (crc : BitVec 16) : crcBytes crc [] = crc := rfl

@[simp] theorem crcBytes_cons (crc : BitVec 16) (b : Byte) (bytes : List Byte) :
    crcBytes crc (b :: bytes) = crcBytes (updateCrc16 crc b) bytes := rfl

theorem crcBytes_append (crc : BitVec 16) (xs ys : List Byte) :
    crcBytes crc (xs ++ ys) = crcBytes (crcBytes crc xs) ys :=
  List.foldl_append

/-- The condition of the update, as bits. -/
theorem xor_ne_zero_iff (crc : BitVec 16) (byte : Byte) (i : ℕ) :
    (crc >>> 15) ^^^ ((byte >>> i) &&& 1).setWidth 16 ≠ 0 ↔
      (crc.msb ^^ byte.getLsbD i) = true := by
  have hcrc : crc >>> 15 = if crc.msb then 1 else 0 := by
    apply BitVec.eq_of_getLsbD_eq
    intro k hk
    rw [BitVec.getLsbD_ushiftRight, BitVec.msb_eq_getLsbD_last]
    by_cases h : k = 0
    · subst h
      cases hb : crc.getLsbD 15 <;> simp
    · rw [BitVec.getLsbD_of_ge crc _ (by omega)]
      cases crc.getLsbD (16 - 1) <;> simp [BitVec.getLsbD_one, h]
  have hbyte : ((byte >>> i) &&& 1).setWidth 16 = if byte.getLsbD i then 1 else 0 := by
    change ((byte >>> i) &&& 1#8).setWidth 16 = _
    rw [BitVec.and_one_eq_setWidth_ofBool_getLsbD, BitVec.getLsbD_ushiftRight, Nat.add_zero]
    cases byte.getLsbD i <;> rfl
  rw [hcrc, hbyte]
  cases crc.msb <;> cases byte.getLsbD i <;> decide

/-- A byte updates the checksum with its bits from the top. -/
theorem updateCrc16_eq (crc : BitVec 16) (byte : Byte) :
    updateCrc16 crc byte = crcBits 0x1021 crc (wordBits byte) := by
  have hbits : wordBits byte = [7, 6, 5, 4, 3, 2, 1, 0].map byte.getLsbD := by
    simp [wordBits, List.range_succ, BitVec.getMsbD_eq_getLsbD]
  unfold updateCrc16 crcBits
  simp only [xor_ne_zero_iff]
  rw [hbits, List.foldl_map]
  rfl

theorem crcBytes_eq (crc : BitVec 16) (bytes : List Byte) :
    crcBytes crc bytes = crcBits 0x1021 crc (bytes.flatMap wordBits) := by
  induction bytes generalizing crc with
  | nil => rfl
  | cons b bytes ih => rw [crcBytes_cons, ih, updateCrc16_eq, List.flatMap_cons, crcBits_append]

/-- The two bytes of a checksum clear it. -/
theorem crcBytes_self (crc : BitVec 16) :
    crcBytes crc [crc.extractLsb' 8 8, crc.extractLsb' 0 8] = 0 := by
  have hbits : [crc.extractLsb' 8 8, crc.extractLsb' 0 8].flatMap wordBits = wordBits crc := by
    simp [wordBits, List.range_succ, BitVec.getMsbD_eq_getLsbD]
  rw [crcBytes_eq, hbits]
  exact crcBits_self _ crc

/-- Checksums that differ stay different under the same bytes. -/
theorem crcBytes_injective {a b : BitVec 16} (bytes : List Byte)
    (h : crcBytes a bytes = crcBytes b bytes) : a = b := by
  rw [crcBytes_eq, crcBytes_eq] at h
  exact crcBits_injective (by decide) _ h

/-- One or two bytes that change, next to each other, change the checksum. -/
theorem crcBytes_burst (crc : BitVec 16) {bytes bytes' : List Byte}
    (hlen : bytes.length = bytes'.length) (h : bytes.length ≤ 2) (hne : bytes ≠ bytes') :
    crcBytes crc bytes ≠ crcBytes crc bytes' := by
  have hbits : bytes.flatMap wordBits ≠ bytes'.flatMap wordBits := fun heq =>
    hne (flatMap_wordBits_injective hlen heq)
  have hburst := crcBits_burst (show (0x1021 : BitVec 16).getLsbD 0 = true by decide) crc
    (by rw [length_flatMap_wordBits, length_flatMap_wordBits, hlen])
    (by rw [length_flatMap_wordBits]; omega) hbits []
  rw [List.append_nil, List.append_nil] at hburst
  rwa [crcBytes_eq, crcBytes_eq]

end GoBoard.Icepack
