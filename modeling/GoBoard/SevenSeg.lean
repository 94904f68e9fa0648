import GoBoard.Clocked.Machine

/-!
# `Binary_To_Seven_Seg`

The registered encoder of one hexadecimal digit for a seven segment display, the same file in every
design. The segments `A` to `G` are bits 6 down to 0 of the encoding, and the designs drive the
active-low pins of the display with their complement. For the digits up to nine these light the
segments that a reader expects (`lit_encode`).
-/

namespace GoBoard

/-- The registers of `Binary_To_Seven_Seg`. -/
structure BinaryToSevenSeg where
  hex_encoding : BitVec 7
  deriving DecidableEq, Repr

namespace BinaryToSevenSeg

/-- The declared initial register. -/
def init : BinaryToSevenSeg := ⟨0x00⟩

/-- The segment pattern of a digit: the `case` of the `always` block, which names all sixteen values
of the input. -/
def encode (binary_num : BitVec 4) : BitVec 7 :=
  match binary_num with
  | 0b0000#4 => 0x7E
  | 0b0001#4 => 0x30
  | 0b0010#4 => 0x6D
  | 0b0011#4 => 0x79
  | 0b0100#4 => 0x33
  | 0b0101#4 => 0x5B
  | 0b0110#4 => 0x5F
  | 0b0111#4 => 0x70
  | 0b1000#4 => 0x7F
  | 0b1001#4 => 0x7B
  | 0b1010#4 => 0x77
  | 0b1011#4 => 0x1F
  | 0b1100#4 => 0x4E
  | 0b1101#4 => 0x3D
  | 0b1110#4 => 0x4F
  | _ => 0x47 -- the one value left, `4'b1111`

/-- The `always @(posedge CLK)` block. -/
def posedge (_ : BinaryToSevenSeg) (binary_num : BitVec 4) : BinaryToSevenSeg :=
  ⟨encode binary_num⟩

/-- The display pins of one digit as the designs drive them, from `A` in bit 6 to `G` in bit 0: the
complements of `o_S1_A` to `o_S1_G`. -/
def pins (s : BinaryToSevenSeg) : BitVec 7 := ~~~s.hex_encoding

/-- Different digits show different patterns. -/
theorem encode_injective : Function.Injective encode := by
  intro a b
  revert a b
  decide

/-! ## The display -/

/-- The segments of a display. -/
inductive Segment
  | A
  | B
  | C
  | D
  | E
  | F
  | G
  deriving DecidableEq, Repr

/-- The bit of a segment in the encoding. -/
def Segment.bit : Segment → ℕ
  | A => 6
  | B => 5
  | C => 4
  | D => 3
  | E => 2
  | F => 1
  | G => 0

/-- The segment is lit: its pin is low. -/
def Lit (pins : BitVec 7) (x : Segment) : Prop := pins.getLsbD x.bit = false

instance (pins : BitVec 7) (x : Segment) : Decidable (Lit pins x) :=
  inferInstanceAs (Decidable (_ = _))

/-- The segments that show a decimal digit, from the top clockwise and the middle one last. -/
def digitSegments : ℕ → List Segment
  | 0 => [.A, .B, .C, .D, .E, .F]
  | 1 => [.B, .C]
  | 2 => [.A, .B, .D, .E, .G]
  | 3 => [.A, .B, .C, .D, .G]
  | 4 => [.B, .C, .F, .G]
  | 5 => [.A, .C, .D, .F, .G]
  | 6 => [.A, .C, .D, .E, .F, .G]
  | 7 => [.A, .B, .C]
  | 8 => [.A, .B, .C, .D, .E, .F, .G]
  | 9 => [.A, .B, .C, .D, .F, .G]
  | _ => []

/-- No decimal digit is shown by a blank display. -/
theorem digitSegments_ne_nil (d : BitVec 4) (hd : d.toNat ≤ 9) : digitSegments d.toNat ≠ [] := by
  revert d
  decide

/-- The pins for a decimal digit light its segments. -/
theorem lit_encode (d : BitVec 4) (hd : d.toNat ≤ 9) (x : Segment) :
    Lit (~~~encode d) x ↔ x ∈ digitSegments d.toNat := by
  revert d
  cases x <;> decide

end BinaryToSevenSeg

end GoBoard
