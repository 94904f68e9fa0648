import Mathlib.Logic.Basic

/-!
# The registers of `Pattern_Generator`, and the display connector

Both designs end in a module `Pattern_Generator` with the same registers, one per sync signal and
three bits per colour channel, and drive the pins of the display connector with them. The modules
differ in their inputs, in the declared initial sync registers, and in the edge; each design has its
own. The pins show the registers exactly (`pins_eq_iff`), and a colour pin is high exactly when the
registered colour is not black (`lit_pins`).
-/

namespace GoBoard.Vga

/-- The registers of either `Pattern_Generator`. -/
structure PatternGenerator where
  o_HSync_PG : Bool
  o_VSync_PG : Bool
  Red : BitVec 3
  Green : BitVec 3
  Blue : BitVec 3
  deriving DecidableEq, Repr

/-- The three colour registers. -/
structure Rgb where
  Red : BitVec 3
  Green : BitVec 3
  Blue : BitVec 3
  deriving DecidableEq, Repr

namespace Rgb

def black : Rgb := ⟨0, 0, 0⟩

def red : Rgb := ⟨0b111, 0, 0⟩

def green : Rgb := ⟨0, 0b111, 0⟩

def blue : Rgb := ⟨0, 0, 0b111⟩

end Rgb

/-- The registered colour. -/
def PatternGenerator.rgb (s : PatternGenerator) : Rgb := ⟨s.Red, s.Green, s.Blue⟩

/-- The display outputs of either `top_VGA`. -/
structure VgaPins where
  VGA_HS : Bool
  VGA_VS : Bool
  VGA_R0 : Bool
  VGA_R1 : Bool
  VGA_R2 : Bool
  VGA_G0 : Bool
  VGA_G1 : Bool
  VGA_G2 : Bool
  VGA_B0 : Bool
  VGA_B1 : Bool
  VGA_B2 : Bool
  deriving DecidableEq, Repr

/-- The `assign` statements that drive the display outputs. -/
def PatternGenerator.pins (s : PatternGenerator) : VgaPins where
  VGA_HS := s.o_HSync_PG
  VGA_VS := s.o_VSync_PG
  VGA_R0 := s.Red.getLsbD 0
  VGA_R1 := s.Red.getLsbD 1
  VGA_R2 := s.Red.getLsbD 2
  VGA_G0 := s.Green.getLsbD 0
  VGA_G1 := s.Green.getLsbD 1
  VGA_G2 := s.Green.getLsbD 2
  VGA_B0 := s.Blue.getLsbD 0
  VGA_B1 := s.Blue.getLsbD 1
  VGA_B2 := s.Blue.getLsbD 2

/-- One of the nine colour outputs is high. -/
def VgaPins.Lit (p : VgaPins) : Prop :=
  p.VGA_R0 = true ∨ p.VGA_R1 = true ∨ p.VGA_R2 = true ∨
  p.VGA_G0 = true ∨ p.VGA_G1 = true ∨ p.VGA_G2 = true ∨
  p.VGA_B0 = true ∨ p.VGA_B1 = true ∨ p.VGA_B2 = true

instance (p : VgaPins) : Decidable p.Lit := inferInstanceAs (Decidable (_ ∨ _))

/-- A 3-bit colour is determined by the three pins. -/
theorem eq_iff_getLsbD (x y : BitVec 3) : x = y ↔
    x.getLsbD 0 = y.getLsbD 0 ∧ x.getLsbD 1 = y.getLsbD 1 ∧ x.getLsbD 2 = y.getLsbD 2 := by
  revert x y
  decide

/-- The outputs of two generators agree exactly when their registers do. -/
theorem PatternGenerator.pins_eq_iff (s s' : PatternGenerator) : s.pins = s'.pins ↔
    s.o_HSync_PG = s'.o_HSync_PG ∧ s.o_VSync_PG = s'.o_VSync_PG ∧ s.rgb = s'.rgb := by
  unfold PatternGenerator.pins PatternGenerator.rgb
  rw [VgaPins.mk.injEq, Rgb.mk.injEq, eq_iff_getLsbD s.Red, eq_iff_getLsbD s.Green,
    eq_iff_getLsbD s.Blue]
  simp only [and_assoc]

/-- A colour register is zero exactly when its three pins are low. -/
theorem eq_zero_iff_getLsbD (x : BitVec 3) : x = 0 ↔
    ¬x.getLsbD 0 = true ∧ ¬x.getLsbD 1 = true ∧ ¬x.getLsbD 2 = true := by
  revert x
  decide

/-- A colour output is high exactly when the registered colour is not black. -/
theorem PatternGenerator.lit_pins (s : PatternGenerator) : s.pins.Lit ↔ s.rgb ≠ Rgb.black := by
  unfold VgaPins.Lit PatternGenerator.pins PatternGenerator.rgb Rgb.black
  rw [← not_iff_not, not_not, Rgb.mk.injEq, eq_zero_iff_getLsbD, eq_zero_iff_getLsbD,
    eq_zero_iff_getLsbD]
  simp only [not_or, and_assoc]

end GoBoard.Vga
