import GoBoard.SevenSegCounter
import GoBoard.VgaSwitches.Top
import GoBoard.VgaUart.Picture

/-!
# Designs that do the same thing

`VGA_Switches` and `VGA_UART` have the same position counters and the same porches, but the second
one compares with a position less. So its sync pulses are those of the first, one column earlier on
every line and one row earlier in every frame (`sync_skew`). `VGA_Switches` and `Seven_Seg_Counter`
have the same debouncer, and both act on a release of the switch: one toggles a colour, the other
counts. So the colour is the parity of the digit (`toggle_eq_parity`).
-/

namespace GoBoard

open Clocked (eq_of_low_iff)

/-- The sync outputs of `VGA_UART` are those of `VGA_Switches`, the horizontal one a column earlier
and the vertical one a row earlier, whatever the inputs of the two designs. -/
theorem sync_skew (TX : Bool) (rx : ℕ → Bool) (sw : ℕ → VgaSwitches.Switches) (t : ℕ) :
    ((VgaUart.topVga TX).run rx (t + 1)).vga.VGA_HS =
      (VgaSwitches.topVga.run sw (t + 1 + 1)).vga.VGA_HS ∧
    ((VgaUart.topVga TX).run rx (t + 1)).vga.VGA_VS =
      (VgaSwitches.topVga.run sw (t + 1 + 800)).vga.VGA_VS := by
  have hH : (VgaSwitches.topVga.run sw (t + 1 + 1)).vga.VGA_HS = false ↔
      658 ≤ (t + 1) % 800 ∧ (t + 1) % 800 < 750 := by
    rw [VgaSwitches.VGA_HS_succ, VgaSwitches.w_HSync_Porch_eq_false]
    exact Iff.rfl
  have hV : (VgaSwitches.topVga.run sw (t + 800 + 1)).vga.VGA_VS = false ↔
      490 ≤ (t + 800) / 800 % 525 ∧ (t + 800) / 800 % 525 < 492 := by
    rw [VgaSwitches.VGA_VS_succ, VgaSwitches.w_VSync_Porch_eq_false]
    exact Iff.rfl
  rw [Nat.add_right_comm t 1 800]
  constructor
  · apply eq_of_low_iff
    rw [VgaUart.VGA_HS_eq_false, hH]
    omega
  · apply eq_of_low_iff
    rw [VgaUart.VGA_VS_eq_false, hV]
    omega

/-- The toggle of the first switch in `VGA_Switches` is the parity of the digit that
`Seven_Seg_Counter` has on the same switch, at every edge and whatever the switches do. -/
theorem toggle_eq_parity (w : ℕ → VgaSwitches.Switches) (e : ℕ) :
    (VgaSwitches.topVga.run w e).w_SW.SW1.toNat =
      (sevenSegCounter.run (fun k => (w k).SW1) e).r_Count1.toNat % 2 := by
  rw [VgaSwitches.run_w_SW]
  cases e with
  | zero => rfl
  | succ e =>
    rw [r_Count1_toNat, Nat.mod_mod_of_dvd _ (by decide)]
    exact Switch.o_SW_toNat 250000 _ e

end GoBoard
