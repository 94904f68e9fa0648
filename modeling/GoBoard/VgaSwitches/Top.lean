import GoBoard.Clocked.Latch
import GoBoard.Switch.Toggle
import GoBoard.Vga.Pattern
import GoBoard.Vga.SyncPulse

/-!
# `top_VGA` of `VGA_Switches`

The design shows a colour that four switches select. Each switch has its own `SW_toggle`, but
`Pattern_Generator` is wired to the switches themselves, and nothing reads the toggles. Its colour
registers are written at the edges where a switch is pressed, and hold at all others, since its
chain of `if`s has no final `else`. So after every edge they have the colour of the last edge at
which a switch was pressed (`run_rgb`). The sync signals have the documented timing.
-/

namespace GoBoard.VgaSwitches

open Clocked (Machine latch)
open Switch (SwToggle swToggle)
open Vga (PatternGenerator Rgb SyncPulse VgaPins documented porch_eq_false syncPulse wholeArea)
open Video (Axis)

/-! ## The modules of the video path -/

/-- The output `o_H_Sync` of `Sync_Porch`. -/
def SyncPorch.o_H_Sync (i_HSync : Bool) (i_CountCol : BitVec 10) : Bool :=
  if i_CountCol.toNat < 640 + 18 ∨ i_CountCol.toNat > 800 - 50 - 1 then true else i_HSync

/-- The output `o_V_Sync` of `Sync_Porch`. -/
def SyncPorch.o_V_Sync (i_VSync : Bool) (i_CountRow : BitVec 10) : Bool :=
  if i_CountRow.toNat < 480 + 10 ∨ i_CountRow.toNat > 525 - 33 - 1 then true else i_VSync

/-- The declared initial registers of `Pattern_Generator`. -/
def patternInit : PatternGenerator where
  o_HSync_PG := false
  o_VSync_PG := false
  Red := 0
  Green := 0
  Blue := 0

/-- The `always @(posedge CLK)` block of `Pattern_Generator`. -/
def patternPosedge (s : PatternGenerator) (i_SW1 i_SW2 i_SW3 i_SW4 i_HSync i_VSync : Bool) :
    PatternGenerator :=
  let s := { s with o_HSync_PG := i_HSync, o_VSync_PG := i_VSync }
  if i_SW1 then
    { s with
      Red := if i_HSync && i_VSync then 0b111 else 0
      Green := 0
      Blue := 0 }
  else if i_SW2 then
    { s with
      Red := 0
      Green := if i_HSync && i_VSync then 0b111 else 0
      Blue := 0 }
  else if i_SW3 then
    { s with
      Red := 0
      Green := 0
      Blue := if i_HSync && i_VSync then 0b111 else 0 }
  else if i_SW4 then
    { s with Red := 0, Green := 0, Blue := 0 }
  else
    -- No branch of the source is taken: the colour registers hold.
    s

/-! ## Switches -/

/-- The levels of the four switch inputs. -/
structure Switches where
  SW1 : Bool
  SW2 : Bool
  SW3 : Bool
  SW4 : Bool
  deriving DecidableEq, Repr

/-- One of the switches. -/
inductive SW
  | SW1
  | SW2
  | SW3
  | SW4
  deriving DecidableEq, Repr

/-- The pressed switch that comes first in the chain. -/
def Switches.first (i : Switches) : Option SW :=
  if i.SW1 then some .SW1 else if i.SW2 then some .SW2 else if i.SW3 then some .SW3
  else if i.SW4 then some .SW4 else none

/-- The colour that a switch selects. -/
def SW.colour : SW → Rgb
  | .SW1 => .red
  | .SW2 => .green
  | .SW3 => .blue
  | .SW4 => .black

/-- Every switch has a colour of its own. -/
theorem SW.colour_eq_iff {k k' : SW} : k.colour = k'.colour ↔ k = k' := by
  cases k <;> cases k' <;> decide

/-- Only `SW4` selects black. -/
theorem SW.colour_ne_black {k : SW} (hk : k ≠ .SW4) : k.colour ≠ .black := by
  intro h
  exact hk (SW.colour_eq_iff.mp (h.trans rfl))

section Pattern

variable (s : PatternGenerator) (i : Switches) (i_HSync i_VSync : Bool)

@[simp] theorem patternPosedge_HSync :
    (patternPosedge s i.SW1 i.SW2 i.SW3 i.SW4 i_HSync i_VSync).o_HSync_PG = i_HSync := by
  unfold patternPosedge
  split_ifs <;> rfl

@[simp] theorem patternPosedge_VSync :
    (patternPosedge s i.SW1 i.SW2 i.SW3 i.SW4 i_HSync i_VSync).o_VSync_PG = i_VSync := by
  unfold patternPosedge
  split_ifs <;> rfl

/-- The registered colour is that of the first pressed switch where both sync inputs are high, and
black elsewhere. It holds while no switch is pressed. -/
theorem patternPosedge_rgb : (patternPosedge s i.SW1 i.SW2 i.SW3 i.SW4 i_HSync i_VSync).rgb =
    (i.first.map fun k => if i_HSync && i_VSync then k.colour else .black).getD s.rgb := by
  unfold patternPosedge Switches.first
  cases i_HSync && i_VSync
  · split_ifs <;> rfl
  · split_ifs <;> rfl

end Pattern

/-! ## The design -/

/-- The registers of the instances of `top_VGA`. -/
structure TopVga where
  inst1 : SwToggle
  inst2 : SwToggle
  inst3 : SwToggle
  inst4 : SwToggle
  PulseInst : SyncPulse
  Pattern_GenInst : PatternGenerator
  deriving DecidableEq, Repr

namespace TopVga

/-- The declared initial registers. -/
def init : TopVga where
  inst1 := SwToggle.init
  inst2 := SwToggle.init
  inst3 := SwToggle.init
  inst4 := SwToggle.init
  PulseInst := SyncPulse.init
  Pattern_GenInst := patternInit

/-- The wires `w_SW1` to `w_SW4`, the outputs of the toggles. -/
def w_SW (s : TopVga) : Switches := ⟨s.inst1.o_SW, s.inst2.o_SW, s.inst3.o_SW, s.inst4.o_SW⟩

/-- The wire `w_HSync_Porch`. -/
def w_HSync_Porch (s : TopVga) : Bool :=
  SyncPorch.o_H_Sync s.PulseInst.o_HSync s.PulseInst.o_CountCol

/-- The wire `w_VSync_Porch`. -/
def w_VSync_Porch (s : TopVga) : Bool :=
  SyncPorch.o_V_Sync s.PulseInst.o_VSync s.PulseInst.o_CountRow

/-- One clock edge of all instances. `Pattern_GenInst` is given the switches, not the toggles. -/
def posedge (s : TopVga) (i : Switches) : TopVga where
  inst1 := s.inst1.posedge 250000 i.SW1
  inst2 := s.inst2.posedge 250000 i.SW2
  inst3 := s.inst3.posedge 250000 i.SW3
  inst4 := s.inst4.posedge 250000 i.SW4
  PulseInst := s.PulseInst.posedge
  Pattern_GenInst :=
    patternPosedge s.Pattern_GenInst i.SW1 i.SW2 i.SW3 i.SW4 s.w_HSync_Porch s.w_VSync_Porch

/-- The outputs to the display connector. -/
def vga (s : TopVga) : VgaPins := s.Pattern_GenInst.pins

end TopVga

/-- `top_VGA`. -/
def topVga : Machine TopVga Switches := ⟨TopVga.init, TopVga.posedge⟩

section Run

variable (w : ℕ → Switches)

/-- The toggles run as they do alone, each on its own switch. -/
theorem run_w_SW (e : ℕ) : (topVga.run w e).w_SW =
    ⟨((swToggle 250000).run (fun k => (w k).SW1) e).o_SW,
      ((swToggle 250000).run (fun k => (w k).SW2) e).o_SW,
      ((swToggle 250000).run (fun k => (w k).SW3) e).o_SW,
      ((swToggle 250000).run (fun k => (w k).SW4) e).o_SW⟩ := by
  have h1 := topVga.run_component (swToggle 250000) TopVga.inst1 (fun _ i => i.SW1) rfl
    (fun _ _ => rfl) w e
  have h2 := topVga.run_component (swToggle 250000) TopVga.inst2 (fun _ i => i.SW2) rfl
    (fun _ _ => rfl) w e
  have h3 := topVga.run_component (swToggle 250000) TopVga.inst3 (fun _ i => i.SW3) rfl
    (fun _ _ => rfl) w e
  have h4 := topVga.run_component (swToggle 250000) TopVga.inst4 (fun _ i => i.SW4) rfl
    (fun _ _ => rfl) w e
  unfold TopVga.w_SW
  rw [h1, h2, h3, h4]

/-- The counters run as they do alone. -/
theorem run_pulse (e : ℕ) : (topVga.run w e).PulseInst = syncPulse.run (fun _ => ()) e :=
  Machine.run_component _ syncPulse TopVga.PulseInst (fun _ _ => ()) rfl (fun _ _ => rfl) w e

/-- The horizontal sync signal is low in the documented horizontal pulse. -/
theorem w_HSync_Porch_eq_false (e : ℕ) : (topVga.run w e).w_HSync_Porch = false ↔
    documented.horizontal.InPulse (wholeArea.col e) := by
  unfold TopVga.w_HSync_Porch SyncPorch.o_H_Sync Axis.InPulse
  rw [porch_eq_false, SyncPulse.o_HSync_eq_false, run_pulse, (SyncPulse.run_at _ e).col]
  dsimp only [documented]
  omega

/-- The vertical sync signal is low in the documented vertical pulse. -/
theorem w_VSync_Porch_eq_false (e : ℕ) : (topVga.run w e).w_VSync_Porch = false ↔
    documented.vertical.InPulse (wholeArea.row e) := by
  unfold TopVga.w_VSync_Porch SyncPorch.o_V_Sync Axis.InPulse
  rw [porch_eq_false, SyncPulse.o_VSync_eq_false, run_pulse, (SyncPulse.run_at _ e).row]
  dsimp only [documented]
  omega

/-- Both sync signals are high exactly outside the retrace. -/
theorem porch_high_iff (e : ℕ) :
    ((topVga.run w e).w_HSync_Porch && (topVga.run w e).w_VSync_Porch) = true ↔
      ¬documented.Retrace e := by
  rw [Bool.and_eq_true, ← Bool.not_eq_false, ← Bool.not_eq_false, w_HSync_Porch_eq_false,
    w_VSync_Porch_eq_false]
  exact not_or.symm

/-- The sync outputs after an edge are the porch signals before it. -/
theorem VGA_HS_succ (e : ℕ) :
    (topVga.run w (e + 1)).vga.VGA_HS = (topVga.run w e).w_HSync_Porch :=
  patternPosedge_HSync _ _ _ _

theorem VGA_VS_succ (e : ℕ) :
    (topVga.run w (e + 1)).vga.VGA_VS = (topVga.run w e).w_VSync_Porch :=
  patternPosedge_VSync _ _ _ _

end Run

/-! ## The colour registers -/

/-- What edge `e` writes into the colour registers: nothing if no switch is pressed, black in the
retrace, and the colour of the first pressed switch elsewhere. -/
def paint (w : ℕ → Switches) (e : ℕ) : Option Rgb :=
  (w e).first.map fun k => if documented.Retrace e then .black else k.colour

/-- The colour registers are written by `paint` and by nothing else. -/
theorem run_rgb (w : ℕ → Switches) (e : ℕ) :
    (topVga.run w e).Pattern_GenInst.rgb = latch .black (paint w) e := by
  have hstep : ∀ (s : TopVga) (i : Switches), (topVga.posedge s i).Pattern_GenInst.rgb =
      (i.first.map fun k => if s.w_HSync_Porch && s.w_VSync_Porch then k.colour else .black).getD
        s.Pattern_GenInst.rgb := fun s i => patternPosedge_rgb s.Pattern_GenInst i _ _
  have h := topVga.run_eq_latch (fun s => s.Pattern_GenInst.rgb) _ hstep w e
  simp only [porch_high_iff, ite_not] at h
  exact h

end GoBoard.VgaSwitches
