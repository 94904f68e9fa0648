import GoBoard.SevenSeg
import GoBoard.Uart.RxByte

/-!
# `UART_RX_top`

The receiver and two digit encoders, which show the received byte in hexadecimal. On a readable line
the last whole byte is that of the last frame whose data bits are over (`Readable.held_eq`), and it
is on `o_RX_Byte` except while the data bits of a frame come in (`Readable.o_RX_Byte_eq`). So the
display shows the two digits of this byte, and of no other, at all other times
(`display_of_frames`).
-/

namespace GoBoard.Uart

open BinaryToSevenSeg (encode encode_injective)
open Clocked (Machine)
open Serial (Spaced Transmits lineOf transmits_lineOf)

/-! ## The byte between two frames -/

/-- Before edge `e` some of the data bits of the frame that starts at `t` are in, but not all. -/
def Receiving (N t e : ℕ) : Prop := t + 1 + half N + N < e ∧ e < t + 2 + half N + 8 * N

namespace Readable

variable {N : ℕ} {rx : ℕ → Bool} {F : Set (ℕ × BitVec 8)}

/-- The last whole byte is that of a frame until the next one is complete. -/
theorem held_eq_of_last (h : Readable N rx F) (h1 : 1 ≤ N) {t e : ℕ} {b : BitVec 8}
    (hb : (t, b) ∈ F) (hcomplete : t + 2 + half N + 8 * N ≤ e)
    (hlast : ∀ g ∈ F, t < g.1 → e < g.1 + 2 + half N + 8 * N) : held N rx e = b := by
  have hrep : Reported N rx t := (h.reported_iff t).mpr ⟨b, hb⟩
  calc held N rx e = held N rx (t + 2 + half N + 8 * N) := by
        refine held_eq_of_forall h1 hcomplete fun u hu => ?_
        obtain ⟨c, hc⟩ := (h.reported_iff u).mp hu
        have := hlast (u, c) hc
        dsimp only at this
        omega
    _ = sampled N rx t := hrep.held_succ
    _ = b := h.sampled_eq hb

/-- Before the first frame is complete there is no byte. -/
theorem held_eq_zero (h : Readable N rx F) (h1 : 1 ≤ N) {e : ℕ}
    (hnone : ∀ g ∈ F, e < g.1 + 2 + half N + 8 * N) : held N rx e = 0 := by
  calc held N rx e = held N rx 0 := by
        refine held_eq_of_forall h1 (Nat.zero_le e) fun u hu => ?_
        obtain ⟨c, hc⟩ := (h.reported_iff u).mp hu
        have := hnone (u, c) hc
        dsimp only at this
        omega
    _ = 0 := rfl

/-- Unless a frame is coming in, `o_RX_Byte` has the last whole byte. -/
theorem o_RX_Byte_eq (h : Readable N rx F) (h1 : 1 ≤ N) (hN : N ≤ 256) {e : ℕ}
    (hquiet : ∀ g ∈ F, ¬Receiving N g.1 e) : ((uartRx N).run rx e).o_RX_Byte = held N rx e := by
  rw [o_RX_Byte_eq_held_iff h1 hN]
  intro u hu i _ hlt hle
  obtain ⟨c, hc⟩ := (h.reported_iff u).mp hu
  have hsucc := Nat.add_one_mul i N
  have hmul := Nat.zero_le (i * N)
  exact absurd ⟨by dsimp only; omega, by dsimp only; omega⟩ (hquiet (u, c) hc)

end Readable

instance (N t e : ℕ) : Decidable (Receiving N t e) := inferInstanceAs (Decidable (_ ∧ _))

/-- The byte of the last of these frames whose data bits are over before edge `e`, and zero if there
is none. -/
def lastByte (N : ℕ) (fs : List (ℕ × BitVec 8)) (e : ℕ) : BitVec 8 :=
  match (fs.filter fun f => f.1 + 2 + half N + 8 * N ≤ e).getLast? with
  | some f => f.2
  | none => 0

/-- The last whole byte on a readable line. -/
theorem Readable.held_eq {N : ℕ} (h1 : 1 ≤ N) {rx : ℕ → Bool} {fs : List (ℕ × BitVec 8)}
    (h : Readable N rx {f | f ∈ fs}) (hfs : fs.Pairwise fun f g => f.1 < g.1) (e : ℕ) :
    held N rx e = lastByte N fs e := by
  unfold lastByte
  cases hlast : (fs.filter fun f => f.1 + 2 + half N + 8 * N ≤ e).getLast? with
  | none =>
    refine h.held_eq_zero h1 fun g hg => ?_
    have hnil := List.filter_eq_nil_iff.mp (List.getLast?_eq_none_iff.mp hlast) g hg
    simpa using hnil
  | some f =>
    obtain ⟨gs, hgs⟩ := List.getLast?_eq_some_iff.mp hlast
    obtain ⟨hf, hcomplete⟩ := List.mem_filter.mp (List.mem_of_getLast? hlast)
    refine h.held_eq_of_last h1 (b := f.2) hf (of_decide_eq_true hcomplete) fun g hg hfg => ?_
    -- A frame after the last of the complete ones is not complete.
    by_contra hno
    have hmem : g ∈ gs ++ [f] :=
      hgs ▸ List.mem_filter.mpr ⟨hg, decide_eq_true (Nat.le_of_not_lt hno)⟩
    have hsorted := List.pairwise_append.mp (hgs ▸ hfs.filter _)
    rcases List.mem_append.mp hmem with hin | hin
    · exact absurd (hsorted.2.2 g hin f List.mem_cons_self) hfg.not_gt
    · rw [List.mem_singleton.mp hin] at hfg
      exact absurd hfg (Nat.lt_irrefl _)

/-! ## The design -/

/-- The registers of the instances of `UART_RX_top`. -/
structure UartRxTop where
  UART_RX_Inst : UartRx
  binary_to_7seg_Inst1 : BinaryToSevenSeg
  binary_to_7seg_Inst2 : BinaryToSevenSeg
  deriving DecidableEq, Repr

namespace UartRxTop

/-- The declared initial registers. -/
def init : UartRxTop where
  UART_RX_Inst := UartRx.init
  binary_to_7seg_Inst1 := BinaryToSevenSeg.init
  binary_to_7seg_Inst2 := BinaryToSevenSeg.init

/-- The wire `w_RX_Byte`. -/
def w_RX_Byte (s : UartRxTop) : BitVec 8 := s.UART_RX_Inst.o_RX_Byte

/-- One clock edge of all instances. -/
def posedge (N : ℕ) (s : UartRxTop) (RX : Bool) : UartRxTop where
  UART_RX_Inst := s.UART_RX_Inst.posedge N RX
  binary_to_7seg_Inst1 := s.binary_to_7seg_Inst1.posedge (s.w_RX_Byte.extractLsb 7 4)
  binary_to_7seg_Inst2 := s.binary_to_7seg_Inst2.posedge (s.w_RX_Byte.extractLsb 3 0)

/-- The outputs `S1_A` to `S1_G`, from bit 6 to bit 0. -/
def S1 (s : UartRxTop) : BitVec 7 := s.binary_to_7seg_Inst1.pins

/-- The outputs `S2_A` to `S2_G`, from bit 6 to bit 0. -/
def S2 (s : UartRxTop) : BitVec 7 := s.binary_to_7seg_Inst2.pins

end UartRxTop

/-- `UART_RX_top` with `N` clock edges per bit; the design has `N = 217`. -/
def uartRxTop (N : ℕ) : Machine UartRxTop Bool := ⟨UartRxTop.init, UartRxTop.posedge N⟩

/-- The pins that show a byte as two hexadecimal digits. -/
def digits (b : BitVec 8) : BitVec 7 × BitVec 7 :=
  (~~~encode (b.extractLsb 7 4), ~~~encode (b.extractLsb 3 0))

/-- The two digits determine the byte. -/
theorem digits_injective : Function.Injective digits := by
  intro b c h
  have hhi := encode_injective (BitVec.not_inj.mp (congrArg Prod.fst h))
  have hlo := encode_injective (BitVec.not_inj.mp (congrArg Prod.snd h))
  have happ : ∀ b : BitVec 8, b = (b.extractLsb 7 4 ++ b.extractLsb 3 0).setWidth 8 := by decide
  calc b = (b.extractLsb 7 4 ++ b.extractLsb 3 0).setWidth 8 := happ b
    _ = (c.extractLsb 7 4 ++ c.extractLsb 3 0).setWidth 8 := by rw [hhi, hlo]
    _ = c := (happ c).symm

section Run

variable (N : ℕ) (rx : ℕ → Bool)

/-- The receiver runs as it does alone. -/
theorem uartRxTop_run_rx (e : ℕ) : ((uartRxTop N).run rx e).UART_RX_Inst = (uartRx N).run rx e :=
  Machine.run_component _ (uartRx N) UartRxTop.UART_RX_Inst (fun _ i => i) rfl (fun _ _ => rfl) rx e

/-- The display shows the byte that the receiver had one edge before. -/
theorem display_succ (e : ℕ) :
    (((uartRxTop N).run rx (e + 1)).S1, ((uartRxTop N).run rx (e + 1)).S2) =
      digits ((uartRx N).run rx e).o_RX_Byte := by
  rw [← uartRxTop_run_rx]
  rfl

end Run

/-- Unless a frame is coming in, the display of `UART_RX_top` shows the byte of the last frame whose
data bits are over, and no other. -/
theorem display_of_frames {N : ℕ} (h1 : 1 ≤ N) (hN : N ≤ 256) {rx : ℕ → Bool}
    {fs : List (ℕ × BitVec 8)} (h : Readable N rx {f | f ∈ fs})
    (hfs : fs.Pairwise fun f g => f.1 < g.1) {e : ℕ} (hquiet : ∀ f ∈ fs, ¬Receiving N f.1 e)
    (b : BitVec 8) :
    (((uartRxTop N).run rx (e + 1)).S1, ((uartRxTop N).run rx (e + 1)).S2) = digits b ↔
      lastByte N fs e = b := by
  rw [display_succ, h.o_RX_Byte_eq h1 hN hquiet, h.held_eq h1 hfs]
  exact digits_injective.eq_iff

/-- The first of two frames with two edges between them is shown when the second one starts. -/
theorem display_of_frames_41 :
    (((uartRxTop 217).run (lineOf 217 [(0, 0x41), (2172, 0x42)]) (2172 + 1)).S1,
      ((uartRxTop 217).run (lineOf 217 [(0, 0x41), (2172, 0x42)]) (2172 + 1)).S2) =
      digits 0x41 := by
  have hspaced : Spaced 2172 [(0, (0x41 : BitVec 8)), (2172, 0x42)] :=
    .cons_cons (Nat.le_refl 2172) (.singleton _)
  have htransmits :
      Transmits 217 [(0, 0x41), (2172, 0x42)] (lineOf 217 [(0, 0x41), (2172, 0x42)]) :=
    transmits_lineOf (by decide) (.cons_cons (by decide : 0 + 10 * 217 ≤ 2172) (.singleton _))
  have hread : Readable 217 (lineOf 217 [(0, 0x41), (2172, 0x42)])
      {f | f ∈ [(0, (0x41 : BitVec 8)), (2172, 0x42)]} := by
    refine readable_of_carries (by decide) htransmits.carries fun f hf g hg hfg => ?_
    have hwindow : half 217 + 9 * 217 + 3 ≤ 2172 := by decide
    exact (Nat.add_le_add_left hwindow f.1).trans (hspaced.separated (by decide) f hf g hg hfg)
  exact (display_of_frames (by decide) (by decide) hread (hspaced.pairwise_lt (by decide))
    (by decide) 0x41).mpr (by decide)

end GoBoard.Uart
