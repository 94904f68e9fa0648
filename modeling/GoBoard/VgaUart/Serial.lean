import GoBoard.Uart.Async
import GoBoard.Uart.Display
import GoBoard.VgaUart.Picture

/-!
# The serial side of `VGA_UART`

`top_VGA` contains the echo and the display of `UART_TX_top`: that part of its registers runs as the
smaller design does (`topVga_run_serial`). So what is known about the receiver and the echo holds of
`top_VGA`. A sender with its own clock determines the picture and the digits: unless a frame is
coming in, every visible position has the colour of the last byte that came in, and the digits are
its digits (`picture_of_async`). What this sender gets back on `TX` is complete if and only if the
edges that first see its frames are 2172 apart (`async_echo_iff`).
-/

namespace GoBoard.VgaUart

open Clocked (Machine)
open Serial (Spaced Follows Transmits lineOf transmits_lineOf)
open Uart

/-! ## The smaller design -/

/-- The registers of `top_VGA` that `UART_TX_top` has too. -/
def TopVga.serial (s : TopVga) : UartTxTop where
  UART_TX_Inst := s.UART_TX_Inst
  UART_RX_Inst := s.UART_RX_Inst
  binary_to_7seg_Inst1 := s.binary_to_7seg_Inst1
  binary_to_7seg_Inst2 := s.binary_to_7seg_Inst2

/-- The output `TX`: the multiplexer `w_TX_Active ? w_TX_Serial : 1'b1`. -/
def TopVga.TX (s : TopVga) : Bool := s.UART_TX_Inst.line

/-- The outputs `S1_A` to `S1_G`, from bit 6 to bit 0. -/
def TopVga.S1 (s : TopVga) : BitVec 7 := s.binary_to_7seg_Inst1.pins

/-- The outputs `S2_A` to `S2_G`, from bit 6 to bit 0. -/
def TopVga.S2 (s : TopVga) : BitVec 7 := s.binary_to_7seg_Inst2.pins

/-- The level of the pin `TX` of `top_VGA` before edge `e`. -/
def pin (TX : Bool) (rx : ℕ → Bool) (e : ℕ) : Bool := ((topVga TX).run rx e).TX

section Run

variable (TX : Bool) (rx : ℕ → Bool)

/-- The serial part runs as `UART_TX_top` does. -/
theorem topVga_run_serial (e : ℕ) :
    ((topVga TX).run rx e).serial = (uartTxTop 217 TX).run rx e :=
  Machine.run_component _ (uartTxTop 217 TX) TopVga.serial (fun _ i => i) rfl (fun _ _ => rfl) rx e

/-- Both designs drive the same level on `TX`. -/
theorem pin_eq : pin TX rx = UartTxTop.pin 217 TX rx := by
  funext e
  unfold UartTxTop.pin
  rw [← topVga_run_serial]
  rfl

/-- The digits show the byte that the receiver had one edge before. -/
theorem digits_succ (e : ℕ) :
    (((topVga TX).run rx (e + 1)).S1, ((topVga TX).run rx (e + 1)).S2) =
      digits ((uartRx 217).run rx e).o_RX_Byte := by
  rw [← topVga_run_rx TX]
  rfl

end Run

/-! ## A sender with its own clock -/

/-- The frames of the sender as the receiver sees them, in order. -/
def seen (fs : List (ℚ × BitVec 8)) : List (ℕ × BitVec 8) := fs.map fun f => (⌈f.1⌉₊, f.2)

section Async

variable {P : ℚ} {fs : List (ℚ × BitVec 8)} {w : ℚ → Bool}

theorem map_snd_seen (fs : List (ℚ × BitVec 8)) : (seen fs).map Prod.snd = fs.map Prod.snd := by
  unfold seen
  rw [List.map_map]
  rfl

variable (h : Transmits P fs w) (hP : |P - 217| ≤ 217 / 40) (hpos : ∀ f ∈ fs, 0 < f.1)
include h hP hpos

/-- The receiver can read the sender. -/
theorem readable_seen : Readable 217 (fun e : ℕ => w e) {f | f ∈ seen fs} := by
  have hread := readable_of_async (N := 217) h (by decide) hP hpos
  have hset : seenFrames fs = {f | f ∈ seen fs} := by
    ext g
    simp only [seenFrames, seen, Set.mem_ofPred_eq, List.mem_map, eq_comm]
  rwa [hset] at hread

/-- The frames are seen in the order in which they are sent. -/
theorem sorted_seen : (seen fs).Pairwise fun f g => f.1 < g.1 := by
  have h10 := one_le_ten_nsmul (N := 217) (by decide) hP
  unfold seen
  rw [List.pairwise_map]
  refine (h.spaced.pairwise_lt (by linarith)).imp_of_mem fun {f g} hf hg hfg => ?_
  have := rearmed_of_lt (N := 217) h (by decide) hP hpos hf hg hfg
  dsimp only
  omega

end Async

/-- The picture and the digits that a sender with its own clock brings about. Unless a frame is
coming in at edge `e`, the digits after it are those of the last byte that came in, and the colour at
a visible position is the one that this byte selects. -/
theorem picture_of_async (TX : Bool) {P : ℚ} {fs : List (ℚ × BitVec 8)} {w : ℚ → Bool}
    (h : Transmits P fs w) (hP : |P - 217| ≤ 217 / 40) (hpos : ∀ f ∈ fs, 0 < f.1) {e : ℕ}
    (hquiet : ∀ f ∈ fs, ¬Receiving 217 ⌈f.1⌉₊ e) :
    (((topVga TX).run (fun e : ℕ => w e) (e + 1)).S1,
      ((topVga TX).run (fun e : ℕ => w e) (e + 1)).S2) = digits (lastByte 217 (seen fs) e) ∧
    (e % 800 < 640 ∧ e / 800 % 525 < 480 →
      ((topVga TX).run (fun e : ℕ => w e) (e + 1)).Pattern_GenInst.rgb =
        colour (lastByte 217 (seen fs) e)) := by
  have hread := readable_seen h hP hpos
  have hquiet' : ∀ g ∈ seen fs, ¬Receiving 217 g.1 e := fun g hg => by
    obtain ⟨f, hf, rfl⟩ := List.mem_map.mp hg
    exact hquiet f hf
  have hbyte : ((uartRx 217).run (fun e : ℕ => w e) e).o_RX_Byte = lastByte 217 (seen fs) e := by
    rw [hread.o_RX_Byte_eq (by decide) (by decide) hquiet',
      hread.held_eq (by decide) (sorted_seen h hP hpos)]
  refine ⟨?_, fun hvisible => ?_⟩
  · rw [digits_succ, hbyte]
  · rw [rgb_of_visible TX _ hvisible, hbyte]

/-- A green picture, from a byte that a sender with a bit period of 215 edges has sent. -/
theorem picture_of_async_green :
    ((topVga true).run (fun e : ℕ => lineOf 215 [((1 / 2 : ℚ), (0x32 : BitVec 8))] e)
      (420000 + 1)).Pattern_GenInst.rgb = .green := by
  have hceil : ⌈(1 / 2 : ℚ)⌉₊ = 1 := (Nat.ceil_eq_iff (by decide)).mpr (by norm_num)
  have htransmits : Transmits (215 : ℚ) [((1 / 2 : ℚ), (0x32 : BitVec 8))]
      (lineOf 215 [((1 / 2 : ℚ), (0x32 : BitVec 8))]) :=
    transmits_lineOf (by norm_num) (.singleton _)
  have hquiet : ∀ f ∈ [((1 / 2 : ℚ), (0x32 : BitVec 8))], ¬Receiving 217 ⌈f.1⌉₊ 420000 := by
    intro f hf
    rw [List.mem_singleton.mp hf, hceil]
    decide
  have hshown := (picture_of_async true htransmits (by norm_num [abs_le]) (by simp) hquiet).2
    (by decide)
  unfold seen at hshown
  rw [List.map_singleton, hceil] at hshown
  exact hshown

/-- The sender gets a complete echo of a sequence if and only if the first edges of its consecutive
frames are far enough apart. -/
theorem echo_iff_seen (TX : Bool) {P : ℚ} {fs : List (ℚ × BitVec 8)} {w : ℚ → Bool}
    (h : Transmits P fs w) (hP : |P - 217| ≤ 217 / 40) (hpos : ∀ f ∈ fs, 0 < f.1) :
    (∃ gs, gs.map Prod.snd = fs.map Prod.snd ∧
      Transmits 217 gs (pin TX fun e : ℕ => w e)) ↔ Spaced (10 * 217 + 2) (seen fs) := by
  have hiff := echo_of_readable (by decide) (by decide) TX (readable_seen h hP hpos)
    (sorted_seen h hP hpos)
  rwa [map_snd_seen, ← pin_eq] at hiff

/-- A sender whose ten bits take `10 * 217 + 2` edges is seen that far apart. -/
theorem spaced_seen {P : ℚ} (hP : 10 * 217 + 2 ≤ 10 * P) {fs : List (ℚ × BitVec 8)}
    (h : Spaced (10 • P) fs) (hpos : ∀ f ∈ fs, 0 < f.1) : Spaced (10 * 217 + 2) (seen fs) := by
  have hten : (2172 : ℚ) ≤ 10 • P := by
    rw [nsmul_eq_mul]
    push_cast
    linarith
  unfold Spaced seen
  rw [List.isChain_map]
  refine ((h.pairwise (by linarith)).imp_of_mem fun {f g} hf _ hfg => ?_).isChain
  unfold Follows at hfg ⊢
  calc ⌈f.1⌉₊ + 2172 = ⌈f.1 + 2172⌉₊ := (Nat.ceil_add_ofNat (hpos f hf).le 2172).symm
    _ ≤ ⌈g.1⌉₊ := Nat.ceil_le_ceil (by linarith)

/-- The echo of `top_VGA` for a sender with its own clock. It is complete if and only if the first
edges of consecutive frames are `10 * 217 + 2` apart, so it is complete for every sequence that the
sender can send if and only if ten bits take the sender as long as that. -/
theorem async_echo_iff (TX : Bool) (P : ℚ) (hP : |P - 217| ≤ 217 / 40) :
    (∀ fs w, Transmits P fs w → (∀ f ∈ fs, 0 < f.1) →
      ((∃ gs, gs.map Prod.snd = fs.map Prod.snd ∧ Transmits 217 gs (pin TX fun e : ℕ => w e)) ↔
        Spaced (10 * 217 + 2) (seen fs))) ∧
    ((∀ fs w, Transmits P fs w → (∀ f ∈ fs, 0 < f.1) →
      ∃ gs, gs.map Prod.snd = fs.map Prod.snd ∧ Transmits 217 gs (pin TX fun e : ℕ => w e)) ↔
        10 * 217 + 2 ≤ 10 * P) := by
  refine ⟨fun fs w h hpos => echo_iff_seen TX h hP hpos, fun hall => ?_, fun hlong fs w h hpos =>
    (echo_iff_seen TX h hP hpos).mpr (spaced_seen hlong h.spaced hpos)⟩
  by_contra hshort
  push Not at hshort
  -- Two frames back to back, of which the second is seen at edge 2172 and the first after edge 0.
  have hP0 : 0 < P := by
    have := (abs_le.mp hP).1
    linarith
  have h : Transmits P [(2172 - 10 * P, (0x41 : BitVec 8)), (2172, 0x42)]
      (lineOf P [(2172 - 10 * P, 0x41), (2172, 0x42)]) := by
    refine transmits_lineOf hP0 (.cons_cons ?_ (.singleton _))
    unfold Follows
    rw [nsmul_eq_mul]
    push_cast
    linarith
  have hpos : ∀ f ∈ [(2172 - 10 * P, (0x41 : BitVec 8)), (2172, 0x42)], 0 < f.1 := by
    simp
    linarith
  have hspaced := (echo_iff_seen TX h hP hpos).mp (hall _ _ h hpos)
  have hfirst : 0 < ⌈2172 - 10 * P⌉₊ := Nat.ceil_pos.mpr (by linarith)
  have hfollows : ⌈2172 - 10 * P⌉₊ + (10 * 217 + 2) ≤ ⌈(2172 : ℚ)⌉₊ :=
    (List.isChain_cons_cons.mp hspaced).1
  rw [Nat.ceil_ofNat] at hfollows
  omega

/-- A sender that is slower than the design by one part in a thousand. -/
theorem async_echo_iff_slow :
    (∀ fs w, Transmits (217 + 1 / 5 : ℚ) fs w → (∀ f ∈ fs, 0 < f.1) →
      ∃ gs, gs.map Prod.snd = fs.map Prod.snd ∧ Transmits 217 gs (pin false fun e : ℕ => w e)) ↔
    10 * 217 + 2 ≤ 10 * (217 + 1 / 5 : ℚ) :=
  (async_echo_iff false (217 + 1 / 5) (by norm_num [abs_le])).2

end GoBoard.VgaUart
