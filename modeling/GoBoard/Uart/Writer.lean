import GoBoard.Clocked.Log
import GoBoard.Uart.Display
import GoBoard.Uart.Echo
import Mathlib.Data.List.Chain

/-!
# `UART_WRITE_BYTE`

The task of the test benches that writes a byte on the line holds its start bit for longer than the
other bits: 9600 ns and 8600 ns, which are `S = 240` and `P = 215` edges of the clock, when the
receiver counts `N = 217`. So the line is not one of 8N1 frames. Under inequalities between the three
lengths, which these numbers meet (`writerFits_design`), it is readable all the same
(`readable_writes`), and the receiver reports whatever bytes a test bench writes, after whatever
pauses, and has each of them when the task returns (`writer_reports`). The long start bit leaves the
transmitter enough time between two bytes written one after the other, so the echo is complete too
(`writes_echoed`).
-/

namespace GoBoard.Uart

open Clocked (log)
open Serial (Spaced Follows Separated Transmits)

/-! ## Waveforms in pieces -/

/-- A waveform in pieces, each a level and the number of samples for which it lasts. The line is high
when the pieces are over. -/
def play : List (Bool × ℕ) → ℕ → Bool
  | [], _ => true
  | (v, d) :: ps, e => if e < d then v else play ps (e - d)

@[simp] theorem play_cons (v : Bool) (d : ℕ) (ps : List (Bool × ℕ)) (e : ℕ) :
    play ((v, d) :: ps) e = if e < d then v else play ps (e - d) := rfl

/-- In pieces of one length the quotient by the length tells the piece. -/
theorem play_range (f : ℕ → Bool) {d : ℕ} (hd : 0 < d) (k n : ℕ) (ps : List (Bool × ℕ)) (e : ℕ) :
    play ((List.range' k n).map (fun i => (f i, d)) ++ ps) e =
      if e < n * d then f (k + e / d) else play ps (e - n * d) := by
  induction n generalizing k e with
  | zero => simp
  | succ n ih =>
    rw [List.range'_succ, List.map_cons, List.cons_append, play_cons, ih, Nat.add_one_mul]
    split_ifs with hfirst hrest hall hall
    · rw [Nat.div_eq_of_lt hfirst, Nat.add_zero]
    · omega
    · have hdiv : e / d = (e - d) / d + 1 := Nat.div_eq_sub_div hd (Nat.le_of_not_lt hfirst)
      rw [hdiv, Nat.add_assoc, Nat.add_comm 1]
    · omega
    · omega
    · congr 1
      omega

/-! ## The task -/

section Writer

variable (S P : ℕ)

/-- The task `UART_WRITE_BYTE`, with `S` edges for the start bit and `P` for the others. -/
def uartWriteByte (i_Data : BitVec 8) : List (Bool × ℕ) :=
  (false, S) :: ((List.range' 0 8).map (fun ii => (i_Data.getLsbD ii, P)) ++ [(true, P)])

/-- A test bench that writes bytes, each after a pause. -/
def writes (ws : List (ℕ × BitVec 8)) : List (Bool × ℕ) :=
  ws.flatMap fun w => (true, w.1) :: uartWriteByte S P w.2

/-- The edges from which on the start bits of these bytes are on the line. -/
def starts : ℕ → List (ℕ × BitVec 8) → List (ℕ × BitVec 8)
  | _, [] => []
  | t, (pause, b) :: ws => (t + pause, b) :: starts (t + pause + (S + 9 * P)) ws

theorem map_snd_starts (t : ℕ) (ws : List (ℕ × BitVec 8)) :
    (starts S P t ws).map Prod.snd = ws.map Prod.snd := by
  induction ws generalizing t with
  | nil => rfl
  | cons w ws ih => rw [starts, List.map_cons, ih, List.map_cons]

/-- The level `k` edges after the start bit of a byte begins. -/
def writeLevel (b : BitVec 8) (k : ℕ) : Bool :=
  if k < S then false else if k < S + 8 * P then b.getLsbD ((k - S) / P) else true

variable {S P : ℕ}

/-- No start bit begins before the first call of the task. -/
theorem le_of_mem_starts {ws : List (ℕ × BitVec 8)} {t : ℕ} {f : ℕ × BitVec 8}
    (hf : f ∈ starts S P t ws) : t ≤ f.1 := by
  induction ws generalizing t with
  | nil => cases hf
  | cons w ws ih =>
    rcases List.mem_cons.mp hf with rfl | hf
    · exact Nat.le_add_right t w.1
    · have := ih hf
      omega

/-- Consecutive start bits are as far apart as the task takes. -/
theorem spaced_starts (ws : List (ℕ × BitVec 8)) (t : ℕ) :
    Spaced (S + 9 * P) (starts S P t ws) := by
  induction ws generalizing t with
  | nil => exact List.isChain_nil
  | cons w ws ih =>
    exact List.isChain_cons.mpr
      ⟨fun g hg => le_of_mem_starts (List.mem_of_mem_head? hg), ih _⟩

variable (hP : 0 < P)
include hP

/-- The line while a byte is written, and afterwards. -/
theorem play_uartWriteByte (b : BitVec 8) (ps : List (Bool × ℕ)) (k : ℕ) :
    play (uartWriteByte S P b ++ ps) k =
      if k < S + 9 * P then writeLevel S P b k else play ps (k - (S + 9 * P)) := by
  unfold uartWriteByte writeLevel
  rw [List.cons_append, play_cons, List.append_assoc, play_range b.getLsbD hP, List.singleton_append,
    play_cons, Nat.zero_add]
  split_ifs
  all_goals first | rfl | omega | skip
  congr 1
  omega

/-- The line of a test bench that pauses, writes a byte, and goes on. -/
theorem play_writes_cons (pause : ℕ) (b : BitVec 8) (ws : List (ℕ × BitVec 8)) (k : ℕ) :
    play (writes S P ((pause, b) :: ws)) k =
      if k < pause then true
      else if k < pause + (S + 9 * P) then writeLevel S P b (k - pause)
      else play (writes S P ws) (k - (pause + (S + 9 * P))) := by
  unfold writes
  rw [List.flatMap_cons, List.cons_append, play_cons, play_uartWriteByte hP]
  split_ifs
  all_goals first | rfl | omega | skip
  congr 1
  omega

/-- The line has the levels of a byte where the byte is written. -/
theorem play_writes_of_mem {ws : List (ℕ × BitVec 8)} {t : ℕ} {f : ℕ × BitVec 8}
    (hf : f ∈ starts S P t ws) {k : ℕ} (hk : k < S + 9 * P) :
    play (writes S P ws) (f.1 + k - t) = writeLevel S P f.2 k := by
  induction ws generalizing t with
  | nil => cases hf
  | cons w ws ih =>
    rw [play_writes_cons hP]
    rcases List.mem_cons.mp hf with rfl | hf
    · rw [if_neg (by dsimp only; omega), if_pos (by dsimp only; omega)]
      congr 1
      dsimp only
      omega
    · have hle := le_of_mem_starts hf
      rw [if_neg (by omega), if_neg (by omega), ← ih hf]
      congr 1
      omega

/-- A low level belongs to the start bit or to a data bit of a byte. -/
theorem exists_of_play_writes {ws : List (ℕ × BitVec 8)} {t e : ℕ} (hte : t ≤ e)
    (he : play (writes S P ws) (e - t) = false) :
    ∃ f ∈ starts S P t ws, f.1 ≤ e ∧ e < f.1 + (S + 8 * P) := by
  induction ws generalizing t with
  | nil => cases he
  | cons w ws ih =>
    rw [play_writes_cons hP] at he
    split_ifs at he with hpause htask
    · unfold writeLevel at he
      refine ⟨_, List.mem_cons_self, ?_, ?_⟩
      · dsimp only
        omega
      · dsimp only
        split_ifs at he
        all_goals omega
    · obtain ⟨f, hf, hle, hlt⟩ := ih (t := t + w.1 + (S + 9 * P)) (by omega) (by
        rw [← he]
        congr 1
        omega)
      exact ⟨f, List.mem_cons_of_mem _ hf, hle, hlt⟩

end Writer

/-! ## The receiver -/

/-- The start bit is low where the receiver samples it, every data bit is on the line where the
receiver samples it, and the receiver is armed again between the data bits and the next start. -/
structure WriterFits (N S P : ℕ) : Prop where
  mid : 1 + half N < S
  data : ∀ i < 8, S + i * P ≤ 1 + half N + (i + 1) * N ∧
    1 + half N + (i + 1) * N < S + (i + 1) * P
  low : S + 8 * P ≤ half N + 9 * N + 3
  armed : half N + 9 * N + 3 ≤ S + 9 * P

/-- The numbers of the test benches and of the designs. -/
theorem writerFits_design : WriterFits 217 240 215 := ⟨by decide, by decide, by decide, by decide⟩

/-- The line of a test bench is readable. -/
theorem readable_writes {N S P : ℕ} (h : WriterFits N S P) (ws : List (ℕ × BitVec 8)) :
    Readable N (play (writes S P ws)) {f | f ∈ starts S P 0 ws} := by
  have hP : 0 < P := by
    have := h.data 0 (by decide)
    omega
  have hmid := h.mid
  have hlow := h.low
  have harmed := h.armed
  have hlevel {f : ℕ × BitVec 8} (hf : f ∈ starts S P 0 ws) {k : ℕ} (hk : k < S + 9 * P) :=
    play_writes_of_mem hP hf hk
  simp only [Nat.sub_zero] at hlevel
  refine ⟨fun f hf => ?_, fun f hf => ?_, fun f hf i hi => ?_, fun e he => ?_, ?_⟩
  · have := hlevel hf (k := 0) (by omega)
    rwa [Nat.add_zero, writeLevel, if_pos (by omega)] at this
  · have := hlevel hf (k := 1 + half N) (by omega)
    rwa [← Nat.add_assoc, writeLevel, if_pos (by omega)] at this
  · -- The sample of data bit `i` falls into piece `i` after the start bit.
    obtain ⟨hle, hlt⟩ := h.data i hi
    have hmul : (i + 1) * P ≤ 8 * P := Nat.mul_le_mul_right P (by omega)
    have hdiv : (1 + half N + (i + 1) * N - S) / P = i :=
      Nat.div_eq_of_lt_le (Nat.le_sub_of_add_le' hle) (by omega)
    have := hlevel hf (k := 1 + half N + (i + 1) * N) (by omega)
    rw [writeLevel, if_neg (by omega), if_pos (by omega), hdiv] at this
    rw [← this]
    congr 1
    omega
  · obtain ⟨f, hf, hle, hlt⟩ := exists_of_play_writes hP (t := 0) (Nat.zero_le e) he
    exact ⟨f, hf, hle, by omega⟩
  · intro f hf g hg hfg
    have := (spaced_starts ws 0).separated (Nat.zero_le _) f hf g hg hfg
    omega

/-- What a test bench writes is received: for every sequence of bytes, each after any pause, the
receiver reports these bytes in order and nothing else, and has each of them from its last data bit
until at least half a bit after the task has returned. -/
theorem writer_reports {N S P : ℕ} (h1 : 1 ≤ N) (hN : N ≤ 256) (h : WriterFits N S P)
    (ws : List (ℕ × BitVec 8)) :
    (∀ E, (∀ f ∈ starts S P 0 ws, f.1 + 2 + half N + 9 * N < E) →
      log (reports N (play (writes S P ws))) E =
        (starts S P 0 ws).map fun f => (f.1 + 2 + half N + 9 * N, f.2)) ∧
    ∀ f ∈ starts S P 0 ws, ∀ e, f.1 + 2 + half N + 8 * N ≤ e →
      e ≤ f.1 + (S + 9 * P) + half N →
      ((uartRx N).run (play (writes S P ws)) e).o_RX_Byte = f.2 := by
  have hP : 0 < P := by
    have := h.data 0 (by decide)
    omega
  have hread := readable_writes h ws
  have hspaced := spaced_starts (S := S) (P := P) ws 0
  constructor
  · intro E hE
    have hall := ReportsAll.of_readable h1 hN hread (hspaced.pairwise_lt (by omega))
    have hafter : ∀ f : ℕ × BitVec 8,
        f.1 + (half N + 9 * N + 2) = f.1 + 2 + half N + 9 * N := fun f => by omega
    simp only [hafter] at hall
    refine hall.log_eq fun r hr => ?_
    obtain ⟨f, hf, rfl⟩ := List.mem_map.mp hr
    exact hE f hf
  · intro f hf e hcomplete hle
    -- No other byte is coming in then, and none is complete before the next start bit.
    have hother : ∀ g ∈ starts S P 0 ws, g = f ∨ g.1 + (S + 9 * P) ≤ f.1 ∨
        f.1 + (S + 9 * P) ≤ g.1 := fun g hg => by
      have hsep := hspaced.separated (Nat.zero_le _)
      rcases lt_trichotomy f.1 g.1 with hfg | hfg | hfg
      · exact .inr (.inr (hsep f hf g hg hfg))
      · exact .inl (hspaced.eq_of_start_eq (by omega) hg hf hfg.symm)
      · exact .inr (.inl (hsep g hg f hf hfg))
    have hquiet : ∀ g ∈ starts S P 0 ws, ¬Receiving N g.1 e := fun g hg hin => by
      unfold Receiving at hin
      rcases hother g hg with rfl | hle' | hle'
      all_goals omega
    rw [hread.o_RX_Byte_eq h1 hN hquiet]
    exact hread.held_eq_of_last h1 hf hcomplete fun g hg hfg => by
      rcases hother g hg with rfl | hle' | hle'
      all_goals omega

/-- The byte of the receiver's test bench, twice in a row. -/
theorem writer_reports_37 :
    (∀ E, (∀ f ∈ starts 240 215 0 [(1, 0x37), (0, 0x37)], f.1 + 2 + half 217 + 9 * 217 < E) →
      log (reports 217 (play (writes 240 215 [(1, 0x37), (0, 0x37)]))) E =
        (starts 240 215 0 [(1, 0x37), (0, 0x37)]).map fun f =>
          (f.1 + 2 + half 217 + 9 * 217, f.2)) ∧
    ∀ f ∈ starts 240 215 0 [(1, 0x37), (0, 0x37)], ∀ e, f.1 + 2 + half 217 + 8 * 217 ≤ e →
      e ≤ f.1 + (240 + 9 * 215) + half 217 →
      ((uartRx 217).run (play (writes 240 215 [(1, 0x37), (0, 0x37)])) e).o_RX_Byte = f.2 :=
  writer_reports (by decide) (by decide) writerFits_design [(1, 0x37), (0, 0x37)]

/-! ## The echo -/

/-- What a test bench writes is echoed, with or without pauses between the bytes, when the task takes
at least `10 N + 2` edges. -/
theorem writes_echoed {N S P : ℕ} (h2 : 2 ≤ N) (hN : N ≤ 256) (TX : Bool) (h : WriterFits N S P)
    (hlong : 10 * N + 2 ≤ S + 9 * P) (ws : List (ℕ × BitVec 8)) :
    ∃ gs, gs.map Prod.snd = ws.map Prod.snd ∧
      Transmits N gs (UartTxTop.pin N TX (play (writes S P ws))) := by
  have hspaced := spaced_starts (S := S) (P := P) ws 0
  have hsorted := hspaced.pairwise_lt (by omega)
  rw [← map_snd_starts S P 0 ws, echo_of_readable h2 hN TX (readable_writes h ws) hsorted]
  refine hspaced.imp fun f g hfg => ?_
  unfold Follows at hfg ⊢
  omega

/-- The byte of the test benches, twice without a pause, at the rates of the test benches and of the
designs. -/
theorem writes_echoed_37 :
    ∃ gs, gs.map Prod.snd = [((1, 0x37) : ℕ × BitVec 8), (0, 0x37)].map Prod.snd ∧
      Transmits 217 gs
        (UartTxTop.pin 217 false (play (writes 240 215 [(1, 0x37), (0, 0x37)]))) :=
  writes_echoed (by decide) (by decide) false writerFits_design (by decide) [(1, 0x37), (0, 0x37)]

end GoBoard.Uart
