import GoBoard.Clocked.Log
import GoBoard.SevenSeg
import GoBoard.Uart.TxSpec
import Mathlib.Algebra.Order.BigOperators.Group.List
import Mathlib.Data.List.Chain

/-!
# `UART_TX_top`: the echo

The receiver's outputs are the transmitter's inputs, with no buffer between them and no way for the
transmitter to hold the receiver back. A report that comes while a frame is being sent is lost. The
receiver needs `half N + 9 N + 3` edges from one report to the next whatever the line does, more
than half of the transmitter's `10 N + 2`, so two consecutive reports are never both lost
(`echoSpec`).

The transmitter is back in `IDLE` only `10 N + 2` edges after a request, so the echo is complete
exactly when consecutive reports are that far apart (`echo_iff_spaced`). How the line brings the
reports about does not matter, which covers senders with a clock of their own (`echo_of_readable`). A
line that sends frames back to back brings a report every `10 N` edges, so the echo of a sequence of
frames needs two extra idle edges after every frame but the last (`echo_complete_iff`).
-/

namespace GoBoard.Uart

open Clocked (Machine log log_eq_of_mem_iff log_sublist mem_log)
open Serial (Carries Follows Separated Spaced Transmits)

/-! ## The design -/

/-- The registers of the instances of `UART_TX_top`. -/
structure UartTxTop where
  UART_TX_Inst : UartTx
  UART_RX_Inst : UartRx
  binary_to_7seg_Inst1 : BinaryToSevenSeg
  binary_to_7seg_Inst2 : BinaryToSevenSeg
  deriving DecidableEq, Repr

/-- The wires `w_RX_DV` and `w_RX_Byte` as the transmitter's inputs. -/
def UartRx.toTx (s : UartRx) : TxInput := ⟨s.o_RX_DV, s.o_RX_Byte⟩

namespace UartTxTop

/-- The initial registers, with any level in the transmitter's output register. -/
def init (TX : Bool) : UartTxTop where
  UART_TX_Inst := UartTx.init TX
  UART_RX_Inst := UartRx.init
  binary_to_7seg_Inst1 := BinaryToSevenSeg.init
  binary_to_7seg_Inst2 := BinaryToSevenSeg.init

/-- One clock edge of all instances, both UARTs with `N` edges per bit. -/
def posedge (N : ℕ) (s : UartTxTop) (RX : Bool) : UartTxTop where
  UART_TX_Inst := s.UART_TX_Inst.posedge N s.UART_RX_Inst.toTx
  UART_RX_Inst := s.UART_RX_Inst.posedge N RX
  binary_to_7seg_Inst1 :=
    s.binary_to_7seg_Inst1.posedge (s.UART_RX_Inst.o_RX_Byte.extractLsb 7 4)
  binary_to_7seg_Inst2 :=
    s.binary_to_7seg_Inst2.posedge (s.UART_RX_Inst.o_RX_Byte.extractLsb 3 0)

/-- The output `TX`. -/
def TX (s : UartTxTop) : Bool := s.UART_TX_Inst.line

end UartTxTop

/-- `UART_TX_top` with `N` clock edges per bit in both directions; the design has `N = 217`. -/
def uartTxTop (N : ℕ) (TX : Bool) : Machine UartTxTop Bool :=
  ⟨UartTxTop.init TX, UartTxTop.posedge N⟩

/-- The level of the pin `TX` before edge `e`. -/
def UartTxTop.pin (N : ℕ) (TX : Bool) (rx : ℕ → Bool) (e : ℕ) : Bool :=
  ((uartTxTop N TX).run rx e).TX

/-- The byte on `w_RX_Byte` that edge `e` samples together with a high `w_RX_DV`. -/
def UartTxTop.reported (N : ℕ) (TX : Bool) (rx : ℕ → Bool) (e : ℕ) : Option (BitVec 8) :=
  ((uartTxTop N TX).run rx e).UART_RX_Inst.report

section Run

variable (N : ℕ) (TX : Bool) (rx : ℕ → Bool)

/-- The receiver runs as it does alone. -/
theorem uartTxTop_run_rx (e : ℕ) :
    ((uartTxTop N TX).run rx e).UART_RX_Inst = (uartRx N).run rx e :=
  Machine.run_component _ (uartRx N) UartTxTop.UART_RX_Inst (fun _ i => i) rfl (fun _ _ => rfl) rx e

/-- What the receiver gives the transmitter at each edge. -/
def echoInput (N : ℕ) (rx : ℕ → Bool) (e : ℕ) : TxInput := ((uartRx N).run rx e).toTx

/-- The transmitter runs as it does on the outputs of the receiver. -/
theorem uartTxTop_run_tx (e : ℕ) :
    ((uartTxTop N TX).run rx e).UART_TX_Inst = (uartTx N TX).run (echoInput N rx) e := by
  have h := Machine.run_component (uartTxTop N TX) (uartTx N TX) UartTxTop.UART_TX_Inst
    (fun s _ => s.UART_RX_Inst.toTx) rfl (fun _ _ => rfl) rx e
  simp only [uartTxTop_run_rx] at h
  exact h

theorem reported_eq (e : ℕ) : UartTxTop.reported N TX rx e = reports N rx e := by
  unfold UartTxTop.reported reports
  rw [uartTxTop_run_rx]

theorem pin_eq (e : ℕ) : UartTxTop.pin N TX rx e =
    ((uartTx N TX).run (echoInput N rx) e).line := by
  unfold UartTxTop.pin UartTxTop.TX
  rw [uartTxTop_run_tx]

/-- The requests to the transmitter are the reports of the receiver. -/
theorem reports_iff_echoInput (e : ℕ) (b : BitVec 8) : reports N rx e = some b ↔
    dv (echoInput N rx) e = true ∧ (echoInput N rx e).i_TX_Byte = b := by
  rw [reports_eq_some_iff]
  rfl

/-- A report is sent unless an earlier one still is being sent. -/
theorem sent_or_lost {t : ℕ} (ht : reports N rx t ≠ none) :
    Accepted N (dv (echoInput N rx)) t ∨
      ∃ u, Accepted N (dv (echoInput N rx)) u ∧ u < t ∧ t ≤ u + 1 + 10 * N := by
  obtain ⟨b, hb⟩ := Option.ne_none_iff_exists'.mp ht
  exact accepted_or ((reports_iff_echoInput N rx t b).mp hb).1

theorem reports_of_accepted {t : ℕ} (ha : Accepted N (dv (echoInput N rx)) t) :
    reports N rx t ≠ none := by
  rw [Option.ne_none_iff_exists']
  exact ⟨_, (reports_iff_echoInput N rx t _).mpr ⟨ha.2, rfl⟩⟩

end Run

/-! ## The echo of any line -/

/-- The frames of the sent bytes: the byte that edge `t` samples goes out from edge `t + 2` on. -/
def echoFrames (sent : ℕ → Option (BitVec 8)) : Set (ℕ × BitVec 8) :=
  {f | ∃ t b, sent t = some b ∧ f = (t + 2, b)}

/-- What an echo without a buffer does with the stream `reported` of bytes: it sends the bytes
`sent` on the line `pin`, with `N` clock edges per bit. -/
structure EchoSpec (N : ℕ) (reported sent : ℕ → Option (BitVec 8)) (pin : ℕ → Bool) : Prop where
  /-- The line carries complete frames of the sent bytes, and is high otherwise. -/
  carries : Carries N (echoFrames sent) pin
  /-- The frames do not overlap. -/
  separated : Separated (10 * N) (echoFrames sent)
  /-- The sent bytes are some of the reported ones, in order, each at most once. -/
  subsequence : ∀ e, (log sent e).Sublist (log reported e)
  /-- A report that is not sent comes 1 to `10 N + 1` edges after the last one that was. -/
  lost : ∀ t, reported t ≠ none → sent t = none → ∃ u, sent u ≠ none ∧
    u + 1 ≤ t ∧ t ≤ u + 10 * N + 1 ∧ ∀ v, v < t → sent v ≠ none → v ≤ u
  /-- Of two consecutive reports at least one is sent. -/
  not_both : ∀ t u, t < u → reported t ≠ none → reported u ≠ none →
    (∀ v, t < v → v < u → reported v = none) → sent t ≠ none ∨ sent u ≠ none

section Echo

variable {N : ℕ} (h2 : 2 ≤ N) (hN : N ≤ 256) (TX : Bool) (rx : ℕ → Bool)
include h2 hN

/-- The sent bytes are the accepted requests. -/
theorem accepts_echo_iff (e : ℕ) (b : BitVec 8) : accepts N TX (echoInput N rx) e = some b ↔
    Accepted N (dv (echoInput N rx)) e ∧ reports N rx e = some b := by
  rw [accepts_eq_some_iff (by omega) hN, reports_iff_echoInput]
  constructor
  · rintro ⟨ha, hb⟩
    exact ⟨ha, ha.2, hb⟩
  · rintro ⟨ha, -, hb⟩
    exact ⟨ha, hb⟩

theorem accepts_echo_ne_none_iff (e : ℕ) : accepts N TX (echoInput N rx) e ≠ none ↔
    Accepted N (dv (echoInput N rx)) e := by
  rw [Option.ne_none_iff_exists']
  simp only [accepts_eq_some_iff (by omega : 1 ≤ N) hN]
  constructor
  · rintro ⟨b, ha, -⟩
    exact ha
  · intro ha
    exact ⟨_, ha, rfl⟩

theorem echoFrames_accepts : echoFrames (accepts N TX (echoInput N rx)) =
    sentFrames N (dv (echoInput N rx)) fun k => (echoInput N rx k).i_TX_Byte := by
  ext f
  constructor
  · rintro ⟨t, b, ht, rfl⟩
    obtain ⟨ha, rfl⟩ := (accepts_eq_some_iff (by omega) hN TX _ t b).mp ht
    exact ⟨t, ha, rfl⟩
  · rintro ⟨t, ha, rfl⟩
    exact ⟨t, _, (accepts_eq_some_iff (by omega) hN TX _ t _).mpr ⟨ha, rfl⟩, rfl⟩

/-- Of two consecutive reports at least one is taken. -/
theorem accepted_or_accepted {t u : ℕ} (htu : t < u) (ht : reports N rx t ≠ none)
    (hu : reports N rx u ≠ none) (hbetween : ∀ v, t < v → v < u → reports N rx v = none) :
    Accepted N (dv (echoInput N rx)) t ∨ Accepted N (dv (echoInput N rx)) u := by
  have hhalf : half N = (N - 1) / 2 := rfl
  -- Two requests in a row would have to be blocked by one and the same request before them.
  by_contra hno
  push Not at hno
  obtain ⟨v, hv, hvt, htv⟩ := (sent_or_lost N rx ht).resolve_left hno.1
  obtain ⟨w, hw, hwu, huw⟩ := (sent_or_lost N rx hu).resolve_left hno.2
  -- The request that blocks `u` is not after `t`, so it is not after the one that blocks `t`.
  have hwt : w ≤ t := by
    by_contra hlt
    exact reports_of_accepted N rx hw (hbetween w (by omega) hwu)
  have hwt' : w ≠ t := fun h => hno.1 (h ▸ hw)
  have hwv : w ≤ v := by
    by_contra hlt
    have := hv.spacing hw (by omega)
    omega
  -- Two gaps between reports do not fit into the time that one frame takes.
  have hgap := reports_spacing (by omega) hN rx (reports_of_accepted N rx hv) ht hvt
  have hgap' := reports_spacing (by omega) hN rx ht hu htu
  omega

/-- `UART_TX_top` is an echo without a buffer, whatever the line does. -/
theorem echoSpec : EchoSpec N (UartTxTop.reported N TX rx) (accepts N TX (echoInput N rx))
    (UartTxTop.pin N TX rx) := by
  have hrep : UartTxTop.reported N TX rx = reports N rx := funext (reported_eq N TX rx)
  have hpin : UartTxTop.pin N TX rx = fun e => ((uartTx N TX).run (echoInput N rx) e).line :=
    funext (pin_eq N TX rx)
  have hsent := accepts_echo_ne_none_iff h2 hN TX rx
  rw [hrep, hpin]
  refine ⟨?_, ?_, ?_, ?_, ?_⟩
  · -- The pin is the line of the transmitter.
    rw [echoFrames_accepts h2 hN]
    exact carries_line (by omega) hN TX _
  · rw [echoFrames_accepts h2 hN]
    intro f hf g hg hlt
    have := separated_sentFrames N (dv (echoInput N rx)) _ f hf g hg hlt
    omega
  · exact log_sublist fun k b hb => ((accepts_echo_iff h2 hN TX rx k b).mp hb).2
  · intro t ht hno
    rcases sent_or_lost N rx ht with ha | ⟨u, hu, hut, htu⟩
    · exact absurd hno ((hsent t).mpr ha)
    · refine ⟨u, (hsent u).mpr hu, by omega, by omega, fun v hv hvs => ?_⟩
      -- A later accepted request would have to wait until after `t`.
      by_contra hlt
      have := hu.spacing ((hsent v).mp hvs) (by omega)
      omega
  · intro t u htu ht hu hbetween
    rw [hsent, hsent]
    exact accepted_or_accepted h2 hN rx htu ht hu hbetween

/-- Any sequence of frames that the pin carries is the frames of the sent bytes, since a line
carries one set of frames only. -/
theorem mem_iff_sent {gs : List (ℕ × BitVec 8)} (hgs : Transmits N gs (UartTxTop.pin N TX rx))
    (g : ℕ × BitVec 8) :
    g ∈ gs ↔ ∃ t b, accepts N TX (echoInput N rx) t = some b ∧ g = (t + 2, b) := by
  have hspec := echoSpec h2 hN TX rx
  have hset : {g | g ∈ gs} = echoFrames (accepts N TX (echoInput N rx)) :=
    hgs.carries.eq hspec.carries (hgs.spaced.separated (Nat.zero_le _)) hspec.separated (by omega)
  exact Set.ext_iff.mp hset g

end Echo

/-- The echo never corrupts, duplicates or reorders: for every count `N` of edges per bit and every
waveform on `RX`, the pin `TX` carries complete frames of a subsequence of the reported bytes, a
reported byte is lost only if it comes while the last sent one is still going out, and two
consecutive reported bytes are never both lost. -/
theorem echo_any_line (N : ℕ) (h2 : 2 ≤ N) (hN : N ≤ 256) (TX : Bool) (rx : ℕ → Bool) :
    ∃ sent, EchoSpec N (UartTxTop.reported N TX rx) sent (UartTxTop.pin N TX rx) :=
  ⟨_, echoSpec h2 hN TX rx⟩

/-- The echo of a line that is held low, at the rate of the design. -/
theorem echo_any_line_break :
    ∃ sent, EchoSpec 217 (UartTxTop.reported 217 false fun _ => false) sent
      (UartTxTop.pin 217 false fun _ => false) :=
  echo_any_line 217 (by decide) (by decide) false fun _ => false

/-! ## The echo of what is reported -/

/-- The frames of a sequence start one after the other. -/
theorem pairwise_of_transmits {N : ℕ} (h1 : 1 ≤ N) {fs : List (ℕ × BitVec 8)} {line : ℕ → Bool}
    (h : Transmits N fs line) : fs.Pairwise fun f g => f.1 < g.1 := by
  have h10 : 0 < 10 • N := by
    simp only [smul_eq_mul]
    omega
  exact h.spaced.pairwise_lt h10

/-- The reports of the receiver are exactly these, in this order. -/
structure ReportsAll (N : ℕ) (rx : ℕ → Bool) (rs : List (ℕ × BitVec 8)) : Prop where
  mem_iff : ∀ e b, reports N rx e = some b ↔ (e, b) ∈ rs
  sorted : rs.Pairwise fun r r' => r.1 < r'.1

namespace ReportsAll

variable {N : ℕ} {rx : ℕ → Bool} {rs : List (ℕ × BitVec 8)}

/-- The reports are the log of a long enough run. -/
theorem log_eq (h : ReportsAll N rx rs) {E : ℕ} (hE : ∀ r ∈ rs, r.1 < E) :
    log (reports N rx) E = rs := by
  refine log_eq_of_mem_iff h.sorted fun k a => ?_
  rw [h.mem_iff]
  exact ⟨fun hr => ⟨hE _ hr, hr⟩, fun hr => hr.2⟩

/-- A readable line brings one report for each of its frames. -/
theorem of_readable (h1 : 1 ≤ N) (hN : N ≤ 256) {fs : List (ℕ × BitVec 8)}
    (h : Readable N rx {f | f ∈ fs}) (hfs : fs.Pairwise fun f g => f.1 < g.1) :
    ReportsAll N rx (fs.map fun f => (f.1 + (half N + 9 * N + 2), f.2)) where
  mem_iff e b := by
    rw [h.reports_iff h1 hN]
    simp only [List.mem_map, Prod.mk.injEq, Set.mem_ofPred_eq]
    constructor
    · rintro ⟨t, ht, rfl⟩
      exact ⟨(t, b), ht, by dsimp only; omega, rfl⟩
    · rintro ⟨f, hf, rfl, rfl⟩
      exact ⟨f.1, hf, by omega⟩
  sorted := by
    rw [List.pairwise_map]
    exact hfs.imp fun hfg => Nat.add_lt_add_right hfg _

/-- Reports that are far enough apart are all sent. -/
theorem accepted_of_spaced (h : ReportsAll N rx rs) (hs : Spaced (10 * N + 2) rs)
    {r : ℕ × BitVec 8} (hr : r ∈ rs) : Accepted N (dv (echoInput N rx)) r.1 := by
  have hrep := (h.mem_iff r.1 r.2).mpr hr
  rcases sent_or_lost N rx (t := r.1) (by rw [hrep]; simp) with ha | ⟨u, hu, hut, htu⟩
  · exact ha
  · -- The report that is still being sent is one of the list, and too close.
    obtain ⟨c, hc⟩ := Option.ne_none_iff_exists'.mp (reports_of_accepted N rx hu)
    have := hs.separated (Nat.zero_le _) _ ((h.mem_iff u c).mp hc) r hr hut
    dsimp only at this
    omega

section Echo

variable (h2 : 2 ≤ N) (hN : N ≤ 256) (TX : Bool) (h : ReportsAll N rx rs)
include h2 hN h

/-- When all reports are sent, the pin carries their bytes, each two edges after its report. -/
theorem echoFrames_eq (hs : Spaced (10 * N + 2) rs) :
    {g | g ∈ rs.map fun r => (r.1 + 2, r.2)} = echoFrames (accepts N TX (echoInput N rx)) := by
  ext g
  simp only [Set.mem_ofPred_eq, List.mem_map, echoFrames, accepts_echo_iff h2 hN TX rx]
  constructor
  · rintro ⟨r, hr, rfl⟩
    exact ⟨r.1, r.2, ⟨h.accepted_of_spaced hs hr, (h.mem_iff r.1 r.2).mpr hr⟩, rfl⟩
  · rintro ⟨t, b, ⟨-, hb⟩, rfl⟩
    exact ⟨(t, b), (h.mem_iff t b).mp hb, rfl⟩

/-- The echo is complete when the reports are far enough apart. -/
theorem transmits_of_spaced (hs : Spaced (10 * N + 2) rs) :
    Transmits N (rs.map fun r => (r.1 + 2, r.2)) (UartTxTop.pin N TX rx) where
  spaced := by
    unfold Spaced at hs ⊢
    rw [List.isChain_map]
    refine hs.imp fun r r' hrr' => ?_
    unfold Follows at hrr' ⊢
    simp only [smul_eq_mul]
    omega
  carries := by
    rw [h.echoFrames_eq h2 hN TX hs]
    exact (echoSpec h2 hN TX rx).carries

/-- When the pin carries as many frames as there are reports, every report is sent. -/
theorem accepted_of_transmits {gs : List (ℕ × BitVec 8)}
    (hgs : Transmits N gs (UartTxTop.pin N TX rx)) (hlen : gs.length = rs.length)
    {r : ℕ × BitVec 8} (hr : r ∈ rs) : Accepted N (dv (echoInput N rx)) r.1 := by
  obtain ⟨E, hE⟩ : ∃ E, ∀ r ∈ rs, r.1 < E :=
    ⟨(rs.map Prod.fst).sum + 1, fun r hr =>
      Nat.lt_succ_of_le (List.le_sum_of_mem (List.mem_map.mpr ⟨r, hr, rfl⟩))⟩
  have hacc := accepts_echo_iff h2 hN TX rx
  have hmem := mem_iff_sent h2 hN TX rx hgs
  have hreported := h.log_eq hE
  -- The frames on the pin are the log of what is sent.
  have hsent : log (accepts N TX (echoInput N rx)) E = gs.map fun g => (g.1 - 2, g.2) := by
    apply log_eq_of_mem_iff
    · -- All frames start at edge 2 or later, so the order survives the subtraction.
      rw [List.pairwise_map]
      refine (pairwise_of_transmits (by omega) hgs).imp_of_mem fun {g g'} hg hg' hlt => ?_
      obtain ⟨t, b, -, rfl⟩ := (hmem g).mp hg
      obtain ⟨u, c, -, rfl⟩ := (hmem g').mp hg'
      dsimp only at hlt ⊢
      omega
    · intro k a
      simp only [List.mem_map, Prod.mk.injEq]
      constructor
      · rintro ⟨g, hg, rfl, rfl⟩
        obtain ⟨t, b, ht, rfl⟩ := (hmem g).mp hg
        exact ⟨hE _ ((h.mem_iff t b).mp ((hacc t b).mp ht).2), ht⟩
      · rintro ⟨-, ht⟩
        exact ⟨(k + 2, a), (hmem _).mpr ⟨k, a, ht, rfl⟩, rfl, rfl⟩
  -- It has as many entries as the log of the reports, and is a part of it.
  have hall : log (accepts N TX (echoInput N rx)) E = log (reports N rx) E := by
    refine (log_sublist (fun k b hb => ((hacc k b).mp hb).2) E).eq_of_length ?_
    rw [hsent, hreported, List.length_map, hlen]
  rw [← hreported, ← hall] at hr
  exact ((hacc r.1 r.2).mp (mem_log.mp hr).2).1

end Echo

end ReportsAll

/-- The echo of any line with finitely many reports is complete if and only if consecutive reports
are `10 N + 2` edges apart. -/
theorem echo_iff_spaced {N : ℕ} (h2 : 2 ≤ N) (hN : N ≤ 256) (TX : Bool) {rx : ℕ → Bool}
    {rs : List (ℕ × BitVec 8)} (h : ReportsAll N rx rs) :
    (∃ gs, gs.map Prod.snd = rs.map Prod.snd ∧ Transmits N gs (UartTxTop.pin N TX rx)) ↔
      Spaced (10 * N + 2) rs := by
  constructor
  · rintro ⟨gs, hbytes, hgs⟩
    have hlen : gs.length = rs.length := by simpa using congrArg List.length hbytes
    refine List.Pairwise.isChain (h.sorted.imp_of_mem fun {r r'} hr hr' hlt => ?_)
    have := (h.accepted_of_transmits h2 hN TX hgs hlen hr).spacing
      (h.accepted_of_transmits h2 hN TX hgs hlen hr') hlt
    unfold Follows
    omega
  · intro hs
    exact ⟨_, by simp, h.transmits_of_spaced h2 hN TX hs⟩

/-- The echo of the frames of a readable line. -/
theorem echo_of_readable {N : ℕ} (h2 : 2 ≤ N) (hN : N ≤ 256) (TX : Bool) {rx : ℕ → Bool}
    {fs : List (ℕ × BitVec 8)} (h : Readable N rx {f | f ∈ fs})
    (hfs : fs.Pairwise fun f g => f.1 < g.1) :
    (∃ gs, gs.map Prod.snd = fs.map Prod.snd ∧ Transmits N gs (UartTxTop.pin N TX rx)) ↔
      Spaced (10 * N + 2) fs := by
  have hiff := echo_iff_spaced h2 hN TX (.of_readable (by omega) hN h hfs)
  rw [List.map_map] at hiff
  refine hiff.trans ?_
  unfold Spaced
  rw [List.isChain_map]
  refine List.IsChain.iff fun f g => ?_
  unfold Follows
  dsimp only
  omega

/-! ## The echo of a sequence of frames -/

/-- A sequence of frames, back to back or not, is readable: even back to back, a frame starts after
the receiver is armed again. -/
theorem readable_of_transmits {N : ℕ} (h4 : 4 ≤ N) {fs : List (ℕ × BitVec 8)} {rx : ℕ → Bool}
    (h : Transmits N fs rx) : Readable N rx {f | f ∈ fs} := by
  have hhalf : half N = (N - 1) / 2 := rfl
  refine readable_of_carries (by omega) h.carries fun f hf g hg hlt => ?_
  have := h.spaced.separated (Nat.zero_le _) f hf g hg hlt
  simp only [smul_eq_mul] at this
  omega

/-- The echo of `UART_TX_top` is complete exactly with two extra idle edges between frames: for
every sequence of 8N1 frames of 217 edges per bit on `RX`, the pin `TX` carries the same bytes in
the same order, each once, if and only if consecutive frames start at least `10 * 217 + 2` edges
apart. -/
theorem echo_complete_iff (TX : Bool) (fs : List (ℕ × BitVec 8)) (rx : ℕ → Bool)
    (h : Transmits 217 fs rx) :
    (∃ gs, gs.map Prod.snd = fs.map Prod.snd ∧ Transmits 217 gs (UartTxTop.pin 217 TX rx)) ↔
      Spaced (10 * 217 + 2) fs := by
  have hread := readable_of_transmits (by decide) h
  have hsorted := pairwise_of_transmits (by decide) h
  exact echo_of_readable (by decide) (by decide) TX hread hsorted

/-- Two frames with two idle edges between them are echoed. -/
theorem echo_complete_iff_gap_two :
    (∃ gs, gs.map Prod.snd = [0x41, 0x42] ∧ Transmits 217 gs
      (UartTxTop.pin 217 false (Serial.lineOf 217 [(0, 0x41), (2172, 0x42)]))) ↔
      Spaced (10 * 217 + 2) [((0 : ℕ), (0x41 : BitVec 8)), (2172, 0x42)] :=
  echo_complete_iff false [(0, 0x41), (2172, 0x42)] _
    (Serial.transmits_lineOf (by decide) (by unfold Spaced Follows; decide))

/-- Two frames back to back are not: the second byte is lost. -/
theorem echo_back_to_back_incomplete :
    ∃ fs rx, Transmits 217 fs rx ∧ ∀ TX, ¬ ∃ gs, gs.map Prod.snd = fs.map Prod.snd ∧
      Transmits 217 gs (UartTxTop.pin 217 TX rx) := by
  have h : Transmits 217 [(0, 0x41), (2170, 0x42)]
      (Serial.lineOf 217 [((0 : ℕ), (0x41 : BitVec 8)), (2170, 0x42)]) :=
    Serial.transmits_lineOf (by decide) (by unfold Spaced Follows; decide)
  refine ⟨_, _, h, fun TX => ?_⟩
  have hread := readable_of_transmits (by decide) h
  have hsorted := pairwise_of_transmits (by decide) h
  rw [echo_of_readable (by decide) (by decide) TX hread hsorted]
  unfold Spaced Follows
  decide

end GoBoard.Uart
