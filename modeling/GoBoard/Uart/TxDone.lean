import GoBoard.Uart.TxWaveform

/-!
# The output `o_TX_Done`

The transmitter raises `o_TX_Done` when the stop bit ends and lowers it in `IDLE`, so the output is
high for two edges after every accepted request, `CLEANUP` and the edge after it (`done_iff`). Of a
request that comes with the output high, the first of the two edges loses it and the second takes it:
a client that waits for `o_TX_Done` has to see it high once before (`done_iff` says both).
-/

namespace GoBoard.Uart

open Clocked (Machine)

/-- Before edge `e` the frame of a request that was accepted is just over. -/
def JustDone (N : ℕ) (dv : ℕ → Bool) (e : ℕ) : Prop :=
  ∃ t, Accepted N dv t ∧ (e = t + 10 * N + 1 ∨ e = t + 10 * N + 2)

section Sending

variable {N : ℕ} {dv : ℕ → Bool} {e t : ℕ}

/-- While a request is being served, only its own end is near. -/
theorem justDone_of_sending (hs : sending N dv e = some t) :
    JustDone N dv e ↔ e = t + 10 * N + 1 := by
  obtain ⟨ht, hlt, hle⟩ := accepted_of_sending hs
  constructor
  · rintro ⟨u, hu, he⟩
    rcases lt_trichotomy u t with hut | rfl | htu
    · -- An earlier request is over before this one is taken.
      have := hu.spacing ht hut
      omega
    · omega
    · have := ht.spacing hu htu
      omega
  · rintro rfl
    exact ⟨t, ht, .inl rfl⟩

/-- One edge later it is that end, or the edge after it. -/
theorem justDone_succ_of_sending (hs : sending N dv e = some t) :
    JustDone N dv (e + 1) ↔ e = t + 10 * N ∨ e = t + 10 * N + 1 := by
  obtain ⟨ht, hlt, hle⟩ := accepted_of_sending hs
  constructor
  · rintro ⟨u, hu, he⟩
    rcases lt_trichotomy u t with hut | rfl | htu
    · have := hu.spacing ht hut
      omega
    · omega
    · have := ht.spacing hu htu
      omega
  · intro he
    exact ⟨t, ht, by omega⟩

/-- An edge that finds the serializer idle is the last one of a request at most. -/
theorem not_justDone_succ_of_idle (h1 : 1 ≤ N) (hs : sending N dv e = none) :
    ¬JustDone N dv (e + 1) := by
  rintro ⟨u, hu, he⟩
  have hbusy := hu.sending_eq (e := e) (by omega) (by omega)
  rw [hs] at hbusy
  cases hbusy

end Sending

section Run

variable {N : ℕ} (h1 : 1 ≤ N) (hN : N ≤ 256) (TX : Bool) (inp : ℕ → TxInput)
include h1 hN

/-- One edge of `r_TX_Done`, for each state of the machine. -/
theorem r_TX_Done_succ (e : ℕ) (hdone : ((uartTx N TX).run inp e).r_TX_Done = true ↔
      JustDone N (dv inp) e) :
    ((uartTx N TX).run inp (e + 1)).r_TX_Done = true ↔ JustDone N (dv inp) (e + 1) := by
  have h := run_txTracks h1 hN TX inp e
  show (((uartTx N TX).run inp e).posedge N (inp e)).r_TX_Done = true ↔ _
  generalize (uartTx N TX).run inp e = s at h hdone
  generalize hs : sending N (dv inp) e = o at h
  unfold UartTx.posedge
  cases h with
  | idle hsm =>
    -- `IDLE` lowers the output.
    rw [hsm]
    exact iff_of_false (by simp) (not_justDone_succ_of_idle h1 hs)
  | @startBit t hsm _ _ _ hc he =>
    rw [justDone_succ_of_sending hs]
    rw [justDone_of_sending hs] at hdone
    rw [hsm]
    dsimp only
    split_ifs
    · exact hdone.trans (by omega)
    · exact hdone.trans (by omega)
  | @dataBits t hsm _ _ hc he =>
    have hmul : s.r_Bit_Index.toNat * N ≤ 7 * N :=
      Nat.mul_le_mul_right N (Nat.lt_succ_iff.mp s.r_Bit_Index.isLt)
    rw [justDone_succ_of_sending hs]
    rw [justDone_of_sending hs] at hdone
    rw [hsm]
    dsimp only
    split_ifs
    all_goals exact hdone.trans (by omega)
  | @stopBit t hsm _ hc he =>
    rw [justDone_succ_of_sending hs]
    rw [justDone_of_sending hs] at hdone
    rw [hsm]
    dsimp only
    split_ifs with hlt
    · exact hdone.trans (by omega)
    · -- The stop bit ends with this edge.
      exact iff_of_true rfl (by omega)
  | @cleanup t hsm _ he =>
    rw [justDone_succ_of_sending hs, hsm]
    exact iff_of_true rfl (by omega)

/-- `o_TX_Done` is high before exactly two edges for each accepted request, the ones `10 N + 1` and
`10 N + 2` edges after it. -/
theorem o_TX_Done_iff (e : ℕ) :
    ((uartTx N TX).run inp e).o_TX_Done = true ↔ JustDone N (dv inp) e := by
  induction e with
  | zero =>
    refine iff_of_false (by simp [UartTx.o_TX_Done, uartTx, UartTx.init]) ?_
    rintro ⟨t, -, he⟩
    omega
  | succ e ih => exact r_TX_Done_succ h1 hN TX inp e ih

end Run

/-- The completion pulse, for every stream of requests: `o_TX_Done` is high before exactly two edges
for each request of the greedy choice, and a request that comes while it is high is taken if and only
if it was high one edge earlier too. -/
theorem done_iff (N : ℕ) (h2 : 2 ≤ N) (hN : N ≤ 256) (TX : Bool) (inp : ℕ → TxInput) :
    (∀ e, ((uartTx N TX).run inp e).o_TX_Done = true ↔
      ∃ t, Greedy (10 * N + 2) (dv inp) t ∧ (e = t + 10 * N + 1 ∨ e = t + 10 * N + 2)) ∧
    ∀ e, ((uartTx N TX).run inp (e + 1)).o_TX_Done = true → dv inp (e + 1) = true →
      (Greedy (10 * N + 2) (dv inp) (e + 1) ↔ ((uartTx N TX).run inp e).o_TX_Done = true) := by
  have h1 : 1 ≤ N := by omega
  have hiff := o_TX_Done_iff h1 hN TX inp
  simp only [greedy_iff]
  refine ⟨hiff, fun e hdone hdv => ?_⟩
  obtain ⟨t, ht, he⟩ := (hiff (e + 1)).mp hdone
  rw [hiff e]
  rcases he with he | he
  · -- The edge that leaves `CLEANUP` does not look at the request.
    have hs := ht.sending_eq (e := e) (by omega) (by omega)
    have hs' := ht.sending_eq (e := e + 1) (by omega) (by omega)
    refine iff_of_false (fun hacc => ?_) ?_
    · rw [hacc.1] at hs'
      cases hs'
    · rw [justDone_of_sending hs]
      omega
  · have hs := ht.sending_eq (e := e) (by omega) (by omega)
    have hidle : sending N (dv inp) (e + 1) = none := by
      rw [sending_succ_some hs, if_pos (by omega)]
    exact iff_of_true ⟨hidle, hdv⟩ ((justDone_of_sending hs).mpr (by omega))

/-- The pulse at the rate of the designs, on a request that is never withdrawn. -/
theorem done_iff_held :
    (∀ e, ((uartTx 217 false).run (fun _ => ⟨true, 0x41⟩) e).o_TX_Done = true ↔
      ∃ t, Greedy (10 * 217 + 2) (dv fun _ => ⟨true, 0x41⟩) t ∧
        (e = t + 10 * 217 + 1 ∨ e = t + 10 * 217 + 2)) ∧
    ∀ e, ((uartTx 217 false).run (fun _ => ⟨true, 0x41⟩) (e + 1)).o_TX_Done = true →
      dv (fun _ => ⟨true, 0x41⟩) (e + 1) = true →
      (Greedy (10 * 217 + 2) (dv fun _ => ⟨true, 0x41⟩) (e + 1) ↔
        ((uartTx 217 false).run (fun _ => ⟨true, 0x41⟩) e).o_TX_Done = true) :=
  done_iff 217 (by decide) (by decide) false fun _ => ⟨true, 0x41⟩

end GoBoard.Uart
