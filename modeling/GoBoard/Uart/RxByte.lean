import GoBoard.Uart.RxSpec

/-!
# `o_RX_Byte` between two reports

The receiver writes the data bits into the register behind `o_RX_Byte` as it samples them. A
consumer that waits for `o_RX_DV` sees whole bytes only (`o_RX_Byte_eq`). One that reads `o_RX_Byte`
at other edges sees the new bits over the last whole byte (`o_RX_Byte_eq_shown`), and so sees a whole
byte at every edge exactly when all new bits but the last agree with the bits that they replace
(`forall_o_RX_Byte_eq_held_iff`).
-/

namespace GoBoard.Uart

section Run

variable {N : ℕ} (h1 : 1 ≤ N) (hN : N ≤ 256) (rx : ℕ → Bool)
include h1 hN

/-- Before every edge the last whole byte is on `o_RX_Byte`, with the bits of the next one over it
that have been sampled. -/
theorem o_RX_Byte_eq_shown (e : ℕ) : ((uartRx N).run rx e).o_RX_Byte = shown N rx e := by
  have h := run_tracks h1 hN rx e
  generalize hs : scan N rx e = o at h
  cases h with
  | idle _ _ hb => rw [shown_of_none hs, UartRx.o_RX_Byte, hb]
  | startBit _ _ hb _ hc he => rw [shown_eq_held hs (by omega), UartRx.o_RX_Byte, hb]
  | @dataBits t _ _ hb hc he =>
    apply BitVec.eq_of_getLsbD_eq
    intro i hi
    unfold UartRx.o_RX_Byte
    rw [hb i hi, shown_getLsbD hs hi]
    -- A bit has been sampled when the index register has passed it.
    have hsampled : i < ((uartRx N).run rx e).r_Bit_Index.toNat ↔
        t + 1 + half N + (i + 1) * N < e := by
      constructor
      · intro hlt
        have hmul : (i + 1) * N ≤ ((uartRx N).run rx e).r_Bit_Index.toNat * N :=
          Nat.mul_le_mul_right N (by omega)
        omega
      · intro hlt
        by_contra hno
        have hmul : ((uartRx N).run rx e).r_Bit_Index.toNat * N ≤ i * N :=
          Nat.mul_le_mul_right N (by omega)
        have hsucc := Nat.add_one_mul i N
        omega
    simp only [hsampled]
  | @stopBit t _ _ hb _ he =>
    have ht : Reported N rx t := reported_of_scan hs (by omega)
    rw [shown_eq_sampled hs (by omega), UartRx.o_RX_Byte, hb,
      ht.held_eq_sampled h1 (by omega) (by omega)]
  | @cleanup t _ _ hb he =>
    have ht : Reported N rx t := reported_of_scan hs (by omega)
    rw [shown_eq_sampled hs (by omega), UartRx.o_RX_Byte, hb,
      ht.held_eq_sampled h1 (by omega) (by omega)]

/-- While a start receives its data bits, the bits sampled so far are on `o_RX_Byte`. -/
theorem o_RX_Byte_getLsbD {t e i : ℕ} (ht : Reported N rx t) (hi : i < 8)
    (hlt : t + 1 + half N + (i + 1) * N < e) (hle : e ≤ t + 1 + half N + 8 * N) :
    ((uartRx N).run rx e).o_RX_Byte.getLsbD i = rx (t + 1 + half N + (i + 1) * N) := by
  rw [o_RX_Byte_eq_shown h1 hN, shown_getLsbD (ht.scan_eq (by omega) (by omega)) hi, if_pos hlt]

/-- Before an edge the byte on `o_RX_Byte` is the last whole one exactly when every data bit sampled
so far for the next one agrees with it. -/
theorem o_RX_Byte_eq_held_iff (e : ℕ) : ((uartRx N).run rx e).o_RX_Byte = held N rx e ↔
    ∀ t, Reported N rx t → ∀ i, i < 7 → t + 1 + half N + (i + 1) * N < e →
      e ≤ t + 1 + half N + 8 * N →
      rx (t + 1 + half N + (i + 1) * N) = (held N rx e).getLsbD i := by
  constructor
  · intro heq t ht i hi hlt hle
    rw [← o_RX_Byte_getLsbD h1 hN rx ht (by omega) hlt hle, heq]
  · intro hagree
    rw [o_RX_Byte_eq_shown h1 hN]
    cases hs : scan N rx e with
    | none => exact shown_of_none hs
    | some t =>
      rcases Nat.lt_or_ge (t + 1 + half N + 8 * N) e with hlast | hlast
      · -- The new byte is whole.
        obtain ⟨-, hle, -⟩ := bounds_of_scan hs
        have ht : Reported N rx t := reported_of_scan hs (by omega)
        rw [shown_eq_sampled hs hlast, ht.held_eq_sampled h1 (by omega) (by omega)]
      · -- The two bytes are mixed here, so they have to agree on the bits sampled so far.
        apply BitVec.eq_of_getLsbD_eq
        intro i hi
        rw [shown_getLsbD hs hi]
        split_ifs with hlt
        · have hi7 : i < 7 := by
            by_contra hno
            have hmul : 8 * N ≤ (i + 1) * N := Nat.mul_le_mul_right N (by omega)
            omega
          have ht : Reported N rx t := reported_of_scan hs (by omega)
          exact hagree t ht i hi7 hlt hlast
        · rfl

/-- Up to an edge, only whole bytes are on `o_RX_Byte` exactly when all data bits sampled before it,
apart from the last of each byte, agree with the whole byte that they replace. -/
theorem forall_o_RX_Byte_eq_held_iff (T : ℕ) :
    (∀ e, e ≤ T → ((uartRx N).run rx e).o_RX_Byte = held N rx e) ↔
      ∀ t, Reported N rx t → ∀ i, i < 7 → t + 1 + half N + (i + 1) * N < T →
        rx (t + 1 + half N + (i + 1) * N) = (held N rx t).getLsbD i := by
  constructor
  · intro hwhole t ht i hi hlt
    have hmul : (i + 1) * N ≤ 7 * N := Nat.mul_le_mul_right N (by omega)
    -- The edge after the sample is early enough to see the bit, and the byte is not complete yet.
    have heq := hwhole (t + 1 + half N + (i + 1) * N + 1) (by omega)
    rw [o_RX_Byte_eq_held_iff h1 hN] at heq
    calc rx (t + 1 + half N + (i + 1) * N)
        = (held N rx (t + 1 + half N + (i + 1) * N + 1)).getLsbD i :=
          heq t ht i hi (by omega) (by omega)
      _ = (held N rx t).getLsbD i := by rw [ht.held_eq_before h1 (by omega) (by omega)]
  · intro hagree e he
    rw [o_RX_Byte_eq_held_iff h1 hN]
    intro t ht i hi hlt hle
    calc rx (t + 1 + half N + (i + 1) * N) = (held N rx t).getLsbD i := hagree t ht i hi (by omega)
      _ = (held N rx e).getLsbD i := by rw [ht.held_eq_before h1 (by omega) hle]

/-- From the last data bit of a start to its report the sampled byte is on `o_RX_Byte`. -/
theorem o_RX_Byte_eq_sampled {t e : ℕ} (ht : Reported N rx t) (hte : t + 2 + half N + 8 * N ≤ e)
    (hle : e ≤ t + 2 + half N + 9 * N) : ((uartRx N).run rx e).o_RX_Byte = sampled N rx t := by
  rw [o_RX_Byte_eq_shown h1 hN, shown_eq_sampled (ht.scan_eq (by omega) hle) (by omega)]

end Run

end GoBoard.Uart
