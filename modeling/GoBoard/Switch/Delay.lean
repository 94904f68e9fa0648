import GoBoard.Switch.Debounce

/-!
# Clean waveforms

What the debouncer does to a switch that does not bounce. A waveform is clean when each of its levels
lasts for at least `L + 1` samples. On these waveforms, and on no others, the debouncer is a delay of
`L + 1` edges (`delay_iff_clean`). Its own output is clean (`clean_debounced`), so a second debouncer
behind it adds a delay and changes nothing else (`debounced_twice`).
-/

namespace GoBoard.Switch

/-- Every level of the waveform lasts for more than `L` samples. Before edge `0` the level is low. -/
structure Clean (L : ℕ) (sw : ℕ → Bool) : Prop where
  start : sw 0 = true → ∀ k, k ≤ L → sw k = true
  change : ∀ t, sw (t + 1) ≠ sw t → ∀ k, k ≤ L → sw (t + 1 + k) = sw (t + 1)

section Run

variable {L : ℕ} (hL : L < 2 ^ 18) (sw : ℕ → Bool)
include hL

/-- A new level stays for `L` edges more. -/
theorem o_Switch_keep {t k : ℕ} (hk : k ≤ L)
    (h : ((debounceSwitch L).run sw (t + 1)).o_Switch ≠ ((debounceSwitch L).run sw t).o_Switch) :
    ((debounceSwitch L).run sw (t + 1 + k)).o_Switch =
      ((debounceSwitch L).run sw (t + 1)).o_Switch := by
  -- The sample that made the change is the new level.
  have hsample := ((o_Switch_change_iff hL sw t).mp h).2 t (by omega) le_rfl
  have hnew : sw t = ((debounceSwitch L).run sw (t + 1)).o_Switch := by
    rw [Bool.eq_not.mpr hsample, Bool.eq_not.mpr h]
  exact o_Switch_hold hL sw rfl (.inr hnew) hk

/-- The output is low for the first `L` edges. -/
theorem o_Switch_start {k : ℕ} (hk : k ≤ L) : ((debounceSwitch L).run sw k).o_Switch = false := by
  have hhold := o_Switch_hold hL sw (a := 0) (v := false) rfl (.inl rfl) hk
  rwa [Nat.zero_add] at hhold

/-- The output of the debouncer is clean. -/
theorem clean_debounced : Clean L fun e => ((debounceSwitch L).run sw e).o_Switch where
  start h := by
    have hlow := o_Switch_start hL sw (Nat.zero_le L)
    exact absurd (h.symm.trans hlow) (by simp)
  change _ h _ hk := o_Switch_keep hL sw hk h

/-- A clean waveform comes out `L + 1` edges later. -/
theorem o_Switch_of_clean (h : Clean L sw) (e : ℕ) :
    ((debounceSwitch L).run sw (e + L + 1)).o_Switch = sw e := by
  induction e with
  | zero =>
    cases h0 : sw 0 with
    | true =>
      refine o_Switch_adopt hL sw fun k hk => ?_
      rw [Nat.zero_add]
      exact h.start h0 k hk
    | false =>
      -- The first sample keeps the level low for one edge more than the start does.
      have hlow := o_Switch_start hL sw (le_refl L)
      rw [Nat.zero_add]
      exact o_Switch_succ_eq hL sw hlow fun _ => ⟨0, by omega, Nat.zero_le L, h0⟩
  | succ e ih =>
    rw [show e + 1 + L + 1 = e + L + 1 + 1 by omega]
    by_cases hchange : sw (e + 1) = sw e
    · rw [hchange]
      exact o_Switch_succ_eq hL sw ih fun _ => ⟨e + 1, by omega, by omega, hchange⟩
    · rw [show e + L + 1 + 1 = e + 1 + L + 1 by omega]
      exact o_Switch_adopt hL sw (h.change e hchange)

end Run

/-- The debouncer is a delay of `L + 1` edges exactly on the clean waveforms. -/
theorem delay_iff_clean (L : ℕ) (hL : L < 2 ^ 18) (sw : ℕ → Bool) :
    (∀ e, ((debounceSwitch L).run sw (e + L + 1)).o_Switch = sw e) ↔ Clean L sw := by
  refine ⟨fun hdelay => ⟨fun h0 k hk => ?_, fun t hchange k hk => ?_⟩, o_Switch_of_clean hL sw⟩
  · -- The output rises with edge `L`, and stays high.
    have hstart := o_Switch_start hL sw (le_refl L)
    have hrise := (hdelay 0).trans h0
    rw [Nat.zero_add] at hrise
    have hkeep := o_Switch_keep hL sw hk (t := L) (by rw [hrise, hstart]; simp)
    calc sw k = ((debounceSwitch L).run sw (k + L + 1)).o_Switch := (hdelay k).symm
      _ = ((debounceSwitch L).run sw (L + 1 + k)).o_Switch := by rw [Nat.add_assoc, Nat.add_comm k]
      _ = true := hkeep.trans hrise
  · have hstep : ((debounceSwitch L).run sw (t + L + 1 + 1)).o_Switch ≠
        ((debounceSwitch L).run sw (t + L + 1)).o_Switch := by
      rw [hdelay t, show t + L + 1 + 1 = t + 1 + L + 1 by omega, hdelay (t + 1)]
      exact hchange
    have hkeep := o_Switch_keep hL sw hk hstep
    rw [show t + L + 1 + 1 + k = t + 1 + k + L + 1 by omega,
      show t + L + 1 + 1 = t + 1 + L + 1 by omega, hdelay, hdelay] at hkeep
    exact hkeep

/-- The delay at the limit of the designs, for a switch that is pressed for good at edge 10. -/
theorem delay_iff_clean_250000 :
    (∀ e, ((debounceSwitch 250000).run (fun e => decide (10 ≤ e)) (e + 250000 + 1)).o_Switch =
      decide (10 ≤ e)) ↔ Clean 250000 fun e => decide (10 ≤ e) :=
  delay_iff_clean 250000 (by decide) fun e => decide (10 ≤ e)

/-- Debouncing twice is debouncing once and waiting for `L + 1` edges more, whatever the switch
does. -/
theorem debounced_twice (L : ℕ) (hL : L < 2 ^ 18) (sw : ℕ → Bool) (e : ℕ) :
    ((debounceSwitch L).run (fun k => ((debounceSwitch L).run sw k).o_Switch) (e + L + 1)).o_Switch =
      ((debounceSwitch L).run sw e).o_Switch :=
  o_Switch_of_clean hL _ (clean_debounced hL sw) e

/-- Two debouncers with the limit of the designs, behind a switch that changes at every edge. -/
theorem debounced_twice_250000 :
    ((debounceSwitch 250000).run
        (fun k => ((debounceSwitch 250000).run (fun e => decide (e % 2 = 0)) k).o_Switch)
        (7 + 250000 + 1)).o_Switch =
      ((debounceSwitch 250000).run (fun e => decide (e % 2 = 0)) 7).o_Switch :=
  debounced_twice 250000 (by decide) (fun e => decide (e % 2 = 0)) 7

end GoBoard.Switch
