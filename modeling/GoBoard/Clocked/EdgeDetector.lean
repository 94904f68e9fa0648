import Mathlib.Data.Nat.Count

/-!
# Registered falling edge detectors

A register that keeps the level of a signal for one edge sees the edges at which the signal falls,
one edge late. What is done at each of them is done as often as the signal fell before
(`iterate_of_falls`); a bit that is inverted at each of them is the parity of their number
(`iterate_not`).
-/

namespace GoBoard.Clocked

/-- The signal `s`, given by its levels before the edges, falls at edge `d`. -/
def Falls (s : ℕ → Bool) (d : ℕ) : Prop := s d = true ∧ s (d + 1) = false

instance (s : ℕ → Bool) : DecidablePred (Falls s) := fun _ => inferInstanceAs (Decidable (_ ∧ _))

/-- A low signal does not fall. -/
theorem not_falls_of_low {s : ℕ → Bool} {d : ℕ} (h : s d = false) : ¬Falls s d := by
  intro hfall
  rw [hfall.1] at h
  cases h

/-- A signal does not fall to a high level. -/
theorem not_falls_of_high {s : ℕ → Bool} {d : ℕ} (h : s (d + 1) = true) : ¬Falls s d := by
  intro hfall
  rw [hfall.2] at h
  cases h

/-- A register `x` is changed by `f` where the signal is low and the register `r` behind it is still
high. After an edge it has been changed as often as the signal fell at earlier edges. -/
theorem iterate_of_falls {α : Type*} {f : α → α} {x : ℕ → α} {r s : ℕ → Bool} (h0 : r 0 = false)
    (hr : ∀ e, r (e + 1) = s e)
    (hx : ∀ e, x (e + 1) = if s e = false ∧ r e = true then f (x e) else x e) (e : ℕ) :
    x (e + 1) = f^[Nat.count (Falls s) e] (x 0) := by
  induction e with
  | zero => rw [hx, if_neg (by simp [h0]), Nat.count_zero, Function.iterate_zero, id]
  | succ e ih =>
    rw [hx, hr, ih, Nat.count_succ]
    -- The condition is that the signal falls at edge `e`.
    by_cases hfall : Falls s e
    · rw [if_pos hfall.symm, if_pos hfall, Function.iterate_succ_apply']
    · rw [if_neg fun h => hfall h.symm, if_neg hfall, Nat.add_zero]

theorem toNat_not (b : Bool) : (!b).toNat = 1 - b.toNat := by
  cases b with
  | false => rfl
  | true => rfl

/-- A bit that is inverted `n` times is the parity of `n`. -/
theorem iterate_not (n : ℕ) : (not^[n] false).toNat = n % 2 := by
  induction n with
  | zero => rfl
  | succ n ih =>
    rw [Function.iterate_succ_apply', toNat_not, ih]
    omega

/-! ## Counting edges -/

section Count

variable {p : ℕ → Prop} [DecidablePred p] {a b : ℕ}

/-- Where nothing is counted the count stays. -/
theorem count_of_none (hab : a ≤ b) (h : ∀ k, a ≤ k → k < b → ¬p k) :
    Nat.count p b = Nat.count p a := by
  induction b, hab using Nat.le_induction with
  | base => rfl
  | succ b hab ih =>
    rw [Nat.count_succ, if_neg (h b hab (by omega)), Nat.add_zero]
    exact ih fun k hk hkb => h k hk (by omega)

/-- Where there is exactly one the count grows by one. -/
theorem count_of_existsUnique (h : ∃! k, a ≤ k ∧ k < b ∧ p k) :
    Nat.count p b = Nat.count p a + 1 := by
  obtain ⟨k, ⟨hak, hkb, hk⟩, hunique⟩ := h
  calc Nat.count p b = Nat.count p (k + 1) := by
        refine count_of_none (by omega) fun j hj hjb hpj => ?_
        have := hunique j ⟨by omega, hjb, hpj⟩
        omega
    _ = Nat.count p k + 1 := by rw [Nat.count_succ, if_pos hk]
    _ = Nat.count p a + 1 := by
        rw [count_of_none hak fun j hj hjk hpj => ?_]
        have := hunique j ⟨hj, by omega, hpj⟩
        omega

/-- A bit that starts low is the parity of the number of its changes. -/
theorem toNat_eq_count_changes {x : ℕ → Bool} (h0 : x 0 = false) (e : ℕ) :
    (x e).toNat = Nat.count (fun k => x (k + 1) ≠ x k) e % 2 := by
  induction e with
  | zero => rw [h0, Nat.count_zero]; rfl
  | succ e ih =>
    rw [Nat.count_succ]
    by_cases hchange : x (e + 1) = x e
    · rw [if_neg (not_not_intro hchange), hchange, ih, Nat.add_zero]
    · rw [if_pos hchange, Bool.eq_not.mpr hchange, toNat_not, ih]
      omega

end Count

/-- A signal that is high at first and low at last, and does not rise in between, falls once. -/
theorem existsUnique_falls {s : ℕ → Bool} {a b : ℕ} (hab : a ≤ b) (ha : s a = true)
    (hb : s b = false) (hlow : ∀ k, a ≤ k → k < b → s k = false → s (k + 1) = false) :
    ∃! d, a ≤ d ∧ d < b ∧ Falls s d := by
  -- The last high level before `b` is where it falls.
  have hfall : ∃ d, a ≤ d ∧ d < b ∧ Falls s d := by
    induction b, hab using Nat.le_induction with
    | base => rw [ha] at hb; cases hb
    | succ b hab ih =>
      cases hsb : s b with
      | true => exact ⟨b, hab, by omega, hsb, hb⟩
      | false =>
        obtain ⟨d, had, hdb, hd⟩ := ih hsb fun k hk hkb => hlow k hk (by omega)
        exact ⟨d, had, by omega, hd⟩
  -- From there on it stays low.
  have hstay : ∀ d k, a ≤ d → Falls s d → d < k → k ≤ b → s k = false := by
    intro d k had hd hdk hkb
    induction k, Nat.succ_le_of_lt hdk using Nat.le_induction with
    | base => exact hd.2
    | succ k hk ih => exact hlow k (by omega) (by omega) (ih hk (by omega))
  obtain ⟨d, had, hdb, hd⟩ := hfall
  refine ⟨d, ⟨had, hdb, hd⟩, fun e he => ?_⟩
  obtain ⟨hae, heb, hse⟩ := he
  rcases lt_trichotomy e d with hed | rfl | hde
  · exact absurd (hstay e d hae hse hed (by omega)) (by simp [hd.1])
  · rfl
  · exact absurd (hstay d e had hd hde (by omega)) (by simp [hse.1])

end GoBoard.Clocked
