import GoBoard.Clocked.Bits
import GoBoard.Clocked.EdgeDetector
import Mathlib.Data.Int.CardIntervalMod

/-!
# Clock dividers

A counter that starts at zero and is cleared after the value `C` counts the edges modulo `C + 1`
(`eq_mod_of_wraps`), so a bit that is inverted at the same edges has changed `t / (C + 1)` times
after `t` of them (`changes_eq_div`).

The rest compares dividers. `div_add_eq_div_iff` says when a divisor that is too large by `k` still
gives the right quotient: the error of `k` edges in each period must fit into what is left of the
time. Two dividers whose last values are in the ratio `n` keep their rates in that ratio up to the
times of `div_div_eq_iff` only, and drift apart without bound (`ratio_drift`).
-/

namespace GoBoard.Clocked

/-- The number of changes of the bit `x` at the first `t` edges. -/
def changes (x : ℕ → Bool) (t : ℕ) : ℕ := Nat.count (fun k => x (k + 1) ≠ x k) t

section Wraps

variable {C : ℕ}

/-- A counter that is cleared after the value `C` counts modulo `C + 1`. -/
theorem eq_mod_of_wraps {c : ℕ → ℕ} (h0 : c 0 = 0)
    (hc : ∀ e, c e ≤ C → c (e + 1) = if c e = C then 0 else c e + 1) (e : ℕ) :
    c e = e % (C + 1) := by
  induction e with
  | zero => rw [h0, Nat.zero_mod]
  | succ e ih =>
    have hlt := Nat.mod_lt e C.add_one_pos
    rw [hc e (by omega), ih, succ_mod_eq_ite C.add_one_pos e]
    by_cases hlast : e % (C + 1) = C
    · rw [if_pos hlast, if_neg (by omega)]
    · rw [if_neg hlast, if_pos (by omega)]

/-- A bit that is inverted where such a counter is cleared changes once in `C + 1` edges. -/
theorem changes_eq_div {x : ℕ → Bool}
    (hx : ∀ e, x (e + 1) = if e % (C + 1) = C then !x e else x e) (t : ℕ) :
    changes x t = t / (C + 1) := by
  have hlast : C % (C + 1) = C := Nat.mod_eq_of_lt C.lt_succ_self
  have hchange : ∀ k, x (k + 1) ≠ x k ↔ k ≡ C [MOD C + 1] := by
    intro k
    rw [hx, Nat.ModEq, hlast]
    by_cases hk : k % (C + 1) = C
    · rw [if_pos hk]
      exact iff_of_true (Bool.not_ne_self _) hk
    · rw [if_neg hk]
      exact iff_of_false (not_not_intro rfl) hk
  have hrest : ¬C % (C + 1) < t % (C + 1) := by
    have := Nat.mod_lt t C.add_one_pos
    omega
  calc changes x t = Nat.count (· ≡ C [MOD C + 1]) t := by
        unfold changes
        simp only [hchange]
    _ = t / (C + 1) + if C % (C + 1) < t % (C + 1) then 1 else 0 :=
        Nat.count_modEq_card t C.add_one_pos C
    _ = t / (C + 1) := by rw [if_neg hrest, Nat.add_zero]

end Wraps

/-! ## Comparing dividers -/

/-- A divisor that is too large by `k` gives the same quotient as long as `k` for each period fits
into the remainder. -/
theorem div_add_eq_div_iff {D : ℕ} (hD : 0 < D) (k t : ℕ) :
    t / (D + k) = t / D ↔ k * (t / D) ≤ t % D := by
  have hdiv : D * (t / D) + t % D = t := Nat.div_add_mod t D
  have hmod : t % D < D := Nat.mod_lt t hD
  have hmul : (D + k) * (t / D) = D * (t / D) + k * (t / D) := Nat.add_mul D k (t / D)
  constructor
  · intro h
    have hle : (D + k) * (t / D) ≤ t :=
      calc (D + k) * (t / D) = (D + k) * (t / (D + k)) := by rw [h]
        _ ≤ t := Nat.mul_div_le t (D + k)
    omega
  · intro h
    apply Nat.div_eq_of_lt_le
    · rw [Nat.mul_comm]
      omega
    · calc t < D * (t / D) + D := by omega
        _ = (t / D + 1) * D := by rw [Nat.add_mul, Nat.one_mul, Nat.mul_comm]
        _ ≤ (t / D + 1) * (D + k) := Nat.mul_le_mul_left _ (Nat.le_add_right D k)

/-- What fits into the remainder of one period fits into that of a multiple of it. -/
theorem div_le_mod_mul {D t : ℕ} (h : t / D ≤ t % D) (n : ℕ) : t / (n * D) ≤ t % (n * D) :=
  calc t / (n * D) = t / D / n := by rw [Nat.div_div_eq_div_mul, Nat.mul_comm]
    _ ≤ t / D := Nat.div_le_self _ n
    _ ≤ t % D := h
    _ = t % (n * D) % D := by rw [Nat.mod_mod_of_dvd t (Nat.dvd_mul_left D n)]
    _ ≤ t % (n * D) := Nat.mod_le _ D

/-- The case of one edge too many. -/
theorem div_succ_eq_div_iff {D : ℕ} (hD : 0 < D) (t : ℕ) :
    t / (D + 1) = t / D ↔ t / D ≤ t % D := by
  rw [div_add_eq_div_iff hD, Nat.one_mul]

/-- As long as the edge too many fits for the last value `C`, the last values `C` and `n * C` keep
their dividers in the ratio `n`. -/
theorem div_div_of_div_le_mod {C t n : ℕ} (hC : 0 < C) (hn : 0 < n) (h : t / C ≤ t % C) :
    t / (n * C + 1) = t / (C + 1) / n :=
  calc t / (n * C + 1) = t / (n * C) :=
        (div_succ_eq_div_iff (Nat.mul_pos hn hC) t).mpr (div_le_mod_mul h n)
    _ = t / C / n := by rw [Nat.div_div_eq_div_mul, Nat.mul_comm]
    _ = t / (C + 1) / n := by rw [(div_succ_eq_div_iff hC t).mpr h]

/-- The edge too many fits at every one of the first `T` edges only if the first period is not over.
-/
theorem div_le_mod_upto_iff {C : ℕ} (hC : 0 < C) (T : ℕ) :
    (∀ t ≤ T, t / C ≤ t % C) ↔ T < C := by
  constructor
  · intro h
    by_contra hle
    have hfull := h C (Nat.le_of_not_lt hle)
    rw [Nat.div_self hC, Nat.mod_self] at hfull
    omega
  · intro hlt t ht
    rw [Nat.div_eq_of_lt (by omega)]
    exact Nat.zero_le _

/-- The last values `C` and `(n + 1) * C` keep their dividers in the ratio `n + 1` exactly where the
`n` edges by which the periods miss it fit. -/
theorem div_div_eq_iff (C n t : ℕ) : t / ((n + 1) * C + 1) = t / (C + 1) / (n + 1) ↔
    n * (t / ((n + 1) * C + 1)) ≤ t % ((n + 1) * C + 1) := by
  have hperiod : (C + 1) * (n + 1) = (n + 1) * C + 1 + n := by ring
  rw [Nat.div_div_eq_div_mul, hperiod, eq_comm]
  exact div_add_eq_div_iff (Nat.add_one_pos _) n t

/-- The slower divider gets ahead of the ratio by any number of the missing edges. -/
theorem ratio_drift (C n k : ℕ) :
    ∃ t, (n + 1) * (t / ((n + 1) * C + 1)) = t / (C + 1) + k * n := by
  -- After `k` times the product of the two periods both have just changed.
  refine ⟨k * (C + 1) * ((n + 1) * C + 1), ?_⟩
  have hswap : k * (C + 1) * ((n + 1) * C + 1) = k * ((n + 1) * C + 1) * (C + 1) :=
    Nat.mul_right_comm k (C + 1) ((n + 1) * C + 1)
  calc (n + 1) * (k * (C + 1) * ((n + 1) * C + 1) / ((n + 1) * C + 1))
      = (n + 1) * (k * (C + 1)) := by rw [Nat.mul_div_cancel _ (Nat.add_one_pos _)]
    _ = k * ((n + 1) * C + 1) + k * n := by ring
    _ = k * (C + 1) * ((n + 1) * C + 1) / (C + 1) + k * n := by
        rw [hswap, Nat.mul_div_cancel _ C.add_one_pos]

end GoBoard.Clocked
