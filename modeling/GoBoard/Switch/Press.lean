import GoBoard.Switch.Toggle

/-!
# Presses of a bouncing switch

A switch that is pressed and released, bouncing at both (`Press`, `Session`). Nothing that is
shorter than `L + 1` samples gets through the debouncer, so its level is steady while the switch
bounces (`debounced_of_bounces`). It falls once for each press, after the release, and the toggle
follows it one edge later: `o_SW` changes once for each press, while the switch is low again
(`toggle_per_press`).

`AtRest` is what one press leaves behind for the next one: the debounced level is low, and so is the
last sample. `Press.On.existsUnique_toggles` is the step of one press, and `Session.atRest` the run.
-/

namespace GoBoard.Switch

open Clocked (Falls count_of_existsUnique count_of_none existsUnique_falls not_falls_of_high
  not_falls_of_low toNat_eq_count_changes)

/-! ## Waveforms -/

/-- The switch bounces from edge `a` to `b`: no `L + 1` consecutive samples there are equal. -/
def Bounces (L : ℕ) (sw : ℕ → Bool) (a b : ℕ) : Prop :=
  ∀ v k, a ≤ k → k + L < b → ∃ u, k ≤ u ∧ u ≤ k + L ∧ sw u ≠ v

/-- The first edges of the phases of a press: the switch bounces, is high, bounces again, and is low
up to `stop`. -/
structure Press where
  start : ℕ
  high : ℕ
  release : ℕ
  low : ℕ
  stop : ℕ

/-- The waveform `sw` has the press `p`. -/
structure Press.On (p : Press) (L : ℕ) (sw : ℕ → Bool) : Prop where
  start_le : p.start ≤ p.high
  high_len : p.high + (L + 1) ≤ p.release
  release_le : p.release ≤ p.low
  low_len : p.low + (L + 2) ≤ p.stop
  bounces_press : Bounces L sw p.start p.high
  sw_high : ∀ k, p.high ≤ k → k < p.release → sw k = true
  bounces_release : Bounces L sw p.release p.low
  sw_low : ∀ k, p.low ≤ k → k < p.stop → sw k = false

/-- The waveform up to edge `E`: low for any time, and then the presses `ps` one after the other. -/
inductive Session (L : ℕ) (sw : ℕ → Bool) : ℕ → List Press → Prop
  | low {E : ℕ} : (∀ k, k < E → sw k = false) → Session L sw E []
  | press {ps : List Press} {p : Press} : Session L sw p.start ps → p.On L sw →
      Session L sw p.stop (ps ++ [p])

/-! ## The debounced level -/

section Level

variable {L : ℕ} (hL : L < 2 ^ 18) {sw : ℕ → Bool}
include hL

/-- The level is steady while the switch bounces. -/
theorem debounced_of_bounces {a b k : ℕ} {v : Bool} (hb : Bounces L sw a b)
    (hv : debounced L sw a = v) (hlast : a = 0 ∨ sw (a - 1) = v) (hak : a ≤ k) (hkb : k ≤ b) :
    debounced L sw k = v := by
  induction k, hak using Nat.le_induction with
  | base => exact hv
  | succ k hak ih =>
    refine o_Switch_succ_eq hL sw (ih (by omega)) fun hLk => ?_
    by_cases hin : a ≤ k - L
    · -- All of the last `L + 1` samples are in the bounce.
      obtain ⟨u, hu, huk, hne⟩ := hb (!v) (k - L) hin (by omega)
      exact ⟨u, hu, by omega, by rwa [← Bool.not_not v, Bool.eq_not]⟩
    · -- The last sample before the bounce is among them.
      refine ⟨a - 1, by omega, by omega, ?_⟩
      rcases hlast with rfl | hsw
      · omega
      · exact hsw

/-- A level that is held for `L + 1` samples is adopted, and stays while it is held. -/
theorem debounced_of_held {a b k : ℕ} {v : Bool} (hheld : ∀ j, a ≤ j → j < b → sw j = v)
    (hak : a + (L + 1) ≤ k) (hkb : k ≤ b) : debounced L sw k = v := by
  have hadopt : debounced L sw (a + (L + 1)) = v :=
    o_Switch_adopt hL sw fun j hj => hheld (a + j) (by omega) (by omega)
  obtain ⟨n, rfl⟩ := Nat.exists_eq_add_of_le hak
  exact o_Switch_of_held hL sw hadopt fun j hj => hheld _ (by omega) (by omega)

/-- The level does not rise at a low sample. -/
theorem debounced_succ_eq_false {k : ℕ} (hsw : sw k = false) (hk : debounced L sw k = false) :
    debounced L sw (k + 1) = false :=
  o_Switch_succ_eq hL sw hk fun _ => ⟨k, by omega, le_rfl, hsw⟩

/-- The level does not fall at a high sample. -/
theorem not_falls_of_sample {k : ℕ} (hsw : sw k = true) : ¬Falls (debounced L sw) k := by
  intro hfall
  have hkeep : debounced L sw (k + 1) = true :=
    o_Switch_succ_eq hL sw hfall.1 fun _ => ⟨k, by omega, le_rfl, hsw⟩
  exact not_falls_of_high hkeep hfall

end Level

/-! ## One press -/

/-- Nothing is pending before edge `e`: the debounced level is low, the level one edge before and
the last sample too. -/
structure AtRest (L : ℕ) (sw : ℕ → Bool) (e : ℕ) : Prop where
  level : debounced L sw e = false
  before : e = 0 ∨ debounced L sw (e - 1) = false ∧ sw (e - 1) = false

namespace Press.On

variable {L : ℕ} (hL : L < 2 ^ 18) {sw : ℕ → Bool} {p : Press}
include hL

/-- The level is low while the switch bounces on being pressed. -/
theorem debounced_press (hp : p.On L sw) (hrest : AtRest L sw p.start) {k : ℕ} (hk : p.start ≤ k)
    (hkh : k ≤ p.high) : debounced L sw k = false :=
  debounced_of_bounces hL hp.bounces_press hrest.level (hrest.before.imp_right And.right) hk hkh

/-- The level is high while it bounces on being released. -/
theorem debounced_release (hp : p.On L sw) {k : ℕ} (hk : p.release ≤ k) (hkl : k ≤ p.low) :
    debounced L sw k = true := by
  have hlen := hp.high_len
  exact debounced_of_bounces hL hp.bounces_release
    (debounced_of_held hL hp.sw_high hp.high_len le_rfl)
    (.inr (hp.sw_high _ (by omega) (by omega))) hk hkl

/-- The level does not fall before the switch is low again. -/
theorem not_falls (hp : p.On L sw) (hrest : AtRest L sw p.start) {k : ℕ} (hk : p.start ≤ k)
    (hkl : k < p.low) : ¬Falls (debounced L sw) k := by
  by_cases hhigh : k < p.high
  · exact not_falls_of_low (hp.debounced_press hL hrest hk hhigh.le)
  · by_cases hrelease : k < p.release
    · exact not_falls_of_sample hL (hp.sw_high k (by omega) hrelease)
    · exact not_falls_of_high (hp.debounced_release hL (by omega) (by omega))

/-- `o_SW` does not change before the switch is low again. -/
theorem not_toggles (hp : p.On L sw) (hrest : AtRest L sw p.start) {k : ℕ} (hk : p.start ≤ k)
    (hkl : k ≤ p.low) : ¬Toggles L sw k := by
  cases k with
  | zero => exact not_toggles_zero L sw
  | succ k =>
    rw [toggles_succ_iff]
    by_cases hstart : p.start = k + 1
    · -- The level was low already one edge before the press.
      rcases hrest.before with h0 | ⟨hlow, -⟩
      · omega
      · rw [hstart, Nat.add_sub_cancel] at hlow
        exact not_falls_of_low hlow
    · exact hp.not_falls hL hrest (by omega) (by omega)

/-- It changes once while the switch is low again. -/
theorem existsUnique_toggles (hp : p.On L sw) :
    ∃! k, p.low ≤ k ∧ k < p.stop ∧ Toggles L sw k := by
  have hlen := hp.low_len
  have hhigh := hp.debounced_release hL hp.release_le le_rfl
  have hlow : debounced L sw (p.stop - 1) = false :=
    debounced_of_held hL hp.sw_low (by omega) (by omega)
  obtain ⟨d, ⟨had, hdb, hd⟩, hunique⟩ := existsUnique_falls (by omega) hhigh hlow fun k hk hks =>
    debounced_succ_eq_false hL (hp.sw_low k hk (by omega))
  refine ⟨d + 1, ⟨by omega, by omega, (toggles_succ_iff L sw d).mpr hd⟩, ?_⟩
  rintro k ⟨hk, hks, htoggle⟩
  cases k with
  | zero => exact absurd htoggle (not_toggles_zero L sw)
  | succ k =>
    rw [toggles_succ_iff] at htoggle
    have hne : p.low ≠ k + 1 := by
      intro heq
      rw [heq] at hhigh
      exact not_falls_of_high hhigh htoggle
    rw [hunique k ⟨by omega, by omega, htoggle⟩]

/-- The low phase ends at rest. -/
theorem atRest (hp : p.On L sw) : AtRest L sw p.stop := by
  have hlen := hp.low_len
  refine ⟨debounced_of_held hL hp.sw_low (by omega) le_rfl, .inr ⟨?_, ?_⟩⟩
  · exact debounced_of_held hL hp.sw_low (by omega) (by omega)
  · exact hp.sw_low _ (by omega) (by omega)

end Press.On

/-! ## Sessions -/

/-- What a session does to `o_SW`: it changes once for each press, in its low phase, and not before
that. -/
structure TogglesOnce (L : ℕ) (sw : ℕ → Bool) (E : ℕ) (ps : List Press) : Prop where
  count : Nat.count (Toggles L sw) E = ps.length
  steady : ∀ p ∈ ps, ∀ k, p.start ≤ k → k < p.low → ¬Toggles L sw k
  once : ∀ p ∈ ps, ∃! k, p.low ≤ k ∧ k < p.stop ∧ Toggles L sw k

namespace Session

variable {L : ℕ} (hL : L < 2 ^ 18) {sw : ℕ → Bool} {E : ℕ} {ps : List Press}
include hL

/-- Before the first press the level is low. -/
theorem debounced_of_low (hlow : ∀ k, k < E → sw k = false) {k : ℕ} (hk : k ≤ E) :
    debounced L sw k = false := by
  rw [← Nat.zero_add k]
  exact o_Switch_of_held hL sw rfl fun j hj => hlow _ (by omega)

/-- A session ends at rest. -/
theorem atRest (h : Session L sw E ps) : AtRest L sw E := by
  cases h with
  | low hlow =>
    refine ⟨debounced_of_low hL hlow le_rfl, ?_⟩
    by_cases hE : E = 0
    · exact .inl hE
    · exact .inr ⟨debounced_of_low hL hlow (by omega), hlow _ (by omega)⟩
  | press _ hp => exact hp.atRest hL

theorem togglesOnce (h : Session L sw E ps) : TogglesOnce L sw E ps := by
  induction h with
  | @low E hlow =>
    have hnone : ∀ k, k < E → ¬Toggles L sw k := by
      intro k hk
      cases k with
      | zero => exact not_toggles_zero L sw
      | succ k =>
        rw [toggles_succ_iff]
        exact not_falls_of_low (debounced_of_low hL hlow (by omega))
    exact ⟨Nat.count_iff_forall_not.mpr hnone, by simp, by simp⟩
  | @press ps p hs hp ih =>
    have hrest := hs.atRest hL
    have hsteady := fun k => hp.not_toggles hL hrest (k := k)
    have honce := hp.existsUnique_toggles hL
    refine ⟨?_, fun q hq => ?_, fun q hq => ?_⟩
    · have hbefore : Nat.count (Toggles L sw) p.low = Nat.count (Toggles L sw) p.start :=
        count_of_none (hp.start_le.trans (by have := hp.high_len; have := hp.release_le; omega))
          fun k hk hkl => hsteady k hk hkl.le
      calc Nat.count (Toggles L sw) p.stop
          = Nat.count (Toggles L sw) p.low + 1 := count_of_existsUnique honce
        _ = ps.length + 1 := by rw [hbefore, ih.count]
        _ = (ps ++ [p]).length := by rw [List.length_append, List.length_singleton]
    · rcases List.mem_append.mp hq with hq | hq
      · exact ih.steady q hq
      · rw [List.mem_singleton.mp hq]
        exact fun k hk hkl => hsteady k hk hkl.le
    · rcases List.mem_append.mp hq with hq | hq
      · exact ih.once q hq
      · rw [List.mem_singleton.mp hq]
        exact honce

end Session

/-- One toggle per press: in a session `o_SW` changes once for each press, and ends as the parity of
their number. On every waveform, `o_SW` is the parity of the falls of the debounced level so far. -/
theorem toggle_per_press (L : ℕ) (hL : L < 2 ^ 18) (sw : ℕ → Bool) :
    (∀ E ps, Session L sw E ps → TogglesOnce L sw E ps ∧
      ((swToggle L).run sw E).o_SW.toNat = ps.length % 2) ∧
    ∀ e, ((swToggle L).run sw (e + 1)).o_SW.toNat =
      Nat.count (Falls (debounced L sw)) e % 2 := by
  refine ⟨fun E ps h => ⟨h.togglesOnce hL, ?_⟩, o_SW_toNat L sw⟩
  calc ((swToggle L).run sw E).o_SW.toNat = Nat.count (Toggles L sw) E % 2 :=
        toNat_eq_count_changes (x := fun e => ((swToggle L).run sw e).o_SW) rfl E
    _ = ps.length % 2 := by rw [(h.togglesOnce hL).count]

/-- One press, with four alternating samples before and after two high ones. -/
def bouncingPress (k : ℕ) : Bool :=
  if k < 4 then k % 2 == 0 else if k < 6 then true else if k < 10 then k % 2 == 1 else false

/-- The statement for that press at limit 1. -/
theorem toggle_per_press_bouncing : TogglesOnce 1 bouncingPress 13 [⟨0, 4, 6, 10, 13⟩] ∧
    ((swToggle 1).run bouncingPress 13).o_SW.toNat = 1 % 2 := by
  have hbounce : ∀ k, k < 9 → k < 3 ∨ 6 ≤ k → ∀ v, ∃ u, u < 10 ∧ k ≤ u ∧ u ≤ k + 1 ∧
      bouncingPress u ≠ v := by decide
  have hp : Press.On ⟨0, 4, 6, 10, 13⟩ 1 bouncingPress := by
    constructor
    · decide
    · decide
    · decide
    · decide
    · intro v k hk hlt
      dsimp only at hk hlt
      obtain ⟨u, -, hu⟩ := hbounce k (by omega) (.inl (by omega)) v
      exact ⟨u, hu⟩
    · intro k hk hlt
      dsimp only at hk hlt
      unfold bouncingPress
      rw [if_neg (by omega), if_pos hlt]
    · intro v k hk hlt
      dsimp only at hk hlt
      obtain ⟨u, -, hu⟩ := hbounce k (by omega) (.inr hk) v
      exact ⟨u, hu⟩
    · intro k hk hlt
      dsimp only at hk hlt
      unfold bouncingPress
      rw [if_neg (by omega), if_neg (by omega), if_neg (by omega)]
  have hs : Session 1 bouncingPress 0 [] := .low fun k hk => absurd hk (Nat.not_lt_zero k)
  exact (toggle_per_press 1 (by decide) bouncingPress).1 13 _ (hs.press hp)

end GoBoard.Switch
