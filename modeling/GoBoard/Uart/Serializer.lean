import GoBoard.Serial.Frame

/-!
# The ideal serializer

What a transmitter with `N` clock edges per bit is for. It takes a request unless it took another
one less than `10 N + 2` edges before, and sends the byte as an 8N1 frame that starts two edges
after the request was taken. `sending` is the request that is being served before an edge, and
`Accepted` are the requests that are taken. `accepted_iff` is the greedy rule: the accepted requests
are exactly those at least `10 N + 2` edges after every earlier accepted one. `Greedy` is the same
rule as a choice made edge by edge that remembers the last chosen edge only (`greedy_iff`).
-/

namespace GoBoard.Uart

open Serial (Separated)

/-- The request that the serializer serves before edge `e`, by the edge that took it. -/
def sending (N : ℕ) (dv : ℕ → Bool) : ℕ → Option ℕ
  | 0 => none
  | e + 1 =>
    match sending N dv e with
    | none => if dv e = true then some e else none
    | some t => if e = t + 1 + 10 * N then none else some t

/-- The request at edge `t` is taken. -/
def Accepted (N : ℕ) (dv : ℕ → Bool) (t : ℕ) : Prop := sending N dv t = none ∧ dv t = true

instance (N : ℕ) (dv : ℕ → Bool) (t : ℕ) : Decidable (Accepted N dv t) :=
  inferInstanceAs (Decidable (_ ∧ _))

section Sending

variable {N : ℕ} {dv : ℕ → Bool} {e t u : ℕ}

theorem sending_succ_none (h : sending N dv e = none) :
    sending N dv (e + 1) = if dv e = true then some e else none := by
  rw [sending, h]

theorem sending_succ_some (h : sending N dv e = some t) :
    sending N dv (e + 1) = if e = t + 1 + 10 * N then none else some t := by
  rw [sending, h]

/-- An accepted request is served until ten bit periods and one edge later. -/
theorem Accepted.sending_eq (h : Accepted N dv t) (hlt : t < e) (hle : e ≤ t + 1 + 10 * N) :
    sending N dv e = some t := by
  induction e, Nat.succ_le_of_lt hlt using Nat.le_induction with
  | base => rw [sending_succ_none h.1, if_pos h.2]
  | succ e he ih => rw [sending_succ_some (ih (by omega) (by omega)), if_neg (by omega)]

/-- The served request was accepted, and its time is not over. -/
theorem accepted_of_sending (h : sending N dv e = some t) :
    Accepted N dv t ∧ t < e ∧ e ≤ t + 1 + 10 * N := by
  induction e generalizing t with
  | zero => cases h
  | succ e ih =>
    cases hs : sending N dv e with
    | none =>
      -- The request is taken at edge `e`.
      rw [sending_succ_none hs] at h
      split_ifs at h with hdv
      cases h
      exact ⟨⟨hs, hdv⟩, by omega, by omega⟩
    | some u =>
      -- It was taken before, and is not over yet.
      rw [sending_succ_some hs] at h
      split_ifs at h with hend
      cases h
      obtain ⟨ha, hlt, hle⟩ := ih hs
      exact ⟨ha, by omega, by omega⟩

/-- Accepted requests are at least `10 N + 2` edges apart. -/
theorem Accepted.spacing (h : Accepted N dv t) (h' : Accepted N dv u) (hlt : t < u) :
    t + 10 * N + 2 ≤ u := by
  by_contra hno
  have hs := h.sending_eq hlt (by omega)
  rw [h'.1] at hs
  cases hs

/-- A request is taken unless an earlier one is still being served. -/
theorem accepted_or (h : dv u = true) :
    Accepted N dv u ∨ ∃ t, Accepted N dv t ∧ t < u ∧ u ≤ t + 1 + 10 * N := by
  cases hs : sending N dv u with
  | none => exact .inl ⟨hs, h⟩
  | some t => exact .inr ⟨t, accepted_of_sending hs⟩

/-- The greedy rule. -/
theorem accepted_iff : Accepted N dv u ↔
    dv u = true ∧ ∀ t, Accepted N dv t → t < u → t + 10 * N + 2 ≤ u := by
  constructor
  · intro h
    exact ⟨h.2, fun t ht hlt => ht.spacing h hlt⟩
  · rintro ⟨hdv, hall⟩
    rcases accepted_or hdv with h | ⟨t, ht, hlt, hle⟩
    · exact h
    · -- The request that is being served is too close.
      have := hall t ht hlt
      omega

/-- The last edge before `e` of the requests that are chosen greedily, each one as soon as it is `d`
edges after the last. -/
def lastChosen (d : ℕ) (dv : ℕ → Bool) : ℕ → Option ℕ
  | 0 => none
  | e + 1 =>
    if dv e = true ∧ ∀ t ∈ lastChosen d dv e, t + d ≤ e then some e else lastChosen d dv e

/-- The greedy choice takes the request at edge `e`: there is one, at least `d` edges after the last
that it took. -/
def Greedy (d : ℕ) (dv : ℕ → Bool) (e : ℕ) : Prop :=
  dv e = true ∧ ∀ t ∈ lastChosen d dv e, t + d ≤ e

instance (d : ℕ) (dv : ℕ → Bool) (e : ℕ) : Decidable (Greedy d dv e) :=
  inferInstanceAs (Decidable (_ ∧ _))

/-- What the greedy choice has to remember: the last accepted edge. -/
structure Remembers (N : ℕ) (dv : ℕ → Bool) (e : ℕ) (last : Option ℕ) : Prop where
  accepted : ∀ t ∈ last, Accepted N dv t ∧ t < e
  latest : ∀ u, u < e → Accepted N dv u → ∃ t ∈ last, u ≤ t

/-- With that memory the choice at an edge is the serializer's. -/
theorem Remembers.greedy_iff (h : Remembers N dv e (lastChosen (10 * N + 2) dv e)) :
    Greedy (10 * N + 2) dv e ↔ Accepted N dv e := by
  unfold Greedy
  rw [accepted_iff]
  refine and_congr_right fun _ => ⟨fun hfar u hu hue => ?_, fun hfar t ht => ?_⟩
  · obtain ⟨t, ht, hut⟩ := h.latest u hue hu
    have := hfar t ht
    omega
  · have := hfar t (h.accepted t ht).1 (h.accepted t ht).2
    omega

/-- The greedy choice has it before every edge. -/
theorem remembers_lastChosen (N : ℕ) (dv : ℕ → Bool) (e : ℕ) :
    Remembers N dv e (lastChosen (10 * N + 2) dv e) := by
  induction e with
  | zero => exact ⟨fun t ht => (Option.not_mem_none t ht).elim, fun u hu => by omega⟩
  | succ e ih =>
    have hchoice := ih.greedy_iff
    unfold Greedy at hchoice
    unfold lastChosen
    split_ifs with hchosen
    · refine ⟨fun t ht => ?_, fun u hu _ => ⟨e, rfl, by omega⟩⟩
      obtain rfl : e = t := Option.some.inj ht
      exact ⟨hchoice.mp hchosen, by omega⟩
    · -- Nothing is accepted at edge `e`, so the last accepted edge stays.
      refine ⟨fun t ht => ⟨(ih.accepted t ht).1, ?_⟩, fun u hu hacc => ?_⟩
      · have := (ih.accepted t ht).2
        omega
      · rcases Nat.lt_succ_iff_lt_or_eq.mp hu with hlt | rfl
        · exact ih.latest u hlt hacc
        · exact absurd (hchoice.mpr hacc) hchosen

/-- The greedy choice takes exactly the requests that the serializer accepts. -/
theorem greedy_iff : Greedy (10 * N + 2) dv u ↔ Accepted N dv u :=
  (remembers_lastChosen N dv u).greedy_iff

/-- The frames of the accepted requests: the byte at the request, from two edges later on. -/
def sentFrames (N : ℕ) (dv : ℕ → Bool) (byte : ℕ → BitVec 8) : Set (ℕ × BitVec 8) :=
  {f | ∃ t, Accepted N dv t ∧ f = (t + 2, byte t)}

theorem separated_sentFrames (N : ℕ) (dv : ℕ → Bool) (byte : ℕ → BitVec 8) :
    Separated (10 * N + 2) (sentFrames N dv byte) := by
  rintro _ ⟨t, ht, rfl⟩ _ ⟨u, hu, rfl⟩ hlt
  dsimp only at hlt ⊢
  have := ht.spacing hu (by omega)
  omega

end Sending

end GoBoard.Uart
