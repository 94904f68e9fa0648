import GoBoard.Coding.Packing

/-!
# Readers of a byte stream

A reader takes bytes from a stream, keeps a state about what it has taken, and may fail. It is
`Regular` when it takes a part from the front of the stream, gives the same result for every stream
that begins with this part, and fails for no other reason than the bytes that it has seen, unless
the stream ended too early. The combinators keep this (`Regular.bind`, `Regular.times`,
`Regular.loop`), so a reader of a whole format is regular when its parts are. A regular reader runs
out of bytes on everything that is shorter than the part it takes (`Regular.truncated`).
-/

namespace GoBoard.Coding

variable {σ ε α β γ : Type}

/-- The bytes that are left, and the state. -/
structure Source (σ : Type) where
  rest : List Byte
  state : σ
  deriving DecidableEq, Repr

/-- A reader. -/
abbrev Parse (σ ε α : Type) := StateT (Source σ) (Except ε) α

namespace Parse

/-- What a sequence of two readers does. -/
theorem bind_apply (p : Parse σ ε α) (f : α → Parse σ ε β) (r : Source σ) :
    (p >>= f) r = match p r with
      | .ok (a, r') => f a r'
      | .error e => .error e := by
  change (p r >>= fun x => f x.1 x.2) = _
  cases p r <;> rfl

/-- A success of a sequence comes from one of both parts. -/
theorem bind_eq_ok {p : Parse σ ε α} {f : α → Parse σ ε β} {r r' : Source σ} {b : β} :
    (p >>= f) r = .ok (b, r') ↔ ∃ a m, p r = .ok (a, m) ∧ f a m = .ok (b, r') := by
  rw [bind_apply]
  cases p r with
  | error e => simp
  | ok x =>
    obtain ⟨a, m⟩ := x
    simp

/-- An error of a sequence comes from one of its parts. -/
theorem bind_eq_error {p : Parse σ ε α} {f : α → Parse σ ε β} {r : Source σ} {e : ε} :
    (p >>= f) r = .error e ↔
      p r = .error e ∨ ∃ a m, p r = .ok (a, m) ∧ f a m = .error e := by
  rw [bind_apply]
  cases p r with
  | error e => simp
  | ok x =>
    obtain ⟨a, m⟩ := x
    simp

/-- The next byte, which updates the state. -/
def next (update : σ → Byte → σ) (eof : ε) : Parse σ ε Byte := fun r =>
  match r.rest with
  | [] => .error eof
  | b :: rest => .ok (b, ⟨rest, update r.state b⟩)

/-- A reader a number of times. -/
def times (p : Parse σ ε α) : ℕ → Parse σ ε (List α)
  | 0 => pure []
  | n + 1 => do
    let a ← p
    let as ← times p n
    return a :: as

/-- A look at the state, which may change it or fail, and takes no byte. -/
def onState (f : σ → Except ε (α × σ)) : Parse σ ε α := fun r =>
  match f r.state with
  | .ok (a, s) => .ok (a, ⟨r.rest, s⟩)
  | .error e => .error e

/-- The bytes at the front of the stream. -/
theorem times_next_append (update : σ → Byte → σ) (eof : ε) (bs rest : List Byte) (state : σ) :
    times (next update eof) bs.length ⟨bs ++ rest, state⟩ =
      .ok (bs, ⟨rest, bs.foldl update state⟩) := by
  induction bs generalizing state with
  | nil => rfl
  | cons b bs ih =>
    have htimes : times (next update eof) (b :: bs).length ⟨b :: bs ++ rest, state⟩ =
        (times (next update eof) bs.length >>= fun bs => pure (b :: bs))
          ⟨bs ++ rest, update state b⟩ := rfl
    rw [htimes, bind_apply, ih]
    rfl

/-! ## What a reader ensures -/

/-- Every result of the reader has the property. -/
def Ensures (p : Parse σ ε α) (Q : α → Prop) : Prop := ∀ r a r', p r = .ok (a, r') → Q a

namespace Ensures

variable {P : α → Prop} {Q : β → Prop}

theorem onState {f : σ → Except ε (α × σ)} (hf : ∀ s a s', f s = .ok (a, s') → P a) :
    Ensures (Parse.onState f) P := by
  intro r a r' h
  unfold Parse.onState at h
  cases hfr : f r.state with
  | error e => simp [hfr] at h
  | ok x =>
    simp only [hfr, Except.ok.injEq, Prod.mk.injEq] at h
    obtain ⟨rfl, -⟩ := h
    exact hf _ _ _ hfr

theorem pure {a : α} (ha : P a) : Ensures (pure a : Parse σ ε α) P :=
  onState (f := fun s => .ok (a, s)) fun s b s' h => by
    cases h
    exact ha

theorem throw (e : ε) : Ensures (throw e : Parse σ ε α) P :=
  onState (f := fun _ => .error e) fun s b s' h => by cases h

theorem bind {p : Parse σ ε α} {f : α → Parse σ ε β} (hp : Ensures p P)
    (hf : ∀ a, P a → Ensures (f a) Q) : Ensures (p >>= f) Q := by
  intro r b r' h
  obtain ⟨a, m, ha, hb⟩ := bind_eq_ok.mp h
  exact hf a (hp r a m ha) m b r' hb

theorem trivial (p : Parse σ ε α) : Ensures p fun _ => True := fun _ _ _ _ => True.intro

/-- A reader that runs `n` times has `n` results. -/
theorem times (p : Parse σ ε α) (n : ℕ) : Ensures (Parse.times p n) fun as => as.length = n := by
  induction n with
  | zero => exact .pure rfl
  | succ n ih =>
    exact (trivial p).bind fun a _ => ih.bind fun as has => .pure (by rw [List.length_cons, has])

end Ensures

end Parse

/-! ## Regular readers -/

/-- The reader takes a part from the front of the stream and would take it from every stream that
begins with it. An error that is not about the end of the stream does not depend on what follows. -/
structure Regular (eof : ε) (p : Parse σ ε α) : Prop where
  takes : ∀ r a r', p r = .ok (a, r') →
    ∃ bs, r.rest = bs ++ r'.rest ∧ ∀ t, p ⟨bs ++ t, r.state⟩ = .ok (a, ⟨t, r'.state⟩)
  fails : ∀ r e, p r = .error e → e ≠ eof → ∀ t, p ⟨r.rest ++ t, r.state⟩ = .error e

/-- The reader is regular and takes at least one byte. -/
structure Consuming (eof : ε) (p : Parse σ ε α) : Prop extends Regular eof p where
  shrinks : ∀ r a r', p r = .ok (a, r') → r'.rest.length < r.rest.length

namespace Regular

variable {eof : ε}

/-- Nothing is given back. -/
theorem le {p : Parse σ ε α} (hp : Regular eof p) {r r' : Source σ} {a : α}
    (h : p r = .ok (a, r')) : r'.rest.length ≤ r.rest.length := by
  obtain ⟨bs, hrest, -⟩ := hp.takes r a r' h
  simp [hrest]

theorem onState (f : σ → Except ε (α × σ)) : Regular eof (Parse.onState f) where
  takes r a r' h := by
    unfold Parse.onState at h
    cases hf : f r.state with
    | error e => simp [hf] at h
    | ok x =>
      simp only [hf, Except.ok.injEq, Prod.mk.injEq] at h
      obtain ⟨rfl, rfl⟩ := h
      exact ⟨[], rfl, fun t => by simp [Parse.onState, hf]⟩
  fails r e h _ t := by
    unfold Parse.onState at h
    cases hf : f r.state with
    | error e' => simpa [Parse.onState, hf] using h
    | ok x => simp [hf] at h

theorem pure (a : α) : Regular eof (pure a : Parse σ ε α) := onState fun s => .ok (a, s)

theorem throw (e : ε) : Regular eof (throw e : Parse σ ε α) := onState fun _ => .error e

theorem bind {p : Parse σ ε α} {f : α → Parse σ ε β} (hp : Regular eof p)
    (hf : ∀ a, Regular eof (f a)) : Regular eof (p >>= f) where
  takes r b r' h := by
    obtain ⟨a, m, ha, hb⟩ := Parse.bind_eq_ok.mp h
    obtain ⟨bs, hbs, hpt⟩ := hp.takes r a m ha
    obtain ⟨cs, hcs, hft⟩ := (hf a).takes m b r' hb
    refine ⟨bs ++ cs, by rw [hbs, hcs, List.append_assoc], fun t => ?_⟩
    rw [List.append_assoc]
    exact Parse.bind_eq_ok.mpr ⟨a, ⟨cs ++ t, m.state⟩, hpt _, hft t⟩
  fails r e h he t := by
    rw [Parse.bind_eq_error] at h ⊢
    rcases h with h | ⟨a, m, ha, hb⟩
    · exact .inl (hp.fails r e h he t)
    · obtain ⟨bs, hbs, hpt⟩ := hp.takes r a m ha
      refine .inr ⟨a, ⟨m.rest ++ t, m.state⟩, ?_, (hf a).fails m e hb he t⟩
      rw [hbs, List.append_assoc]
      exact hpt _

theorem next (update : σ → Byte → σ) : Regular eof (Parse.next update eof) where
  takes r a r' h := by
    obtain ⟨rest, state⟩ := r
    cases rest with
    | nil => cases h
    | cons b rest =>
      cases h
      exact ⟨[a], rfl, fun t => rfl⟩
  fails r e h he t := by
    obtain ⟨rest, state⟩ := r
    cases rest with
    | nil =>
      cases h
      exact absurd rfl he
    | cons b rest => cases h

theorem times {p : Parse σ ε α} (hp : Regular eof p) (n : ℕ) : Regular eof (Parse.times p n) := by
  induction n with
  | zero => exact .pure []
  | succ n ih => exact hp.bind fun a => ih.bind fun as => .pure (a :: as)

/-- A reader that takes all of a stream runs out of bytes when the end of it is missing. -/
theorem truncated {p : Parse σ ε α} (hp : Regular eof p) {bs cs : List Byte} {s s' : σ} {a : α}
    (h : p ⟨bs ++ cs, s⟩ = .ok (a, ⟨[], s'⟩)) (hcs : cs ≠ []) : p ⟨bs, s⟩ = .error eof := by
  cases hbs : p ⟨bs, s⟩ with
  | ok x =>
    -- What is left over would contain all of `cs`.
    obtain ⟨ds, hds, ht⟩ := hp.takes _ x.1 x.2 hbs
    have hall := ht (x.2.rest ++ cs)
    rw [← List.append_assoc, ← hds, h] at hall
    simp [hcs] at hall
  | error e =>
    by_cases he : e = eof
    · rw [he]
    · have hall := hp.fails _ e hbs he cs
      rw [h] at hall
      cases hall

end Regular

theorem Consuming.next {eof : ε} (update : σ → Byte → σ) :
    Consuming eof (Parse.next update eof) where
  toRegular := .next update
  shrinks r a r' h := by
    obtain ⟨rest, state⟩ := r
    cases rest with
    | nil => cases h
    | cons b rest =>
      cases h
      exact Nat.lt_succ_self _

theorem Consuming.bind {eof : ε} {p : Parse σ ε α} {f : α → Parse σ ε β} (hp : Consuming eof p)
    (hf : ∀ a, Regular eof (f a)) : Consuming eof (p >>= f) where
  toRegular := hp.toRegular.bind hf
  shrinks r b r' h := by
    obtain ⟨a, m, ha, hb⟩ := Parse.bind_eq_ok.mp h
    exact Nat.lt_of_le_of_lt ((hf a).le hb) (hp.shrinks r a m ha)

/-! ## Loops -/

namespace Parse

variable {eof : ε} {step : γ → Parse σ ε (γ ⊕ β)} (h : ∀ c, Consuming eof (step c))

/-- A loop that runs until its body has a result. The body takes at least one byte. -/
def loop (c : γ) (r : Source σ) : Except ε (β × Source σ) :=
  match hstep : step c r with
  | .ok (.inl c', r') =>
    have := (h c).shrinks r _ r' hstep
    loop c' r'
  | .ok (.inr b, r') => .ok (b, r')
  | .error e => .error e
termination_by r.rest.length

/-- The loop goes on. -/
theorem loop_of_inl {c c' : γ} {r r' : Source σ} (hstep : step c r = .ok (.inl c', r')) :
    loop h c r = loop h c' r' := by
  rw [loop]
  split <;> simp_all

/-- The loop ends. -/
theorem loop_of_inr {c : γ} {b : β} {r r' : Source σ} (hstep : step c r = .ok (.inr b, r')) :
    loop h c r = .ok (b, r') := by
  rw [loop]
  split <;> simp_all

/-- The loop fails. -/
theorem loop_of_error {c : γ} {r : Source σ} {e : ε} (hstep : step c r = .error e) :
    loop h c r = .error e := by
  rw [loop]
  split <;> simp_all

/-- What holds of the loop variable before each turn, and of the result of the last one. -/
theorem Ensures.loop {P : γ → Prop} {Q : β → Prop}
    (hstep : ∀ c, P c → Ensures (step c) fun x => x.elim P Q) {c : γ} (hc : P c) :
    Ensures (Parse.loop h c : Parse σ ε β) Q := by
  intro r b r' hloop
  induction hn : r.rest.length using Nat.strong_induction_on generalizing c r with
  | _ n ih =>
    -- The step shortens the source, so the induction is on its length.
    cases hr : step c r with
    | error e =>
      rw [loop_of_error h hr] at hloop
      cases hloop
    | ok x =>
      have hx := hstep c hc r x.1 x.2 hr
      obtain ⟨x, m⟩ := x
      cases x with
      | inl c' =>
        rw [loop_of_inl h hr] at hloop
        exact ih _ (hn ▸ (h c).shrinks r _ m hr) hx m hloop rfl
      | inr b' =>
        rw [loop_of_inr h hr] at hloop
        cases hloop
        exact hx

end Parse

/-- A loop is regular. -/
theorem Regular.loop {eof : ε} {step : γ → Parse σ ε (γ ⊕ β)} (h : ∀ c, Consuming eof (step c))
    (c : γ) : Regular eof (Parse.loop h c : Parse σ ε β) where
  takes r b r' hloop := by
    induction hn : r.rest.length using Nat.strong_induction_on generalizing c r with
    | _ n ih =>
      cases hstep : step c r with
      | error e =>
        rw [Parse.loop_of_error h hstep] at hloop
        cases hloop
      | ok x =>
        obtain ⟨bs, hbs, ht⟩ := (h c).takes r _ _ hstep
        obtain ⟨x, m⟩ := x
        cases x with
        | inl c' =>
          rw [Parse.loop_of_inl h hstep] at hloop
          obtain ⟨cs, hcs, ht'⟩ := ih _ (hn ▸ (h c).shrinks r _ m hstep) c' m hloop rfl
          -- What the loop takes is what this turn takes, and then the others.
          refine ⟨bs ++ cs, by rw [hbs, hcs, List.append_assoc], fun t => ?_⟩
          rw [List.append_assoc, Parse.loop_of_inl h (ht _), ht']
        | inr b' =>
          rw [Parse.loop_of_inr h hstep] at hloop
          cases hloop
          exact ⟨bs, hbs, fun t => Parse.loop_of_inr h (ht t)⟩
  fails r e hloop he t := by
    induction hn : r.rest.length using Nat.strong_induction_on generalizing c r with
    | _ n ih =>
      cases hstep : step c r with
      | error e' =>
        rw [Parse.loop_of_error h hstep] at hloop
        cases hloop
        -- This turn fails, and it fails in a longer source, too, unless the source has ended.
        exact Parse.loop_of_error h ((h c).fails r e hstep he t)
      | ok x =>
        obtain ⟨bs, hbs, ht⟩ := (h c).takes r _ _ hstep
        obtain ⟨x, m⟩ := x
        cases x with
        | inl c' =>
          rw [Parse.loop_of_inl h hstep] at hloop
          rw [hbs, List.append_assoc, Parse.loop_of_inl h (ht _)]
          exact ih _ (hn ▸ (h c).shrinks r _ m hstep) c' m hloop rfl
        | inr b' =>
          rw [Parse.loop_of_inr h hstep] at hloop
          cases hloop

end GoBoard.Coding
