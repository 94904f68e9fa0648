import Mathlib.Init

/-!
# Programs that may fail

A program that stops at its first error is a value of `Except`. `bind_eq_ok` and `bind_isOk_iff` take
a sequence of two programs apart, and the other rules are about loops: what a loop returns when all
its turns succeed (`mapM_ok`, `foldlM_ok`), when it succeeds at all (`mapM_isOk_iff`,
`foldlM_isOk_iff`), what it keeps (`foldlM_preserves`), and how a loop around loops is one loop
(`foldlM_flatMap`).
-/

namespace GoBoard.Coding

variable {α β γ ε : Type}

/-! ## Sequences -/

theorem bind_eq_ok {x : Except ε α} {f : α → Except ε β} {b : β} :
    (x >>= f) = .ok b ↔ ∃ a, x = .ok a ∧ f a = .ok b := by
  cases x with
  | error e => exact ⟨nofun, nofun⟩
  | ok a => exact ⟨fun h => ⟨a, rfl, h⟩, fun ⟨a', h, h'⟩ => Except.ok.inj h ▸ h'⟩

theorem bind_isOk_iff {x : Except ε α} {f : α → Except ε β} :
    (∃ b, (x >>= f) = .ok b) ↔ ∃ a, x = .ok a ∧ ∃ b, f a = .ok b := by
  simp only [bind_eq_ok]
  constructor
  · rintro ⟨b, a, ha, hb⟩
    exact ⟨a, ha, b, hb⟩
  · rintro ⟨a, ha, b, hb⟩
    exact ⟨b, a, ha, hb⟩

/-- A last step that cannot fail. -/
theorem bind_pure_isOk_iff {x : Except ε α} {g : α → β} :
    (∃ b, (x >>= fun a => pure (g a)) = .ok b) ↔ ∃ a, x = .ok a := by
  rw [bind_isOk_iff]
  constructor
  · rintro ⟨a, ha, -⟩
    exact ⟨a, ha⟩
  · rintro ⟨a, ha⟩
    exact ⟨a, ha, g a, rfl⟩

/-! ## Loops -/

/-- A loop all of whose turns succeed. -/
theorem mapM_ok {f : α → Except ε β} {g : α → β} {l : List α} (h : ∀ a ∈ l, f a = .ok (g a)) :
    l.mapM f = .ok (l.map g) := by
  induction l with
  | nil => rfl
  | cons a l ih =>
    obtain ⟨ha, hl⟩ := List.forall_mem_cons.mp h
    rw [List.mapM_cons, ha, ih hl]
    rfl

theorem foldlM_ok {f : β → α → Except ε β} {g : β → α → β} {l : List α}
    (h : ∀ a ∈ l, ∀ b, f b a = .ok (g b a)) (b : β) : l.foldlM f b = .ok (l.foldl g b) := by
  induction l generalizing b with
  | nil => rfl
  | cons a l ih =>
    obtain ⟨ha, hl⟩ := List.forall_mem_cons.mp h
    rw [List.foldlM_cons, ha]
    exact ih hl (g b a)

/-- A loop around loops. -/
theorem foldlM_flatMap {f : β → α → Except ε β} {step : β → γ → Except ε β} {g : α → List γ}
    {l : List α} (h : ∀ a ∈ l, ∀ b, f b a = (g a).foldlM step b) (b : β) :
    l.foldlM f b = (l.flatMap g).foldlM step b := by
  induction l generalizing b with
  | nil => rfl
  | cons a l ih =>
    obtain ⟨ha, hl⟩ := List.forall_mem_cons.mp h
    rw [List.foldlM_cons, List.flatMap_cons, List.foldlM_append, ha]
    exact congrArg _ (funext fun b => ih hl b)

/-- A loop succeeds if all its turns do. -/
theorem mapM_isOk_iff {f : α → Except ε β} {l : List α} :
    (∃ bs, l.mapM f = .ok bs) ↔ ∀ a ∈ l, ∃ b, f a = .ok b := by
  induction l with
  | nil => exact ⟨fun _ _ h => absurd h List.not_mem_nil, fun _ => ⟨[], rfl⟩⟩
  | cons a l ih =>
    rw [List.mapM_cons, List.forall_mem_cons, ← ih]
    constructor
    · rintro ⟨bs, h⟩
      obtain ⟨b, ha, h⟩ := bind_eq_ok.mp h
      obtain ⟨bs', hl, -⟩ := bind_eq_ok.mp h
      exact ⟨⟨b, ha⟩, ⟨bs', hl⟩⟩
    · rintro ⟨⟨b, ha⟩, ⟨bs, hl⟩⟩
      exact ⟨b :: bs, by rw [ha, hl]; rfl⟩

/-- So does a loop with a variable, if the success of a turn does not depend on the variable. -/
theorem foldlM_isOk_iff {f : β → α → Except ε β} {P : α → Prop}
    (h : ∀ b a, (∃ b', f b a = .ok b') ↔ P a) {l : List α} {b : β} :
    (∃ b', l.foldlM f b = .ok b') ↔ ∀ a ∈ l, P a := by
  induction l generalizing b with
  | nil => exact ⟨fun _ _ h => absurd h List.not_mem_nil, fun _ => ⟨b, rfl⟩⟩
  | cons a l ih =>
    rw [List.foldlM_cons, List.forall_mem_cons]
    constructor
    · rintro ⟨b', hl⟩
      obtain ⟨b₁, ha, hl⟩ := bind_eq_ok.mp hl
      exact ⟨(h b a).mp ⟨b₁, ha⟩, ih.mp ⟨b', hl⟩⟩
    · rintro ⟨ha, hl⟩
      obtain ⟨b₁, hb₁⟩ := (h b a).mpr ha
      obtain ⟨b', hb'⟩ := ih.mpr hl
      exact ⟨b', by rw [hb₁]; exact hb'⟩

/-- What every turn of a loop keeps. -/
theorem foldlM_preserves {f : β → α → Except ε β} {P : β → Prop}
    (h : ∀ b a b', P b → f b a = .ok b' → P b') {l : List α} {b b' : β} (hb : P b)
    (hl : l.foldlM f b = .ok b') : P b' := by
  induction l generalizing b with
  | nil =>
    cases hl
    exact hb
  | cons a l ih =>
    rw [List.foldlM_cons] at hl
    obtain ⟨b₁, ha, hl⟩ := bind_eq_ok.mp hl
    exact ih (h b a b₁ hb ha) hl

end GoBoard.Coding
