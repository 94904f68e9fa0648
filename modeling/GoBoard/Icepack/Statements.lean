import GoBoard.Icepack.AsciiWriter
import Mathlib.Data.List.TakeWhile

/-!
# Statements

What `read_ascii` does with a part of a text. `Reads` is the relation between the configurations in
front of the part and behind it, whatever follows the part, and its rules put a text together from
statements. A statement is read as it is printed (`reads_statement`), and those with rows end after
sixteen of them (`reads_rows`). The statements for tiles, block memories and single bits set a list of
bits (`foldlM_setBit`).
-/

namespace GoBoard.Icepack

open Coding (InStream IsWord Line lines lines_append lines_flatMap)

/-! ## Parts of a text -/

/-- From a configuration with `P`, the reader goes on behind this part of a text with one with
`Q`. -/
def Reads (nosleep : Bool) (P : FpgaConfig → Prop) (text : List Char) (Q : FpgaConfig → Prop) : Prop :=
  ∀ c command rest, P c → ∃ c' command', Q c' ∧
    readLines nosleep (lines (text ++ rest)) command c = readLines nosleep (lines rest) command' c'

namespace Reads

variable {nosleep : Bool} {P Q R : FpgaConfig → Prop} {text text' : List Char}

theorem nil (h : ∀ c, P c → Q c) : Reads nosleep P [] Q := fun c command _ hc =>
  ⟨c, command, h c hc, rfl⟩

theorem append (h : Reads nosleep P text Q) (h' : Reads nosleep Q text' R) :
    Reads nosleep P (text ++ text') R := by
  intro c command rest hc
  obtain ⟨c₁, command₁, hc₁, hread₁⟩ := h c command (text' ++ rest) hc
  obtain ⟨c₂, command₂, hc₂, hread₂⟩ := h' c₁ command₁ rest hc₁
  exact ⟨c₂, command₂, hc₂, by rw [List.append_assoc, hread₁, hread₂]⟩

theorem mono {P' Q' : FpgaConfig → Prop} (h : Reads nosleep P text Q) (hP : ∀ c, P' c → P c)
    (hQ : ∀ c, Q c → Q' c) : Reads nosleep P' text Q' := by
  intro c command rest hc
  obtain ⟨c', command', hc', hread⟩ := h c command rest (hP c hc)
  exact ⟨c', command', hQ c' hc', hread⟩

theorem ite {p : Prop} [Decidable p] (hpos : p → Reads nosleep P text Q)
    (hneg : ¬p → ∀ c, P c → Q c) : Reads nosleep P (if p then text else []) Q := by
  split_ifs with h
  · exact hpos h
  · exact nil (hneg h)

/-- A loop over a list: `P` says what holds after a part of it. -/
theorem flatten {α : Type} {l : List α} {f : α → List Char} {P : List α → FpgaConfig → Prop}
    (h : ∀ before a after, l = before ++ a :: after →
      Reads nosleep (P before) (f a) (P (before ++ [a]))) :
    Reads nosleep (P []) (l.map f).flatten (P l) := by
  have hrest : ∀ rest before, l = before ++ rest →
      Reads nosleep (P before) (rest.map f).flatten (P l) := by
    intro rest
    induction rest with
    | nil =>
      intro before hl
      rw [List.append_nil] at hl
      subst hl
      exact nil fun c => id
    | cons a rest ih =>
      intro before hl
      exact (h before a rest hl).append (ih (before ++ [a]) (by simpa using hl))
  exact hrest l [] rfl

end Reads

/-! ## Statements -/

/-- The stream from which the numbers of a statement are read. -/
def argStream (args : List ℕ) : InStream := ⟨argText args, !(argText args).isEmpty⟩

theorem head_argText (args : List ℕ) : ∀ c ∈ (argText args).head?, c = ' ' := by
  cases args with
  | nil => simp [argText]
  | cons n args => simp [argText]

theorem word_statement {command : Line} (hcommand : IsWord command) (args : List ℕ) :
    (⟨statement command args, true⟩ : InStream).word = (some command, argStream args) :=
  InStream.word_append hcommand fun c hc => by rw [head_argText args c hc]; rfl

theorem int_argStream {n : ℕ} (hn : n < 0x80000000) (args : List ℕ) :
    (argStream (n :: args)).int = (some (n : ℤ), argStream args) :=
  InStream.int_append hn fun c hc => by rw [head_argText args c hc]; rfl

theorem newline_notMem_statement {command : Line} (hcommand : IsWord command) (args : List ℕ) :
    '\n' ∉ statement command args := by
  intro hmem
  rcases List.mem_append.mp hmem with hmem | hmem
  · exact absurd (hcommand.notSpace hmem) (by decide)
  · obtain ⟨n, -, hmem⟩ := List.mem_flatMap.mp hmem
    rcases List.mem_cons.mp hmem with h | hmem
    · exact absurd h (by decide)
    · exact absurd (Nat.isDigit_of_mem_toDigits (by decide) (by decide) hmem) (by decide)

/-- The line of a statement. -/
theorem readLines_cons {nosleep : Bool} {line command word : Line} {is : InStream}
    (hword : (⟨line, true⟩ : InStream).word = (some word, is)) (hne : word ≠ []) (rest : List Line)
    (c : FpgaConfig) : readLines nosleep (line :: rest) command c = (do
      let c ← execute nosleep c word is line (body (keyword word) rest)
      readLines nosleep (rest.drop (body (keyword word) rest).length) word c) := by
  rw [readLines, hword]
  exact if_neg hne

/-- A statement with its lines. -/
theorem reads_statement {nosleep : Bool} {P Q : FpgaConfig → Prop} {command : Line} {args : List ℕ}
    {rows : List Line} (hcommand : IsWord command) (hrows : ∀ row ∈ rows, '\n' ∉ row)
    (hbody : ∀ rest, body (keyword command) (rows ++ rest) = rows)
    (hexecute : ∀ c, P c → ∃ c', execute nosleep c command (argStream args)
      (statement command args) rows = .ok c' ∧ Q c') :
    Reads nosleep P (statement command args ++ '\n' :: rows.flatMap (· ++ ['\n'])) Q := by
  intro c command' rest hc
  obtain ⟨c', hc', hQ⟩ := hexecute c hc
  refine ⟨c', command, hQ, ?_⟩
  rw [List.append_assoc, List.cons_append, lines_append (newline_notMem_statement hcommand args),
    lines_flatMap hrows, readLines_cons (word_statement hcommand args) hcommand.1, hbody, hc',
    List.drop_left]
  rfl

/-- A statement with sixteen rows. -/
theorem reads_rows {nosleep : Bool} {P Q : FpgaConfig → Prop} {command : Line} {args : List ℕ}
    {rows : List Line} (hcommand : IsWord command)
    (hkeyword : keyword command = .tile ∨ keyword command = .ram_data) (hlength : rows.length = 16)
    (hrows : ∀ row ∈ rows, '\n' ∉ row ∧ '.' ∉ row)
    (hexecute : ∀ c, P c → ∃ c', execute nosleep c command (argStream args)
      (statement command args) rows = .ok c' ∧ Q c') :
    Reads nosleep P (statement command args ++ '\n' :: rows.flatMap (· ++ ['\n'])) Q := by
  refine reads_statement hcommand (fun row hrow => (hrows row hrow).1) (fun rest => ?_) hexecute
  -- The rows have no dot, so the statement takes all of them, and no more than sixteen.
  have hdot : ∀ row ∈ rows, (!isStatement row) = true := by
    intro row hrow
    refine congrArg not (decide_eq_false fun hdot => (hrows row hrow).2 ?_)
    refine List.mem_of_mem_take (i := 1) ?_
    rw [hdot]
    exact List.mem_singleton_self _
  have htake : ((rows ++ rest).take 16).takeWhile (!isStatement ·) = rows := by
    rw [← hlength, List.take_left]
    exact List.takeWhile_eq_self_iff.mpr hdot
  rcases hkeyword with h | h
  · rw [h]
    exact htake
  · rw [h]
    exact htake

/-! ## Bits -/

namespace Memory

/-- Some bits are set. -/
def setAll (m : Memory) (ps : List Place) : Memory :=
  ps.foldl (fun m p => m.set p.1 p.2.1 p.2.2 true) m

theorem bits_setAll (m : Memory) (ps : List Place) (b x y : ℕ) :
    (m.setAll ps).bits b x y = (m.bits b x y || decide ((b, x, y) ∈ ps)) := by
  induction ps generalizing m with
  | nil => simp [setAll]
  | cons p ps ih =>
    obtain ⟨i, j, k⟩ := p
    -- The first bit of the list, and the others by induction.
    have hset : (m.set i j k true).bits b x y =
        (m.bits b x y || decide ((b, x, y) = (i, j, k))) := by
      simp only [set, Prod.mk.injEq]
      split_ifs with h
      · simp [h]
      · simp [h]
    rw [setAll, List.foldl_cons, ← setAll, ih, hset, Bool.or_assoc]
    simp [List.mem_cons]

theorem toSizes_setAll (m : Memory) (ps : List Place) : (m.setAll ps).toSizes = m.toSizes := by
  induction ps generalizing m with
  | nil => rfl
  | cons p ps ih => exact ih _

end Memory

/-- Bits that exist are set. -/
theorem foldlM_setBit {t : Target} {d : Device} {ps : List Place} (h : ∀ p ∈ ps, d.Holds p t)
    (c : FpgaConfig) : ps.foldlM (setBit t d) c = .ok (c.setMemory ((c.memory t).setAll ps) t) := by
  induction ps generalizing c with
  | nil => cases t <;> rfl
  | cons p ps ih =>
    obtain ⟨hp, hps⟩ := List.forall_mem_cons.mp h
    rw [List.foldlM_cons, setBit, if_pos hp]
    refine (ih hps _).trans ?_
    cases t <;> rfl

end GoBoard.Icepack
