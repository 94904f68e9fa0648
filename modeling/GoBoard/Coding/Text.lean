import Mathlib.Data.Int.Basic
import Mathlib.Data.List.Basic
import Mathlib.Tactic.SplitIfs

/-!
# Lines, words and numbers

A text as a C++ program reads it. `getline` cuts it into lines, and a stream over a line gives words
and decimal numbers: `>>` skips the space in front of them, and fails at the end of the line. What
has been printed is read back, if the lines, the words and the numbers have an end:
`lines_append`, `InStream.word_append` and `InStream.int_append`.
-/

namespace GoBoard.Coding

/-! ## Lines -/

/-- The characters of a line, without its end. -/
abbrev Line := List Char

/-- The lines that repeated calls of `getline` find. The end of the last one may be missing. -/
def lines : List Char → List Line
  | [] => []
  | c :: text =>
    if c = '\n' then [] :: lines text
    else match lines text with
      | [] => [[c]]
      | line :: rest => (c :: line) :: rest

theorem lines_newline (text : List Char) : lines ('\n' :: text) = [] :: lines text := by
  simp [lines]

/-- The first line of a text. -/
theorem lines_append {line : Line} (h : '\n' ∉ line) (text : List Char) :
    lines (line ++ '\n' :: text) = line :: lines text := by
  induction line with
  | nil => exact lines_newline text
  | cons c line ih =>
    obtain ⟨hc, hline⟩ := not_or.mp fun hmem => h (List.mem_cons.mpr (hmem.imp_left Eq.symm))
    rw [List.cons_append, lines, if_neg hc, ih hline]

/-- The lines at the front of a text. -/
theorem lines_flatMap {ls : List Line} (h : ∀ line ∈ ls, '\n' ∉ line) (text : List Char) :
    lines (ls.flatMap (· ++ ['\n']) ++ text) = ls ++ lines text := by
  induction ls with
  | nil => rfl
  | cons line ls ih =>
    obtain ⟨hline, hls⟩ := List.forall_mem_cons.mp h
    rw [List.flatMap_cons, List.append_assoc, List.append_assoc, List.singleton_append,
      lines_append hline, ih hls, List.cons_append]

theorem notMem_of_mem_lines {text : List Char} {line : Line} (h : line ∈ lines text) :
    '\n' ∉ line := by
  induction text generalizing line with
  | nil => cases h
  | cons c text ih =>
    rw [lines] at h
    split_ifs at h with hc
    · rcases List.mem_cons.mp h with rfl | h
      · exact List.not_mem_nil
      · exact ih h
    · split at h
      · rw [List.mem_singleton.mp h]
        exact fun hmem => hc (List.mem_singleton.mp hmem).symm
      -- The character is put in front of the first line.
      · rename_i first rest hlines
        rcases List.mem_cons.mp h with rfl | h
        · intro hmem
          rcases List.mem_cons.mp hmem with hmem | hmem
          · exact hc hmem.symm
          · exact ih (hlines ▸ List.mem_cons_self) hmem
        · exact ih (hlines ▸ List.mem_cons_of_mem first h)

/-- The characters of the lines are characters of the text. -/
theorem mem_of_mem_lines {text : List Char} {line : Line} (h : line ∈ lines text) {c : Char}
    (hc : c ∈ line) : c ∈ text := by
  induction text generalizing line with
  | nil => cases h
  | cons c' text ih =>
    rw [lines] at h
    split_ifs at h with hc'
    · rcases List.mem_cons.mp h with rfl | h
      · cases hc
      · exact List.mem_cons_of_mem c' (ih h hc)
    · split at h
      · rw [List.mem_singleton.mp h] at hc
        exact List.mem_singleton.mp hc ▸ List.mem_cons_self
      · rename_i first rest hlines
        rcases List.mem_cons.mp h with rfl | h
        · rcases List.mem_cons.mp hc with rfl | hc
          · exact List.mem_cons_self
          · exact List.mem_cons_of_mem c' (ih (hlines ▸ List.mem_cons_self) hc)
        · exact List.mem_cons_of_mem c' (ih (hlines ▸ List.mem_cons_of_mem first h) hc)

/-! ## Words and numbers -/

/-- `isspace`. -/
def isSpace (c : Char) : Bool := c = ' ' ∨ '\t' ≤ c ∧ c ≤ '\r'

/-- A word has a character, and no space. -/
def IsWord (w : List Char) : Prop := w ≠ [] ∧ w.all (!isSpace ·) = true

instance (w : List Char) : Decidable (IsWord w) := inferInstanceAs (Decidable (_ ∧ _))

theorem IsWord.notSpace {w : List Char} (h : IsWord w) {c : Char} (hc : c ∈ w) :
    isSpace c = false := by
  have hall := List.all_eq_true.mp h.2 c hc
  rwa [Bool.not_eq_true'] at hall

/-- An `istringstream`: the characters that are left, and whether it is still `good`. It is not after
its end has been seen or a number was malformed. -/
structure InStream where
  rest : List Char
  good : Bool
  deriving DecidableEq, Repr

namespace InStream

/-- The space in front of a word or a number is skipped. -/
def skip (s : InStream) : InStream :=
  if s.good then ⟨s.rest.dropWhile isSpace, !(s.rest.dropWhile isSpace).isEmpty⟩ else s

/-- `>>` into a `string`, which stays as it was where there is no word. -/
def word (s : InStream) : Option (List Char) × InStream :=
  let s := s.skip
  if s.good then
    let rest := s.rest.dropWhile (!isSpace ·)
    (some (s.rest.takeWhile (!isSpace ·)), ⟨rest, !rest.isEmpty⟩)
  else (none, s)

/-- The sign of a number, and what follows it. -/
def sign : List Char → ℤ × List Char
  | '-' :: rest => (-1, rest)
  | '+' :: rest => (1, rest)
  | rest => (1, rest)

/-- `>>` into an `int`, which stays as it was at the end of the stream. It becomes zero where there
is no number, and the nearest one where the number does not fit. -/
def int (s : InStream) : Option ℤ × InStream :=
  let s := s.skip
  if s.good then
    let (sign, digits) := sign s.rest
    let rest := digits.dropWhile Char.isDigit
    let digits := digits.takeWhile Char.isDigit
    let value := sign * Nat.ofDigitChars 10 digits 0
    if digits = [] then (some 0, ⟨rest, false⟩)
    else if value < -0x80000000 then (some (-0x80000000), ⟨rest, false⟩)
    else if 0x7fffffff < value then (some 0x7fffffff, ⟨rest, false⟩)
    else (some value, ⟨rest, !rest.isEmpty⟩)
  else (none, s)

/-- A word is read up to the next space. -/
theorem word_append {w rest : List Char} (hw : IsWord w)
    (hrest : ∀ c ∈ rest.head?, isSpace c = true) :
    word ⟨w ++ rest, true⟩ = (some w, ⟨rest, !rest.isEmpty⟩) := by
  obtain ⟨c, w, rfl⟩ := List.exists_cons_of_ne_nil hw.1
  have hskip : skip ⟨c :: w ++ rest, true⟩ = ⟨c :: w ++ rest, true⟩ := by
    simp [skip, hw.notSpace List.mem_cons_self]
  have htake : ∀ a ∈ c :: w, (!isSpace a) = true := fun a ha => by
    rw [hw.notSpace ha]
    rfl
  unfold word
  rw [hskip]
  dsimp only
  rw [if_pos rfl, List.takeWhile_append_of_pos htake, List.dropWhile_append_of_pos htake]
  cases rest with
  | nil => simp
  | cons c' rest =>
    have hspace : isSpace c' = true := hrest c' rfl
    simp [hspace]

/-- A space in front is skipped. -/
theorem skip_space (rest : List Char) : skip ⟨' ' :: rest, true⟩ = skip ⟨rest, true⟩ := by
  simp [skip, isSpace]

theorem isSpace_of_isDigit {c : Char} (h : c.isDigit = true) : isSpace c = false := by
  simp only [Char.isDigit, Bool.and_eq_true, decide_eq_true_eq] at h
  refine decide_eq_false fun hspace => ?_
  rcases hspace with rfl | ⟨-, hle⟩
  · exact absurd h.1 (by decide)
  · exact absurd (UInt32.le_trans h.1 hle) (by decide)

/-- A number is read up to the end of its digits. -/
theorem int_append {n : ℕ} (hn : n < 0x80000000) {rest : List Char}
    (hrest : ∀ c ∈ rest.head?, c.isDigit = false) :
    int ⟨' ' :: (Nat.toDigits 10 n ++ rest), true⟩ = (some (n : ℤ), ⟨rest, !rest.isEmpty⟩) := by
  have hdigit : ∀ c ∈ Nat.toDigits 10 n, c.isDigit = true := fun c hc =>
    Nat.isDigit_of_mem_toDigits (by decide) (by decide) hc
  have hvalue : Nat.ofDigitChars 10 (Nat.toDigits 10 n) 0 = n := Nat.ofDigitChars_ten_toDigits
  obtain ⟨c, ds, hds⟩ := List.exists_cons_of_ne_nil (Nat.toDigits_ne_nil (n := n) (b := 10))
  have hc := hdigit c (hds ▸ List.mem_cons_self)
  have hspace := isSpace_of_isDigit hc
  -- The digits begin with one, so they are not skipped and have no sign.
  have hskip : skip ⟨' ' :: (Nat.toDigits 10 n ++ rest), true⟩ =
      ⟨Nat.toDigits 10 n ++ rest, true⟩ := by
    rw [skip_space, hds]
    simp [skip, hspace]
  have hsign : sign (Nat.toDigits 10 n ++ rest) = (1, Nat.toDigits 10 n ++ rest) := by
    rw [hds, List.cons_append]
    unfold sign
    split
    · rename_i h
      rw [(List.cons.inj h).1] at hc
      cases hc
    · rename_i h
      rw [(List.cons.inj h).1] at hc
      cases hc
    · rfl
  have htake : (Nat.toDigits 10 n ++ rest).takeWhile Char.isDigit = Nat.toDigits 10 n := by
    rw [List.takeWhile_append_of_pos hdigit]
    cases rest with
    | nil => simp
    | cons c' rest => simp [hrest c' rfl]
  have hdrop : (Nat.toDigits 10 n ++ rest).dropWhile Char.isDigit = rest := by
    rw [List.dropWhile_append_of_pos hdigit]
    cases rest with
    | nil => simp
    | cons c' rest => simp [hrest c' rfl]
  -- The number fits: neither of the two limits is used.
  unfold int
  rw [hskip]
  dsimp only
  rw [if_pos rfl, hsign]
  dsimp only
  rw [htake, hdrop, hvalue, if_neg Nat.toDigits_ne_nil, if_neg (by omega), if_neg (by omega)]
  simp

end InStream

end GoBoard.Coding
