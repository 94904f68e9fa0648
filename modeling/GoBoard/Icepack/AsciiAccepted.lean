import GoBoard.Icepack.AsciiRoundTrip

/-!
# What `read_ascii` accepts

Every statement keeps what a design needs (`Accepted`): the memories have the sizes of the device,
and no bit outside them is set, because a bit that does not exist is never set without undefined
behaviour. So an accepted text with a device, and with a statement that sets `nosleep`, is a design
(`exists_design`). Its comments are lines of the text.

A blank line behind the rows of a tile is not accepted (`readAscii_blank`): the statement begins
again, and the source uses coordinates that it has not read.
-/

namespace GoBoard.Icepack

open Coding (InStream Line bind_eq_ok foldlM_preserves lines mem_of_mem_lines
  notMem_of_mem_lines)

/-! ## The invariant -/

/-- A line of a comment, with characters in `Q`. -/
structure CommentLine (Q : Char → Prop) (line : Line) : Prop where
  newline : '\n' ∉ line
  dot : isStatement line = false
  chars : ∀ c ∈ line, Q c

/-- The memories of a device, with no bit set outside them. -/
structure Sized (d : Device) (cram bram : Memory) : Prop where
  cramSizes : cram.toSizes = d.cramSizes
  bramSizes : bram.toSizes = d.bramSizes
  cram_inside : ∀ p : Place, cram.bits p.1 p.2.1 p.2.2 = true → d.Holds p .cram
  bram_inside : ∀ p : Place, bram.bits p.1 p.2.1 p.2.2 = true → d.Holds p .bram

/-- What holds after every line. -/
structure Accepted (skip nosleep : Bool) (Q : Char → Prop) (c : FpgaConfig) : Prop where
  freqrange : c.freqrange = some .low
  warmboot : ∃ s, c.warmboot = some s
  nosleep : c.nosleep = none ∨ c.nosleep = Design.slept nosleep
  skip : c.skip_bram_initialization = skip
  initblop : c.initblop = [] ∨ ∃ ls : List Line, c.initblop = comments (ls.map (List.map toByte)) ∧
    ∀ line ∈ ls, CommentLine Q line
  sized : ∀ d, c.device = some d → Sized d c.cram c.bram

variable {skip nosleep : Bool} {Q : Char → Prop} {c c' : FpgaConfig}

namespace Accepted

theorem asciiInit : Accepted skip nosleep Q (.asciiInit skip) where
  freqrange := rfl
  warmboot := ⟨_, rfl⟩
  nosleep := .inl rfl
  skip := rfl
  initblop := .inl rfl
  sized := nofun

theorem setDevice (hc : Accepted skip nosleep Q c) (d : Device) :
    Accepted skip nosleep Q (c.setDevice d) :=
  { hc with
    sized := by
      rintro d' ⟨⟩
      exact ⟨rfl, rfl, nofun, nofun⟩ }

theorem setNosleep (hc : Accepted skip nosleep Q c) :
    Accepted skip nosleep Q { c with nosleep := Design.slept nosleep } :=
  { hc with nosleep := .inr rfl }

/-- What holds while a statement for the device sets bits. -/
def On (skip nosleep : Bool) (Q : Char → Prop) (d : Device) (c : FpgaConfig) : Prop :=
  Accepted skip nosleep Q c ∧ c.device = some d

/-- A bit of the device is set. -/
theorem On.setBit {t : Target} {d : Device} {p : Place} (hc : On skip nosleep Q d c)
    (h : setBit t d c p = .ok c') : On skip nosleep Q d c' := by
  obtain ⟨hc, hd⟩ := hc
  have hsized := hc.sized d hd
  unfold Icepack.setBit at h
  split_ifs at h with hholds
  cases h
  -- The one new bit is a bit of the device, since a bit that does not exist is not set.
  have hinside : ∀ (m : Memory), (∀ q : Place, m.bits q.1 q.2.1 q.2.2 = true → d.Holds q t) →
      ∀ q : Place, (m.set p.1 p.2.1 p.2.2 true).bits q.1 q.2.1 q.2.2 = true → d.Holds q t := by
    intro m hm q hq
    simp only [Memory.set] at hq
    split_ifs at hq with hqp
    · obtain ⟨i, x, y⟩ := q
      obtain ⟨rfl, rfl, rfl⟩ := hqp
      exact hholds
    · exact hm q hq
  cases t with
  | cram =>
    refine ⟨{ hc with sized := fun d' hd' => ?_ }, hd⟩
    cases hd.symm.trans hd'
    exact { hsized with cram_inside := hinside _ hsized.cram_inside }
  | bram =>
    refine ⟨{ hc with sized := fun d' hd' => ?_ }, hd⟩
    cases hd.symm.trans hd'
    exact { hsized with bram_inside := hinside _ hsized.bram_inside }

theorem On.readTile {d : Device} {command : Line} {tile_x tile_y : ℤ} {rows : List Line}
    (hc : On skip nosleep Q d c) (h : readTile c d command tile_x tile_y rows = .ok c') :
    On skip nosleep Q d c' := by
  unfold Icepack.readTile at h
  by_cases hx : tile_x < 0 ∨ d.chip_width + 1 < tile_x
  · rw [if_pos hx] at h
    cases h
  rw [if_neg hx] at h
  dsimp only at h
  split_ifs at h
  · cases h
  · exact foldlM_preserves (fun c p c' => On.setBit) hc h

theorem On.readRam {d : Device} {tile_x tile_y : ℤ} {rows : List Line} (hc : On skip nosleep Q d c)
    (h : readRam c d tile_x tile_y rows = .ok c') : On skip nosleep Q d c' := by
  refine foldlM_preserves (fun c row c' hc h => ?_) hc h
  refine foldlM_preserves (P := On skip nosleep Q d) (fun c digit c' hc h => ?_) hc h
  unfold readDigit at h
  split at h
  · cases h
  · exact foldlM_preserves (P := On skip nosleep Q d) (fun c i c' => On.setBit) hc h

theorem On.readExtraBit {d : Device} {cram_bank cram_x cram_y : ℤ} (hc : On skip nosleep Q d c)
    (h : readExtraBit c d cram_bank cram_x cram_y = .ok c') : On skip nosleep Q d c' := by
  unfold Icepack.readExtraBit at h
  split_ifs at h
  · cases h
  · exact hc.setBit h

/-- A statement whose lines may be comments. -/
theorem execute {command line : Line} {is : InStream} {body : List Line}
    (hc : Accepted skip nosleep Q c)
    (hbody : keyword command = .comment → ∀ line ∈ body, CommentLine Q line)
    (h : execute nosleep c command is line body = .ok c') : Accepted skip nosleep Q c' := by
  have hdevice : ∀ {d : Device}, c.getDevice command = .ok d → c.device = some d := by
    intro d hd
    unfold FpgaConfig.getDevice at hd
    split at hd
    · cases hd
      assumption
    · cases hd
  unfold Icepack.execute at h
  -- Only a `.device` and the three statements that set bits touch the memories.
  cases hkeyword : keyword command with
  | comment =>
    simp only [hkeyword] at h
    cases h
    exact { hc with initblop := .inr ⟨body, rfl, hbody hkeyword⟩ }
  | device =>
    simp only [hkeyword] at h
    split at h
    · cases h
    · cases h
    · cases h
      exact hc.setDevice _
  | warmboot =>
    simp only [hkeyword] at h
    split at h
    · cases h
      exact hc
    · split_ifs at h
      · cases h
        exact { hc with warmboot := ⟨_, rfl⟩ }
      · cases h
        exact { hc with warmboot := ⟨_, rfl⟩ }
  | tile =>
    simp only [hkeyword] at h
    obtain ⟨d, hd, h⟩ := bind_eq_ok.mp h
    obtain ⟨tile_x, -, h⟩ := bind_eq_ok.mp h
    obtain ⟨tile_y, -, h⟩ := bind_eq_ok.mp h
    exact (On.readTile ⟨hc.setNosleep, hdevice hd⟩ h).1
  | ram_data =>
    simp only [hkeyword] at h
    obtain ⟨d, hd, h⟩ := bind_eq_ok.mp h
    obtain ⟨tile_x, -, h⟩ := bind_eq_ok.mp h
    obtain ⟨tile_y, -, h⟩ := bind_eq_ok.mp h
    exact (On.readRam ⟨hc.setNosleep, hdevice hd⟩ h).1
  | extra_bit =>
    simp only [hkeyword] at h
    obtain ⟨d, hd, h⟩ := bind_eq_ok.mp h
    obtain ⟨cram_bank, -, h⟩ := bind_eq_ok.mp h
    obtain ⟨cram_x, -, h⟩ := bind_eq_ok.mp h
    obtain ⟨cram_y, -, h⟩ := bind_eq_ok.mp h
    exact (On.readExtraBit ⟨hc.setNosleep, hdevice hd⟩ h).1
  | sym =>
    simp only [hkeyword] at h
    cases h
    exact hc.setNosleep
  | unknown =>
    simp only [hkeyword] at h
    cases h
  | data =>
    simp only [hkeyword] at h
    cases h

/-- The lines of a comment are lines of the text that do not begin a statement. -/
theorem commentLine_body {rest : List Line}
    (hrest : ∀ line ∈ rest, '\n' ∉ line ∧ ∀ c ∈ line, Q c) {line : Line}
    (h : line ∈ body .comment rest) : CommentLine Q line := by
  obtain ⟨hnewline, hchars⟩ := hrest line ((List.takeWhile_prefix _).subset h)
  refine ⟨hnewline, ?_, hchars⟩
  have hdot := List.mem_takeWhile_imp h
  rwa [Bool.not_eq_true'] at hdot

theorem readLines {ls : List Line} {command : Line}
    (hls : ∀ line ∈ ls, '\n' ∉ line ∧ ∀ c ∈ line, Q c) (hc : Accepted skip nosleep Q c)
    (h : readLines nosleep ls command c = .ok c') : Accepted skip nosleep Q c' := by
  induction hn : ls.length using Nat.strong_induction_on generalizing ls command c with
  | _ n ih =>
    cases ls with
    | nil =>
      rw [Icepack.readLines] at h
      cases h
      exact hc
    | cons line rest =>
      have hrest : ∀ line ∈ rest, '\n' ∉ line ∧ ∀ c ∈ line, Q c := fun line hline =>
        hls line (List.mem_cons_of_mem _ hline)
      rw [Icepack.readLines] at h
      dsimp only at h
      split_ifs at h
      · exact ih rest.length (by simp [← hn]) hrest hc h rfl
      · obtain ⟨c₁, hexecute, h⟩ := bind_eq_ok.mp h
        have hc₁ : Accepted skip nosleep Q c₁ := hc.execute (fun hkeyword line hline => by
          rw [hkeyword] at hline
          exact commentLine_body hrest hline) hexecute
        -- The lines that belong to the statement have been read with it.
        refine ih _ ?_ (fun line hline => hrest line (List.mem_of_mem_drop hline)) hc₁ h rfl
        rw [List.length_drop, ← hn, List.length_cons]
        omega

theorem readAscii {text : List Char} (htext : ∀ c ∈ text, Q c)
    (h : readAscii skip nosleep text = .ok c) : Accepted skip nosleep Q c := by
  refine readLines (List.forall_mem_cons.mpr ⟨⟨List.not_mem_nil, nofun⟩, fun line hline =>
    ⟨notMem_of_mem_lines hline, fun c hc => htext c (mem_of_mem_lines hline hc)⟩⟩) asciiInit h

/-- With a device it is a design, but `nosleep` may not have been set yet. -/
theorem exists_design (hc : Accepted skip nosleep Q c) {device : Device}
    (hdevice : c.device = some device) :
    ∃ d : Design, c = { d.config skip with nosleep := c.nosleep } ∧
      (c.nosleep ≠ none → c = d.config skip) := by
  obtain ⟨warmboot, hwarmboot⟩ := hc.warmboot
  have hsized := hc.sized device hdevice
  let d : Design := ⟨device, .low, if nosleep then .enabled else .disabled, warmboot, c.cram.bits,
    c.bram.bits, c.initblop, fun b x y => hsized.cram_inside (b, x, y),
    fun b x y => hsized.bram_inside (b, x, y)⟩
  have hcram : c.cram = ⟨device.cramSizes, c.cram.bits⟩ :=
    Memory.ext hsized.cramSizes fun _ _ _ => rfl
  have hbram : c.bram = ⟨device.bramSizes, c.bram.bits⟩ :=
    Memory.ext hsized.bramSizes fun _ _ _ => rfl
  have hfreqrange := hc.freqrange
  have hskip := hc.skip
  have hconfig : c = { d.config skip with nosleep := c.nosleep } := by
    unfold Design.config
    dsimp only [d]
    rw [← hdevice, ← hcram, ← hbram, ← hwarmboot, ← hfreqrange, ← hskip]
  refine ⟨d, hconfig, fun hnosleep => ?_⟩
  have hslept : c.nosleep = some d.nosleep := hc.nosleep.resolve_left hnosleep
  rw [hslept] at hconfig
  exact hconfig

end Accepted

/-! ## Blank lines -/

/-- The lines of a statement end in front of the next statement. -/
theorem takeWhile_append_statement {line : Line} (h : isStatement line = true)
    (ls rest : List Line) :
    (ls ++ line :: rest).takeWhile (!isStatement ·) = ls.takeWhile (!isStatement ·) := by
  rw [List.takeWhile_append]
  split_ifs with hall
  · have hself : ls.takeWhile (!isStatement ·) = ls := (List.takeWhile_prefix _).eq_of_length hall
    rw [hself, List.takeWhile_cons_of_neg (by simp [h]), List.append_nil]
  · rfl

theorem body_append {line : Line} (h : isStatement line = true) (k : Keyword) (ls rest : List Line) :
    body k (ls ++ line :: rest) = body k ls := by
  have hrows : ((ls ++ line :: rest).take 16).takeWhile (!isStatement ·) =
      (ls.take 16).takeWhile (!isStatement ·) := by
    rw [List.take_append]
    cases hlen : 16 - ls.length with
    | zero => rw [List.take_zero, List.append_nil]
    | succ n => rw [List.take_succ_cons, takeWhile_append_statement h]
  cases k with
  | comment => exact takeWhile_append_statement h ls rest
  | tile => exact hrows
  | ram_data => exact hrows
  | _ => rfl

theorem length_body_le (k : Keyword) (ls : List Line) : (body k ls).length ≤ ls.length := by
  have hrows : ((ls.take 16).takeWhile (!isStatement ·)).length ≤ ls.length :=
    (List.takeWhile_prefix _).length_le.trans (List.length_take_le' _ _)
  cases k with
  | comment => exact (List.takeWhile_prefix _).length_le
  | tile => exact hrows
  | ram_data => exact hrows
  | _ => exact Nat.zero_le _

/-- The reader comes to every statement, or fails in front of it. -/
theorem readLines_upto {line : Line} (h : isStatement line = true) (ls rest : List Line)
    (command : Line) (c : FpgaConfig) :
    (∃ e, readLines nosleep (ls ++ line :: rest) command c = .error e) ∨
      ∃ command' c', readLines nosleep (ls ++ line :: rest) command c =
        readLines nosleep (line :: rest) command' c' := by
  induction hn : ls.length using Nat.strong_induction_on generalizing ls command c with
  | _ n ih =>
    cases ls with
    | nil => exact .inr ⟨command, c, rfl⟩
    | cons l ls =>
      rw [List.cons_append, readLines]
      dsimp only
      split_ifs
      · exact ih ls.length (by simp [← hn]) ls _ c rfl
      -- The lines of this statement are in front of the one that is looked for.
      · rw [body_append h, List.drop_append_of_le_length (length_body_le _ ls)]
        cases execute nosleep c _ _ l _ with
        | error e => exact .inl ⟨e, rfl⟩
        | ok c₁ =>
          refine ih _ ?_ _ _ c₁ rfl
          rw [List.length_drop, ← hn, List.length_cons]
          omega

/-- A blank line behind a statement for a tile repeats the statement without its numbers. -/
theorem readLines_blank {command : Line}
    (hkeyword : keyword command = .tile ∨ keyword command = .ram_data) (rest : List Line)
    (c : FpgaConfig) : ∃ e, readLines nosleep ([] :: rest) command c = .error e := by
  have hne : command ≠ [] := by
    rintro rfl
    exact absurd hkeyword (by decide)
  have hword : (⟨[], true⟩ : InStream).word = (none, ⟨[], false⟩) := rfl
  rw [readLines, hword]
  -- `command` is still the one of the statement, and there is no number to read.
  dsimp only [Option.getD_none]
  rw [if_neg hne]
  unfold execute FpgaConfig.getDevice
  rcases hkeyword with h | h
  · rw [h]
    cases c.device with
    | none => exact ⟨_, rfl⟩
    | some d => exact ⟨_, rfl⟩
  · rw [h]
    cases c.device with
    | none => exact ⟨_, rfl⟩
    | some d => exact ⟨_, rfl⟩

/-- No text is accepted in which a blank line follows the sixteen rows of a tile or of its data. -/
theorem readAscii_blank {text : List Char} {before rows after : List Line} {line command : Line}
    {is : InStream} (htext : lines text = before ++ line :: (rows ++ [] :: after))
    (hline : isStatement line = true) (hword : (⟨line, true⟩ : InStream).word = (some command, is))
    (hkeyword : keyword command = .tile ∨ keyword command = .ram_data) (hlength : rows.length = 16)
    (hrows : ∀ row ∈ rows, isStatement row = false) :
    ∃ e, readAscii skip nosleep text = .error e := by
  have hbody : body (keyword command) (rows ++ [] :: after) = rows := by
    have htake : ((rows ++ [] :: after).take 16).takeWhile (!isStatement ·) = rows := by
      rw [← hlength, List.take_left]
      exact List.takeWhile_eq_self_iff.mpr fun row hrow => by rw [hrows row hrow]; rfl
    rcases hkeyword with h | h
    · rw [h]
      exact htake
    · rw [h]
      exact htake
  have hne : command ≠ [] := by
    rintro rfl
    exact absurd hkeyword (by decide)
  have hstart : readAscii skip nosleep text =
      readLines nosleep (([] :: before) ++ line :: (rows ++ [] :: after)) [] (.asciiInit skip) := by
    rw [readAscii, htext, List.cons_append]
  rw [hstart]
  rcases readLines_upto hline ([] :: before) (rows ++ [] :: after) [] (.asciiInit skip)
    with ⟨e, he⟩ | ⟨command', c', hread⟩
  · exact ⟨e, he⟩
  · rw [hread, readLines_cons hword hne, hbody, List.drop_left]
    cases execute nosleep c' command is line rows with
    | error e => exact ⟨e, rfl⟩
    | ok c₁ => exact readLines_blank hkeyword after c₁

end GoBoard.Icepack
