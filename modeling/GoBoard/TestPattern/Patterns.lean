import GoBoard.TestPattern.Counters

/-!
# The patterns of `Test_Pattern_Gen`

The wires of `Test_Pattern_Gen` compute seven patterns from the position counters, and a `case`
selects one of them. `Params.select` is this selection, with the widths of the source: the width of
a colour bar has seven bits, its multiples and the inner limits of the border have 32. `picture` says
on numbers which channels each pattern fills at a column and a row, and the wires show it when the
active area has a size that these widths hold (`select_eq`).
-/

namespace GoBoard.TestPattern

/-- The three colour channels. -/
structure Rgb (w : ℕ) where
  Red_Video : BitVec w
  Grn_Video : BitVec w
  Blu_Video : BitVec w
  deriving DecidableEq, Repr

/-- A channel that is full under a condition: `cond ? {VIDEO_WIDTH{1'b1}} : 0`. -/
def channel (w : ℕ) (P : Prop) [Decidable P] : BitVec w := if P then BitVec.allOnes w else 0

namespace Params

variable (p : Params) (w : ℕ) (c : Counts)

/-! ## The wires -/

/-- The counters are inside the active area. -/
def InActive : Prop :=
  c.o_Col_Count.setWidth 32 < p.ACTIVE_COLS ∧ c.o_Row_Count.setWidth 32 < p.ACTIVE_ROWS

instance : Decidable (p.InActive c) := inferInstanceAs (Decidable (_ ∧ _))

/-- The wire `w_Bar_Width`. -/
def w_Bar_Width : BitVec 7 := (p.ACTIVE_COLS.sdiv 8).setWidth 7

/-- The product `w_Bar_Width*k` in a comparison with a counter. -/
def barEnd (k : BitVec 32) : BitVec 32 := p.w_Bar_Width.setWidth 32 * k

/-- The wire `w_Bar_Select`. -/
def w_Bar_Select : BitVec 3 :=
  if c.o_Col_Count.setWidth 32 < p.barEnd 1 then 0
  else if c.o_Col_Count.setWidth 32 < p.barEnd 2 then 1
  else if c.o_Col_Count.setWidth 32 < p.barEnd 3 then 2
  else if c.o_Col_Count.setWidth 32 < p.barEnd 4 then 3
  else if c.o_Col_Count.setWidth 32 < p.barEnd 5 then 4
  else if c.o_Col_Count.setWidth 32 < p.barEnd 6 then 5
  else if c.o_Col_Count.setWidth 32 < p.barEnd 7 then 6
  else 7

/-- The condition of pattern 6. -/
def OnBorder : Prop :=
  c.o_Row_Count.setWidth 32 ≤ (1 : BitVec 32) ∨ p.ACTIVE_ROWS - 1 - 1 ≤ c.o_Row_Count.setWidth 32 ∨
  c.o_Col_Count.setWidth 32 ≤ (1 : BitVec 32) ∨ p.ACTIVE_COLS - 1 - 1 ≤ c.o_Col_Count.setWidth 32

instance : Decidable (p.OnBorder c) := inferInstanceAs (Decidable (_ ∨ _))

/-- Pattern 0 disables the generator. -/
def Pattern0 : Rgb w := ⟨0, 0, 0⟩

def Pattern1 : Rgb w := ⟨channel w (p.InActive c), 0, 0⟩

def Pattern2 : Rgb w := ⟨0, channel w (p.InActive c), 0⟩

def Pattern3 : Rgb w := ⟨0, 0, channel w (p.InActive c)⟩

/-- The checkerboard, which does not depend on the parameters. -/
def Pattern4 : Rgb w :=
  let on := channel w ((c.o_Col_Count.getLsbD 5 ^^ c.o_Row_Count.getLsbD 5) = true)
  ⟨on, on, on⟩

/-- The colour bars. -/
def Pattern5 : Rgb w where
  Red_Video := channel w (p.w_Bar_Select c = 4 ∨ p.w_Bar_Select c = 5 ∨ p.w_Bar_Select c = 6 ∨
    p.w_Bar_Select c = 7)
  Grn_Video := channel w (p.w_Bar_Select c = 2 ∨ p.w_Bar_Select c = 3 ∨ p.w_Bar_Select c = 6 ∨
    p.w_Bar_Select c = 7)
  Blu_Video := channel w (p.w_Bar_Select c = 1 ∨ p.w_Bar_Select c = 3 ∨ p.w_Bar_Select c = 5 ∨
    p.w_Bar_Select c = 7)

/-- The white border. -/
def Pattern6 : Rgb w :=
  let on := channel w (p.OnBorder c)
  ⟨on, on, on⟩

/-- The `case` on `i_Pattern`. -/
def select (i_Pattern : BitVec 4) : Rgb w :=
  match i_Pattern.toNat with
  | 0 => Pattern0 w
  | 1 => p.Pattern1 w c
  | 2 => p.Pattern2 w c
  | 3 => p.Pattern3 w c
  | 4 => Pattern4 w c
  | 5 => p.Pattern5 w c
  | 6 => p.Pattern6 w c
  | _ => Pattern0 w

end Params

/-! ## The picture -/

/-- Which channels are full. -/
structure Colour where
  red : Bool
  green : Bool
  blue : Bool
  deriving DecidableEq, Repr

namespace Colour

def black : Colour := ⟨false, false, false⟩

/-- White under a condition, black otherwise. -/
def whiteIf (on : Bool) : Colour := ⟨on, on, on⟩

/-- The colour of bar `k`: its bits are red, green and blue, from the highest. -/
def ofBar (k : ℕ) : Colour := ⟨k.testBit 2, k.testBit 1, k.testBit 0⟩

/-- The colour on the channels. -/
def video (w : ℕ) (x : Colour) : Rgb w :=
  ⟨channel w (x.red = true), channel w (x.green = true), channel w (x.blue = true)⟩

end Colour

namespace Mode

variable (m : Mode)

/-- Column `x` of row `y` is active. -/
def ActiveAt (x y : ℕ) : Prop := x < m.ACTIVE_COLS.toNat ∧ y < m.ACTIVE_ROWS.toNat

instance (x y : ℕ) : Decidable (m.ActiveAt x y) := inferInstanceAs (Decidable (_ ∧ _))

/-- Column `x` of row `y` is one of the first two or follows the last but two, along either axis. -/
def BorderAt (x y : ℕ) : Prop :=
  y < 2 ∨ m.ACTIVE_ROWS.toNat ≤ y + 2 ∨ x < 2 ∨ m.ACTIVE_COLS.toNat ≤ x + 2

instance (x y : ℕ) : Decidable (m.BorderAt x y) := inferInstanceAs (Decidable (_ ∨ _))

/-- The bar of column `x`: bars are as wide as an eighth of the active area, and the last one goes
on to the end of the line. -/
def bar (x : ℕ) : ℕ := min 7 (x / (m.ACTIVE_COLS.toNat / 8))

/-- What pattern `k` shows at column `x` of row `y`. -/
def picture (k x y : ℕ) : Colour :=
  match k with
  | 1 => { Colour.black with red := decide (m.ActiveAt x y) }
  | 2 => { Colour.black with green := decide (m.ActiveAt x y) }
  | 3 => { Colour.black with blue := decide (m.ActiveAt x y) }
  | 4 => .whiteIf (x.testBit 5 ^^ y.testBit 5)
  | 5 => .ofBar (m.bar x)
  | 6 => .whiteIf (decide (m.BorderAt x y))
  | _ => .black

/-- The active area is at least as wide as eight bars of one column and no wider than a counter can
tell, and at least as high as the two rows of a border. -/
structure Paintable : Prop where
  cols_ge : 8 ≤ m.ACTIVE_COLS.toNat
  cols_lt : m.ACTIVE_COLS.toNat < 2 ^ 10
  rows_ge : 2 ≤ m.ACTIVE_ROWS.toNat

theorem paintable_default : Mode.default.Paintable := ⟨by decide, by decide, by decide⟩

end Mode

/-! ## The wires show the picture -/

/-- A full channel is not empty. -/
theorem channel_inj {w : ℕ} (hw : 0 < w) {a b : Bool} :
    channel w (a = true) = channel w (b = true) ↔ a = b := by
  have hw' : w ≠ 0 := by omega
  unfold channel
  cases a <;> cases b <;> simp [hw']

/-- The channels determine the colour. -/
theorem Colour.video_inj {w : ℕ} (hw : 0 < w) {x y : Colour} : x.video w = y.video w ↔ x = y := by
  unfold Colour.video
  rw [Rgb.mk.injEq, channel_inj hw, channel_inj hw, channel_inj hw, Colour.mk.injEq]

theorem channel_congr {w : ℕ} {P Q : Prop} [Decidable P] [Decidable Q] (h : P ↔ Q) :
    channel w P = channel w Q := by
  unfold channel
  simp only [h]

/-- Signed and unsigned division agree on what is positive in both readings. -/
theorem toNat_sdiv {x y : BitVec 32} (hx : x.toNat < 2 ^ 31) (hy : y.toNat < 2 ^ 31) :
    (x.sdiv y).toNat = x.toNat / y.toNat := by
  have hx' : x.msb = false := BitVec.msb_eq_false_iff_two_mul_lt.mpr (by omega)
  have hy' : y.msb = false := BitVec.msb_eq_false_iff_two_mul_lt.mpr (by omega)
  rw [BitVec.sdiv_eq, hx', hy']
  exact BitVec.toNat_udiv

namespace Mode.Paintable

variable {m : Mode}

/-- The width of a bar fits the wire. -/
theorem toNat_w_Bar_Width (h : m.Paintable) :
    m.w_Bar_Width.toNat = m.ACTIVE_COLS.toNat / 8 := by
  have hlt := h.cols_lt
  have hdiv : (m.ACTIVE_COLS.sdiv 8).toNat = m.ACTIVE_COLS.toNat / 8 :=
    toNat_sdiv (by omega) (by decide)
  unfold Params.w_Bar_Width
  rw [BitVec.toNat_setWidth, hdiv, Nat.mod_eq_of_lt (by omega)]

/-- The end of a bar does not wrap around. -/
theorem toNat_barEnd (h : m.Paintable) {k : BitVec 32} (hk : k.toNat < 8) :
    (m.barEnd k).toNat = m.ACTIVE_COLS.toNat / 8 * k.toNat := by
  have hlt := m.w_Bar_Width.isLt
  have hmul : m.w_Bar_Width.toNat * k.toNat ≤ m.w_Bar_Width.toNat * 8 :=
    Nat.mul_le_mul_left _ (by omega)
  unfold Params.barEnd
  have hwide : (m.w_Bar_Width.setWidth 32).toNat = m.w_Bar_Width.toNat := by
    rw [BitVec.toNat_setWidth, Nat.mod_eq_of_lt (by omega)]
  rw [BitVec.toNat_mul, hwide, Nat.mod_eq_of_lt (by omega), h.toNat_w_Bar_Width]

/-- A column is left of the end of bar `k` if the quotient by the width of a bar is at most `k`. -/
theorem lt_barEnd_iff (h : m.Paintable) (c : BitVec 10) {k : BitVec 32} (hk : k.toNat < 8) :
    c.setWidth 32 < m.barEnd k ↔ c.toNat / (m.ACTIVE_COLS.toNat / 8) < k.toNat := by
  have hge := h.cols_ge
  rw [widen_lt_iff, h.toNat_barEnd hk, Nat.div_lt_iff_lt_mul (by omega), Nat.mul_comm]

/-- The wire `w_Bar_Select` is the bar of the column. -/
theorem toNat_w_Bar_Select (h : m.Paintable) (c : Counts) :
    (m.w_Bar_Select c).toNat = m.bar c.o_Col_Count.toNat := by
  have hend (k : BitVec 32) (hk : k.toNat < 8) := h.lt_barEnd_iff c.o_Col_Count hk
  unfold Params.w_Bar_Select Mode.bar
  simp only [hend 1 (by decide), hend 2 (by decide), hend 3 (by decide), hend 4 (by decide),
    hend 5 (by decide), hend 6 (by decide), hend 7 (by decide)]
  generalize c.o_Col_Count.toNat / (m.ACTIVE_COLS.toNat / 8) = q
  change (if q < 1 then (0 : BitVec 3) else if q < 2 then 1 else if q < 3 then 2
    else if q < 4 then 3 else if q < 5 then 4 else if q < 6 then 5 else if q < 7 then 6 else 7).toNat
    = min 7 q
  split_ifs with h1 h2 h3 h4 h5 h6 h7
  all_goals bv_omega

/-- A parameter less two is the inner limit of the border. -/
theorem border_le_iff {size : BitVec 32} {c : BitVec 10} (hsize : 2 ≤ size.toNat) :
    size - 1 - 1 ≤ c.setWidth 32 ↔ size.toNat ≤ c.toNat + 2 := by
  have hone : (size - 1).toNat = size.toNat - 1 :=
    BitVec.toNat_sub_of_le (BitVec.le_def.mpr (by change 1 ≤ size.toNat; omega))
  have htwo : (size - 1 - 1).toNat = size.toNat - 1 - 1 := by
    rw [BitVec.toNat_sub_of_le (BitVec.le_def.mpr (by rw [hone]; change 1 ≤ _; omega)), hone]
    rfl
  rw [BitVec.le_def, htwo, toNat_widen]
  omega

/-- The wires of pattern 6 find the border. -/
theorem onBorder_iff (h : m.Paintable) (c : Counts) :
    m.OnBorder c ↔ m.BorderAt c.o_Col_Count.toNat c.o_Row_Count.toNat := by
  have hone (x : BitVec 10) : x.setWidth 32 ≤ (1 : BitVec 32) ↔ x.toNat < 2 := by
    rw [BitVec.le_def, toNat_widen]
    exact Nat.lt_succ_iff.symm
  have hcols := h.cols_ge
  unfold Params.OnBorder Mode.BorderAt
  rw [hone, hone, border_le_iff h.rows_ge, border_le_iff (by omega)]

end Mode.Paintable

/-- The wires of patterns 1 to 3 find the active area. -/
theorem inActive_iff (m : Mode) (c : Counts) :
    m.InActive c ↔ decide (m.ActiveAt c.o_Col_Count.toNat c.o_Row_Count.toNat) = true := by
  rw [decide_eq_true_iff]
  unfold Params.InActive Mode.ActiveAt
  rw [widen_lt_iff, widen_lt_iff]

/-- The truth table of the colour bars. -/
theorem pattern5_eq {p : Params} {w k : ℕ} {c : Counts} (hk : (p.w_Bar_Select c).toNat = k) :
    p.Pattern5 w c = (Colour.ofBar k).video w := by
  subst hk
  unfold Params.Pattern5 Colour.video Colour.ofBar
  generalize p.w_Bar_Select c = sel
  have htable : ∀ sel : BitVec 3,
      ((sel = 4 ∨ sel = 5 ∨ sel = 6 ∨ sel = 7) ↔ sel.toNat.testBit 2 = true) ∧
      ((sel = 2 ∨ sel = 3 ∨ sel = 6 ∨ sel = 7) ↔ sel.toNat.testBit 1 = true) ∧
      ((sel = 1 ∨ sel = 3 ∨ sel = 5 ∨ sel = 7) ↔ sel.toNat.testBit 0 = true) := by
    decide
  obtain ⟨hred, hgreen, hblue⟩ := htable sel
  rw [channel_congr hred, channel_congr hgreen, channel_congr hblue]

/-- The selected wires show the picture at the position of the counters. -/
theorem select_eq {m : Mode} (h : m.Paintable) (w : ℕ) (c : Counts) (i_Pattern : BitVec 4) :
    m.select w c i_Pattern =
      (m.picture i_Pattern.toNat c.o_Col_Count.toNat c.o_Row_Count.toNat).video w := by
  have hactive := channel_congr (w := w) (inActive_iff m c)
  have hborder := channel_congr (w := w)
    ((h.onBorder_iff c).trans (decide_eq_true_iff (p := m.BorderAt _ _)).symm)
  unfold Params.select Mode.picture
  generalize i_Pattern.toNat = k
  match k with
  | 0 => rfl
  | 1 => exact congrArg (fun x => (⟨x, 0, 0⟩ : Rgb w)) hactive
  | 2 => exact congrArg (fun x => (⟨0, x, 0⟩ : Rgb w)) hactive
  | 3 => exact congrArg (fun x => (⟨0, 0, x⟩ : Rgb w)) hactive
  | 4 => rfl
  | 5 => exact pattern5_eq (h.toNat_w_Bar_Select c)
  | 6 => exact congrArg (fun x => (⟨x, x, x⟩ : Rgb w)) hborder
  | k + 7 => rfl

end GoBoard.TestPattern
