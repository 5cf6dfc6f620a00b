/-
# FantasyComputer.Proofs.PreviewRows — the lit pixels from the printed rows, and the rows from them.

`Lit` says of a column and a row that the pixel there is bright enough, in terms of the three bytes
that it has in the picture.  A character of the preview stands for a pixel and the one below it
(`cell_rows`), and its four shapes are the four states of the two.  So the printed lines can be read
back (`shownLit_lines`), and two pictures look the same if and only if the same pixels are lit.

The number in the first line is counted over all pixels in turn, while the blocks come in pairs of
rows.  `litCount_eq_sum` cuts the one sum into rows.  A full block stands for two lit pixels and
half a block for one, and summing this gives the count in terms of the printed rows
(`litCount_eq_blocks`).
-/
import FantasyComputer.Picture.Preview
import FantasyComputer.Proofs.Rendering

namespace FantasyComputer

namespace Preview

open Screen

variable {s s' : Screen} {x : Fin screenWidth} {y : Fin screenHeight}

/-! ## Lit pixels -/

/-- A colour part of the pixel at a place, as a byte of the picture. -/
def partAt (s : Screen) (i : Fin pixelCount) (part : Nat) : Nat :=
  (s.bytes.getD (4 * i + part) 0).toNat

/-- Whether the pixel in a column and a row is lit. -/
def Lit (s : Screen) (x : Fin screenWidth) (y : Fin screenHeight) : Prop :=
  64 < (299 * partAt s (place x y) 0 + 587 * partAt s (place x y) 1
    + 114 * partAt s (place x y) 2) / 1000

instance (s : Screen) (x : Fin screenWidth) (y : Fin screenHeight) : Decidable (Lit s x y) :=
  inferInstanceAs (Decidable (_ < _))

theorem partAt_eq (s : Screen) (i : Fin pixelCount) {part : Nat} (h : part < 4) :
    partAt s i part = ((s.pixels.get i).bytes.getD part 0).toNat := by
  have hlength : i.val < s.pixels.toList.length := by
    rw [Vector.length_toList]
    exact i.isLt
  have hpixel : s.pixels.toList[i.val] = s.pixels.get i := Vector.getElem_toList _
  rw [partAt, ← hpixel, ← take_drop_flatMap_bytes _ hlength, List.getD_eq_getElem?_getD,
    List.getD_eq_getElem?_getD, List.getElem?_take_of_lt h, List.getElem?_drop]
  rfl

/-- The preview tests the same brightness. -/
theorem litAt_eq_true_iff : litAt s x y = true ↔ Lit s x y := by
  have hpixel : s.pixels[screenWidth * y.val + x.val]? = some (s.pixels.get (place x y)) :=
    Vector.getElem?_eq_getElem (place x y).isLt
  rw [Lit, partAt_eq s _ (by decide), partAt_eq s _ (by decide), partAt_eq s _ (by decide), litAt]
  simp only [hpixel, isLit, decide_eq_true_eq]
  rfl

theorem litAt_eq (s : Screen) (x : Fin screenWidth) (y : Fin screenHeight) :
    litAt s x y = decide (Lit s x y) := by
  rw [Bool.eq_iff_iff, litAt_eq_true_iff, decide_eq_true_iff]

/-! ## Blocks -/

section Block

variable {above below : Bool}

theorem block_eq_full : block above below = '█' ↔ above = true ∧ below = true := by
  cases above <;> cases below <;> decide

theorem block_eq_upper : block above below = '▀' ↔ above = true ∧ below = false := by
  cases above <;> cases below <;> decide

theorem block_eq_lower : block above below = '▄' ↔ above = false ∧ below = true := by
  cases above <;> cases below <;> decide

theorem block_eq_blank : block above below = ' ' ↔ above = false ∧ below = false := by
  cases above <;> cases below <;> decide

theorem shows_above : block above below = '█' ∨ block above below = '▀' ↔ above = true := by
  cases above <;> cases below <;> decide

theorem shows_below : block above below = '█' ∨ block above below = '▄' ↔ below = true := by
  cases above <;> cases below <;> decide

/-- A full block stands for two lit pixels, half a block for one. -/
theorem toNat_add_toNat (above below : Bool) :
    above.toNat + below.toNat = 2 * (block above below == '█').toNat
      + ((block above below == '▀').toNat + (block above below == '▄').toNat) := by
  cases above <;> cases below <;> rfl

end Block

/-! ## Rows -/

theorem upper_lt (j : Fin (screenHeight / 2)) : 2 * j.val < screenHeight := by
  have := j.isLt
  omega

theorem lower_lt (j : Fin (screenHeight / 2)) : 2 * j.val + 1 < screenHeight := by
  have := j.isLt
  omega

/-- The first row of pixels that a row of characters shows. -/
def upper (j : Fin (screenHeight / 2)) : Fin screenHeight :=
  ⟨2 * j, upper_lt j⟩

/-- The second row of pixels that a row of characters shows. -/
def lower (j : Fin (screenHeight / 2)) : Fin screenHeight :=
  ⟨2 * j + 1, lower_lt j⟩

/-- The rows of characters. -/
def rows (s : Screen) : List (List Char) :=
  (List.range (screenHeight / 2)).map (blocks s)

/-- A row of characters between its marks. -/
def framed (row : List Char) : String :=
  "  |" ++ String.ofList row ++ "|"

theorem lines_eq (s : Screen) :
    lines s = ("  (" ++ toString (litCount s) ++ " px lit)") :: (rows s).map framed := by
  rw [rows, List.map_map]
  rfl

theorem length_rows (s : Screen) : (rows s).length = 64 :=
  (List.length_map _).trans List.length_range

theorem length_of_mem_rows {row : List Char} (h : row ∈ rows s) : row.length = 128 := by
  obtain ⟨pair, -, rfl⟩ := List.mem_map.1 h
  exact (List.length_map _).trans List.length_range

/-- The character in a column of a row, if there is one. -/
def cell (rows : List (List Char)) (x j : Nat) : Option Char :=
  rows[j]?.bind (·[x]?)

/-- **One character** stands for a pixel and the one below it. -/
theorem cell_rows (s : Screen) (x : Fin screenWidth) (j : Fin (screenHeight / 2)) :
    cell (rows s) x j = some (block (decide (Lit s x (upper j))) (decide (Lit s x (lower j)))) := by
  rw [← litAt_eq, ← litAt_eq, cell, rows, List.getElem?_map, List.getElem?_range j.isLt,
    Option.map_some, Option.bind_some, blocks, List.getElem?_map, List.getElem?_range x.isLt]
  rfl

/-! ## Reading the rows -/

/-- The character in a column of a row of printed lines: the first line is the count, and each of
the others starts with two blanks and a mark. -/
def characterIn (lines : List String) (x j : Nat) : Option Char :=
  lines[j + 1]?.bind (·.toList[x + 3]?)

theorem characterIn_lines (s : Screen) (x : Fin screenWidth) (j : Fin (screenHeight / 2)) :
    characterIn (lines s) x j = cell (rows s) x j := by
  have hj : j.val < (rows s).length := by
    rw [length_rows]
    exact j.isLt
  have hx : x.val < ((rows s)[j.val]).length := by
    rw [length_of_mem_rows (List.getElem_mem hj)]
    exact x.isLt
  have hframed : ∀ row : List Char, (framed row).toList = ' ' :: ' ' :: '|' :: (row ++ ['|']) := by
    intro row
    simp only [framed, String.toList_append, String.toList_ofList]
    rfl
  rw [characterIn, cell, lines_eq, List.getElem?_cons_succ, List.getElem?_map,
    List.getElem?_eq_getElem hj, Option.map_some, Option.bind_some, Option.bind_some, hframed]
  exact List.getElem?_append_left hx

/-- Whether printed lines show a pixel lit: by a full block or by half a block in its place. -/
def ShownLit (lines : List String) (x : Fin screenWidth) (y : Fin screenHeight) : Prop :=
  characterIn lines x (y / 2) = some '█'
    ∨ characterIn lines x (y / 2) = some (if y.val % 2 = 0 then '▀' else '▄')

/-- Every row of pixels is one of the two that a row of characters shows. -/
theorem exists_row (y : Fin screenHeight) :
    ∃ j : Fin (screenHeight / 2), y = upper j ∨ y = lower j := by
  have hhalf : y.val / 2 < screenHeight / 2 := by
    have hy := y.isLt
    unfold screenHeight at hy ⊢
    omega
  refine ⟨⟨y / 2, hhalf⟩, ?_⟩
  rcases Nat.mod_two_eq_zero_or_one y with heven | hodd
  · left
    apply Fin.ext
    show y.val = 2 * (y.val / 2)
    omega
  · right
    apply Fin.ext
    show y.val = 2 * (y.val / 2) + 1
    omega

/-- **The lit pixels are read back.** -/
theorem shownLit_lines : ShownLit (lines s) x y ↔ Lit s x y := by
  obtain ⟨j, rfl | rfl⟩ := exists_row y
  · have hhalf : (upper j).val / 2 = j := by
      show 2 * j.val / 2 = j
      omega
    have heven : (upper j).val % 2 = 0 := Nat.mul_mod_right 2 j
    rw [ShownLit, hhalf, if_pos heven, characterIn_lines, cell_rows, Option.some.injEq,
      Option.some.injEq, shows_above, decide_eq_true_iff]
  · have hhalf : (lower j).val / 2 = j := by
      show (2 * j.val + 1) / 2 = j
      omega
    have hodd : (lower j).val % 2 ≠ 0 := by
      show (2 * j.val + 1) % 2 ≠ 0
      omega
    rw [ShownLit, hhalf, if_neg hodd, characterIn_lines, cell_rows, Option.some.injEq,
      Option.some.injEq, shows_below, decide_eq_true_iff]

/-! ## Counting -/

/-- A sum over equal stretches. -/
theorem sum_range_blocks (f : Nat → Nat) (size count : Nat) :
    ∑ i ∈ Finset.range (size * count), f i
      = ∑ j ∈ Finset.range count, ∑ x ∈ Finset.range size, f (size * j + x) := by
  induction count with
  | zero => rfl
  | succ count ih => rw [Nat.mul_succ, Finset.sum_range_add, ih, Finset.sum_range_succ]

theorem countP_eq_sum {α : Type} (p : α → Bool) (l : List α) :
    l.countP p = ∑ i ∈ Finset.range l.length, (l[i]?.any p).toNat := by
  induction l with
  | nil => rfl
  | cons a l ih =>
    rw [List.countP_cons, ih, List.length_cons, Finset.sum_range_succ']
    cases h : p a <;> simp [h]

theorem countP_range (p : Nat → Bool) (n : Nat) :
    (List.range n).countP p = ∑ i ∈ Finset.range n, (p i).toNat := by
  rw [countP_eq_sum, List.length_range]
  apply Finset.sum_congr rfl
  intro i hi
  rw [List.getElem?_range (Finset.mem_range.1 hi)]
  rfl

theorem litAt_eq_any (s : Screen) (column row : Nat) :
    litAt s column row = s.pixels[screenWidth * row + column]?.any isLit := by
  unfold litAt
  cases s.pixels[screenWidth * row + column]? <;> rfl

/-- The lit pixels are counted row by row. -/
theorem litCount_eq_sum (s : Screen) :
    litCount s
      = ∑ row ∈ Finset.range screenHeight, ∑ column ∈ Finset.range screenWidth,
        (litAt s column row).toNat := by
  have hsize : s.pixels.toList.length = screenWidth * screenHeight := Vector.length_toList
  rw [litCount, countP_eq_sum, hsize, sum_range_blocks]
  simp only [litAt_eq_any, Vector.getElem?_toList]

/-- The two rows of pixels that each row of characters shows. -/
theorem sum_range_two_mul (f : Nat → Nat) (n : Nat) :
    ∑ row ∈ Finset.range (2 * n), f row = ∑ j ∈ Finset.range n, (f (2 * j) + f (2 * j + 1)) := by
  rw [sum_range_blocks]
  apply Finset.sum_congr rfl
  intro j _
  rw [Finset.sum_range_succ, Finset.sum_range_one]
  rfl

/-- The sum of what the rows of characters have. -/
theorem sum_map_rows (s : Screen) (f : List Char → Nat) :
    ((rows s).map f).sum = ∑ j ∈ Finset.range (screenHeight / 2), f (blocks s j) := by
  rw [rows, List.map_map]
  rfl

theorem count_blocks (s : Screen) (j : Nat) (c : Char) :
    (blocks s j).count c = ∑ x ∈ Finset.range screenWidth,
      (block (litAt s x (2 * j)) (litAt s x (2 * j + 1)) == c).toNat := by
  rw [List.count, blocks, List.countP_map, countP_range]
  rfl

/-- **The count is that of the blocks.** -/
theorem litCount_eq_blocks (s : Screen) :
    litCount s = 2 * ((rows s).map (·.count '█')).sum
      + ((rows s).map fun row => row.count '▀' + row.count '▄').sum := by
  have hheight : screenHeight = 2 * (screenHeight / 2) := rfl
  rw [litCount_eq_sum, hheight, sum_range_two_mul, sum_map_rows, sum_map_rows, Finset.mul_sum,
    ← Finset.sum_add_distrib]
  apply Finset.sum_congr rfl
  intro j _
  rw [count_blocks, count_blocks, count_blocks, ← Finset.sum_add_distrib, ← Finset.sum_add_distrib,
    Finset.mul_sum, ← Finset.sum_add_distrib]
  apply Finset.sum_congr rfl
  intro x _
  exact toNat_add_toNat _ _

/-- **The count is that of the lit pixels.** -/
theorem litCount_eq_card (s : Screen) :
    litCount s
      = Fintype.card { p : Fin screenWidth × Fin screenHeight // Lit s p.1 p.2 } := by
  rw [litCount_eq_sum, Fintype.card_subtype, Finset.card_filter, Fintype.sum_prod_type_right,
    Finset.sum_range]
  apply Finset.sum_congr rfl
  intro y _
  rw [Finset.sum_range]
  apply Finset.sum_congr rfl
  intro x _
  rw [litAt_eq]
  by_cases h : Lit s x y <;> simp [h]

/-! ## The whole preview -/

/-- Only the lit pixels decide what is printed. -/
theorem lines_congr (h : ∀ x y, Lit s x y ↔ Lit s' x y) : lines s = lines s' := by
  have hlit : ∀ x < screenWidth, ∀ y < screenHeight, litAt s x y = litAt s' x y := by
    intro x hx y hy
    have hpixel := h ⟨x, hx⟩ ⟨y, hy⟩
    rw [← litAt_eq_true_iff, ← litAt_eq_true_iff] at hpixel
    exact Bool.eq_iff_iff.2 hpixel
  have hrows : rows s = rows s' := by
    apply List.map_congr_left
    intro j hj
    apply List.map_congr_left
    intro x hx
    have hj := List.mem_range.1 hj
    have hx := List.mem_range.1 hx
    rw [hlit x hx _ (upper_lt ⟨j, hj⟩), hlit x hx _ (lower_lt ⟨j, hj⟩)]
  rw [lines_eq, lines_eq, litCount_eq_blocks, litCount_eq_blocks, hrows]

/-- What is known of the rows between the marks and of the count before them. -/
structure Draws (s : Screen) (count : Nat) (rows : List (List Char)) : Prop where
  height : rows.length = 64
  width : ∀ row ∈ rows, row.length = 128
  full : ∀ (x : Fin screenWidth) (j : Fin (screenHeight / 2)),
    cell rows x j = some '█' ↔ Lit s x (upper j) ∧ Lit s x (lower j)
  upperHalf : ∀ (x : Fin screenWidth) (j : Fin (screenHeight / 2)),
    cell rows x j = some '▀' ↔ Lit s x (upper j) ∧ ¬Lit s x (lower j)
  lowerHalf : ∀ (x : Fin screenWidth) (j : Fin (screenHeight / 2)),
    cell rows x j = some '▄' ↔ ¬Lit s x (upper j) ∧ Lit s x (lower j)
  blank : ∀ (x : Fin screenWidth) (j : Fin (screenHeight / 2)),
    cell rows x j = some ' ' ↔ ¬Lit s x (upper j) ∧ ¬Lit s x (lower j)
  /-- The count is twice the full blocks and the half blocks. -/
  counted : count = 2 * (rows.map (·.count '█')).sum
    + (rows.map fun row => row.count '▀' + row.count '▄').sum
  /-- It is that of the lit pixels. -/
  total : count = Fintype.card { p : Fin screenWidth × Fin screenHeight // Lit s p.1 p.2 }

theorem draws_rows (s : Screen) : Draws s (litCount s) (rows s) where
  height := length_rows s
  width _ h := length_of_mem_rows h
  full x j := by
    rw [cell_rows, Option.some.injEq, block_eq_full, decide_eq_true_iff, decide_eq_true_iff]
  upperHalf x j := by
    rw [cell_rows, Option.some.injEq, block_eq_upper, decide_eq_true_iff, decide_eq_false_iff_not]
  lowerHalf x j := by
    rw [cell_rows, Option.some.injEq, block_eq_lower, decide_eq_false_iff_not, decide_eq_true_iff]
  blank x j := by
    rw [cell_rows, Option.some.injEq, block_eq_blank, decide_eq_false_iff_not,
      decide_eq_false_iff_not]
  counted := litCount_eq_blocks s
  total := litCount_eq_card s

/-- What is known of a preview. -/
structure DrawsFaithfully (s : Screen) : Prop where
  /-- It is a count and the rows, each between its marks. -/
  printed : ∃ count rows, Draws s count rows
    ∧ lines s = ("  (" ++ toString count ++ " px lit)") :: rows.map framed
  /-- The lit pixels can be read off the printed lines. -/
  rebuilt : ∀ x y, ShownLit (lines s) x y ↔ Lit s x y
  /-- Pictures have the same preview if and only if the same pixels are lit. -/
  determined : ∀ s', lines s = lines s' ↔ ∀ x y, Lit s x y ↔ Lit s' x y

/-- **The preview is a faithful picture.** -/
theorem drawsFaithfully (s : Screen) : DrawsFaithfully s where
  printed := ⟨litCount s, rows s, draws_rows s, lines_eq s⟩
  rebuilt _ _ := shownLit_lines
  determined s' := by
    constructor
    · intro h x y
      rw [← shownLit_lines, h, shownLit_lines]
    · exact lines_congr

end Preview

end FantasyComputer
