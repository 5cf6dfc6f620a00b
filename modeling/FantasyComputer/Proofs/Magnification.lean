/-
# FantasyComputer.Proofs.Magnification — every pixel as a square of points.

A window's points are drawn into a buffer that holds the picture shown before.  Three loops fill it:
over the rows of pixels, over the pixels of a row, and over the rows of points of a pixel, with a
stretch of points in each.  `draw?` is these loops, and it fails where a stretch would not lie
within the buffer.

`Fills` says that the points of a part of the buffer have got the colour of their pixel and that all
others stayed.  A stretch fills its part by division with remainder (`mem_stretch_iff`), and a loop
fills the parts of its rounds together (`exists_fills_foldlM`), so each of the three loops adds only
which points its parts make up: a square, a row, everything.  The order of the rounds does not
matter, for a point has one colour to get.

`draw?_eq` says that the loops succeed on every buffer of the right size and draw the `points` of
the window, and `getElem?_points_pixelOf` which pixel each point shows.
-/
import FantasyComputer.Picture.Magnified
import Mathlib

namespace FantasyComputer

namespace Magnified

/-! ## The loops -/

/-- Fills a stretch of a buffer, if the whole stretch lies within it. -/
def fill? (buffer : Array UInt32) (start count : Nat) (c : UInt32) : Option (Array UInt32) :=
  if start + count ≤ buffer.size then
    some (buffer.mapIdx fun i old => if start ≤ i ∧ i < start + count then c else old)
  else none

/-- Fills the square of a pixel: a stretch in each of its rows of points. -/
def fillSquare? (scale x y : Nat) (buffer : Array UInt32) (c : UInt32) : Option (Array UInt32) :=
  (List.range scale).foldlM (fun buffer line =>
    fill? buffer ((y * scale + line) * (screenWidth * scale) + x * scale) scale c) buffer

/-- Fills the squares of a row of pixels. -/
def fillRow? (scale y : Nat) (buffer : Array UInt32) (row : Array UInt32) : Option (Array UInt32) :=
  row.toList.zipIdx.foldlM (fun buffer (c, x) => fillSquare? scale x y buffer c) buffer

/-- Fills the squares of a picture. -/
def draw? (scale : Nat) (pixels : Vector UInt32 pixelCount) (buffer : Array UInt32) :
    Option (Array UInt32) :=
  (List.range screenHeight).foldlM (fun buffer y => fillRow? scale y buffer (row pixels y)) buffer

/-! ## What the loops leave -/

/-- The number of the pixel that a point belongs to. -/
def pixelNumber (scale i : Nat) : Nat :=
  screenWidth * (i / (screenWidth * scale) / scale) + i % (screenWidth * scale) / scale

/-- What filling a part of a buffer does: the points there get the colour of their pixel, all others
stay. -/
structure Fills (scale : Nat) (pixels : Vector UInt32 pixelCount) (part : Nat → Prop)
    (before after : Array UInt32) : Prop where
  size : after.size = before.size
  inside : ∀ i < before.size, part i → after[i]? = pixels[pixelNumber scale i]?
  outside : ∀ i, ¬part i → after[i]? = before[i]?

section Loops

variable {scale : Nat} {pixels : Vector UInt32 pixelCount} {part part' : Nat → Prop}
  {b b' b'' : Array UInt32}

theorem Fills.congr (h : Fills scale pixels part b b') (hpart : ∀ i < b.size, part i ↔ part' i) :
    Fills scale pixels part' b b' where
  size := h.size
  inside i hi hin := h.inside i hi ((hpart i hi).2 hin)
  outside i hout := by
    by_cases hi : i < b.size
    · exact h.outside i (mt (hpart i hi).1 hout)
    · rw [Array.getElem?_eq_none (Nat.le_of_not_lt hi),
        Array.getElem?_eq_none (h.size ▸ Nat.le_of_not_lt hi)]

theorem Fills.trans (h : Fills scale pixels part b b') (h' : Fills scale pixels part' b' b'') :
    Fills scale pixels (fun i => part i ∨ part' i) b b'' where
  size := h'.size.trans h.size
  inside i hi hin := by
    by_cases hlast : part' i
    · exact h'.inside i (h.size ▸ hi) hlast
    · rw [h'.outside i hlast]
      exact h.inside i hi (hin.resolve_right hlast)
  outside i hout := by
    rw [not_or] at hout
    rw [h'.outside i hout.2, h.outside i hout.1]

/-- **A loop.**  If every round fills its part of any buffer of the right size, all rounds together
fill all parts. -/
theorem exists_fills_foldlM {α : Type} {f : Array UInt32 → α → Option (Array UInt32)}
    {part : α → Nat → Prop} {size : Nat} {rounds : List α}
    (hround : ∀ a ∈ rounds, ∀ b : Array UInt32, b.size = size →
      ∃ b', f b a = some b' ∧ Fills scale pixels (part a) b b')
    (hb : b.size = size) :
    ∃ b', rounds.foldlM f b = some b'
      ∧ Fills scale pixels (fun i => ∃ a ∈ rounds, part a i) b b' := by
  induction rounds generalizing b with
  | nil => exact ⟨b, rfl, rfl, fun i _ hin => absurd hin (by simp), fun _ _ => rfl⟩
  | cons a rounds ih =>
    obtain ⟨b₁, hfirst, hfills⟩ := hround a List.mem_cons_self b hb
    obtain ⟨b₂, hrest, hfills'⟩ :=
      ih (fun a ha => hround a (List.mem_cons_of_mem _ ha)) (hfills.size.trans hb)
    refine ⟨b₂, ?_, (hfills.trans hfills').congr fun i _ => ?_⟩
    · rw [List.foldlM_cons, hfirst]
      exact hrest
    · simp only [List.mem_cons, exists_eq_or_imp]

end Loops

/-- The points of a stretch: they lie in one row of points, and belong to one column of pixels. -/
theorem mem_stretch_iff {scale columns x : Nat} (hscale : 0 < scale) (hx : x < columns)
    (line i : Nat) :
    (line * (columns * scale) + x * scale ≤ i ∧ i < line * (columns * scale) + x * scale + scale)
      ↔ i / (columns * scale) = line ∧ i % (columns * scale) / scale = x := by
  have hwidth : 0 < columns * scale := Nat.mul_pos (by omega) hscale
  constructor
  · rintro ⟨hlow, hhigh⟩
    obtain ⟨r, rfl⟩ := Nat.exists_eq_add_of_le (le_trans (Nat.le_add_right _ _) hlow)
    have hr : r < columns * scale := by
      have hfits := Nat.mul_le_mul_right scale (Nat.succ_le_of_lt hx)
      rw [Nat.succ_mul] at hfits
      omega
    rw [Nat.mul_comm line, Nat.mul_add_div hwidth, Nat.div_eq_of_lt hr, Nat.mul_add_mod,
      Nat.mod_eq_of_lt hr]
    refine ⟨rfl, Nat.div_eq_of_lt_le (by omega) ?_⟩
    rw [Nat.succ_mul]
    omega
  · rintro ⟨rfl, rfl⟩
    have hline := Nat.div_add_mod i (columns * scale)
    have hcolumn := Nat.div_add_mod (i % (columns * scale)) scale
    have hrest := Nat.mod_lt (i % (columns * scale)) hscale
    rw [Nat.mul_comm] at hline hcolumn
    omega

theorem number_lt {x y : Nat} (hx : x < screenWidth) (hy : y < screenHeight) :
    screenWidth * y + x < pixelCount := by
  unfold screenWidth at hx ⊢
  unfold screenHeight at hy
  unfold pixelCount
  omega

theorem size_row (pixels : Vector UInt32 pixelCount) {y : Nat} (hy : y < screenHeight) :
    (row pixels y).size = screenWidth := by
  have hend : screenWidth * y + screenWidth ≤ pixelCount := by
    unfold screenWidth pixelCount
    unfold screenHeight at hy
    omega
  rw [row, Array.size_extract, Vector.size_toArray]
  omega

theorem getElem?_row (pixels : Vector UInt32 pixelCount) (y : Nat) {x : Nat}
    (hx : x < screenWidth) :
    (row pixels y).toList[x]? = pixels[screenWidth * y + x]? := by
  rw [Array.getElem?_toList, row, Array.getElem?_extract, Vector.getElem?_toArray]
  split
  · rfl
  · next hout =>
    rw [Vector.size_toArray] at hout
    rw [Vector.getElem?_eq_none (by omega)]

/-- The part of a buffer that a square covers. -/
def InSquare (scale x y i : Nat) : Prop :=
  i / (screenWidth * scale) / scale = y ∧ i % (screenWidth * scale) / scale = x

/-- Where there is a point at all, the scale is not zero. -/
theorem scale_pos {scale i : Nat} (hi : i < (128 * scale) ^ 2) : 0 < scale := by
  rcases Nat.eq_zero_or_pos scale with rfl | hscale
  · exact absurd hi (Nat.not_lt_zero i)
  · exact hscale

theorem column_lt {scale : Nat} (hscale : 0 < scale) (i : Nat) :
    i % (screenWidth * scale) / scale < screenWidth := by
  apply Nat.div_lt_of_lt_mul
  rw [Nat.mul_comm scale]
  exact Nat.mod_lt i (Nat.mul_pos (by decide) hscale)

section Drawing

variable {scale x y : Nat} {pixels : Vector UInt32 pixelCount} {b : Array UInt32} {c : UInt32}

theorem exists_fills_fill? (hb : b.size = (128 * scale) ^ 2) (hx : x < screenWidth)
    (hy : y < screenHeight) (hc : pixels[screenWidth * y + x]? = some c) {line : Nat}
    (hline : line < scale) :
    ∃ b', fill? b ((y * scale + line) * (screenWidth * scale) + x * scale) scale c = some b'
      ∧ Fills scale pixels (fun i => i / (screenWidth * scale) = y * scale + line
          ∧ i % (screenWidth * scale) / scale = x) b b' := by
  have hscale : 0 < scale := Nat.zero_lt_of_lt hline
  have hrows : (y * scale + line + 1) * (128 * scale) ≤ 128 * scale * (128 * scale) := by
    apply Nat.mul_le_mul_right
    have hbelow : (y + 1) * scale ≤ 128 * scale := Nat.mul_le_mul_right scale hy
    rw [Nat.succ_mul] at hbelow
    omega
  have hcolumns : (x + 1) * scale ≤ 128 * scale := Nat.mul_le_mul_right scale hx
  have hroom : (y * scale + line) * (screenWidth * scale) + x * scale + scale ≤ b.size := by
    rw [hb, Nat.pow_two]
    rw [Nat.succ_mul] at hrows hcolumns
    show (y * scale + line) * (128 * scale) + x * scale + scale ≤ _
    omega
  refine ⟨_, if_pos hroom, ?_⟩
  constructor
  case size => exact Array.size_mapIdx
  case inside =>
    intro i hi hin
    have hnumber : pixelNumber scale i = screenWidth * y + x := by
      rw [pixelNumber, hin.1, hin.2, Nat.mul_comm y, Nat.mul_add_div hscale,
        Nat.div_eq_of_lt hline, Nat.add_zero]
    rw [hnumber, hc, Array.getElem?_mapIdx, Array.getElem?_eq_getElem hi, Option.map_some,
      if_pos ((mem_stretch_iff hscale hx _ i).2 hin)]
  case outside =>
    intro i hout
    have hkeeps : ∀ old, (if (y * scale + line) * (screenWidth * scale) + x * scale ≤ i
          ∧ i < (y * scale + line) * (screenWidth * scale) + x * scale + scale
        then c else old) = old :=
      fun old => if_neg (mt (mem_stretch_iff hscale hx _ i).1 hout)
    rw [Array.getElem?_mapIdx]
    simp only [hkeeps, Option.map_id']

theorem exists_fills_square (hb : b.size = (128 * scale) ^ 2) (hx : x < screenWidth)
    (hy : y < screenHeight) (hc : pixels[screenWidth * y + x]? = some c) :
    ∃ b', fillSquare? scale x y b c = some b' ∧ Fills scale pixels (InSquare scale x y) b b' := by
  have hround : ∀ line ∈ List.range scale, ∀ b : Array UInt32, b.size = (128 * scale) ^ 2 →
      ∃ b', fill? b ((y * scale + line) * (screenWidth * scale) + x * scale) scale c = some b'
        ∧ Fills scale pixels (fun i => i / (screenWidth * scale) = y * scale + line
            ∧ i % (screenWidth * scale) / scale = x) b b' :=
    fun line hline b hb => exists_fills_fill? hb hx hy hc (List.mem_range.1 hline)
  obtain ⟨b', hloop, hfills⟩ := exists_fills_foldlM hround hb
  refine ⟨b', hloop, hfills.congr fun i hi => ?_⟩
  constructor
  · rintro ⟨line, hline, hrow, hcolumn⟩
    have hline := List.mem_range.1 hline
    refine ⟨?_, hcolumn⟩
    rw [hrow, Nat.mul_comm, Nat.mul_add_div (Nat.zero_lt_of_lt hline), Nat.div_eq_of_lt hline,
      Nat.add_zero]
  · rintro ⟨hrow, hcolumn⟩
    have hscale := scale_pos (hb ▸ hi)
    refine ⟨i / (screenWidth * scale) % scale, List.mem_range.2 (Nat.mod_lt _ hscale), ?_, hcolumn⟩
    rw [← hrow, Nat.div_add_mod']

theorem exists_fills_row (hb : b.size = (128 * scale) ^ 2) (hy : y < screenHeight) :
    ∃ b', fillRow? scale y b (row pixels y) = some b'
      ∧ Fills scale pixels (fun i => i / (screenWidth * scale) / scale = y) b b' := by
  have hround : ∀ cx ∈ (row pixels y).toList.zipIdx, ∀ b : Array UInt32,
      b.size = (128 * scale) ^ 2 →
      ∃ b', fillSquare? scale cx.2 y b cx.1 = some b'
        ∧ Fills scale pixels (InSquare scale cx.2 y) b b' := by
    rintro ⟨c, x⟩ hcx b hb
    have hc := List.mem_zipIdx_iff_getElem?.1 hcx
    have hx : x < screenWidth := by
      rw [← size_row pixels hy, ← Array.length_toList]
      exact (List.getElem?_eq_some_iff.1 hc).1
    rw [getElem?_row pixels y hx] at hc
    exact exists_fills_square hb hx hy hc
  obtain ⟨b', hloop, hfills⟩ := exists_fills_foldlM hround hb
  refine ⟨b', hloop, hfills.congr fun i hi => ?_⟩
  constructor
  · rintro ⟨cx, -, hrow, -⟩
    exact hrow
  · intro hrow
    have hscale := scale_pos (hb ▸ hi)
    have hx := column_lt hscale i
    have hnumber := number_lt hx hy
    refine ⟨(pixels[screenWidth * y + i % (screenWidth * scale) / scale], _),
      List.mem_zipIdx_iff_getElem?.2 ((getElem?_row pixels y hx).trans ?_), hrow, rfl⟩
    exact Vector.getElem?_eq_getElem hnumber

/-- **The loops.**  They succeed on every buffer of the right size, and every point gets the colour
of its pixel. -/
theorem exists_fills_draw (hb : b.size = (128 * scale) ^ 2) :
    ∃ b', draw? scale pixels b = some b' ∧ Fills scale pixels (fun _ => True) b b' := by
  have hround : ∀ y ∈ List.range screenHeight, ∀ b : Array UInt32, b.size = (128 * scale) ^ 2 →
      ∃ b', fillRow? scale y b (row pixels y) = some b'
        ∧ Fills scale pixels (fun i => i / (screenWidth * scale) / scale = y) b b' :=
    fun y hy b hb => exists_fills_row hb (List.mem_range.1 hy)
  obtain ⟨b', hloop, hfills⟩ := exists_fills_foldlM hround hb
  refine ⟨b', hloop, hfills.congr fun i hi => ?_⟩
  have hrow : i / (screenWidth * scale) / scale < screenHeight := by
    rw [hb, Nat.pow_two] at hi
    exact Nat.div_lt_of_lt_mul (Nat.mul_comm screenHeight scale ▸ Nat.div_lt_of_lt_mul hi)
  exact iff_true_intro ⟨_, List.mem_range.2 hrow, rfl⟩

end Drawing

/-! ## The points of a window -/

section Blocks

variable {α β : Type} {f : α → List β} {size : Nat} {l : List α}

/-- Blocks of one size, one after the other. -/
theorem length_flatMap_of_size (hsize : ∀ a ∈ l, (f a).length = size) :
    (l.flatMap f).length = size * l.length := by
  rw [List.length_flatMap, List.map_congr_left hsize, List.map_const', List.sum_replicate,
    smul_eq_mul, Nat.mul_comm]

/-- The entries of a block. -/
theorem getElem?_flatMap_of_size (hsize : ∀ a ∈ l, (f a).length = size) (hpos : 0 < size)
    (i : Nat) : (l.flatMap f)[i]? = l[i / size]?.bind fun a => (f a)[i % size]? := by
  induction l generalizing i with
  | nil => simp
  | cons a l ih =>
    have ha := hsize a List.mem_cons_self
    rw [List.flatMap_cons]
    by_cases hi : i < size
    · rw [List.getElem?_append_left (ha.symm ▸ hi), Nat.div_eq_of_lt hi, Nat.mod_eq_of_lt hi]
      rfl
    · have hle := Nat.le_of_not_lt hi
      rw [List.getElem?_append_right (ha.symm ▸ hle), ha,
        ih (fun a ha => hsize a (List.mem_cons_of_mem _ ha)), Nat.div_eq_sub_div hpos hle,
        List.getElem?_cons_succ, Nat.mod_eq_sub_mod hle]

end Blocks

section Points

variable {scale : Nat} {pixels : Vector UInt32 pixelCount}

theorem toList_stretched (scale : Nat) (row : Array UInt32) :
    (stretched scale row).toList = row.toList.flatMap (List.replicate scale) := by
  simp [stretched]

theorem toList_points (scale : Nat) (pixels : Vector UInt32 pixelCount) :
    (points scale pixels).toList = (List.range screenHeight).flatMap fun y =>
      (List.replicate scale (stretched scale (row pixels y)).toList).flatMap id := by
  simp [points]

theorem length_stretched {y : Nat} (hy : y < screenHeight) :
    (stretched scale (row pixels y)).toList.length = screenWidth * scale := by
  rw [toList_stretched, length_flatMap_of_size fun _ _ => List.length_replicate,
    Array.length_toList, size_row pixels hy, Nat.mul_comm]

theorem length_lines {y : Nat} (hy : y < screenHeight) :
    ((List.replicate scale (stretched scale (row pixels y)).toList).flatMap id).length
      = screenWidth * scale * scale := by
  rw [length_flatMap_of_size, List.length_replicate]
  intro line hline
  rw [List.eq_of_mem_replicate hline]
  exact length_stretched hy

theorem size_points (scale : Nat) (pixels : Vector UInt32 pixelCount) :
    (points scale pixels).size = (128 * scale) ^ 2 := by
  rw [← Array.length_toList, toList_points,
    length_flatMap_of_size fun y hy => length_lines (List.mem_range.1 hy), List.length_range]
  show 128 * scale * scale * 128 = _
  ring

/-- **The points of a window** have the colours of their pixels. -/
theorem getElem?_points {i : Nat} (hi : i < (128 * scale) ^ 2) :
    (points scale pixels)[i]? = pixels[pixelNumber scale i]? := by
  have hscale := scale_pos hi
  have hwidth : 0 < screenWidth * scale := Nat.mul_pos (by decide) hscale
  have hy : i / (screenWidth * scale * scale) < screenHeight := by
    apply Nat.div_lt_of_lt_mul
    rw [Nat.pow_two] at hi
    exact lt_of_lt_of_eq hi (by ring)
  rw [← Array.getElem?_toList, toList_points,
    getElem?_flatMap_of_size (fun y hy => length_lines (List.mem_range.1 hy))
      (Nat.mul_pos hwidth hscale), List.getElem?_range hy, Option.bind_some]
  generalize hrow : i / (screenWidth * scale * scale) = y at hy ⊢
  have hline : i % (screenWidth * scale * scale) / (screenWidth * scale) < scale :=
    Nat.div_lt_of_lt_mul (Nat.mod_lt i (Nat.mul_pos hwidth hscale))
  rw [getElem?_flatMap_of_size (fun line hline => by
      rw [List.eq_of_mem_replicate hline]; exact length_stretched hy) hwidth,
    List.getElem?_replicate_of_lt hline, Option.bind_some, Nat.mod_mul_right_mod, id,
    toList_stretched, getElem?_flatMap_of_size (fun _ _ => List.length_replicate) hscale,
    getElem?_row pixels y (column_lt hscale i), pixelNumber, ← hrow, Nat.div_div_eq_div_mul]
  simp only [List.getElem?_replicate_of_lt (Nat.mod_lt _ hscale), Option.bind_fun_some]

/-- **The loops draw the points of the window**, whatever stood in the buffer before. -/
theorem draw?_eq {b : Array UInt32} (hb : b.size = (128 * scale) ^ 2) :
    draw? scale pixels b = some (points scale pixels) := by
  obtain ⟨b', hdraw, hfills⟩ :
      ∃ b', draw? scale pixels b = some b' ∧ Fills scale pixels (fun _ => True) b b' :=
    exists_fills_draw hb
  have hsize : b'.size = (points scale pixels).size := by
    rw [hfills.size, hb, size_points]
  have hsame : b' = points scale pixels := by
    apply Array.ext_getElem?
    intro i
    by_cases hi : i < b.size
    · rw [hfills.inside i hi trivial, getElem?_points (hb ▸ hi)]
    · have hout := Nat.le_of_not_lt hi
      rw [← hfills.size] at hout
      rw [Array.getElem?_eq_none hout, Array.getElem?_eq_none (hsize ▸ hout)]
  rw [hdraw, hsame]

/-- The pixel that a point of a window belongs to. -/
def pixelOf (x y : Fin (128 * scale)) : Fin pixelCount :=
  ⟨y / scale * 128 + x / scale, by
    have hx := Nat.div_lt_of_lt_mul (lt_of_lt_of_eq x.isLt (Nat.mul_comm 128 scale))
    have hy := Nat.div_lt_of_lt_mul (lt_of_lt_of_eq y.isLt (Nat.mul_comm 128 scale))
    unfold pixelCount
    omega⟩

theorem point_lt (x y : Fin (128 * scale)) :
    y.val * (128 * scale) + x.val < (128 * scale) ^ 2 := by
  have hrows := Nat.mul_le_mul_right (128 * scale) (Nat.succ_le_of_lt y.isLt)
  rw [Nat.succ_mul] at hrows
  rw [Nat.pow_two]
  exact lt_of_lt_of_le (Nat.add_lt_add_left x.isLt _) hrows

/-- Every point is a point of the square of its pixel. -/
theorem getElem?_points_pixelOf (pixels : Vector UInt32 pixelCount) (x y : Fin (128 * scale)) :
    (points scale pixels)[y.val * (128 * scale) + x.val]? = some (pixels.get (pixelOf x y)) := by
  have hnumber : pixelNumber scale (y.val * (128 * scale) + x.val) = (pixelOf x y).val := by
    have hwidth : 0 < 128 * scale := Nat.zero_lt_of_lt x.isLt
    show 128 * ((y.val * (128 * scale) + x.val) / (128 * scale) / scale)
        + (y.val * (128 * scale) + x.val) % (128 * scale) / scale
      = y.val / scale * 128 + x.val / scale
    rw [Nat.mul_comm y.val, Nat.mul_add_div hwidth, Nat.mul_add_mod, Nat.div_eq_of_lt x.isLt,
      Nat.mod_eq_of_lt x.isLt, Nat.add_zero, Nat.mul_comm 128]
  rw [getElem?_points (point_lt x y), hnumber]
  exact Vector.getElem?_eq_getElem (pixelOf x y).isLt

end Points

end Magnified

end FantasyComputer
