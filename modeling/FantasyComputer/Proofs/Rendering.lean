/-
# FantasyComputer.Proofs.Rendering — the picture, pixel by pixel.

What a pixel shows is a number: the palette entry that the low four bits of its byte of video RAM
stand for.  `Color.parts` spreads such a number over red, green and blue, and `Color.number` packs
these again for a window, both in plain arithmetic.  `Screen.ShowsAt` says that a picture has these
parts at a place, in its bytes as well as in its packed form.

Rendering makes every pixel show its number (`showsAt_render`) and looks at nothing else: not at the
picture before it, not at the upper halves of the bytes, not at the mirror of the palette
(`render_congr`).  `Pictures` is what this means for a machine that has just been drawn.  A frame
that was finished, a snapshot that was put back and a save state that was put back all leave such a
machine, and `rendersExactly` says so of every machine, together with what a stretch of video RAM of
another length would leave.
-/
import FantasyComputer.Proofs.Bounds
import FantasyComputer.Proofs.FrameContract
import FantasyComputer.Proofs.Loading

namespace FantasyComputer

/-! ## Colours in numbers -/

/-- Red, green, blue and opacity of a packed colour. -/
def Color.parts (c : Nat) : List Nat :=
  [36 * (c >>> 5), 36 * (c >>> 2 &&& 7), 85 * (c &&& 3), 255]

/-- Red, green and blue of a packed colour as one number, a byte for each. -/
def Color.number (c : Nat) : Nat :=
  0x10000 * (36 * (c >>> 5)) + 0x100 * (36 * (c >>> 2 &&& 7)) + 85 * (c &&& 3)

theorem Color.parts_expand (c : UInt8) :
    (Color.expand c).bytes.map UInt8.toNat = Color.parts c.toNat := by
  have hall : ∀ i : Fin 256, (Color.expand (UInt8.ofFin i)).bytes.map UInt8.toNat
      = Color.parts (UInt8.ofFin i).toNat := by
    decide +kernel
  exact hall c.toFin

theorem Color.number_expand (c : UInt8) :
    (Color.expand c).packed.toNat = Color.number c.toNat := by
  have hall : ∀ i : Fin 256, (Color.expand (UInt8.ofFin i)).packed.toNat
      = Color.number (UInt8.ofFin i).toNat := by
    decide +kernel
  exact hall c.toFin

theorem Palette.index_lt (index : UInt8) : index.toNat % paletteSize < paletteSize :=
  Nat.mod_lt _ (by decide)

/-- The palette entry that the low four bits of a byte stand for. -/
def Palette.entryFor (palette : Palette) (index : UInt8) : UInt8 :=
  palette.get ⟨index.toNat % paletteSize, Palette.index_lt index⟩

namespace Screen

/-! ## Places -/

/-- The place of a column and a row. -/
def place (x : Fin screenWidth) (y : Fin screenHeight) : Fin pixelCount :=
  ⟨128 * y + x, by
    have hx := x.isLt
    have hy := y.isLt
    unfold screenWidth at hx
    unfold screenHeight at hy
    unfold pixelCount
    omega⟩

/-- Whether a picture shows a packed colour at a place, in its bytes and as a number. -/
structure ShowsAt (s : Screen) (i : Fin pixelCount) (c : Nat) : Prop where
  bytes : ((s.bytes.drop (4 * i)).take 4).map UInt8.toNat = Color.parts c
  packed : (s.packed.get i).toNat = Color.number c

theorem take_drop_flatMap_bytes (pixels : List Rgba) {i : Nat} (h : i < pixels.length) :
    ((pixels.flatMap Rgba.bytes).drop (4 * i)).take 4 = pixels[i].bytes := by
  induction pixels generalizing i with
  | nil => exact absurd h (Nat.not_lt_zero i)
  | cons pixel pixels ih =>
    cases i with
    | zero => rfl
    | succ i =>
      rw [List.length_cons] at h
      exact ih (Nat.lt_of_succ_lt_succ h)

/-- A pixel with a colour of the palette shows it. -/
theorem showsAt_of_pixel {s : Screen} {i : Fin pixelCount} {c : UInt8}
    (h : s.pixels.get i = Color.expand c) : s.ShowsAt i c.toNat where
  bytes := by
    have hlength : i.val < s.pixels.toList.length := by
      rw [Vector.length_toList]
      exact i.isLt
    have hpixel : s.pixels.toList[i.val] = Color.expand c := (Vector.getElem_toList _).trans h
    rw [Screen.bytes, take_drop_flatMap_bytes _ hlength, hpixel, Color.parts_expand]
  packed := by
    have hpacked : s.packed.get i = (s.pixels.get i).packed := Vector.getElem_map _ i.isLt
    rw [hpacked, h, Color.number_expand]

/-! ## Rendering -/

/-- **One pixel.**  Where there is a byte of video RAM, the pixel shows the entry for it. -/
theorem showsAt_render (s : Screen) {video : Array UInt8} (palette : Palette) {i : Fin pixelCount}
    {index : UInt8} (h : video[i.val]? = some index) :
    (s.render video palette).ShowsAt i (palette.entryFor index).toNat := by
  apply showsAt_of_pixel
  have hpixel : (s.render video palette).pixels.get i
      = (colors palette).get ⟨index.toNat % paletteSize, Palette.index_lt index⟩ := by
    show (s.render video palette).pixels[i.val] = _
    simp only [render, Vector.getElem_mapIdx, h]
  rw [hpixel]
  exact Vector.getElem_map _ _

/-- Beyond the end of video RAM a pixel stays what it was. -/
theorem pixels_render_of_beyond (s : Screen) {video : Array UInt8} (palette : Palette)
    {i : Fin pixelCount} (h : video.size ≤ i) :
    (s.render video palette).pixels.get i = s.pixels.get i := by
  show (s.render video palette).pixels[i.val] = s.pixels[i.val]
  simp only [render, Vector.getElem_mapIdx, Array.getElem?_eq_none h]

/-- Only the low four bits of every byte and the palette decide what is shown. -/
theorem render_congr (s s' : Screen) {video video' : Vector UInt8 videoSize} (palette : Palette)
    (h : ∀ i, (video.get i).toNat % paletteSize = (video'.get i).toNat % paletteSize) :
    s.render video.toArray palette = s'.render video'.toArray palette := by
  have hpixels : (s.render video.toArray palette).pixels
      = (s'.render video'.toArray palette).pixels := by
    apply Vector.ext
    intro i hi
    rw [getElem_render, getElem_render]
    exact congrArg (colors palette).get (Fin.ext (h ⟨i, hi⟩))
  exact congrArg (mk · true) hpixels

/-- What a picture is after a stretch of video RAM of any length has been rendered. -/
structure PartlyPainted (before : Screen) (video : Array UInt8) (palette : Palette)
    (after : Screen) : Prop where
  /-- A pixel with a byte shows the entry for it. -/
  painted : ∀ (i : Fin pixelCount) (index : UInt8), video[i.val]? = some index →
    after.ShowsAt i (palette.entryFor index).toNat
  /-- A pixel without a byte stays. -/
  kept : ∀ i : Fin pixelCount, video.size ≤ i → after.pixels.get i = before.pixels.get i
  /-- The bytes of the picture are as many as before, and painting stays within them. -/
  inBounds : after.bytes.length = 65536
    ∧ Banks.paint? palette.toArray before.bytes video.toList = some after.bytes

theorem partlyPainted_render (s : Screen) (video : Array UInt8) (palette : Palette) :
    s.PartlyPainted video palette (s.render video palette) where
  painted _ _ h := showsAt_render s palette h
  kept _ h := pixels_render_of_beyond s palette h
  inBounds := ⟨length_bytes _, Banks.paint?_bytes s video palette⟩

end Screen

namespace Machine

variable {m : Machine}

/-! ## Machines just drawn -/

/-- What holds of a machine that has just been drawn. -/
structure Pictures (m : Machine) : Prop where
  /-- Every pixel shows the palette entry for its byte of video RAM. -/
  pixel : ∀ x y, m.screen.ShowsAt (Screen.place x y)
    (m.memory.palette.entryFor (m.memory.video.get (Screen.place x y))).toNat
  /-- The picture has four bytes for each pixel. -/
  length : m.screen.bytes.length = 65536
  /-- Any other machine with the same palette and the same low halves in video RAM, whatever it has
  shown and whatever else it holds, shows the same picture once it is drawn. -/
  forgetful : ∀ other : Machine, other.memory.palette = m.memory.palette →
    (∀ i, (other.memory.video.get i).toNat % paletteSize
      = (m.memory.video.get i).toNat % paletteSize) →
    other.render.screen = m.screen
  /-- To draw it again changes nothing. -/
  again : m.render = m

theorem pictures_of_drawn
    (h : ∀ shown : Screen, m.screen = shown.render m.memory.video.toArray m.memory.palette) :
    m.Pictures where
  pixel x y := by
    rw [h m.screen]
    apply Screen.showsAt_render
    rw [Vector.getElem?_toArray]
    exact Vector.getElem?_eq_getElem (Screen.place x y).isLt
  length := Screen.length_bytes _
  forgetful other hpalette hlow := by
    rw [h other.screen, ← hpalette]
    exact Screen.render_congr _ _ _ hlow
  again := by
    have hscreen := h m.screen
    show { m with screen := m.screen.render m.memory.video.toArray m.memory.palette } = m
    rw [← hscreen]

/-- A frame that was finished is drawn. -/
theorem pictures_stepFrame (h : m.stepFrame.1 = true) : m.stepFrame.2.Pictures := by
  have hend := inStep_of_finished h
  apply pictures_of_drawn
  intro shown
  rw [hend.screen, hend.memory]
  exact Screen.render_eq _ _ _ _

theorem pictures_restore (m : Machine) (s : Snapshot) : (m.restore s).Pictures :=
  pictures_of_drawn fun _ => Screen.render_eq _ _ _ _

theorem pictures_resume (m : Machine) (s : SaveState) : (m.resume s).Pictures :=
  pictures_of_drawn (resumed_resume m s).screen

/-- When a machine is drawn, and what drawing does. -/
structure RendersExactly (m : Machine) : Prop where
  stepFrame : m.stepFrame.1 = true → m.stepFrame.2.Pictures
  restore : ∀ s, (m.restore s).Pictures
  resume : ∀ s, (m.resume s).Pictures
  /-- Video RAM of any length paints as many pixels as it has bytes, over whatever was shown. -/
  stretch : ∀ (shown : Screen) video palette,
    shown.PartlyPainted video palette (shown.render video palette)

/-- **Rendering is exact and has no memory.** -/
theorem rendersExactly (m : Machine) : RendersExactly m where
  stepFrame := pictures_stepFrame
  restore := pictures_restore m
  resume := pictures_resume m
  stretch := Screen.partlyPainted_render

end Machine

end FantasyComputer
