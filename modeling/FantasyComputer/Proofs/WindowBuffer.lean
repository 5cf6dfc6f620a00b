/-
# FantasyComputer.Proofs.WindowBuffer — the buffer fits the window.

The running session hands whole pictures to its window.  Here it draws them into a buffer that it
keeps from pass to pass (`Canvas`): a key for another scale opens another window and takes another
buffer, empty and of the new size, and at the end of a pass the loops fill whatever buffer there is.

A canvas `Fits` if its buffer has the size of its scale and so has the window opened last.  One key
preserves this (`Fits.rescale`), so any number of keys in one pass do.  `Fits.perform?` is the step
of a pass: the loops stay within the buffer, the canvas still fits, and the window is told exactly
what the running session tells it.  `canvasAt?_eq` carries this over a run, and
`Console.WindowRun.showsSquares` reads it off for a run of the program.
-/
import FantasyComputer.Proofs.Magnification
import FantasyComputer.Proofs.SessionFiles

namespace FantasyComputer

namespace Windowed

open Session

variable {setup : Setup} {pass : Pass} {script : Nat → Pass} {s : Session}

/-! ## Scales -/

namespace Session

/-- The session once the events of a pass have been heard. -/
def afterEvents (setup : Setup) (pass : Pass) (s : Session) : Session :=
  if setup.padsAvailable then pass.events.foldl handleEvent s else s

theorem scale_afterEvents (setup : Setup) (pass : Pass) (s : Session) :
    (s.afterEvents setup pass).scale = s.scale := by
  have hevent : ∀ (s : Session) (event : PadEvent), (s.handleEvent event).scale = s.scale := by
    intro s event
    unfold handleEvent
    split <;> rfl
  have hevents : ∀ (events : List PadEvent) (s : Session),
      (events.foldl handleEvent s).scale = s.scale := by
    intro events
    induction events with
    | nil => exact fun _ => rfl
    | cons event events ih => exact fun s => (ih _).trans (hevent s event)
  unfold afterEvents
  split
  · exact hevents pass.events s
  · rfl

/-- **Only its key changes the scale.** -/
theorem scale_next (setup : Setup) (pass : Pass) (s : Session) :
    (s.next setup pass).scale = (s.afterScaling setup pass).scale := by
  have hprepared : (s.prepare setup pass).1.scale = (s.afterKeys setup pass).scale := rfl
  have hkeys : (s.afterKeys setup pass).scale = (s.afterScaling setup pass).scale := by
    rw [afterKeys, onStrike_keeps Session.scale .r (actsInside_reinsert setup.image).scale,
      afterLoading, onStrike_keeps Session.scale .f9 (actsInside_quickLoad _ _).scale,
      afterSaving_eq,
      onStrike_keeps Session.scale .f5 (actsOnFiles_quickSave _ _).scale,
      onStrike_keeps Session.scale .d actsInside_showRegisters.scale,
      onStrike_keeps Session.scale .s (actsOnFiles_takeScreenshot _).scale]
  rw [← hkeys, ← hprepared, next_eq]
  split
  · exact actsInside_goBack.scale _
  · exact actsInside_runFrame.scale _

/-- The orders of a pass: the windows that its keys open, and the picture. -/
theorem perform_snd (setup : Setup) (pass : Pass) (s : Session) :
    (s.perform setup pass).2
      = (scales.foldl (rescale pass) (s.afterEvents setup pass, [])).2
        ++ [(s.next setup pass).showing] := rfl

/-- Keys add their orders to those given before. -/
theorem foldl_rescale (pass : Pass) (keys : List Nat) (s : Session) (orders : List Display) :
    keys.foldl (rescale pass) (s, orders)
      = ((keys.foldl (rescale pass) (s, [])).1,
        orders ++ (keys.foldl (rescale pass) (s, [])).2) := by
  have hkey : ∀ (s : Session) (orders : List Display) (scale : Nat),
      rescale pass (s, orders) scale
        = ((rescale pass (s, []) scale).1, orders ++ (rescale pass (s, []) scale).2) := by
    intro s orders scale
    unfold rescale
    simp only
    split
    · rfl
    · rw [List.append_nil]
  induction keys generalizing s orders with
  | nil => simp
  | cons scale keys ih =>
    rw [List.foldl_cons, List.foldl_cons, hkey s orders, ih _ (orders ++ _),
      ih _ (rescale pass (s, []) scale).2, List.append_assoc]

end Session

/-! ## Canvases -/

/-- A session with the orders given to its window and the buffer that pictures are drawn in. -/
structure Canvas where
  session : Session
  orders : List Display
  buffer : Array UInt32

/-- The size of the window that was opened last. -/
def lastOpened (orders : List Display) : Option (Nat × Nat) :=
  orders.foldl (fun last order =>
    match order with
    | .opened width height => some (width, height)
    | .shown _ _ _ => last) none

namespace Canvas

/-- The buffer for a new window. -/
def blank (scale : Nat) : Array UInt32 :=
  Array.replicate (screenWidth * scale * screenHeight * scale) 0

/-- A canvas before the first pass. -/
def start (s : Session) : Canvas :=
  { session := s, orders := [opening s.scale], buffer := blank s.scale }

/-- Changes the scale if its key was struck, and takes a new buffer then. -/
def rescale (pass : Pass) (c : Canvas) (scale : Nat) : Canvas :=
  let (session, orders) := Session.rescale pass (c.session, c.orders) scale
  { session, orders
    buffer :=
      if c.session.struck pass (.digit scale) && c.session.scale ≠ scale then blank scale
      else c.buffer }

/-- The canvas after the events of a pass and the first few of its keys. -/
def keyed (setup : Setup) (pass : Pass) (c : Canvas) (count : Nat) : Canvas :=
  (scales.take count).foldl (rescale pass)
    { c with session := c.session.afterEvents setup pass }

/-- Carries out one pass and draws the picture, if the loops stay within the buffer. -/
def perform? (setup : Setup) (pass : Pass) (c : Canvas) : Option Canvas :=
  let keyed := c.keyed setup pass scales.length
  let session := c.session.next setup pass
  (Magnified.draw? session.scale session.machine.screen.packed keyed.buffer).map fun buffer =>
    { session, buffer
      orders := keyed.orders
        ++ [.shown (screenWidth * session.scale) (screenHeight * session.scale) buffer] }

/-- The buffer and the window that was opened last have the size of the scale. -/
structure Fits (c : Canvas) : Prop where
  size : c.buffer.size = (128 * c.session.scale) ^ 2
  window : lastOpened c.orders = some (128 * c.session.scale, 128 * c.session.scale)

variable {c : Canvas}

theorem size_blank (scale : Nat) : (blank scale).size = (128 * scale) ^ 2 := by
  rw [blank, Array.size_replicate]
  show 128 * scale * 128 * scale = _
  ring

theorem lastOpened_opening (orders : List Display) (scale : Nat) :
    lastOpened (orders ++ [opening scale]) = some (128 * scale, 128 * scale) := by
  rw [lastOpened, List.foldl_concat]
  rfl

theorem lastOpened_shown (orders : List Display) (width height : Nat) (points : Array UInt32) :
    lastOpened (orders ++ [.shown width height points]) = lastOpened orders := by
  rw [lastOpened, List.foldl_concat]
  rfl

theorem fits_start (s : Session) : (start s).Fits where
  size := size_blank s.scale
  window := lastOpened_opening [] s.scale

/-- **One key.** -/
theorem Fits.rescale (h : c.Fits) (pass : Pass) (scale : Nat) : (c.rescale pass scale).Fits := by
  unfold Canvas.rescale Session.rescale
  simp only
  split
  · next hstruck => exact ⟨size_blank scale, lastOpened_opening c.orders scale⟩
  · next hsame => exact ⟨h.size, h.window⟩

/-- Any number of keys. -/
theorem Fits.keyed (h : c.Fits) (setup : Setup) (pass : Pass) (count : Nat) :
    (c.keyed setup pass count).Fits := by
  have hscale := scale_afterEvents setup pass c.session
  have hstart : ({ c with session := c.session.afterEvents setup pass } : Canvas).Fits :=
    ⟨hscale.symm ▸ h.size, hscale.symm ▸ h.window⟩
  have hkeys : ∀ (keys : List Nat) (c : Canvas), c.Fits →
      (keys.foldl (Canvas.rescale pass) c).Fits := by
    intro keys
    induction keys with
    | nil => exact fun _ h => h
    | cons scale keys ih => exact fun c h => ih _ (h.rescale pass scale)
  exact hkeys _ _ hstart

/-- The keys do to a canvas what they do to its session. -/
theorem foldl_rescale_eq (pass : Pass) (keys : List Nat) (c : Canvas) :
    ((keys.foldl (Canvas.rescale pass) c).session, (keys.foldl (Canvas.rescale pass) c).orders)
      = keys.foldl (Session.rescale pass) (c.session, c.orders) := by
  induction keys generalizing c with
  | nil => rfl
  | cons scale keys ih => exact ih (c.rescale pass scale)

theorem keyed_eq (setup : Setup) (pass : Pass) (c : Canvas) :
    (c.keyed setup pass scales.length).session = c.session.afterScaling setup pass
      ∧ (c.keyed setup pass scales.length).orders
        = c.orders
          ++ (scales.foldl (Session.rescale pass) (c.session.afterEvents setup pass, [])).2 := by
  have hkeys := foldl_rescale_eq pass scales
    { c with session := c.session.afterEvents setup pass }
  rw [foldl_rescale] at hkeys
  exact Prod.mk.inj hkeys

/-- The canvas of a session that has just drawn its picture. -/
def drawn (s : Session) (orders : List Display) : Canvas :=
  { session := s, orders, buffer := Magnified.points s.scale s.machine.screen.packed }

/-- The canvas of the running session after a pass. -/
def after (setup : Setup) (pass : Pass) (c : Canvas) : Canvas :=
  drawn (c.session.next setup pass) (c.orders ++ (c.session.perform setup pass).2)

theorem buffer_drawn (s : Session) (orders : List Display) :
    (drawn s orders).buffer = Magnified.points (drawn s orders).session.scale
      (drawn s orders).session.machine.screen.packed := by
  simp only [drawn]

theorem getElem?_buffer (h : c.buffer
      = Magnified.points c.session.scale c.session.machine.screen.packed)
    (x y : Fin (128 * c.session.scale)) :
    c.buffer[y.val * (128 * c.session.scale) + x.val]?
      = some (c.session.machine.screen.packed.get (Magnified.pixelOf x y)) := by
  rw [h]
  exact Magnified.getElem?_points_pixelOf _ x y

theorem fits_drawn {orders : List Display}
    (h : lastOpened orders = some (128 * s.scale, 128 * s.scale)) : (drawn s orders).Fits where
  size := by
    simp only [drawn]
    rw [Magnified.size_points]
  window := h

/-- **Step lemma.**  The loops of a pass stay within the buffer and leave the whole picture, and the
window gets the orders of the running session. -/
theorem Fits.perform? (h : c.Fits) (setup : Setup) (pass : Pass) :
    c.perform? setup pass = some (c.after setup pass) ∧ (c.after setup pass).Fits := by
  obtain ⟨hsession, horders⟩ := keyed_eq setup pass c
  have hkeyed := h.keyed setup pass scales.length
  have hscale : (c.keyed setup pass scales.length).session.scale
      = (c.session.next setup pass).scale := by
    rw [hsession, scale_next]
  have hall : c.orders ++ (c.session.perform setup pass).2
      = (c.keyed setup pass scales.length).orders ++ [(c.session.next setup pass).showing] := by
    rw [perform_snd, horders, List.append_assoc]
  constructor
  · have hsize : (c.keyed setup pass scales.length).buffer.size
        = (128 * (c.session.next setup pass).scale) ^ 2 := by
      rw [hkeyed.size, hscale]
    rw [after, hall]
    unfold Canvas.perform?
    simp only [Magnified.draw?_eq hsize, Option.map_some, drawn, showing]
  · apply fits_drawn
    rw [hall, showing, lastOpened_shown, hkeyed.window, hscale]

end Canvas

/-! ## Runs -/

/-- The canvas after a number of passes of a script. -/
def canvasAt? (setup : Setup) (script : Nat → Pass) (s : Session) : Nat → Option Canvas
  | 0 => some (Canvas.start s)
  | n + 1 => (canvasAt? setup script s n).bind (Canvas.perform? setup (script n))

/-- The orders of a number of passes of a script. -/
def ordersIn (setup : Setup) (script : Nat → Pass) (s : Session) (n : Nat) : List Display :=
  (List.range n).flatMap fun k => ((sessionAt setup script s k).perform setup (script k)).2

theorem ordersIn_succ (setup : Setup) (script : Nat → Pass) (s : Session) (n : Nat) :
    ordersIn setup script s (n + 1)
      = ordersIn setup script s n ++ ((sessionAt setup script s n).perform setup (script n)).2 := by
  rw [ordersIn, List.range_succ, List.flatMap_append, List.flatMap_singleton]
  rfl

/-- The orders of a run, from its first pass on. -/
theorem ordersIn_succ_first (setup : Setup) (script : Nat → Pass) (s : Session) (n : Nat) :
    ordersIn setup script s (n + 1)
      = (s.perform setup (script 0)).2
        ++ ordersIn setup (fun i => script (i + 1)) (s.next setup (script 0)) n := by
  rw [ordersIn, List.range_succ_eq_map, List.flatMap_cons, List.flatMap_map]
  simp only [sessionAt_succ]
  rfl

/-- **Run lemma.**  There is a canvas after every pass; it fits, and belongs to the running session
with all its orders. -/
theorem canvasAt?_eq (setup : Setup) (script : Nat → Pass) (s : Session) (n : Nat) :
    ∃ c, canvasAt? setup script s n = some c ∧ c.Fits
      ∧ c.session = sessionAt setup script s n
      ∧ c.orders = opening s.scale :: ordersIn setup script s n := by
  induction n with
  | zero => exact ⟨_, rfl, Canvas.fits_start s, rfl, rfl⟩
  | succ n ih =>
    obtain ⟨c, hcanvas, hfits, hsession, horders⟩ := ih
    obtain ⟨hdrawn, hfits'⟩ := hfits.perform? setup (script n)
    refine ⟨_, ?_, hfits', ?_, ?_⟩
    · rw [canvasAt?, hcanvas]
      exact hdrawn
    · rw [sessionAt, ← hsession]
      rfl
    · show c.orders ++ (c.session.perform setup (script n)).2 = _
      rw [ordersIn_succ, horders, hsession, List.cons_append]

theorem foldl_push_eq {α : Type} (window : Display → α) (orders : List Display)
    (answers : Array α) :
    orders.foldl (fun answers order => answers.push (window order)) answers
      = answers ++ (orders.map window).toArray := by
  simp

/-- The answers of a window to all orders of a run, in their order. -/
theorem performAll_snd {α : Type} (setup : Setup) (window : Display → α) (s : Session)
    (answers : Array α) (passes : List Pass) :
    (s.performAll setup window answers passes).2
      = answers ++ ((ordersIn setup (fun n => passes.getD n ⟨[], []⟩) s
          (passes.takeWhile fun pass => !pass.keys.contains .escape).length).map
            window).toArray := by
  induction passes generalizing s answers with
  | nil => exact Array.append_empty.symm
  | cons pass rest ih =>
    rw [performAll, List.takeWhile_cons]
    cases pass.keys.contains .escape with
    | true => exact Array.append_empty.symm
    | false =>
      rw [if_neg Bool.false_ne_true, Bool.not_false, if_pos rfl, List.length_cons,
        ordersIn_succ_first, List.map_append, ← List.append_toArray, ← Array.append_assoc]
      have hpass := foldl_push_eq window (s.perform setup pass).2 answers
      exact (ih _ _).trans (congrArg (· ++ _) hpass)

end Windowed

namespace Console.WindowRun

open Windowed Windowed.Session

variable (r : WindowRun)

/-- What a run in a window draws and shows. -/
structure ShowsSquares {α : Type} (window : Display → α) (answers : Array α) : Prop where
  /-- Whatever stood in a buffer of the right size, the loops stay within it and make every point
  the colour of its pixel. -/
  loops : ∀ scale pixels (buffer : Array UInt32), buffer.size = (128 * scale) ^ 2 →
    ∃ drawn, Magnified.draw? scale pixels buffer = some drawn
      ∧ drawn.size = (128 * scale) ^ 2
      ∧ ∀ x y : Fin (128 * scale),
        drawn[y.val * (128 * scale) + x.val]? = some (pixels.get (Magnified.pixelOf x y))
  /-- After every pass there is a canvas of the session, and it fits. -/
  passes : ∀ n ≤ r.length, ∃ c, canvasAt? r.setup r.script r.first n = some c
    ∧ c.session = r.session n ∧ c.Fits
  /-- It fits after any of the keys of the next pass as well. -/
  keys : ∀ n < r.length, ∀ c, canvasAt? r.setup r.script r.first n = some c →
    ∀ count, (c.keyed r.setup (r.script n) count).Fits
  /-- A pass ends by showing its buffer, which has the picture of the session in it. -/
  shown : ∀ n < r.length, ∃ c, canvasAt? r.setup r.script r.first (n + 1) = some c
    ∧ c.orders.getLast?
      = some (.shown (128 * c.session.scale) (128 * c.session.scale) c.buffer)
    ∧ ∀ x y : Fin (128 * c.session.scale),
      c.buffer[y.val * (128 * c.session.scale) + x.val]?
        = some (c.session.machine.screen.packed.get (Magnified.pixelOf x y))
  /-- The window has answered the orders of the canvas. -/
  answered : ∃ c, canvasAt? r.setup r.script r.first r.length = some c
    ∧ answers = (c.orders.map window).toArray

theorem answers_runWith {α : Type} (window : Display → α) :
    (runWith r.options r.host window).answers
      = ((opening r.options.scale :: ordersIn r.setup r.script r.first r.length).map
          window).toArray := by
  have hperformed := performAll_snd r.setup window r.first
    #[window (opening r.options.scale)] r.passes
  rw [List.map_cons, ← List.singleton_append, ← List.append_toArray]
  unfold runWith
  simp only [r.readable, r.accepted, r.inWindow.1, r.inWindow.2, Bool.false_eq_true, if_false]
  unfold runWindowed
  simp only [r.opened]
  exact hperformed

/-- **The window shows every pixel as a square.** -/
theorem showsSquares {α : Type} (window : Display → α) :
    r.ShowsSquares window (runWith r.options r.host window).answers where
  loops scale pixels buffer hsize :=
    ⟨_, Magnified.draw?_eq hsize, Magnified.size_points scale pixels,
      Magnified.getElem?_points_pixelOf pixels⟩
  passes n _ := by
    obtain ⟨c, hcanvas, hfits, hsession, -⟩ := canvasAt?_eq r.setup r.script r.first n
    exact ⟨c, hcanvas, hsession, hfits⟩
  keys n _ c hcanvas count := by
    obtain ⟨c', hcanvas', hfits, -, -⟩ := canvasAt?_eq r.setup r.script r.first n
    obtain rfl : c = c' := Option.some.inj (hcanvas.symm.trans hcanvas')
    exact hfits.keyed r.setup (r.script n) count
  shown n _ := by
    obtain ⟨c, hcanvas, hfits, -, -⟩ := canvasAt?_eq r.setup r.script r.first n
    obtain ⟨hdrawn, -⟩ := hfits.perform? r.setup (r.script n)
    have hnext : canvasAt? r.setup r.script r.first (n + 1)
        = some (c.after r.setup (r.script n)) := by
      rw [canvasAt?, hcanvas]
      exact hdrawn
    refine ⟨_, hnext, ?_, Canvas.getElem?_buffer (Canvas.buffer_drawn _ _)⟩
    rw [Canvas.after, Canvas.drawn, perform_snd, ← List.append_assoc, List.getLast?_concat, showing]
  answered := by
    obtain ⟨c, hcanvas, -, -, horders⟩ := canvasAt?_eq r.setup r.script r.first r.length
    refine ⟨c, hcanvas, ?_⟩
    rw [horders]
    exact r.answers_runWith window

end Console.WindowRun

end FantasyComputer
