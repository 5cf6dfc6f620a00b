/-
# FantasyComputer.Proofs.Bounds — every access stays within its region.

An event reaches memory and the picture by a row of accesses (`accesses`): the fetch and the reads and
stores of an instruction, the check for the interrupt and its pushes, the copies of a load and of what
is put back, the painting of a frame.  `accessAll?_accesses` is the step: in the banks of a machine,
where an access past the end of a row would fail, these accesses succeed and leave the banks of the
machine that has undergone the event.  No register matters for that, so neither a program counter nor
a stack pointer that wraps leads out of bounds.

`inBounds` is the run: from blank rows at power-on, all accesses of any sequence of commands succeed.
The rows keep their lengths, and the picture stays opaque.
-/
import FantasyComputer.Proofs.Banks
import FantasyComputer.Proofs.Commands

namespace FantasyComputer

/-! ## Rows of accesses -/

namespace Banks

theorem accessAll?_read (memory : Memory) (screen : Screen) (addresses : List UInt16) :
    (of memory screen).accessAll? (addresses.map .read) = some (of memory screen) := by
  induction addresses with
  | nil => rfl
  | cons address addresses ih =>
    rw [List.map_cons, accessAll?_cons, access?, read?_of]
    exact ih

/-- The access of a store. -/
def Access.ofStore (store : UInt16 × UInt8) : Access :=
  .write store.1 store.2

theorem accessAll?_ofStore (memory : Memory) (screen : Screen) (stores : List (UInt16 × UInt8)) :
    (of memory screen).accessAll? (stores.map .ofStore)
      = some (of (memory.writeAll stores) screen) := by
  induction stores generalizing memory with
  | nil => rfl
  | cons store stores ih =>
    rw [List.map_cons, accessAll?_cons, Access.ofStore, access?, write?_of]
    exact ih (memory.write store.1 store.2)

theorem accessAll?_singleton (b : Banks) (a : Access) : b.accessAll? [a] = b.access? a := by
  rw [accessAll?_cons]
  exact Option.bind_fun_some _

end Banks

open Banks

/-! ## The accesses of an event -/

namespace Machine

variable {m m' : Machine}

/-- The banks that hold the memory and the picture of a machine. -/
def banks (m : Machine) : Banks :=
  Banks.of m.memory m.screen

/-- The accesses of an instruction, once it has been fetched. -/
def instructionAccesses (m : Machine) (i : Instruction) : List Access :=
  (m.reads i).map .read ++ (m.stores i).map .ofStore

/-- The accesses of a check for the interrupt.  The status is read where interrupts are let in, and
read again to clear the pending bit. -/
def checkAccesses (m : Machine) : List Access :=
  if m.registers.flag .interrupt then
    .read interruptStatus :: if m.pending then
      .read interruptStatus :: m.interruptStores.map .ofStore
    else []
  else []

/-- The accesses of an event, in order. -/
def accesses (m : Machine) : Event → List Access
  | .act .execute =>
    [m.registers.pc + 0, m.registers.pc + 1, m.registers.pc + 2].map .read
      ++ (m.goto (m.registers.pc + (lengthOf m.opcode).toUInt16)).instructionAccesses
          m.nextInstruction
  | .act .check => m.checkAccesses
  | .act .request =>
    [.read interruptStatus, .write interruptStatus (m.memory.read interruptStatus ||| timerPending)]
  | .act (.hold mask) => [.write inputAddress mask]
  | .act .endFrame => [.draw]
  | .intervene (.load image) =>
    match Cartridge.parse image with
    | .ok cartridge => [.loadProgram cartridge.program, .clear]
    | .error _ => []
  | .intervene (.reset _) => [.clear]
  | .intervene .start => []
  | .intervene .stop => []
  | .intervene (.setPaletteEntry index color) => [.setEntry index color]
  | .intervene (.execute i length) =>
    (m.goto (m.registers.pc + length.toUInt16)).instructionAccesses i
  | .intervene (.restore s) => [.restore s, .draw]
  | .intervene (.resume s) => [.restoreRom s.rom, .restore s.snapshot, .draw]

/-- The accesses of a row of events. -/
def accessLog (m : Machine) : List Event → List Access
  | [] => []
  | e :: events => m.accesses e ++ (m.undergo e).accessLog events

/-! ## One event -/

theorem accessAll?_instructionAccesses (m : Machine) (i : Instruction) :
    m.banks.accessAll? (m.instructionAccesses i) = some (m.perform i).banks := by
  have hscreen : (m.perform i).screen = m.screen := (sameHost_perform m i).screen
  rw [banks, instructionAccesses, accessAll?_append, accessAll?_read, Option.bind_some,
    accessAll?_ofStore, banks, memory_perform, hscreen]

theorem accessAll?_checkAccesses (m : Machine) :
    m.banks.accessAll? m.checkAccesses = some m.checkInterrupt.banks := by
  unfold checkAccesses checkInterrupt
  rw [interruptReady_eq]
  -- a masked check reads nothing, and one with nothing pending reads the status alone
  cases hflag : m.registers.flag .interrupt
  · rfl
  have hread : m.banks.access? (.read interruptStatus) = some m.banks := by
    rw [banks, access?, read?_of]
    rfl
  rw [if_pos rfl, accessAll?_cons, hread]
  cases hpending : m.pending
  · rfl
  · have hscreen : m.takeInterrupt.screen = m.screen := by
      simp only [takeInterrupt]
      split <;> rfl
    show (m.banks.access? (.read interruptStatus)).bind _ = some m.takeInterrupt.banks
    rw [hread, banks, banks, hscreen, memory_takeInterrupt_eq]
    exact accessAll?_ofStore _ _ _

theorem length_program_le {image : Bytes} {cartridge : Cartridge}
    (h : Cartridge.parse image = .ok cartridge) : cartridge.program.length ≤ romSize := by
  unfold Cartridge.parse at h
  split at h
  · split_ifs at h with hmagic hlarge
    cases h
    exact Nat.le_of_not_lt hlarge
  · cases h

theorem accessAll?_load (m : Machine) (image : Bytes) :
    m.banks.accessAll? (m.accesses (.intervene (.load image)))
      = some (m.intervene (.load image)).banks := by
  cases hparse : Cartridge.parse image with
  | error fault =>
    simp only [accesses, hparse]
    rw [intervene_load_of_error hparse]
    rfl
  | ok cartridge =>
    have hfits := length_program_le hparse
    simp only [accesses, hparse]
    rw [intervene_load_of_ok hparse, accessAll?_cons, banks, access?, loadProgram?_of _ _ hfits]
    show accessAll? _ [.clear] = _
    rw [accessAll?_singleton, access?, clear?_of]
    rfl

/-- **One event is in bounds.**  Its accesses succeed in the banks of any machine, and they leave the
banks of the machine that has undergone it. -/
theorem accessAll?_accesses (m : Machine) (e : Event) :
    m.banks.accessAll? (m.accesses e) = some (m.undergo e).banks := by
  have hdraw : ∀ memory screen, (of memory screen).accessAll? [.draw]
      = some (of memory (screen.render memory.video.toArray memory.palette)) := by
    intro memory screen
    rw [accessAll?_singleton]
    exact draw?_of memory screen
  have hclear : m.banks.accessAll? [.clear] = some (of m.memory.reset m.screen) := by
    rw [accessAll?_singleton]
    exact clear?_of _ _
  cases e with
  | act a =>
    cases a with
    | execute =>
      rw [accesses, accessAll?_append, banks, accessAll?_read, Option.bind_some]
      have hperform := accessAll?_instructionAccesses
        (m.goto (m.registers.pc + (lengthOf m.opcode).toUInt16)) m.nextInstruction
      exact hperform
    | check => exact accessAll?_checkAccesses m
    | request =>
      rw [accesses, accessAll?_cons, banks, access?, read?_of]
      show accessAll? _ [_] = _
      rw [accessAll?_singleton]
      exact write?_of m.memory m.screen interruptStatus
        (m.memory.read interruptStatus ||| timerPending)
    | hold mask =>
      rw [accesses, accessAll?_singleton]
      exact write?_of m.memory m.screen inputAddress mask
    | endFrame => exact hdraw m.memory m.screen
  | intervene i =>
    cases i with
    | load image => exact accessAll?_load m image
    | reset entry => exact hclear
    | start => exact congrArg some (show m.banks = m.start.banks from rfl)
    | stop => exact congrArg some (show m.banks = m.stop.banks from rfl)
    | setPaletteEntry index color =>
      rw [accesses, accessAll?_singleton, banks, access?]
      rfl
    | execute i length => exact accessAll?_instructionAccesses (m.goto (m.registers.pc + length.toUInt16)) i
    | restore s =>
      rw [accesses, accessAll?_cons, banks, access?, restore?_of, Option.bind_some, hdraw]
      rfl
    | resume s =>
      rw [accesses, accessAll?_cons, banks, access?, restoreRom?_of, Option.bind_some,
        accessAll?_cons, access?, restore?_of, Option.bind_some, hdraw]
      rfl

/-- A row of events is in bounds. -/
theorem accessAll?_accessLog (m : Machine) (events : List Event) :
    m.banks.accessAll? (m.accessLog events) = some (m.undergoAll events).banks := by
  induction events generalizing m with
  | nil => rfl
  | cons e events ih =>
    rw [accessLog, accessAll?_append, accessAll?_accesses]
    exact ih (m.undergo e)

end Machine

/-! ## Lengths and opacity -/

/-- Whether every pixel is opaque. -/
def Screen.IsOpaque (s : Screen) : Prop :=
  ∀ (i : Nat) (h : i < pixelCount), s.pixels[i].alpha = 0xFF

theorem Screen.isOpaque_initial : Screen.initial.IsOpaque := by
  intro i hi
  rw [Screen.initial, Vector.getElem_replicate]
  rfl

/-- A pixel that is painted is opaque, and one that is not stays so. -/
theorem Screen.IsOpaque.render {s : Screen} (h : s.IsOpaque) (video : Array UInt8)
    (palette : Palette) : (s.render video palette).IsOpaque := by
  intro i hi
  simp only [Screen.render, Vector.getElem_mapIdx]
  split
  · simp [Screen.colors, Vector.get, Color.expand]
  · exact h i hi

theorem length_flatMap_bytes (pixels : List Rgba) :
    (pixels.flatMap Rgba.bytes).length = 4 * pixels.length := by
  induction pixels with
  | nil => rfl
  | cons pixel pixels ih =>
    rw [List.flatMap_cons, List.length_append, ih, List.length_cons]
    show 4 + _ = _
    omega

theorem Screen.length_bytes (s : Screen) : s.bytes.length = 65536 := by
  rw [bytes, length_flatMap_bytes, Vector.length_toList]
  decide

/-- The fourth byte of a pixel is its opacity. -/
theorem getElem?_flatMap_bytes (pixels : List Rgba) (i : Nat) :
    (pixels.flatMap Rgba.bytes)[4 * i + 3]? = pixels[i]?.map Rgba.alpha := by
  induction pixels generalizing i with
  | nil => rfl
  | cons pixel pixels ih =>
    cases i with
    | zero => rfl
    | succ i =>
      rw [List.getElem?_cons_succ, ← ih]
      rfl

namespace Banks

/-- The lengths of rows that hold a whole machine. -/
structure FullSize (b : Banks) : Prop where
  ram : b.ram.size = 0x8000
  video : b.video.size = 0x4000
  io : b.io.size = 0x100
  rom : b.rom.size = 0x2000
  palette : b.palette.size = 16
  frame : b.frame.length = 65536

/-- Whether the fourth byte of every pixel is `0xFF`. -/
def IsOpaque (b : Banks) : Prop :=
  ∀ i < pixelCount, b.frame[4 * i + 3]? = some 0xFF

theorem fullSize_of (memory : Memory) (screen : Screen) : (of memory screen).FullSize where
  ram := Vector.size_toArray _
  video := Vector.size_toArray _
  io := Vector.size_toArray _
  rom := Vector.size_toArray _
  palette := Vector.size_toArray _
  frame := Screen.length_bytes screen

theorem isOpaque_of (memory : Memory) {screen : Screen} (h : screen.IsOpaque) :
    (of memory screen).IsOpaque := by
  intro i hi
  show screen.bytes[4 * i + 3]? = _
  have hpixel : screen.pixels.toList[i]? = some screen.pixels[i] := by simp
  rw [Screen.bytes, getElem?_flatMap_bytes, hpixel, Option.map_some, h i hi]

/-- Rows of zeros, an opaque black picture and the palette at power-on. -/
def blank : Banks :=
  { ram := Array.replicate 0x8000 0
    video := Array.replicate 0x4000 0
    io := Array.replicate 0x100 0
    rom := Array.replicate 0x2000 0
    palette := Palette.initial.toArray
    frame := (List.replicate 16384 Rgba.black).flatMap Rgba.bytes }

end Banks

namespace Machine

/-- An event paints the picture or leaves it. -/
theorem isOpaque_undergo {m : Machine} (h : m.screen.IsOpaque) (e : Event) :
    (m.undergo e).screen.IsOpaque := by
  cases e with
  | act a =>
    cases a with
    | execute =>
      show m.step.screen.IsOpaque
      rw [(sameHost_step m).screen]
      exact h
    | check =>
      obtain ⟨_, _, _, hcheck⟩ := checkInterrupt_eq m
      show m.checkInterrupt.screen.IsOpaque
      rw [hcheck]
      exact h
    | request => exact h
    | hold mask => exact h
    | endFrame => exact h.render _ _
  | intervene i =>
    cases i with
    | load image =>
      show (m.intervene (.load image)).screen.IsOpaque
      cases hparse : Cartridge.parse image with
      | error fault => rwa [intervene_load_of_error hparse]
      | ok cartridge => rwa [intervene_load_of_ok hparse]
    | execute i length =>
      show (m.execute i length).screen.IsOpaque
      rw [(sameHost_execute m i length).screen]
      exact h
    | restore s => exact h.render _ _
    | resume s => exact h.render _ _
    | _ => exact h

theorem isOpaque_undergoAll {m : Machine} (h : m.screen.IsOpaque) (events : List Event) :
    (m.undergoAll events).screen.IsOpaque := by
  induction events generalizing m with
  | nil => exact h
  | cons e events ih => exact ih (isOpaque_undergo h e)

/-! ## Every run -/

/-- Power-on clears the memory twice, once by itself and once with the machine. -/
theorem accessAll?_blank : Banks.blank.accessAll? [.clear, .clear] = some initial.banks := by
  -- before the first clearing the mirror window is zero as well
  have hblank : Banks.blank
      = of { Memory.initial with io := Vector.replicate _ 0 } Screen.initial := by
    have hframe : Banks.blank.frame = Screen.initial.bytes := by
      rw [Screen.bytes, Screen.initial, Vector.toList_replicate]
      rfl
    unfold of
    rw [← hframe]
    rfl
  rw [hblank, accessAll?_cons, access?, clear?_of, Option.bind_some, accessAll?_singleton, access?,
    clear?_of]
  rfl

/-- What holds of the accesses to a machine. -/
structure InBounds (m : Machine) : Prop where
  fullSize : m.banks.FullSize
  isOpaque : m.banks.IsOpaque
  /-- Every address can be read. -/
  read : ∀ address, m.banks.read? address = some (m.memory.read address)
  /-- Every address can be written. -/
  write : ∀ address value, m.banks.write? address value = some (m.writeByte address value).banks
  /-- The program of every cartridge that is accepted can be copied. -/
  loadProgram : ∀ image cartridge, Cartridge.parse image = .ok cartridge →
    m.banks.loadProgram? cartridge.program
      = some { m with memory := m.memory.loadProgram cartridge.program }.banks
  /-- Every event is in bounds, whatever the registers hold: a program counter and a stack pointer
  may stand anywhere and wrap. -/
  undergo : ∀ registers e, ({ m with registers } : Machine).banks.accessAll?
    (({ m with registers } : Machine).accesses e)
      = some (({ m with registers } : Machine).undergo e).banks

/-- **Every access of every run is in bounds.**  From power-on, the accesses of any commands succeed
one after the other and make the banks of the machine that has carried out the commands. -/
theorem inBounds (commands : List Command) :
    Banks.blank.accessAll?
        ([.clear, .clear] ++ initial.accessLog (initial.chronicle commands))
      = some (initial.obeyAll commands).banks
    ∧ InBounds (initial.obeyAll commands) := by
  have hrun := inStep_chronicle initial commands
  have hbanks : (initial.obeyAll commands).banks
      = (initial.undergoAll (initial.chronicle commands)).banks := by
    rw [banks, banks, hrun.memory, hrun.screen]
  have hopaque : (initial.obeyAll commands).screen.IsOpaque := by
    rw [hrun.screen]
    exact isOpaque_undergoAll Screen.isOpaque_initial _
  refine ⟨?_, ?_⟩
  · rw [accessAll?_append, accessAll?_blank, Option.bind_some, accessAll?_accessLog, hbanks]
  · exact
      { fullSize := fullSize_of _ _
        isOpaque := isOpaque_of _ hopaque
        read := read?_of _ _
        write := write?_of _ _
        loadProgram := by
          intro image cartridge hparse
          exact loadProgram?_of _ _ (length_program_le hparse)
        undergo := by
          intro registers e
          exact accessAll?_accesses _ e }

end Machine

end FantasyComputer
