/-
# FantasyComputer.Proofs.PaletteMirror — the palette and its mirror.

The palette colours the picture, and a program sees it only through its mirror in the I/O page.  A
write through the mirror reaches both copies, a reset copies the palette into the mirror, and what is
put back brings the two copies that were taken together.  The host alone sets a palette entry and
leaves its mirror behind.

`mirrorExact` says what follows.  As long as the host sets no entry, every entry equals its mirror
byte.  When it does, only an entry that it has set can differ, until the program writes through the
mirror (`Touches`) or the machine is reset, and meanwhile the mirror byte stays what it was.

One write is the first step (`Agrees.write`) and a row of stores its run.  An event is the second step
(`agrees_of_touches`, `sameEntry_of_not_touches`) and a row of events its run.
-/
import FantasyComputer.Proofs.Accesses
import FantasyComputer.Proofs.Commands

namespace FantasyComputer

/-- The address of the mirror byte of a palette entry. -/
def mirrorAddress (i : Fin paletteSize) : UInt16 :=
  mirrorBase + UInt16.ofNat i

namespace Memory

variable {m : Memory} {i : Fin paletteSize}

/-! ## One write -/

/-- The mirror byte of a palette entry. -/
def mirrored (m : Memory) (i : Fin paletteSize) : UInt8 :=
  m.read (mirrorAddress i)

/-- Whether a palette entry equals its mirror byte. -/
def Agrees (m : Memory) (i : Fin paletteSize) : Prop :=
  m.mirrored i = m.palette.get i

theorem mirrorOffset_add_lt (i : Fin paletteSize) : mirrorOffset + i < ioSize := by
  have hlt := i.isLt
  unfold mirrorOffset ioSize
  unfold paletteSize at hlt
  omega

theorem locate_mirrorAddress (i : Fin paletteSize) :
    locate (mirrorAddress i) = .io ⟨mirrorOffset + i, mirrorOffset_add_lt i⟩ := by
  revert i
  decide +kernel

theorem mirrored_eq (m : Memory) (i : Fin paletteSize) :
    m.mirrored i = m.io.get ⟨mirrorOffset + i, mirrorOffset_add_lt i⟩ := by
  rw [mirrored, read, locate_mirrorAddress]
  rfl

/-- A write to a mirror byte is seen there. -/
theorem mirrored_write_self (m : Memory) (i : Fin paletteSize) (value : UInt8) :
    (m.write (mirrorAddress i) value).mirrored i = value := by
  apply read_write_self
  revert i
  decide +kernel

/-- A write to a mirror byte sets the entry. -/
theorem palette_write_self (m : Memory) (i : Fin paletteSize) (value : UInt8) :
    (m.write (mirrorAddress i) value).palette.get i = value := by
  have hwrite : (m.write (mirrorAddress i) value).palette
      = setMirrored m.palette (mirrorOffset + i.val) value := by
    simp only [write, locate_mirrorAddress]
  rw [hwrite, setMirrored, if_pos (Nat.le_add_right _ _)]
  show (m.palette.setIfInBounds (mirrorOffset + i.val - mirrorOffset) value)[i.val] = value
  rw [Nat.add_sub_cancel_left, Vector.getElem_setIfInBounds_self]

theorem mirrored_write_of_ne (m : Memory) {address : UInt16} (value : UInt8)
    (h : address ≠ mirrorAddress i) : (m.write address value).mirrored i = m.mirrored i :=
  read_write_of_ne m value h.symm

theorem palette_write_of_ne (m : Memory) {address : UInt16} (value : UInt8)
    (h : address ≠ mirrorAddress i) :
    (m.write address value).palette.get i = m.palette.get i := by
  unfold write
  cases hlocation : locate address with
  | io j =>
    -- only the address of the mirror byte has its place in the I/O page
    have hne : mirrorOffset ≤ j.val → j.val - mirrorOffset ≠ i.val := by
      intro hbelow heq
      have hj : j = ⟨mirrorOffset + i, mirrorOffset_add_lt i⟩ := by
        apply Fin.ext
        show j.val = mirrorOffset + i.val
        omega
      apply h
      apply eq_of_locate_eq
      · rw [hlocation, locate_mirrorAddress, hj]
      · rw [hlocation]
        exact Location.noConfusion
    show (setMirrored m.palette j value).get i = m.palette.get i
    unfold setMirrored
    split
    · rename_i hbelow
      exact Vector.getElem_setIfInBounds_ne i.isLt (hne hbelow)
    · rfl
  | _ => rfl

/-- **One write.**  It leaves an entry and its mirror byte alone, or sets both. -/
theorem Agrees.write (h : m.Agrees i) (address : UInt16) (value : UInt8) :
    (m.write address value).Agrees i := by
  by_cases haddress : address = mirrorAddress i
  · rw [haddress, Agrees, mirrored_write_self, palette_write_self]
  · rw [Agrees, mirrored_write_of_ne m value haddress, palette_write_of_ne m value haddress]
    exact h

/-! ## Rows of stores -/

theorem Agrees.writeAll (h : m.Agrees i) (stores : List (UInt16 × UInt8)) :
    (m.writeAll stores).Agrees i := by
  induction stores generalizing m with
  | nil => exact h
  | cons store stores ih => exact ih (h.write store.1 store.2)

/-- Stores that reach a mirror byte make its entry agree, whatever it was. -/
theorem agrees_writeAll_of_mem {stores : List (UInt16 × UInt8)}
    (h : mirrorAddress i ∈ stores.map Prod.fst) : (m.writeAll stores).Agrees i := by
  induction stores generalizing m with
  | nil => exact absurd h List.not_mem_nil
  | cons store stores ih =>
    rcases List.mem_cons.mp h with hfirst | hlater
    · have hagrees : (m.write store.1 store.2).Agrees i := by
        rw [← hfirst, Agrees, mirrored_write_self, palette_write_self]
      exact hagrees.writeAll stores
    · exact ih hlater

/-- Two memories that hold the same palette entry and the same mirror byte of it. -/
structure SameEntry (m m' : Memory) (i : Fin paletteSize) : Prop where
  mirrored : m.mirrored i = m'.mirrored i
  palette : m.palette.get i = m'.palette.get i

theorem sameEntry_write (m : Memory) {address : UInt16} (value : UInt8)
    (h : address ≠ mirrorAddress i) : SameEntry (m.write address value) m i :=
  ⟨mirrored_write_of_ne m value h, palette_write_of_ne m value h⟩

/-- Stores elsewhere leave both alone. -/
theorem sameEntry_writeAll (m : Memory) {stores : List (UInt16 × UInt8)}
    (h : mirrorAddress i ∉ stores.map Prod.fst) : SameEntry (m.writeAll stores) m i := by
  induction stores generalizing m with
  | nil => exact ⟨rfl, rfl⟩
  | cons store stores ih =>
    rw [List.map_cons, List.mem_cons, not_or] at h
    have hfirst := sameEntry_write m store.2 (Ne.symm h.1)
    have hlater := ih (m.write store.1 store.2) h.2
    exact ⟨hlater.mirrored.trans hfirst.mirrored, hlater.palette.trans hfirst.palette⟩

/-! ## Reset and what is put back -/

theorem agrees_reset (m : Memory) (i : Fin paletteSize) : m.reset.Agrees i := by
  have hwindow : mirrorOffset ≤ mirrorOffset + i.val
      ∧ mirrorOffset + i.val < mirrorOffset + paletteSize :=
    ⟨Nat.le_add_right _ _, Nat.add_lt_add_left i.isLt _⟩
  rw [Agrees, mirrored_eq]
  show (mirroring m.palette).get ⟨mirrorOffset + i, mirrorOffset_add_lt i⟩ = m.palette.get i
  rw [mirroring, Vector.get_ofFn, dif_pos hwindow]
  congr 1
  apply Fin.ext
  exact Nat.add_sub_cancel_left _ _

theorem agrees_initial (i : Fin paletteSize) : initial.Agrees i :=
  agrees_reset initial i

/-- Whether an entry agrees depends on the I/O page and the palette alone. -/
theorem Agrees.of_eq {m' : Memory} (h : m.Agrees i) (hio : m'.io = m.io)
    (hpalette : m'.palette = m.palette) : m'.Agrees i := by
  rw [Agrees, mirrored_eq, hio, hpalette, ← mirrored_eq]
  exact h

end Memory

namespace Machine

open Memory

variable {m : Machine} {i : Fin paletteSize}

/-! ## One event -/

/-- Whether an event writes a mirror byte or copies the palette into it.  A load does so if its image
is accepted. -/
def Touches (m : Machine) (i : Fin paletteSize) : Event → Prop
  | .act .execute => mirrorAddress i ∈ m.written m.nextInstruction
  | .act .check => m.interruptReady = true ∧ mirrorAddress i ∈ m.slots 3
  | .act _ => False
  | .intervene (.load image) => ∃ cartridge, Cartridge.parse image = .ok cartridge
  | .intervene (.reset _) => True
  | .intervene (.execute j _) => mirrorAddress i ∈ m.written j
  | .intervene _ => False

/-- Whether an event is the host setting a palette entry. -/
def SetsEntry (i : Fin paletteSize) : Event → Prop
  | .intervene (.setPaletteEntry index _) => index = i
  | _ => False

theorem mirrorAddress_ne (i : Fin paletteSize) :
    interruptStatus ≠ mirrorAddress i ∧ inputAddress ≠ mirrorAddress i := by
  revert i
  decide +kernel

theorem written_goto (m : Machine) (address : UInt16) (j : Instruction) :
    (m.goto address).written j = m.written j := by
  cases j <;> rfl

theorem memory_execute (m : Machine) (j : Instruction) (length : UInt8) :
    ∃ stores, stores.map Prod.fst = m.written j
      ∧ (m.execute j length).memory = m.memory.writeAll stores := by
  refine ⟨(m.goto (m.registers.pc + length.toUInt16)).stores j, ?_, memory_perform _ _⟩
  rw [map_fst_stores, written_goto]

theorem agrees_execute {j : Instruction} (h : mirrorAddress i ∈ m.written j) (length : UInt8) :
    (m.execute j length).memory.Agrees i := by
  obtain ⟨stores, hstores, hmemory⟩ := memory_execute m j length
  rw [hmemory]
  apply agrees_writeAll_of_mem
  rw [hstores]
  exact h

theorem sameEntry_execute {j : Instruction} (h : mirrorAddress i ∉ m.written j) (length : UInt8) :
    SameEntry (m.execute j length).memory m.memory i := by
  obtain ⟨stores, hstores, hmemory⟩ := memory_execute m j length
  rw [hmemory]
  apply sameEntry_writeAll
  rw [hstores]
  exact h

theorem map_fst_interruptStores (m : Machine) :
    m.interruptStores.map Prod.fst = interruptStatus :: m.slots 3 := by
  rw [interruptStores, List.map_cons, map_fst_pushStores]
  rfl

/-- An event that touches a mirror byte makes its entry agree. -/
theorem agrees_of_touches {e : Event} (h : m.Touches i e) : (m.undergo e).memory.Agrees i := by
  cases e with
  | act a =>
    cases a with
    | execute => exact agrees_execute h (lengthOf m.opcode)
    | check =>
      obtain ⟨hready, hslot⟩ := h
      show m.checkInterrupt.memory.Agrees i
      rw [checkInterrupt, if_pos hready, memory_takeInterrupt_eq]
      apply agrees_writeAll_of_mem
      rw [map_fst_interruptStores]
      -- the status byte is not in the window, so the store is one of the pushes
      exact List.mem_cons_of_mem _ hslot
    | _ => exact h.elim
  | intervene v =>
    cases v with
    | load image =>
      obtain ⟨cartridge, hparse⟩ := h
      show (m.intervene (.load image)).memory.Agrees i
      rw [intervene_load_of_ok hparse]
      exact agrees_reset _ i
    | reset entry => exact agrees_reset _ i
    | execute j length => exact agrees_execute h length
    | _ => exact h.elim

/-- Where the host sets an entry, it leaves all mirror bytes alone. -/
theorem mirrored_setPaletteEntry (m : Machine) (index : Nat) (color : UInt8) :
    (m.setPaletteEntry index color).memory.mirrored i = m.memory.mirrored i := by
  rw [mirrored_eq, mirrored_eq]
  rfl

/-- Any other event leaves the entry and its mirror byte alone, unless the host sets the entry. -/
theorem sameEntry_of_not_touches {e : Event} (hputs : ¬e.PutsBack) (htouches : ¬m.Touches i e)
    (hsets : ¬SetsEntry i e) : SameEntry (m.undergo e).memory m.memory i := by
  cases e with
  | act a =>
    cases a with
    | execute => exact sameEntry_execute htouches (lengthOf m.opcode)
    | check =>
      show SameEntry m.checkInterrupt.memory m.memory i
      rw [checkInterrupt]
      split
      · rename_i hready
        rw [memory_takeInterrupt_eq]
        apply sameEntry_writeAll
        rw [map_fst_interruptStores, List.mem_cons, not_or]
        exact ⟨(mirrorAddress_ne i).1.symm, fun hslot => htouches ⟨hready, hslot⟩⟩
      · exact ⟨rfl, rfl⟩
    | request => exact sameEntry_write _ _ (mirrorAddress_ne i).1
    | hold mask => exact sameEntry_write _ _ (mirrorAddress_ne i).2
    | endFrame => exact ⟨rfl, rfl⟩
  | intervene v =>
    cases v with
    | load image =>
      show SameEntry (m.intervene (.load image)).memory m.memory i
      cases hparse : Cartridge.parse image with
      | error fault =>
        rw [intervene_load_of_error hparse]
        exact ⟨rfl, rfl⟩
      | ok cartridge => exact absurd ⟨cartridge, hparse⟩ htouches
    | reset entry => exact absurd trivial htouches
    | setPaletteEntry index color =>
      refine ⟨mirrored_setPaletteEntry m index color, ?_⟩
      exact Vector.getElem_setIfInBounds_ne i.isLt hsets
    | execute j length => exact sameEntry_execute htouches length
    | restore s => exact absurd trivial hputs
    | resume s => exact absurd trivial hputs
    | _ => exact ⟨rfl, rfl⟩

/-- Only the host can make an entry and its mirror byte differ. -/
theorem agrees_undergo {e : Event} (h : m.memory.Agrees i) (hputs : ¬e.PutsBack)
    (hsets : ¬SetsEntry i e) : (m.undergo e).memory.Agrees i := by
  by_cases htouches : m.Touches i e
  · exact agrees_of_touches htouches
  · have hsame := sameEntry_of_not_touches hputs htouches hsets
    rw [Agrees, hsame.mirrored, hsame.palette]
    exact h

theorem exists_color_of_setsEntry {e : Event} (h : SetsEntry i e) :
    ∃ color, e = .intervene (.setPaletteEntry i color) := by
  cases e with
  | act a => exact h.elim
  | intervene v =>
    cases v with
    | setPaletteEntry index color =>
      cases h
      exact ⟨color, rfl⟩
    | _ => exact h.elim

/-- The mirror byte follows what touches it and nothing else. -/
theorem mirrored_undergo {e : Event} (hputs : ¬e.PutsBack) (htouches : ¬m.Touches i e) :
    (m.undergo e).memory.mirrored i = m.memory.mirrored i := by
  by_cases hsets : SetsEntry i e
  · obtain ⟨color, rfl⟩ := exists_color_of_setsEntry hsets
    exact mirrored_setPaletteEntry m i color
  · exact (sameEntry_of_not_touches hputs htouches hsets).mirrored

/-! ## Rows of events -/

/-- Whether no event of a row touches a mirror byte. -/
def Untouched (m : Machine) (i : Fin paletteSize) : List Event → Prop
  | [] => True
  | e :: events => ¬m.Touches i e ∧ (m.undergo e).Untouched i events

theorem untouched_append (m : Machine) (i : Fin paletteSize) (first second : List Event) :
    m.Untouched i (first ++ second)
      ↔ m.Untouched i first ∧ (m.undergoAll first).Untouched i second := by
  induction first generalizing m with
  | nil => exact (iff_of_eq (true_and _)).symm
  | cons e first ih =>
    show ¬m.Touches i e ∧ (m.undergo e).Untouched i (first ++ second) ↔ _
    rw [ih, ← and_assoc]
    rfl

theorem agrees_undergoAll {events : List Event} (h : m.memory.Agrees i)
    (hevents : ∀ e ∈ events, ¬e.PutsBack ∧ ¬SetsEntry i e) :
    (m.undergoAll events).memory.Agrees i := by
  induction events generalizing m with
  | nil => exact h
  | cons e events ih =>
    obtain ⟨hputs, hsets⟩ := hevents e (List.mem_cons_self ..)
    apply ih (agrees_undergo h hputs hsets)
    intro e he
    exact hevents e (List.mem_cons_of_mem _ he)

theorem mirrored_undergoAll {events : List Event} (hputs : ∀ e ∈ events, ¬e.PutsBack)
    (h : m.Untouched i events) :
    (m.undergoAll events).memory.mirrored i = m.memory.mirrored i := by
  induction events generalizing m with
  | nil => rfl
  | cons e events ih =>
    have hfirst := mirrored_undergo (hputs e (List.mem_cons_self ..)) h.1
    have hlater := ih (fun e he => hputs e (List.mem_cons_of_mem _ he)) h.2
    exact hlater.trans hfirst

/-- An entry that differs at the end of a row has been set in it, and not touched since. -/
theorem exists_setPaletteEntry_of_not_agrees {events : List Event} (h : m.memory.Agrees i)
    (hputs : ∀ e ∈ events, ¬e.PutsBack) (hdiffers : ¬(m.undergoAll events).memory.Agrees i) :
    ∃ before color later, events = before ++ .intervene (.setPaletteEntry i color) :: later
      ∧ ((m.undergoAll before).undergo (.intervene (.setPaletteEntry i color))).Untouched i
          later := by
  -- the induction goes from the end of the row backwards, to the last time that the entry was set
  induction events using List.reverseRecOn with
  | nil => exact absurd h hdiffers
  | append_singleton events e ih =>
    rw [undergoAll_append] at hdiffers
    have hlast : ¬e.PutsBack := hputs e (List.mem_append_right _ (List.mem_singleton_self e))
    have htouches : ¬(m.undergoAll events).Touches i e :=
      fun htouched => hdiffers (agrees_of_touches htouched)
    by_cases hsets : SetsEntry i e
    · obtain ⟨color, rfl⟩ := exists_color_of_setsEntry hsets
      exact ⟨events, color, [], rfl, trivial⟩
    · have hearlier : ¬(m.undergoAll events).memory.Agrees i :=
        fun hagrees => hdiffers (agrees_undergo hagrees hlast hsets)
      obtain ⟨before, color, later, rfl, huntouched⟩ :=
        ih (fun e he => hputs e (List.mem_append_left _ he)) hearlier
      refine ⟨before, color, later ++ [e], ?_, ?_⟩
      · rw [List.append_assoc]
        rfl
      · rw [undergoAll_append] at htouches
        exact (untouched_append _ i later [e]).mpr ⟨huntouched, htouches, trivial⟩

end Machine

/-! ## Machines whose palette the host leaves to the program -/

/-- Whether a command sets a palette entry by the host. -/
def Command.Recolors : Command → Prop
  | .intervene (.setPaletteEntry _ _) => True
  | _ => False

namespace Machine

open Memory

variable {m : Machine} {i : Fin paletteSize}

/-- The machines that commands reach from power-on without a palette entry set by the host.  What is
put back comes from such machines itself. -/
inductive NeverRecolored : Machine → Prop
  | initial : NeverRecolored initial
  | obey {m : Machine} {c : Command} :
    NeverRecolored m → ¬c.PutsBack → ¬c.Recolors → NeverRecolored (m.obey c)
  | restore {m other : Machine} :
    NeverRecolored m → NeverRecolored other →
      NeverRecolored (m.obey (.intervene (.restore other.snapshot)))
  | resume {m other : Machine} :
    NeverRecolored m → NeverRecolored other →
      NeverRecolored (m.obey (.intervene (.resume other.saveState)))

theorem not_setsEntry_of_mem_eventsOf {c : Command} (h : ¬c.Recolors) {e : Event}
    (he : e ∈ m.eventsOf c) : ¬SetsEntry i e := by
  cases c with
  | operate o =>
    obtain ⟨a, -, rfl⟩ := List.mem_map.mp he
    exact not_false
  | setButton button pressed =>
    rw [List.mem_singleton.mp he]
    exact not_false
  | intervene v =>
    rw [List.mem_singleton.mp he]
    cases v with
    | setPaletteEntry index color => exact absurd trivial h
    | _ => exact not_false

/-- What is put back agrees where it was taken. -/
theorem agrees_restore {other : Machine} (h : other.memory.Agrees i) (s : Snapshot)
    (hio : s.io = other.memory.io.toArray) (hpalette : s.palette = other.memory.palette) :
    (m.restore s).memory.Agrees i := by
  apply h.of_eq
  · show overlay s.io m.memory.io = other.memory.io
    rw [hio, overlay_toArray]
  · exact hpalette

theorem NeverRecolored.agrees (h : NeverRecolored m) (i : Fin paletteSize) :
    m.memory.Agrees i := by
  induction h with
  | initial => exact agrees_initial i
  | @obey m c _ hputs hrecolors ih =>
    rw [(inStep_obey m c).memory]
    apply agrees_undergoAll ih
    intro e he
    exact ⟨not_putsBack_of_mem_eventsOf hputs he, not_setsEntry_of_mem_eventsOf hrecolors he⟩
  | restore _ _ _ ihother => exact agrees_restore ihother _ rfl rfl
  | resume _ _ _ ihother => exact agrees_restore ihother _ rfl rfl

/-! ## The two copies in every run -/

/-- What is true of a palette and its mirror in a sequence of commands. -/
structure MirrorExact (m : Machine) (commands : List Command) : Prop where
  /-- Every entry equals its mirror byte at the start. -/
  agrees : ∀ i, m.memory.read (mirrorAddress i) = m.memory.palette.get i
  /-- The machine between two commands is a point of the chronicle. -/
  course : ∀ done rest, commands = done ++ rest →
    m.chronicle commands = m.chronicle done ++ (m.obeyAll done).chronicle rest
      ∧ InStep (m.obeyAll done) (m.undergoAll (m.chronicle done))
  /-- At every point an entry that differs from its mirror byte has been set by the host, and its
  mirror byte has neither been written nor reset since. -/
  set_of_ne : ∀ past future, m.chronicle commands = past ++ future → ∀ i,
    (m.undergoAll past).memory.read (mirrorAddress i)
        ≠ (m.undergoAll past).memory.palette.get i →
      ∃ before color later, past = before ++ .intervene (.setPaletteEntry i color) :: later
        ∧ ((m.undergoAll before).undergo (.intervene (.setPaletteEntry i color))).Untouched i later
  /-- Until then the mirror byte holds what it held when the entry was set. -/
  kept : ∀ before color later future (i : Fin paletteSize),
    m.chronicle commands
        = before ++ .intervene (.setPaletteEntry i color) :: (later ++ future) →
      ((m.undergoAll before).undergo (.intervene (.setPaletteEntry i color))).Untouched i later →
        (m.undergoAll (before ++ .intervene (.setPaletteEntry i color) :: later)).memory.read
            (mirrorAddress i)
          = (m.undergoAll before).memory.read (mirrorAddress i)

/-- **The mirror is exact.**  The palette and its mirror agree until the host sets an entry, and then
only the entries that it has set can differ, each until it is written or reset. -/
theorem mirrorExact (hm : NeverRecolored m) (commands : List Command)
    (hcommands : ∀ c ∈ commands, ¬c.PutsBack) : MirrorExact m commands where
  agrees := hm.agrees
  course done rest hsplit := by
    rw [hsplit]
    exact ⟨chronicle_append m done rest, inStep_chronicle m done⟩
  set_of_ne past future hsplit i hne := by
    apply exists_setPaletteEntry_of_not_agrees (hm.agrees i) ?_ hne
    intro e he
    apply not_putsBack_of_mem_chronicle hcommands
    rw [hsplit]
    exact List.mem_append_left _ he
  kept before color later future i hsplit huntouched := by
    have hlater : ∀ e ∈ later, ¬e.PutsBack := by
      intro e he
      apply not_putsBack_of_mem_chronicle hcommands
      rw [hsplit]
      exact List.mem_append_right _ (List.mem_cons_of_mem _ (List.mem_append_left _ he))
    rw [undergoAll_append]
    exact (mirrored_undergoAll hlater huntouched).trans (mirrored_setPaletteEntry _ i color)

/-- An entry set at power-on differs from its mirror byte. -/
theorem mirrorExact_recolored :
    MirrorExact initial [.intervene (.setPaletteEntry 3 0x1C)]
      ∧ (initial.setPaletteEntry 3 0x1C).memory.read (mirrorAddress 3) = 0x1F
      ∧ (initial.setPaletteEntry 3 0x1C).memory.palette.get 3 = 0x1C := by
  have hcommands : ∀ c ∈ [Command.intervene (.setPaletteEntry 3 0x1C)], ¬c.PutsBack := by
    intro c hc
    rw [List.mem_singleton.mp hc]
    exact not_false
  have hmirror : (initial.setPaletteEntry 3 0x1C).memory.read (mirrorAddress 3) = 0x1F :=
    (mirrored_setPaletteEntry initial 3 0x1C).trans (agrees_initial 3)
  have hentry : (initial.setPaletteEntry 3 0x1C).memory.palette.get 3 = 0x1C :=
    Vector.getElem_setIfInBounds_self (by decide)
  exact ⟨mirrorExact .initial _ hcommands, hmirror, hentry⟩

end Machine

end FantasyComputer
