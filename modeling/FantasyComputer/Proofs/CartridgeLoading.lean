/-
# FantasyComputer.Proofs.CartridgeLoading — a cartridge is put in as a whole or not at all.

`Cartridge.image` writes a cartridge as an image.  The images that are accepted are the ones written
in this way whose program fits into ROM; every other byte string is refused for the first rule that it
breaks.  `Verdict` lists the rules in their order, and `parse_eq_iff` says that reading follows them.

A refused image leaves the machine alone.  An accepted one resets it: `Installed` goes through all of
its parts and says which of them are new and which stay.  ROM is both.  The program covers its start,
and what earlier cartridges have left behind the end of the program stays and can be executed.  After
any commands in a row each byte of ROM is therefore the one of the last program that reached as far
(`rom_obeyAll_of_load`), or what it was in the beginning (`rom_obeyAll_of_beyond`).
-/
import FantasyComputer.Proofs.Loading
import FantasyComputer.Proofs.PaletteMirror

namespace FantasyComputer

/-- A word as bytes. -/
theorem littleEndian_word (w : UInt16) : littleEndian 2 w.toNat = [Word.low w, Word.high w] := by
  have hlow : UInt8.ofNat w.toNat = Word.low w := by
    apply UInt8.toNat_inj.mp
    rw [UInt8.toNat_ofNat', Word.toNat_low]
  have hhigh : UInt8.ofNat (w.toNat / 256) = Word.high w := by
    have := w.toNat_lt
    apply UInt8.toNat_inj.mp
    rw [UInt8.toNat_ofNat', Word.toNat_high]
    omega
  rw [littleEndian, littleEndian, hlow, hhigh, littleEndian]

/-! ## Images -/

namespace Cartridge

variable {c : Cartridge} {bytes : Bytes} {result : Except Error Cartridge}

/-- A cartridge as an image. -/
def image (c : Cartridge) : Bytes :=
  magic ++ littleEndian 2 c.entry.toNat ++ littleEndian 2 c.declaredSize.toNat ++ c.program

/-- Bytes of an image before its program. -/
def headerLength : Nat := 8

/-- **The rules of the format.**  What an image comes to, by the first rule that it breaks. -/
inductive Verdict (bytes : Bytes) : Except Error Cartridge → Prop where
  | tooShort (hlength : bytes.length < headerLength) :
    Verdict bytes (.error (.tooShort bytes.length))
  | badMagic {m₀ m₁ m₂ m₃ : UInt8} (hlength : headerLength ≤ bytes.length)
    (hstart : [m₀, m₁, m₂, m₃] <+: bytes) (hmagic : [m₀, m₁, m₂, m₃] ≠ magic) :
    Verdict bytes (.error (.badMagic m₀ m₁ m₂ m₃))
  | tooLarge (hmagic : magic <+: bytes) (hsize : headerLength + romSize < bytes.length) :
    Verdict bytes (.error (.tooLarge (bytes.length - headerLength)))
  /-- Neither the entry point nor the size field is looked at. -/
  | accepted {c : Cartridge} (himage : bytes = c.image) (hsize : c.program.length ≤ romSize) :
    Verdict bytes (.ok c)

theorem image_eq (c : Cartridge) :
    c.image = 0x58 :: 0x56 :: 0x4D :: 0x38 :: Word.low c.entry :: Word.high c.entry
      :: Word.low c.declaredSize :: Word.high c.declaredSize :: c.program := by
  rw [image, littleEndian_word, littleEndian_word]
  rfl

theorem parse_of_short (h : bytes.length < headerLength) :
    parse bytes = .error (.tooShort bytes.length) := by
  unfold headerLength at h
  unfold parse
  split
  · simp only [List.length_cons] at h
    omega
  · rfl

/-- Bytes that are long enough have four letters, two words and a program. -/
theorem exists_parts (h : headerLength ≤ bytes.length) :
    ∃ m₀ m₁ m₂ m₃ e₀ e₁ s₀ s₁ program,
      bytes = m₀ :: m₁ :: m₂ :: m₃ :: e₀ :: e₁ :: s₀ :: s₁ :: program := by
  unfold headerLength at h
  match bytes, h with
  | m₀ :: m₁ :: m₂ :: m₃ :: e₀ :: e₁ :: s₀ :: s₁ :: program, _ =>
    exact ⟨m₀, m₁, m₂, m₃, e₀, e₁, s₀, s₁, program, rfl⟩

theorem parse_of_parts (m₀ m₁ m₂ m₃ e₀ e₁ s₀ s₁ : UInt8) (program : Bytes) :
    parse (m₀ :: m₁ :: m₂ :: m₃ :: e₀ :: e₁ :: s₀ :: s₁ :: program)
      = if [m₀, m₁, m₂, m₃] ≠ magic then .error (.badMagic m₀ m₁ m₂ m₃)
        else if romSize < program.length then .error (.tooLarge program.length)
        else .ok { entry := Word.ofHalves e₀ e₁, declaredSize := Word.ofHalves s₀ s₁, program } :=
  rfl

/-- An image whose program fits is read as the cartridge that it was written from. -/
theorem parse_image (hsize : c.program.length ≤ romSize) : parse c.image = .ok c := by
  have hletters : [0x58, 0x56, 0x4D, 0x38] = magic := rfl
  rw [image_eq, parse_of_parts, if_neg (not_not.mpr hletters), if_neg (Nat.not_lt.mpr hsize),
    Word.ofHalves_low_high, Word.ofHalves_low_high]

/-- The rules leave no image out, and reading follows them. -/
theorem verdict_parse (bytes : Bytes) : Verdict bytes (parse bytes) := by
  rcases Nat.lt_or_ge bytes.length headerLength with hshort | hlong
  · rw [parse_of_short hshort]
    exact .tooShort hshort
  · obtain ⟨m₀, m₁, m₂, m₃, e₀, e₁, s₀, s₁, program, rfl⟩ := exists_parts hlong
    have hstart : [m₀, m₁, m₂, m₃]
        <+: m₀ :: m₁ :: m₂ :: m₃ :: e₀ :: e₁ :: s₀ :: s₁ :: program :=
      ⟨e₀ :: e₁ :: s₀ :: s₁ :: program, rfl⟩
    rw [parse_of_parts]
    split_ifs with hmagic hsize
    · exact .badMagic hlong hstart hmagic
    · rw [not_not] at hmagic
      have hverdict := Verdict.tooLarge (hmagic ▸ hstart) (by
        simp only [List.length_cons, headerLength]
        omega)
      simpa [headerLength] using hverdict
    · rw [not_not] at hmagic
      obtain ⟨rfl, rfl, rfl, rfl⟩ : m₀ = 0x58 ∧ m₁ = 0x56 ∧ m₂ = 0x4D ∧ m₃ = 0x38 := by
        simpa [magic] using hmagic
      refine .accepted ?_ (Nat.not_lt.mp hsize)
      rw [image_eq]
      simp

/-- The rules give an image one verdict. -/
theorem Verdict.parse_eq (h : Verdict bytes result) : parse bytes = result := by
  cases h with
  | tooShort hlength => exact parse_of_short hlength
  | accepted himage hsize => rw [himage, parse_image hsize]
  | badMagic hlength hstart hmagic =>
    obtain ⟨_, _, _, _, _, _, _, _, program, rfl⟩ := exists_parts hlength
    simp only [List.cons_prefix_cons, List.nil_prefix, and_true] at hstart
    obtain ⟨rfl, rfl, rfl, rfl⟩ := hstart
    rw [parse_of_parts, if_pos hmagic]
  | tooLarge hmagic hsize =>
    have hlength : headerLength ≤ bytes.length := by omega
    obtain ⟨_, _, _, _, _, _, _, _, program, rfl⟩ := exists_parts hlength
    simp only [magic, List.cons_prefix_cons, List.nil_prefix, and_true] at hmagic
    obtain ⟨rfl, rfl, rfl, rfl⟩ := hmagic
    have hlarge : romSize < program.length := by
      simp only [List.length_cons, headerLength] at hsize
      omega
    have hletters : [0x58, 0x56, 0x4D, 0x38] = magic := rfl
    rw [parse_of_parts, if_neg (not_not.mpr hletters), if_pos hlarge]
    rfl

/-- **Reading is judging by the rules.** -/
theorem parse_eq_iff : parse bytes = result ↔ Verdict bytes result := by
  constructor
  · rintro rfl
    exact verdict_parse bytes
  · exact Verdict.parse_eq

/-- The images that are accepted. -/
theorem parse_eq_ok_iff : parse bytes = .ok c ↔ bytes = c.image ∧ c.program.length ≤ romSize := by
  rw [parse_eq_iff]
  constructor
  · intro h
    cases h with
    | accepted himage hsize => exact ⟨himage, hsize⟩
  · rintro ⟨himage, hsize⟩
    exact .accepted himage hsize

end Cartridge

/-! ## What a cartridge changes -/

namespace Machine

open Memory

variable {m m' : Machine} {c : Cartridge} {bytes : Bytes}

/-- A machine `m'` that was `m` before a cartridge was put in. -/
structure Installed (m : Machine) (c : Cartridge) (m' : Machine) : Prop where
  /-- The program, and behind it what ROM held before. -/
  rom : m'.memory.rom.toList = c.program ++ m.memory.rom.toList.drop c.program.length
  /-- Below ROM everything is zero but the mirror of the palette. -/
  cleared : ∀ address < romBase, (∀ i, address ≠ mirrorAddress i) → m'.memory.read address = 0
  mirror : ∀ i, m'.memory.read (mirrorAddress i) = m.memory.palette.get i
  registers : m'.registers
    = { a := 0, b := 0, c := 0, d := 0, pc := c.entry, sp := 0x7FFF, flags := 0 }
  cycles : m'.cycles = 0
  framePosition : m'.framePosition = 0
  breakpointHit : m'.breakpointHit = false
  palette : m'.memory.palette = m.memory.palette
  running : m'.running = m.running
  frameCount : m'.frameCount = m.frameCount
  breakCount : m'.breakCount = m.breakCount
  breakpoints : m'.breakpoints = m.breakpoints
  screen : m'.screen = m.screen
  debug : m'.debug = m.debug
  buttons : m'.buttons = m.buttons
  /-- The host is told. -/
  journal : m'.journal = m.journal.push (.cartridgeLoaded c.program.length c.entry)

/-- In the I/O page a reset leaves nothing but the mirror. -/
theorem getElem_mirroring_of_outside (palette : Palette) {offset : Nat} (hoffset : offset < ioSize)
    (houtside : ∀ i : Fin paletteSize, offset ≠ mirrorOffset + i) :
    (mirroring palette)[offset] = 0 := by
  rw [mirroring, Vector.getElem_ofFn, dif_neg]
  rintro ⟨hlow, hhigh⟩
  change mirrorOffset ≤ offset at hlow
  change offset < mirrorOffset + paletteSize at hhigh
  have hentry : offset - mirrorOffset < paletteSize := by omega
  exact houtside ⟨offset - mirrorOffset, hentry⟩ (Nat.add_sub_cancel' hlow).symm

theorem read_reset_of_notMirror (memory : Memory) {address : UInt16} (hbelow : address < romBase)
    (houtside : ∀ i, address ≠ mirrorAddress i) : memory.reset.read address = 0 := by
  have hlow : address.toNat < 0xE000 := UInt16.lt_iff_toNat_lt.mp hbelow
  unfold Memory.read
  cases hlocation : locate address with
  | ram i => exact Vector.getElem_replicate i.isLt
  | video i => exact Vector.getElem_replicate i.isLt
  | gap => rfl
  | io i =>
    refine getElem_mirroring_of_outside memory.palette i.isLt fun entry hentry => ?_
    have hsame : locate address = locate (mirrorAddress entry) := by
      rw [hlocation, locate_mirrorAddress]
      exact congrArg Location.io (Fin.ext hentry)
    exact houtside entry (eq_of_locate_eq hsame (by rw [hlocation]; exact Location.noConfusion))
  | rom i =>
    -- ROM starts above
    rw [locate_eq] at hlocation
    split_ifs at hlocation

/-- **Putting in a cartridge** replaces what `Installed` says and keeps the rest. -/
theorem installed_install (m : Machine) (hsize : c.program.length ≤ romSize) :
    Installed m c (m.install c) where
  rom := by
    have hoverlaid := overlaid_overlay c.program.toArray m.memory.rom
    rw [Overlaid, List.take_of_length_le hsize] at hoverlaid
    exact hoverlaid
  cleared _ hbelow houtside := read_reset_of_notMirror _ hbelow houtside
  mirror i := agrees_reset (m.memory.loadProgram c.program) i
  registers := rfl
  cycles := rfl
  framePosition := rfl
  breakpointHit := rfl
  palette := rfl
  running := rfl
  frameCount := rfl
  breakCount := rfl
  breakpoints := rfl
  screen := rfl
  debug := rfl
  buttons := rfl
  journal := rfl

/-! ## ROM after commands in a row -/

end Machine

namespace Command

/-- The program that a command puts into ROM, if it is a load of an image that is accepted. -/
def program? : Command → Option Bytes
  | .intervene (.load bytes) => (Cartridge.parse bytes).toOption.map (·.program)
  | _ => none

/-- Whether a command puts back a ROM from elsewhere. -/
def Resumes : Command → Prop
  | .intervene (.resume _) => True
  | _ => False

end Command

namespace Machine

open Command

variable {m : Machine} {c : Command}

theorem program?_load_of_ok {bytes : Bytes} {cartridge : Cartridge}
    (h : Cartridge.parse bytes = .ok cartridge) :
    program? (.intervene (.load bytes)) = some cartridge.program := by
  rw [program?, h]
  rfl

theorem program?_load_of_error {bytes : Bytes} {fault : Cartridge.Error}
    (h : Cartridge.parse bytes = .error fault) : program? (.intervene (.load bytes)) = none := by
  rw [program?, h]
  rfl

theorem rom_operate (m : Machine) (o : Operation) : (m.operate o).memory.rom = m.memory.rom := by
  cases o with
  | step => exact rom_perform _ _
  | checkInterrupt =>
    show m.checkInterrupt.memory.rom = _
    unfold checkInterrupt
    split
    · exact rom_takeInterrupt m
    · rfl
  | call call =>
    cases call with
    | setInput mask => exact Memory.rom_write _ _ _
    | requestInterrupt => exact Memory.rom_write _ _ _
    | stepFrame => exact rom_stepFrame m
    | stepOne => exact rom_stepOne m

/-- **Step lemma.**  A byte of ROM changes only if a program is put in that is longer than its
place. -/
theorem rom_obey (hc : ¬c.Resumes) {i : Nat} (hi : i < romSize) :
    (m.obey c).memory.rom[i] = (c.program?.bind (·[i]?)).getD m.memory.rom[i] := by
  -- commands that leave ROM alone
  have hkeeps : c.program? = none → (m.obey c).memory.rom = m.memory.rom →
      (m.obey c).memory.rom[i] = (c.program?.bind (·[i]?)).getD m.memory.rom[i] := by
    intro hnone hrom
    rw [hnone, hrom]
    rfl
  cases c with
  | operate o => exact hkeeps rfl (rom_operate m o)
  | setButton button pressed => exact hkeeps rfl (Memory.rom_write _ _ _)
  | intervene act =>
    cases act with
    | load bytes =>
      cases hparse : Cartridge.parse bytes with
      | error fault =>
        exact hkeeps (program?_load_of_error hparse)
          (congrArg (·.memory.rom) (intervene_load_of_error hparse))
      | ok cartridge =>
        have hrom : (m.obey (.intervene (.load bytes))).memory.rom
            = overlay cartridge.program.toArray m.memory.rom :=
          congrArg (·.memory.rom) (intervene_load_of_ok hparse)
        rw [program?_load_of_ok hparse, hrom, getElem_overlay, List.getElem?_toArray]
        rfl
    | execute instruction length => exact hkeeps rfl (rom_perform _ _)
    | resume s => exact absurd trivial hc
    | _ => exact hkeeps rfl rfl

/-- **Run lemma.**  A byte behind the end of every program is what it was. -/
theorem rom_obeyAll_of_beyond {commands : List Command} (hcommands : ∀ c ∈ commands, ¬c.Resumes)
    {i : Nat} (hi : i < romSize)
    (hbeyond : ∀ c ∈ commands, ∀ program, c.program? = some program → program.length ≤ i) :
    (m.obeyAll commands).memory.rom[i] = m.memory.rom[i] := by
  induction commands generalizing m with
  | nil => rfl
  | cons c commands ih =>
    rw [List.forall_mem_cons] at hcommands hbeyond
    have hrest : (m.obeyAll (c :: commands)).memory.rom[i] = (m.obey c).memory.rom[i] :=
      ih hcommands.2 hbeyond.2
    rw [hrest, rom_obey hcommands.1 hi]
    cases hprogram : c.program? with
    | none => rfl
    | some program =>
      have hnone : program[i]? = none := List.getElem?_eq_none (hbeyond.1 program hprogram)
      rw [Option.bind_some, hnone]
      rfl

/-- **Run lemma.**  A byte is the one of the last program that reaches as far. -/
theorem rom_obeyAll_of_load {before after : List Command} {load : Command}
    (hafter : ∀ c ∈ after, ¬c.Resumes) {program : Bytes} (hload : load.program? = some program)
    {i : Nat} (hi : i < romSize) (hreaches : i < program.length)
    (hbeyond : ∀ c ∈ after, ∀ later, c.program? = some later → later.length ≤ i) :
    (m.obeyAll (before ++ load :: after)).memory.rom[i] = program[i] := by
  have hkeeps : ¬load.Resumes := by
    intro hresumes
    cases load with
    | intervene act =>
      cases act with
      | resume s => exact absurd hload (by nofun)
      | _ => exact hresumes
    | _ => exact hresumes
  have hsplit : m.obeyAll (before ++ load :: after)
      = ((m.obeyAll before).obey load).obeyAll after := List.foldl_append
  have hlast := rom_obeyAll_of_beyond (m := (m.obeyAll before).obey load) hafter hi hbeyond
  have hfound : program[i]? = some program[i] := List.getElem?_eq_getElem hreaches
  rw [hsplit, hlast, rom_obey hkeeps hi, hload, Option.bind_some, hfound, Option.getD_some]

/-! ## Loading is exact and atomic -/

/-- What the images of cartridges do to a machine. -/
structure LoadsCartridges (m : Machine) : Prop where
  /-- The images that are accepted are those of cartridges whose program fits into ROM. -/
  accepted_iff : ∀ (bytes : Bytes) (c : Cartridge),
    Cartridge.parse bytes = .ok c ↔ bytes = c.image ∧ c.program.length ≤ romSize
  /-- Every image comes to what the rules say, and to nothing else. -/
  judged : ∀ bytes result, Cartridge.parse bytes = result ↔ Cartridge.Verdict bytes result
  /-- An image that is refused leaves the machine as it is. -/
  refused : ∀ bytes fault, Cartridge.parse bytes = .error fault →
    m.insert bytes = .error fault ∧ m.intervene (.load bytes) = m
  /-- An image that is accepted is put in as a whole. -/
  installed : ∀ bytes c, Cartridge.parse bytes = .ok c →
    m.insert bytes = .ok (m.intervene (.load bytes))
      ∧ Installed m c (m.intervene (.load bytes))
  /-- A byte of ROM that the programs of a run of commands do not reach is what it was. -/
  kept : ∀ commands : List Command, (∀ c ∈ commands, ¬c.Resumes) →
    ∀ (i : Nat) (hi : i < romSize),
      (∀ c ∈ commands, ∀ program, c.program? = some program → program.length ≤ i) →
        (m.obeyAll commands).memory.rom[i] = m.memory.rom[i]
  /-- Of the programs that reach a byte of ROM the last one decides. -/
  decided : ∀ (before after : List Command) (bytes : Bytes) (c : Cartridge),
    (∀ d ∈ before ++ after, ¬d.Resumes) → Cartridge.parse bytes = .ok c →
      ∀ (i : Nat) (hi : i < romSize) (hreaches : i < c.program.length),
        (∀ d ∈ after, ∀ later, d.program? = some later → later.length ≤ i) →
          (m.obeyAll (before ++ .intervene (.load bytes) :: after)).memory.rom[i] = c.program[i]

/-- **Cartridges are loaded exactly and atomically**, whatever the image and the machine. -/
theorem loadsCartridges (m : Machine) : LoadsCartridges m where
  accepted_iff _ _ := Cartridge.parse_eq_ok_iff
  judged _ _ := Cartridge.parse_eq_iff
  refused bytes fault h := by
    refine ⟨?_, intervene_load_of_error h⟩
    rw [insert, h]
    rfl
  installed bytes c h := by
    rw [intervene_load_of_ok h, insert, h]
    exact ⟨rfl, installed_install m (Cartridge.parse_eq_ok_iff.mp h).2⟩
  kept _ hcommands _ hi hbeyond := rom_obeyAll_of_beyond hcommands hi hbeyond
  decided before after bytes c hcommands h i hi hreaches hbeyond := by
    rw [List.forall_mem_append] at hcommands
    exact rom_obeyAll_of_load hcommands.2 (program?_load_of_ok h) hi hreaches hbeyond

end Machine

end FantasyComputer
