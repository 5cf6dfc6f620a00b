/-
# FantasyComputer.Proofs.SaveFormat — which byte strings are save state files.

What is written is read back.  This module has the converse and with it the whole format: what a
reader takes are the bytes that write the value it gives (`payload_of_run`), so a payload is accepted
if and only if it starts with the bytes of a save state, and then of one alone
(`ofPayload_eq_ok_iff`).

Before the running flag stand fields of a fixed width, and after it fields that are refused only when
the bytes run out.  A payload that is refused is therefore judged by its length and by the byte at
`flagOffset`, however many of its fields are damaged (`ofPayload_eq_error`).

`Verdict` states the rules of the format for whole files in the order in which faults are found, and
`formatExact` says that reading follows them and nothing else.
-/
import FantasyComputer.Proofs.SaveFiles

namespace FantasyComputer.SaveState

variable {α β : Type} {reader : Reader α} {next : α → Reader β} {bytes rest : Bytes}

/-! ## Readers taken apart -/

theorem run_bind_eq_ok {result : β} :
    (reader >>= next).run bytes = .ok (result, rest)
      ↔ ∃ value more, reader.run bytes = .ok (value, more)
          ∧ (next value).run more = .ok (result, rest) := by
  rw [StateT.run_bind]
  cases hread : reader.run bytes with
  | error fault =>
    constructor
    · intro h
      exact absurd h (by nofun)
    · rintro ⟨value, more, hok, -⟩
      exact absurd hok (by nofun)
  | ok taken =>
    constructor
    · intro h
      exact ⟨taken.1, taken.2, rfl, h⟩
    · rintro ⟨value, more, hok, hnext⟩
      cases hok
      exact hnext

theorem run_bind_eq_error {fault : Error} :
    (reader >>= next).run bytes = .error fault
      ↔ reader.run bytes = .error fault
        ∨ ∃ value more, reader.run bytes = .ok (value, more)
          ∧ (next value).run more = .error fault := by
  rw [StateT.run_bind]
  cases hread : reader.run bytes with
  | error found =>
    constructor
    · intro h
      cases h
      exact Or.inl rfl
    · rintro (hfault | ⟨value, more, hok, -⟩)
      · cases hfault
        rfl
      · exact absurd hok (by nofun)
  | ok taken =>
    constructor
    · intro h
      exact Or.inr ⟨taken.1, taken.2, rfl, h⟩
    · rintro (hfault | ⟨value, more, hok, hnext⟩)
      · exact absurd hfault (by nofun)
      · cases hok
        exact hnext

theorem run_pure_eq_ok {value result : α} :
    (pure value : Reader α).run bytes = .ok (result, rest) ↔ value = result ∧ bytes = rest := by
  constructor
  · intro h
    exact Prod.mk.inj (Except.ok.inj h)
  · rintro ⟨rfl, rfl⟩
    rfl

/-! ## What was read had been written -/

theorem take_of_run {count : Nat} {taken : Bytes}
    (h : (Reader.take count).run bytes = .ok (taken, rest)) :
    bytes = taken ++ rest ∧ taken.length = count := by
  change (if bytes.length < count then _ else _) = _ at h
  split at h
  · exact absurd h (by nofun)
  · next hlong =>
    obtain ⟨rfl, rfl⟩ := Prod.mk.inj (Except.ok.inj h)
    rw [List.take_append_drop, List.length_take]
    exact ⟨rfl, by omega⟩

theorem number_of_run {width n : Nat} (h : (Reader.number width).run bytes = .ok (n, rest)) :
    bytes = littleEndian width n ++ rest ∧ n < 256 ^ width := by
  obtain ⟨taken, more, htake, hpure⟩ := run_bind_eq_ok.mp h
  obtain ⟨rfl, rfl⟩ := run_pure_eq_ok.mp hpure
  obtain ⟨rfl, rfl⟩ := take_of_run htake
  exact ⟨by rw [littleEndian_ofLittleEndian], ofLittleEndian_lt taken⟩

theorem byte_of_run {byte : UInt8} (h : Reader.byte.run bytes = .ok (byte, rest)) :
    bytes = byte :: rest := by
  obtain ⟨n, more, hnumber, hpure⟩ := run_bind_eq_ok.mp h
  obtain ⟨rfl, rfl⟩ := run_pure_eq_ok.mp hpure
  obtain ⟨rfl, -⟩ := number_of_run hnumber
  rfl

theorem word_of_run {word : UInt16} (h : Reader.word.run bytes = .ok (word, rest)) :
    bytes = littleEndian 2 word.toNat ++ rest := by
  obtain ⟨n, more, hnumber, hpure⟩ := run_bind_eq_ok.mp h
  obtain ⟨rfl, rfl⟩ := run_pure_eq_ok.mp hpure
  obtain ⟨rfl, hn⟩ := number_of_run hnumber
  rw [UInt16.toNat_ofNat_of_lt' hn]

theorem flag_of_run {flag : Bool} (h : Reader.flag.run bytes = .ok (flag, rest)) :
    bytes = (if flag then 1 else 0) :: rest := by
  obtain ⟨found, more, hbyte, hmatch⟩ := run_bind_eq_ok.mp h
  rw [byte_of_run hbyte]
  split at hmatch
  · obtain ⟨rfl, rfl⟩ := run_pure_eq_ok.mp hmatch
    rfl
  · obtain ⟨rfl, rfl⟩ := run_pure_eq_ok.mp hmatch
    rfl
  · exact absurd hmatch (by nofun)

theorem region_of_run {region : Array UInt8} (h : Reader.region.run bytes = .ok (region, rest)) :
    bytes = regionBytes region ++ rest ∧ region.size < 2 ^ 64 := by
  obtain ⟨length, more, hnumber, hbytes⟩ := run_bind_eq_ok.mp h
  obtain ⟨taken, left, htake, hpure⟩ := run_bind_eq_ok.mp hbytes
  obtain ⟨rfl, rfl⟩ := run_pure_eq_ok.mp hpure
  obtain ⟨rfl, hlength⟩ := number_of_run hnumber
  obtain ⟨rfl, rfl⟩ := take_of_run htake
  refine ⟨?_, hlength⟩
  rw [regionBytes, List.size_toArray, List.append_assoc]

theorem palette_of_run {palette : Palette} (h : Reader.palette.run bytes = .ok (palette, rest)) :
    bytes = palette.toList ++ rest := by
  obtain ⟨taken, more, htake, hpure⟩ := run_bind_eq_ok.mp h
  obtain ⟨rfl, rfl⟩ := run_pure_eq_ok.mp hpure
  obtain ⟨rfl, hlength⟩ := take_of_run htake
  congr 1
  apply List.ext_getElem
  · rw [hlength, Vector.length_toList]
  · intro i hi _
    rw [Vector.getElem_toList, Vector.getElem_ofFn, List.getD_eq_getElem _ _ hi]

theorem registers_of_run {r : Registers} (h : Reader.registers.run bytes = .ok (r, rest)) :
    bytes = registerBytes r ++ rest := by
  obtain ⟨a, _, ha, h⟩ := run_bind_eq_ok.mp h
  obtain ⟨b, _, hb, h⟩ := run_bind_eq_ok.mp h
  obtain ⟨c, _, hc, h⟩ := run_bind_eq_ok.mp h
  obtain ⟨d, _, hd, h⟩ := run_bind_eq_ok.mp h
  obtain ⟨pc, _, hpc, h⟩ := run_bind_eq_ok.mp h
  obtain ⟨sp, _, hsp, h⟩ := run_bind_eq_ok.mp h
  obtain ⟨flags, _, hflags, h⟩ := run_bind_eq_ok.mp h
  obtain ⟨rfl, rfl⟩ := run_pure_eq_ok.mp h
  rw [byte_of_run ha, byte_of_run hb, byte_of_run hc, byte_of_run hd, word_of_run hpc,
    word_of_run hsp, byte_of_run hflags]
  simp [registerBytes]

/-- **What is accepted.**  A payload from which a save state is read starts with the bytes that write
this save state, and its regions have lengths that can be written. -/
theorem payload_of_run {s : SaveState} (h : Reader.saveState.run bytes = .ok (s, rest)) :
    s.Storable ∧ bytes = s.payload ++ rest := by
  obtain ⟨registers, _, hregisters, h⟩ := run_bind_eq_ok.mp h
  obtain ⟨cycles, _, hcycles, h⟩ := run_bind_eq_ok.mp h
  obtain ⟨frames, _, hframes, h⟩ := run_bind_eq_ok.mp h
  obtain ⟨running, _, hrunning, h⟩ := run_bind_eq_ok.mp h
  obtain ⟨ram, _, hram, h⟩ := run_bind_eq_ok.mp h
  obtain ⟨video, _, hvideo, h⟩ := run_bind_eq_ok.mp h
  obtain ⟨io, _, hio, h⟩ := run_bind_eq_ok.mp h
  obtain ⟨palette, _, hpalette, h⟩ := run_bind_eq_ok.mp h
  obtain ⟨rom, _, hrom, h⟩ := run_bind_eq_ok.mp h
  obtain ⟨rfl, rfl⟩ := run_pure_eq_ok.mp h
  have hcyclesNat : (UInt64.ofNat cycles).toNat = cycles :=
    UInt64.toNat_ofNat_of_lt' (number_of_run hcycles).2
  have hframesNat : (UInt32.ofNat frames).toNat = frames :=
    UInt32.toNat_ofNat_of_lt' (number_of_run hframes).2
  refine ⟨⟨(region_of_run hram).2, (region_of_run hvideo).2, (region_of_run hio).2,
    (region_of_run hrom).2⟩, ?_⟩
  rw [registers_of_run hregisters, (number_of_run hcycles).1, (number_of_run hframes).1,
    flag_of_run hrunning, (region_of_run hram).1, (region_of_run hvideo).1, (region_of_run hio).1,
    palette_of_run hpalette, (region_of_run hrom).1]
  simp [payload, hcyclesNat, hframesNat]

/-- **Payloads that are accepted.** -/
theorem ofPayload_eq_ok_iff {s : SaveState} :
    ofPayload bytes = .ok s ↔ s.Storable ∧ s.payload <+: bytes := by
  constructor
  · intro h
    rw [ofPayload] at h
    cases hrun : Reader.saveState.run bytes with
    | error fault =>
      rw [hrun] at h
      cases h
    | ok taken =>
      rw [hrun] at h
      cases h
      obtain ⟨hstorable, hbytes⟩ := payload_of_run hrun
      exact ⟨hstorable, taken.2, hbytes.symm⟩
  · rintro ⟨hstorable, more, rfl⟩
    rw [ofPayload, reads_saveState hstorable more]
    rfl

/-- No payload starts with the bytes of two save states. -/
theorem eq_of_payload_isPrefix {s s' : SaveState} (h : s.Storable) (h' : s'.Storable)
    (hstart : s.payload <+: bytes) (hstart' : s'.payload <+: bytes) : s = s' := by
  have hok := ofPayload_eq_ok_iff.mpr ⟨h, hstart⟩
  have hok' := ofPayload_eq_ok_iff.mpr ⟨h', hstart'⟩
  exact Except.ok.inj (hok.symm.trans hok')

/-! ## What is wrong with a payload -/

/-- A reader that finds fault with nothing but the end of the bytes. -/
def OnlyEnds (reader : Reader α) : Prop :=
  ∀ bytes fault, reader.run bytes = .error fault → fault = .unexpectedEnd

namespace OnlyEnds

theorem pure (value : α) : OnlyEnds (pure value : Reader α) := by
  intro bytes fault h
  exact absurd h (by nofun)

theorem bind (h : OnlyEnds reader) (hnext : ∀ value, OnlyEnds (next value)) :
    OnlyEnds (reader >>= next) := by
  intro bytes fault hrun
  rcases run_bind_eq_error.mp hrun with hfirst | ⟨value, more, -, hlater⟩
  · exact h bytes fault hfirst
  · exact hnext value more fault hlater

theorem take (count : Nat) : OnlyEnds (Reader.take count) := by
  intro bytes fault h
  change (if bytes.length < count then _ else _) = _ at h
  split at h
  · cases h
    rfl
  · exact absurd h (by nofun)

theorem region : OnlyEnds Reader.region :=
  ((take 8).bind fun _ => pure _).bind fun _ => (take _).bind fun _ => pure _

theorem palette : OnlyEnds Reader.palette :=
  (take paletteSize).bind fun _ => pure _

end OnlyEnds

/-- A reader that takes a fixed number of bytes if they are there. -/
structure HasWidth (reader : Reader α) (width : Nat) : Prop where
  short : ∀ bytes : Bytes, bytes.length < width → reader.run bytes = .error .unexpectedEnd
  long : ∀ bytes : Bytes, width ≤ bytes.length →
    ∃ value, reader.run bytes = .ok (value, bytes.drop width)

namespace HasWidth

theorem pure (value : α) : HasWidth (pure value : Reader α) 0 where
  short _ h := absurd h (Nat.not_lt_zero _)
  long _ _ := ⟨value, rfl⟩

theorem bind {width more : Nat} (h : HasWidth reader width)
    (hnext : ∀ value, HasWidth (next value) more) :
    HasWidth (reader >>= next) (width + more) where
  short bytes hshort := by
    rcases Nat.lt_or_ge bytes.length width with hlt | hge
    · exact run_bind_eq_error.mpr (Or.inl (h.short bytes hlt))
    · obtain ⟨value, hvalue⟩ := h.long bytes hge
      have hleft : (bytes.drop width).length < more := by
        rw [List.length_drop]
        omega
      exact run_bind_eq_error.mpr (Or.inr ⟨value, _, hvalue, (hnext value).short _ hleft⟩)
  long bytes hlong := by
    obtain ⟨value, hvalue⟩ := h.long bytes (by omega)
    have hleft : more ≤ (bytes.drop width).length := by
      rw [List.length_drop]
      omega
    obtain ⟨result, hresult⟩ := (hnext value).long _ hleft
    rw [List.drop_drop] at hresult
    exact ⟨result, run_bind_eq_ok.mpr ⟨value, _, hvalue, hresult⟩⟩

theorem take (count : Nat) : HasWidth (Reader.take count) count where
  short _ h := if_pos h
  long bytes h := ⟨bytes.take count, if_neg (by omega)⟩

theorem number (width : Nat) : HasWidth (Reader.number width) width :=
  (take width).bind fun _ => pure _

theorem byte : HasWidth Reader.byte 1 :=
  (number 1).bind fun _ => pure _

theorem word : HasWidth Reader.word 2 :=
  (number 2).bind fun _ => pure _

theorem registers : HasWidth Reader.registers 9 :=
  byte.bind fun _ => byte.bind fun _ => byte.bind fun _ => byte.bind fun _ => word.bind fun _ =>
    word.bind fun _ => byte.bind fun _ => pure _

end HasWidth

/-- What is wrong with a payload that is refused, if its flag is the byte at an offset. -/
def faultAt (offset : Nat) (bytes : Bytes) : Error :=
  match bytes[offset]? with
  | some found => if found = 0 ∨ found = 1 then .unexpectedEnd else .invalidFlag found
  | none => .unexpectedEnd

/-- A reader whose faults are told by the byte at an offset. -/
def FlagAt (offset : Nat) (reader : Reader α) : Prop :=
  ∀ bytes fault, reader.run bytes = .error fault → fault = faultAt offset bytes

theorem flagAt_flag {next : Bool → Reader β} (hnext : ∀ flag, OnlyEnds (next flag)) :
    FlagAt 0 (Reader.flag >>= next) := by
  intro bytes fault hrun
  rcases run_bind_eq_error.mp hrun with hflag | ⟨flag, more, hflag, hlater⟩
  · cases bytes with
    | nil =>
      cases hflag
      rfl
    | cons found more =>
      have hbyte : Reader.byte.run (found :: more) = .ok (found, more) := reads_byte found more
      rcases run_bind_eq_error.mp hflag with hnone | ⟨_, _, hbyte', hmatch⟩
      · rw [hbyte] at hnone
        exact absurd hnone (by nofun)
      · rw [hbyte] at hbyte'
        cases hbyte'
        split at hmatch
        · exact absurd hmatch (by nofun)
        · exact absurd hmatch (by nofun)
        · next hzero hone =>
          cases hmatch
          exact (if_neg (not_or.mpr ⟨hzero, hone⟩)).symm
  · rw [flag_of_run hflag, hnext flag more fault hlater]
    cases flag <;> rfl

/-- Fields of a fixed width move the flag back by that width. -/
theorem FlagAt.bind {width offset : Nat} (hwidth : HasWidth reader width)
    (hnext : ∀ value, FlagAt offset (next value)) : FlagAt (width + offset) (reader >>= next) := by
  intro bytes fault hrun
  rcases Nat.lt_or_ge bytes.length width with hlt | hge
  · have hnone : bytes[width + offset]? = none := List.getElem?_eq_none (by omega)
    rw [run_bind_eq_error.mpr (Or.inl (hwidth.short bytes hlt))] at hrun
    cases hrun
    rw [faultAt, hnone]
  · obtain ⟨value, hvalue⟩ := hwidth.long bytes hge
    rcases run_bind_eq_error.mp hrun with hfirst | ⟨_, _, hok, hlater⟩
    · rw [hvalue] at hfirst
      exact absurd hfirst (by nofun)
    · rw [hvalue] at hok
      cases hok
      rw [hnext _ _ _ hlater, faultAt, faultAt, List.getElem?_drop]

/-- The place of the running flag in a payload: behind the registers and the two counters. -/
def flagOffset : Nat := 21

theorem flagAt_saveState : FlagAt flagOffset Reader.saveState :=
  FlagAt.bind HasWidth.registers fun _ => FlagAt.bind (HasWidth.number 8) fun _ =>
    FlagAt.bind (HasWidth.number 4) fun _ => flagAt_flag fun _ =>
      OnlyEnds.region.bind fun _ => OnlyEnds.region.bind fun _ => OnlyEnds.region.bind fun _ =>
        OnlyEnds.palette.bind fun _ => OnlyEnds.region.bind fun _ => OnlyEnds.pure _

/-- **Payloads that are refused.**  The fault is told by the byte at the place of the flag. -/
theorem ofPayload_eq_error (h : ∀ s : SaveState, s.Storable → ¬s.payload <+: bytes) :
    ofPayload bytes = .error (faultAt flagOffset bytes) := by
  cases hrun : Reader.saveState.run bytes with
  | error fault =>
    rw [ofPayload, hrun, ← flagAt_saveState bytes fault hrun]
    rfl
  | ok taken =>
    obtain ⟨hstorable, hbytes⟩ := payload_of_run hrun
    exact absurd ⟨taken.2, hbytes.symm⟩ (h taken.1 hstorable)

/-- The byte at the place of the flag is the flag. -/
theorem getElem?_flagOffset_payload (s : SaveState) (more : Bytes) :
    (s.payload ++ more)[flagOffset]? = some (if s.running then 1 else 0) := by
  let before := registerBytes s.registers ++ littleEndian 8 s.cycles.toNat
    ++ littleEndian 4 s.frameCount.toNat
  have hlength : before.length = flagOffset := by
    simp [before, registerBytes, flagOffset]
  have hsplit : s.payload ++ more = before ++ (if s.running then 1 else 0)
      :: (regionBytes s.ram ++ regionBytes s.video ++ regionBytes s.io ++ s.palette.toList
        ++ regionBytes s.rom ++ more) := by
    simp [payload, before]
  rw [hsplit, ← hlength, List.getElem?_append_right (Nat.le_refl _)]
  simp

/-- A flag other than 0 and 1 is refused whatever else the payload holds. -/
theorem ofPayload_eq_invalidFlag {found : UInt8} (hflag : bytes[flagOffset]? = some found)
    (hzero : found ≠ 0) (hone : found ≠ 1) : ofPayload bytes = .error (.invalidFlag found) := by
  have hnone : ∀ s : SaveState, s.Storable → ¬s.payload <+: bytes := by
    rintro s - ⟨more, rfl⟩
    rw [getElem?_flagOffset_payload] at hflag
    cases hflag
    cases hrunning : s.running with
    | false => exact hzero (by rw [hrunning]; rfl)
    | true => exact hone (by rw [hrunning]; rfl)
  rw [ofPayload_eq_error hnone, faultAt, hflag]
  exact congrArg Except.error (if_neg (not_or.mpr ⟨hzero, hone⟩))

/-- With a proper flag, or none, all that can be wrong is that the payload ends too early. -/
theorem ofPayload_eq_unexpectedEnd (hnone : ∀ s : SaveState, s.Storable → ¬s.payload <+: bytes)
    (hflag : ∀ found, bytes[flagOffset]? = some found → found = 0 ∨ found = 1) :
    ofPayload bytes = .error .unexpectedEnd := by
  rw [ofPayload_eq_error hnone, faultAt]
  split
  · next found hfound => rw [if_pos (hflag found hfound)]
  · rfl

/-! ## Files -/

/-- Bytes of a file before its compressed part. -/
def headerLength : Nat := 8

/-- A file with a version and a compressed part. -/
def fileOf (version : UInt32) (compressed : Bytes) : Bytes :=
  magic ++ littleEndian 4 version.toNat ++ compressed

/-- **The rules of the format.**  What a file comes to, by the first rule that it breaks. -/
inductive Verdict (codec : Codec) (file : Bytes) : Except Error SaveState → Prop where
  | tooSmall (hlength : file.length < headerLength) : Verdict codec file (.error .tooSmall)
  | badMagic (hlength : headerLength ≤ file.length) (hmagic : ¬magic <+: file) :
    Verdict codec file (.error .badMagic)
  | unsupportedVersion {found : UInt32} {compressed : Bytes} (hfile : file = fileOf found compressed)
    (hversion : found ≠ version) : Verdict codec file (.error (.unsupportedVersion found))
  | notInflatable {compressed : Bytes} {words : String} (hfile : file = fileOf version compressed)
    (hexpand : codec.expand compressed = .error words) :
    Verdict codec file (.error (@Error.notInflatable words))
  /-- A payload may go on after the bytes of the save state. -/
  | accepted {compressed payload : Bytes} {s : SaveState} (hfile : file = fileOf version compressed)
    (hexpand : codec.expand compressed = .ok payload) (hstorable : s.Storable)
    (hstart : s.payload <+: payload) : Verdict codec file (.ok s)
  | invalidFlag {compressed payload : Bytes} {found : UInt8} (hfile : file = fileOf version compressed)
    (hexpand : codec.expand compressed = .ok payload) (hflag : payload[flagOffset]? = some found)
    (hzero : found ≠ 0) (hone : found ≠ 1) : Verdict codec file (.error (.invalidFlag found))
  | unexpectedEnd {compressed payload : Bytes} (hfile : file = fileOf version compressed)
    (hexpand : codec.expand compressed = .ok payload)
    (hnone : ∀ s : SaveState, s.Storable → ¬s.payload <+: payload)
    (hflag : ∀ found, payload[flagOffset]? = some found → found = 0 ∨ found = 1) :
    Verdict codec file (.error .unexpectedEnd)

variable {codec : Codec}

theorem decode_of_short {file : Bytes} (h : file.length < headerLength) :
    decode file codec = .error .tooSmall := by
  unfold headerLength at h
  unfold decode
  split
  · simp only [List.length_cons] at h
    omega
  · rfl

/-- A file that is long enough has four letters, a version and a rest. -/
theorem exists_header {file : Bytes} (h : headerLength ≤ file.length) :
    ∃ letters found compressed, letters.length = magic.length
      ∧ file = letters ++ littleEndian 4 (UInt32.toNat found) ++ compressed := by
  have hversion : ((file.drop 4).take 4).length = 4 := by
    rw [List.length_take, List.length_drop]
    unfold headerLength at h
    omega
  have hlt := ofLittleEndian_lt ((file.drop 4).take 4)
  rw [hversion] at hlt
  refine ⟨file.take 4, UInt32.ofNat (ofLittleEndian ((file.drop 4).take 4)), file.drop 8, ?_, ?_⟩
  · rw [List.length_take]
    unfold headerLength at h
    exact Nat.min_eq_left (by omega)
  · rw [UInt32.toNat_ofNat_of_lt' hlt]
    nth_rewrite 2 [← hversion]
    rw [littleEndian_ofLittleEndian, List.append_assoc, ← List.drop_drop (i := 4) (j := 4)]
    rw [List.take_append_drop, List.take_append_drop]

/-- Reading a file that is long enough: its letters, its version, and what it inflates to. -/
theorem decode_of_header {letters : Bytes} (hletters : letters.length = magic.length)
    (found : UInt32) (compressed : Bytes) :
    decode (letters ++ littleEndian 4 found.toNat ++ compressed) codec
      = if letters ≠ magic then .error .badMagic
        else if found ≠ version then .error (.unsupportedVersion found)
        else match codec.expand compressed with
          | .error words => .error (@Error.notInflatable words)
          | .ok payload => ofPayload payload := by
  obtain ⟨m₀, m₁, m₂, m₃, rfl⟩ : ∃ m₀ m₁ m₂ m₃, letters = [m₀, m₁, m₂, m₃] := by
    match letters, hletters with
    | [m₀, m₁, m₂, m₃], _ => exact ⟨m₀, m₁, m₂, m₃, rfl⟩
  have hfound : UInt32.ofNat (ofLittleEndian (littleEndian 4 found.toNat)) = found := by
    rw [ofLittleEndian_littleEndian (lt_of_lt_of_eq found.toNat_lt (by norm_num)),
      UInt32.ofNat_toNat]
  have hparts : decode ([m₀, m₁, m₂, m₃] ++ littleEndian 4 found.toNat ++ compressed) codec
      = if [m₀, m₁, m₂, m₃] ≠ magic then .error .badMagic
        else if UInt32.ofNat (ofLittleEndian (littleEndian 4 found.toNat)) ≠ version then
          .error (.unsupportedVersion (UInt32.ofNat (ofLittleEndian (littleEndian 4 found.toNat))))
        else match codec.expand compressed with
          | .error words => .error (@Error.notInflatable words)
          | .ok payload => ofPayload payload := rfl
  rw [hparts, hfound]

/-- A file with the letters and the version of the format is judged by what it inflates to. -/
theorem decode_fileOf (compressed : Bytes) :
    decode (fileOf version compressed) codec
      = match codec.expand compressed with
        | .error words => .error (@Error.notInflatable words)
        | .ok payload => ofPayload payload := by
  rw [fileOf, decode_of_header rfl, if_neg (not_not.mpr rfl), if_neg (not_not.mpr rfl)]

/-- The rules leave no file out, and reading follows them. -/
theorem verdict_decode (file : Bytes) : Verdict codec file (decode file codec) := by
  rcases Nat.lt_or_ge file.length headerLength with hshort | hlong
  · rw [decode_of_short hshort]
    exact .tooSmall hshort
  · obtain ⟨letters, found, compressed, hletters, hfile⟩ := exists_header hlong
    have hdecode : decode _ codec = _ := decode_of_header hletters found compressed
    rw [← hfile] at hdecode
    by_cases hmagic : letters = magic
    · subst hmagic
      by_cases hversion : found = version
      · subst hversion
        rw [hfile, ← fileOf, decode_fileOf]
        cases hexpand : codec.expand compressed with
        | error words => exact .notInflatable rfl hexpand
        | ok payload =>
          by_cases hsome : ∃ s : SaveState, s.Storable ∧ s.payload <+: payload
          · obtain ⟨s, hstorable, hstart⟩ := hsome
            simp only [ofPayload_eq_ok_iff.mpr ⟨hstorable, hstart⟩]
            exact .accepted rfl hexpand hstorable hstart
          · have hnone : ∀ s : SaveState, s.Storable → ¬s.payload <+: payload :=
              fun s hstorable hstart => hsome ⟨s, hstorable, hstart⟩
            by_cases hflag : ∀ found, payload[flagOffset]? = some found → found = 0 ∨ found = 1
            · simp only [ofPayload_eq_unexpectedEnd hnone hflag]
              exact .unexpectedEnd rfl hexpand hnone hflag
            · push Not at hflag
              obtain ⟨found, hfound, hzero, hone⟩ := hflag
              simp only [ofPayload_eq_invalidFlag hfound hzero hone]
              exact .invalidFlag rfl hexpand hfound hzero hone
      · rw [hdecode, if_neg (not_not.mpr rfl), if_pos hversion]
        exact .unsupportedVersion hfile hversion
    · rw [hdecode, if_pos hmagic]
      refine .badMagic hlong fun hstart => hmagic ?_
      rw [hfile, List.append_assoc] at hstart
      have hboth := List.prefix_of_prefix_length_le hstart (List.prefix_append _ _) hletters.ge
      exact (hboth.eq_of_length hletters.symm).symm

/-- The rules give a file one verdict. -/
theorem Verdict.decode_eq {file : Bytes} {result : Except Error SaveState}
    (h : Verdict codec file result) : decode file codec = result := by
  cases h with
  | tooSmall hlength => exact decode_of_short hlength
  | badMagic hlength hmagic =>
    obtain ⟨letters, found, compressed, hletters, rfl⟩ := exists_header hlength
    rw [decode_of_header hletters, if_pos]
    rintro rfl
    rw [List.append_assoc] at hmagic
    exact hmagic (List.prefix_append _ _)
  | unsupportedVersion hfile hversion =>
    rw [hfile, fileOf, decode_of_header rfl, if_neg (not_not.mpr rfl), if_pos hversion]
  | notInflatable hfile hexpand => rw [hfile, decode_fileOf, hexpand]
  | accepted hfile hexpand hstorable hstart =>
    rw [hfile, decode_fileOf, hexpand]
    exact ofPayload_eq_ok_iff.mpr ⟨hstorable, hstart⟩
  | invalidFlag hfile hexpand hflag hzero hone =>
    rw [hfile, decode_fileOf, hexpand]
    exact ofPayload_eq_invalidFlag hflag hzero hone
  | unexpectedEnd hfile hexpand hnone hflag =>
    rw [hfile, decode_fileOf, hexpand]
    exact ofPayload_eq_unexpectedEnd hnone hflag

/-- What makes the format of save state files exact, given how payloads are compressed. -/
structure FormatExact (codec : Codec) : Prop where
  /-- What is written is read back. -/
  written : ∀ s : SaveState, s.Storable → decode (s.encode codec) codec = .ok s
  /-- A file comes to what the rules say, and to nothing else. -/
  judged : ∀ file result, decode file codec = result ↔ Verdict codec file result
  /-- A payload holds no more than one save state. -/
  unique : ∀ (payload : Bytes) (s s' : SaveState), s.Storable → s'.Storable →
    s.payload <+: payload → s'.payload <+: payload → s = s'
  /-- The faults of a header are reported in these words. -/
  worded : Error.message .tooSmall = "save state error: file too small"
    ∧ Error.message .badMagic = "save state error: bad magic"

/-- **The format is exact.** -/
theorem formatExact (codec : LosslessCodec) : FormatExact codec.toCodec where
  written _ hstorable := decode_encode codec hstorable
  judged file result := by
    constructor
    · rintro rfl
      exact verdict_decode file
    · intro h
      exact h.decode_eq
  unique _ _ _ := eq_of_payload_isPrefix
  worded := ⟨rfl, rfl⟩

/-- A payload that ends in a damaged flag. -/
def damagedPayload : Bytes :=
  List.replicate flagOffset 0 ++ [2]

/-- The machine at power-on is written and read back, and a damaged flag is named. -/
theorem formatExact_damagedPayload :
    (Machine.initial.saveState.Storable
        ∧ decode Machine.initial.saveState.encode = .ok Machine.initial.saveState)
      ∧ decode (fileOf version (deflate distances damagedPayload)) = .error (.invalidFlag 2) := by
  have hexact := formatExact standardCodec
  refine ⟨⟨storable_saveState _, hexact.written _ (storable_saveState _)⟩, ?_⟩
  apply (hexact.judged _ _).mpr
  exact .invalidFlag rfl (standardCodec.expand_compress _) rfl (by decide) (by decide)

end FantasyComputer.SaveState
