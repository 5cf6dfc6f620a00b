/-
# FantasyComputer.Compression.Inflate — decompression.

A compressed stream is a sequence of blocks, the last of which is marked.  A block is stored as it
is, or it is a sequence of tokens under fixed prefix codes or under codes that the block describes
itself.  `inflate?` gives the output, or nothing if the stream is cut short or breaks a rule:

* a stored block gives its length twice, the second time complemented;
* the code for code lengths has to be complete, and the two codes that it describes have to be
  complete or to use at most one symbol (`PrefixCode.isUsable`);
* at most 286 literal and length symbols and at most 30 distance symbols are described;
* a repeated code length needs one before it, and the repetitions end where the lengths end;
* a copy reaches back at most to the start of the output.

What follows the last block is not looked at.
-/
import FantasyComputer.Compression.Token

namespace FantasyComputer.Inflate

/-! ## Codes -/

/-- The lengths of the fixed code for literals and lengths. -/
def fixedLiteralLengths : List Nat :=
  List.replicate 144 8 ++ List.replicate 112 9 ++ List.replicate 24 7 ++ List.replicate 8 8

/-- The fixed code for literals and lengths. -/
def fixedLiterals : PrefixCode :=
  PrefixCode.ofLengths fixedLiteralLengths

/-- The fixed code for distances. -/
def fixedDistances : PrefixCode :=
  PrefixCode.ofLengths (List.replicate 32 5)

/-- The order in which a block describes the code for code lengths. -/
def lengthOrder : List Nat :=
  [16, 17, 18, 0, 8, 7, 9, 6, 10, 5, 11, 4, 12, 3, 13, 2, 14, 1, 15]

/-- Reads the lengths of the code for code lengths, in their order. -/
def readOrdered? (s : BitStream) : (count : Nat) → Option (List Nat × BitStream)
  | 0 => some ([], s)
  | count + 1 =>
    match s.number? 3 with
    | none => none
    | some (length, s) =>
      match readOrdered? s count with
      | none => none
      | some (lengths, s) => some (length :: lengths, s)

/-- Reads what a symbol of the code for code lengths stands for: a length and how often it comes. -/
def readRun? (symbol : Nat) (last : Option Nat) (s : BitStream) :
    Option (Nat × Nat × BitStream) :=
  if symbol < 16 then some (symbol, 1, s)
  else if symbol = 16 then
    match last, s.number? 2 with
    | some length, some (extra, s) => some (length, 3 + extra, s)
    | _, _ => none
  else if symbol = 17 then (s.number? 3).map fun (extra, s) => (0, 3 + extra, s)
  else (s.number? 7).map fun (extra, s) => (0, 11 + extra, s)

/-- Reads code lengths until none remain to be read. -/
def readLengths? (code : PrefixCode) (s : BitStream) (remaining : Nat) (lengths : Array Nat) :
    Option (Array Nat × BitStream) :=
  if remaining = 0 then some (lengths, s)
  else
    match code.decode? s with
    | none => none
    | some (symbol, s) =>
      match readRun? symbol lengths.back? s with
      | none => none
      | some (length, count, s) =>
        if _h : 0 < count ∧ count ≤ remaining then
          readLengths? code s (remaining - count) (lengths ++ Array.replicate count length)
        else none
termination_by remaining

/-- The two codes whose lengths stand one after the other. -/
def codesOfLengths? (literalCount : Nat) (lengths : List Nat) : Option (PrefixCode × PrefixCode) :=
  let literals := lengths.take literalCount
  let distances := lengths.drop literalCount
  if PrefixCode.isUsable literals && PrefixCode.isUsable distances then
    some (PrefixCode.ofLengths literals, PrefixCode.ofLengths distances)
  else none

/-- Reads the two codes of a block once their sizes are known. -/
def readSizedCodes? (literalCount distanceCount orderedCount : Nat) (s : BitStream) :
    Option (PrefixCode × PrefixCode × BitStream) :=
  if 286 < literalCount ∨ 30 < distanceCount then none
  else
    match readOrdered? s orderedCount with
    | none => none
    | some (ordered, s) =>
      let described := lengthOrder.zip ordered
      let lengths := (List.range 19).map fun symbol => (described.lookup symbol).getD 0
      if PrefixCode.isComplete lengths then
        match readLengths? (PrefixCode.ofLengths lengths) s (literalCount + distanceCount) #[] with
        | none => none
        | some (lengths, s) =>
          (codesOfLengths? literalCount lengths.toList).map fun (literals, distances) =>
            (literals, distances, s)
      else none

/-- Reads the two codes that a block describes. -/
def readCodes? (s : BitStream) : Option (PrefixCode × PrefixCode × BitStream) :=
  match s.number? 14 with
  | none => none
  | some (sizes, s) =>
    readSizedCodes? (257 + sizes % 32) (1 + sizes / 32 % 32) (4 + sizes / 1024) s

/-! ## Blocks -/

/-- Reads tokens up to the end of the block and carries them out. -/
def readTokens? (literals distances : PrefixCode) (s : BitStream) (out : Array UInt8) :
    Option (Array UInt8 × BitStream) :=
  match _token : Token.read? literals distances s with
  | none => none
  | some (.endOfBlock, t) => some (out, t)
  | some (.literal byte, t) => readTokens? literals distances t (out.push byte)
  | some (.copy length distance, t) =>
    if distance ≤ out.size then
      readTokens? literals distances t (Token.expand out distance length)
    else none
termination_by s.size
decreasing_by all_goals exact Token.size_read? _token

/-- Reads a stored block. -/
def readStored? (s : BitStream) (out : Array UInt8) : Option (Array UInt8 × BitStream) :=
  match s.rest with
  | l₀ :: l₁ :: c₀ :: c₁ :: body =>
    let length := (Word.ofHalves l₀ l₁).toNat
    if Word.ofHalves c₀ c₁ ≠ ~~~Word.ofHalves l₀ l₁ then none
    else
      let stored := body.take length
      if stored.length < length then none
      else some (out ++ stored.toArray, BitStream.ofBytes (body.drop length))
  | _ => none

/-- Reads a block of the given kind. -/
def readBlock? (kind : Nat) (s : BitStream) (out : Array UInt8) :
    Option (Array UInt8 × BitStream) :=
  match kind with
  | 0 => readStored? s out
  | 1 => readTokens? fixedLiterals fixedDistances s out
  | 2 =>
    match readCodes? s with
    | none => none
    | some (literals, distances, s) => readTokens? literals distances s out
  | _ => none

/-! ## Every block takes bits -/

theorem size_readOrdered? {s t : BitStream} {count : Nat} {lengths : List Nat}
    (h : readOrdered? s count = some (lengths, t)) : t.size ≤ s.size := by
  induction count generalizing s lengths with
  | zero => cases h; exact Nat.le_refl _
  | succ count ih =>
    simp only [readOrdered?] at h
    split at h
    · cases h
    · next length u hu =>
      split at h
      · cases h
      · next rest v hv =>
        cases h
        have := BitStream.size_number? hu
        have := ih hv
        omega

theorem size_readRun? {s t : BitStream} {symbol length count : Nat} {last : Option Nat}
    (h : readRun? symbol last s = some (length, count, t)) : t.size ≤ s.size := by
  simp only [readRun?] at h
  split at h
  · cases h; exact Nat.le_refl _
  split at h
  · split at h
    · next hu => cases h; have := BitStream.size_number? hu; omega
    · cases h
  split at h
  all_goals
    obtain ⟨⟨extra, u⟩, hu, heq⟩ := Option.map_eq_some_iff.1 h
    cases heq
    have := BitStream.size_number? hu
    simp only
    omega

theorem size_readLengths? {code : PrefixCode} {s t : BitStream} {remaining : Nat}
    {lengths all : Array Nat} (h : readLengths? code s remaining lengths = some (all, t)) :
    t.size ≤ s.size := by
  fun_induction readLengths? code s remaining lengths with
  | case1 => cases h; exact Nat.le_refl _
  | case2 => cases h
  | case3 => cases h
  | case4 _ _ _ _ _ _ hsymbol _ _ _ hrun _ ih =>
    have := PrefixCode.size_decode? hsymbol
    have := size_readRun? hrun
    have := ih h
    omega
  | case5 => cases h

theorem size_readCodes? {s t : BitStream} {literals distances : PrefixCode}
    (h : readCodes? s = some (literals, distances, t)) : t.size ≤ s.size := by
  simp only [readCodes?] at h
  split at h
  · cases h
  next sizes u hu =>
  have hsizes := BitStream.size_number? hu
  simp only [readSizedCodes?] at h
  split at h
  · cases h
  split at h
  · cases h
  next ordered v hv =>
  have := size_readOrdered? hv
  split at h
  · split at h
    · cases h
    next lengths w hw =>
    have := size_readLengths? hw
    obtain ⟨codes, -, heq⟩ := Option.map_eq_some_iff.1 h
    cases heq
    omega
  · cases h

theorem size_readTokens? {literals distances : PrefixCode} {s t : BitStream}
    {out all : Array UInt8} (h : readTokens? literals distances s out = some (all, t)) :
    t.size ≤ s.size := by
  fun_induction readTokens? literals distances s out with
  | case1 => cases h
  | case2 _ _ _ htoken => cases h; exact Nat.le_of_lt (Token.size_read? htoken)
  | case3 _ _ _ _ htoken ih => have := Token.size_read? htoken; have := ih h; omega
  | case4 _ _ _ _ _ htoken _ ih => have := Token.size_read? htoken; have := ih h; omega
  | case5 => cases h

theorem size_readStored? {s t : BitStream} {out all : Array UInt8}
    (h : readStored? s out = some (all, t)) : t.size ≤ s.size := by
  simp only [readStored?] at h
  split at h
  · next hrest =>
    split at h
    · cases h
    split at h
    · cases h
    cases h
    simp only [BitStream.size, BitStream.ofBytes, hrest, List.length_cons, List.length_nil,
      List.length_drop]
    omega
  · cases h

theorem size_readBlock? {kind : Nat} {s t : BitStream} {out all : Array UInt8}
    (h : readBlock? kind s out = some (all, t)) : t.size ≤ s.size := by
  simp only [readBlock?] at h
  split at h
  · exact size_readStored? h
  · exact size_readTokens? h
  · split at h
    · cases h
    next hcodes =>
    have := size_readCodes? hcodes
    have := size_readTokens? h
    omega
  · cases h

/-! ## Streams -/

/-- Reads blocks up to the last one; each block starts with a mark for the last one and its kind. -/
def readBlocks? (s : BitStream) (out : Array UInt8) : Option (Array UInt8 × BitStream) :=
  match _mark : s.number? 3 with
  | none => none
  | some (mark, t) =>
    match _block : readBlock? (mark / 2) t out with
    | none => none
    | some (out, u) => if mark % 2 = 1 then some (out, u) else readBlocks? u out
termination_by s.size
decreasing_by
  have := BitStream.size_number? _mark
  have := size_readBlock? _block
  omega

/-- Decompresses a stream, and gives what follows it as well. -/
def split? (data : Bytes) : Option (Bytes × Bytes) :=
  (readBlocks? (BitStream.ofBytes data) #[]).map fun (out, s) => (out.toList, s.align.rest)

end FantasyComputer.Inflate

namespace FantasyComputer

/-- Decompresses a stream. -/
def inflate? (data : Bytes) : Option Bytes :=
  (Inflate.split? data).map Prod.fst

end FantasyComputer
