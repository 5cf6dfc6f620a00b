/-
# FantasyComputer.Compression.PrefixCode — canonical prefix codes.

A prefix code writes symbols as bit strings none of which starts another.  It is a binary tree with
the symbols at its leaves; a `PrefixCode` holds the two branches of the root, so that every symbol
takes at least one bit.

A canonical code is given by the length of each symbol's bit string alone, with length zero for a
symbol that is not used: shorter strings come first, and among strings of one length the order is
that of the symbols.  `ofLengths` builds the tree from the deepest level up: the nodes of a level
are its leaves, and after them the nodes of the level below joined two by two.

Lengths that are complete leave no branch without a symbol.  A code with a single symbol leaves one
at every level, and what it stands for depends on the level (`vacant`): down to `strictDepth` it is
an error, and deeper down it is symbol zero.  So a bit string that goes astray from a long one of a
single symbol is read as symbol zero if it does so late enough.
-/
import FantasyComputer.Compression.BitStream

namespace FantasyComputer

/-- A branch of a prefix code. -/
inductive CodeTree where
  /-- No bit string leads here. -/
  | empty
  /-- The end of a symbol's bit string. -/
  | leaf (symbol : Nat)
  /-- The branches after a zero and after a one. -/
  | node (zero one : CodeTree)
  deriving DecidableEq, Repr

/-- A prefix code: the branches after a first zero and after a first one. -/
structure PrefixCode where
  zero : CodeTree
  one : CodeTree
  deriving DecidableEq, Repr

/-! ## Reading and writing symbols -/

namespace CodeTree

/-- The symbol that the bits lead to from here, and what follows it. -/
def decode? : CodeTree → BitStream → Option (Nat × BitStream)
  | empty, _ => none
  | leaf symbol, s => some (symbol, s)
  | node zero one, s =>
    match s.next? with
    | none => none
    | some (false, s) => zero.decode? s
    | some (true, s) => one.decode? s

/-- Each symbol below with the bits that lead to it. -/
def strings : CodeTree → List (Nat × List Bool)
  | empty => []
  | leaf symbol => [(symbol, [])]
  | node zero one =>
    zero.strings.map (fun (symbol, bits) => (symbol, false :: bits))
      ++ one.strings.map (fun (symbol, bits) => (symbol, true :: bits))

theorem size_decode? {tree : CodeTree} {s t : BitStream} {symbol : Nat}
    (h : tree.decode? s = some (symbol, t)) : t.size ≤ s.size := by
  induction tree generalizing s with
  | empty => simp [decode?] at h
  | leaf =>
    simp only [decode?, Option.some.injEq, Prod.mk.injEq] at h
    obtain ⟨-, rfl⟩ := h
    exact Nat.le_refl _
  | node zero one ihz iho =>
    simp only [decode?] at h
    split at h
    · contradiction
    · next u hu =>
      have := BitStream.size_next? hu
      have := ihz h
      omega
    · next u hu =>
      have := BitStream.size_next? hu
      have := iho h
      omega

end CodeTree

namespace PrefixCode

/-- The next symbol and what follows it. -/
def decode? (code : PrefixCode) (s : BitStream) : Option (Nat × BitStream) :=
  match s.next? with
  | none => none
  | some (false, s) => code.zero.decode? s
  | some (true, s) => code.one.decode? s

/-- Each symbol with its bit string. -/
def strings (code : PrefixCode) : List (Nat × List Bool) :=
  (CodeTree.node code.zero code.one).strings

theorem size_decode? {code : PrefixCode} {s t : BitStream} {symbol : Nat}
    (h : code.decode? s = some (symbol, t)) : t.size < s.size := by
  simp only [decode?] at h
  split at h
  · contradiction
  · next u hu =>
    have := BitStream.size_next? hu
    have := CodeTree.size_decode? h
    omega
  · next u hu =>
    have := BitStream.size_next? hu
    have := CodeTree.size_decode? h
    omega

/-! ## Canonical codes -/

/-- The longest bit string of a symbol. -/
def maxLength : Nat := 15

/-- The leaves of one level: the symbols with that length, in order. -/
def leaves (lengths : List Nat) (level : Nat) : List CodeTree :=
  lengths.zipIdx.filterMap fun (length, symbol) =>
    if length = level then some (.leaf symbol) else none

/-- The last level at which no bit string may lead to a branch without a symbol. -/
def strictDepth : Nat := 10

/-- The branch at a level to which the lengths give no symbol. -/
def vacant (level : Nat) : CodeTree :=
  if level ≤ strictDepth then .empty else .leaf 0

/-- Joins the nodes of a level two by two, a last node alone with the vacant branch. -/
def joined (vacant : CodeTree) : List CodeTree → List CodeTree
  | [] => []
  | [last] => [.node last vacant]
  | zero :: one :: rest => .node zero one :: joined vacant rest

/-- The nodes of a level, given those of the level below. -/
def nodes (lengths : List Nat) (level : Nat) (below : List CodeTree) : List CodeTree :=
  leaves lengths level ++ joined (vacant (level + 1)) below

/-- The canonical code with the given lengths. -/
def ofLengths (lengths : List Nat) : PrefixCode :=
  match (List.range' 1 maxLength).foldr (nodes lengths) [] with
  | [] => { zero := .empty, one := .empty }
  | [zero] => { zero, one := .empty }
  | zero :: one :: _ => { zero, one }

/-- The number of symbols that are used. -/
def usedSymbols (lengths : List Nat) : Nat :=
  lengths.countP (· ≠ 0)

/-- How many of the longest bit strings start with one code of a length: each bit saved doubles
the number.  A symbol that is not used takes none. -/
def share : Nat → Nat
  | 0 => 0
  | length => 1 <<< (maxLength - length)

/-- How many of the longest bit strings start with some code. -/
def totalShare : List Nat → Nat
  | [] => 0
  | length :: rest => share length + totalShare rest

/-- Whether the lengths leave no bit string free and give none twice. -/
def isComplete (lengths : List Nat) : Bool :=
  totalShare lengths == 1 <<< maxLength

/-- Whether the lengths are complete or use at most one symbol. -/
def isUsable (lengths : List Nat) : Bool :=
  isComplete lengths || usedSymbols lengths ≤ 1

end PrefixCode

end FantasyComputer
