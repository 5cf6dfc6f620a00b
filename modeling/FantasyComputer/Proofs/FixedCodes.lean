/-
# FantasyComputer.Proofs.FixedCodes — a token is read back from its bits.

Under the fixed codes a token is one or two symbols and, for a copy, extra bits that choose within
the ranges of its symbols.  Three facts make it readable:

* the bit string that leads to a leaf of a code is read as that leaf's symbol, whatever follows
  (`CodeTree.yields_decode?`), and every symbol of the fixed codes has such a bit string;
* the ranges of lengths and of distances leave no gaps (`covers`), so the extra bits of a value have
  room for what its range's base leaves over (`exists_range`);
* numbers of a fixed width are read back.

`yields_read?` puts them together for every token that has bits at all.
-/
import FantasyComputer.Compression.Deflate
import FantasyComputer.Proofs.BitStrings

namespace FantasyComputer

open BitStream (Yields)

variable {s : BitStream} {rest : List Bool}

/-! ## Symbols -/

/-- **Reading a symbol.**  By induction on the tree: each node takes the bit that its branch put in
front. -/
theorem CodeTree.yields_decode? {tree : CodeTree} {symbol : Nat} {bits : List Bool}
    (hmem : (symbol, bits) ∈ tree.strings) (h : s.bits = bits ++ rest) :
    Yields (tree.decode? s) symbol rest := by
  induction tree generalizing s bits with
  | empty => exact absurd hmem List.not_mem_nil
  | leaf leaf =>
    obtain ⟨rfl, rfl⟩ := Prod.mk.inj (List.mem_singleton.mp hmem)
    exact ⟨s, rfl, h⟩
  | node zero one ihzero ihone =>
    rcases List.mem_append.mp hmem with hzero | hone
    · obtain ⟨⟨found, more⟩, hmore, heq⟩ := List.mem_map.mp hzero
      obtain ⟨rfl, rfl⟩ := Prod.mk.inj heq
      obtain ⟨t, hbit, ht⟩ := BitStream.yields_next? h
      rw [decode?, hbit]
      exact ihzero hmore ht
    · obtain ⟨⟨found, more⟩, hmore, heq⟩ := List.mem_map.mp hone
      obtain ⟨rfl, rfl⟩ := Prod.mk.inj heq
      obtain ⟨t, hbit, ht⟩ := BitStream.yields_next? h
      rw [decode?, hbit]
      exact ihone hmore ht

theorem PrefixCode.yields_decode? {code : PrefixCode} {symbol : Nat} {bits : List Bool}
    (hmem : (symbol, bits) ∈ code.strings) (h : s.bits = bits ++ rest) :
    Yields (code.decode? s) symbol rest := by
  have hroot : code.decode? s = (CodeTree.node code.zero code.one).decode? s := rfl
  rw [hroot]
  exact CodeTree.yields_decode? hmem h

namespace Deflate

/-- The table of a code holds a bit string of the code for each symbol that has one. -/
theorem mem_strings_of_isSome {code : PrefixCode} {size symbol : Nat} (hsymbol : symbol < size)
    (hsome : (code.strings.lookup symbol).isSome = true) :
    (symbol, (stringTable size code).getD symbol []) ∈ code.strings := by
  obtain ⟨bits, hbits⟩ := Option.isSome_iff_exists.mp hsome
  have hentry : (stringTable size code).getD symbol [] = bits := by
    rw [stringTable, Array.getD_eq_getD_getElem?, Array.getElem?_ofFn, dif_pos hsymbol,
      Option.getD_some, hbits, Option.getD_some]
  obtain ⟨before, after, hstrings, -⟩ := List.lookup_eq_some_iff.mp hbits
  rw [hentry, hstrings]
  exact List.mem_append_right before List.mem_cons_self

/-- What has an entry in a table is found in it. -/
theorem isSome_lookup {symbol : Nat} {table : List (Nat × List Bool)}
    (h : symbol ∈ table.map Prod.fst) : (table.lookup symbol).isSome = true := by
  obtain ⟨entry, hentry, rfl⟩ := List.mem_map.mp h
  by_contra hnone
  rw [Option.not_isSome_iff_eq_none, List.lookup_eq_none_iff] at hnone
  simpa using hnone entry hentry

/-- The literals and lengths of the fixed code, those with short bit strings first. -/
theorem symbols_literals :
    Inflate.fixedLiterals.strings.map Prod.fst
      = List.range' 256 24 ++ List.range' 0 144 ++ List.range' 280 8 ++ List.range' 144 112 := by
  decide +kernel

theorem isSome_lookup_literals :
    ∀ symbol < 288, (Inflate.fixedLiterals.strings.lookup symbol).isSome = true := by
  intro symbol hsymbol
  apply isSome_lookup
  rw [symbols_literals]
  simp only [List.mem_append, List.mem_range'_1]
  omega

theorem isSome_lookup_distances :
    ∀ symbol < 32, (Inflate.fixedDistances.strings.lookup symbol).isSome = true := by
  decide +kernel

theorem yields_literal (symbol : Nat) (hsymbol : symbol < 288)
    (h : s.bits = literalStrings.getD symbol [] ++ rest) :
    Yields (Inflate.fixedLiterals.decode? s) symbol rest :=
  PrefixCode.yields_decode?
    (mem_strings_of_isSome hsymbol (isSome_lookup_literals symbol hsymbol)) h

theorem yields_distance (symbol : Nat) (hsymbol : symbol < 32)
    (h : s.bits = distanceStrings.getD symbol [] ++ rest) :
    Yields (Inflate.fixedDistances.decode? s) symbol rest :=
  PrefixCode.yields_decode?
    (mem_strings_of_isSome hsymbol (isSome_lookup_distances symbol hsymbol)) h

/-! ## Ranges -/

/-- Whether ranges follow each other without a gap, up to a limit. -/
def covers (limit : Nat) : List Token.Range → Bool
  | [] => false
  | [last] => limit < last.base + 2 ^ last.extraBits
  | range :: next :: more =>
    next.base ≤ range.base + 2 ^ range.extraBits && covers limit (next :: more)

theorem covers_lengthRanges : covers 258 Token.lengthRanges.toList = true := by decide

theorem covers_distanceRanges : covers 32768 Token.distanceRanges.toList = true := by decide

/-- The last range that starts at a value or below it has room for the value. -/
theorem exists_range {limit value : Nat} {first : Token.Range} {more : List Token.Range}
    (hcovers : covers limit (first :: more) = true) (hfirst : first.base ≤ value)
    (hvalue : value ≤ limit) :
    ∃ range, (first :: more)[((first :: more).takeWhile (·.base ≤ value)).length - 1]? = some range
      ∧ range.base ≤ value ∧ value < range.base + 2 ^ range.extraBits := by
  induction more generalizing first with
  | nil =>
    have hlast : limit < first.base + 2 ^ first.extraBits := of_decide_eq_true hcovers
    refine ⟨first, ?_, hfirst, by omega⟩
    rw [List.takeWhile_cons, if_pos (decide_eq_true hfirst)]
    rfl
  | cons next more ih =>
    obtain ⟨hgap, hmore⟩ := Bool.and_eq_true_iff.mp hcovers
    rw [List.takeWhile_cons, if_pos (decide_eq_true hfirst)]
    by_cases hnext : next.base ≤ value
    · -- the value lies in the next range or behind it
      obtain ⟨range, hrange, hroom⟩ := ih hmore hnext
      refine ⟨range, ?_, hroom⟩
      rw [List.takeWhile_cons, if_pos (decide_eq_true hnext)] at hrange ⊢
      exact hrange
    · -- the next range starts behind the value, and there is no gap before it
      have hend : next.base ≤ first.base + 2 ^ first.extraBits := of_decide_eq_true hgap
      refine ⟨first, ?_, hfirst, by omega⟩
      rw [List.takeWhile_cons, if_neg (by rwa [decide_eq_true_eq])]
      rfl

/-- **Reading a value of a range.** -/
theorem yields_readRanged? (ranges : Array Token.Range) {limit value : Nat} {first : Token.Range}
    {more : List Token.Range} (hranges : ranges.toList = first :: more)
    (hcovers : covers limit ranges.toList = true) (hfirst : first.base ≤ value)
    (hvalue : value ≤ limit) :
    rangeOf ranges value < ranges.size
      ∧ ∀ {s : BitStream} {rest : List Bool},
        s.bits = extraBits ranges (rangeOf ranges value) value ++ rest →
          Yields (Token.readRanged? ranges (rangeOf ranges value) s) value rest := by
  rw [hranges] at hcovers
  obtain ⟨range, hfound, hbase, hroom⟩ := exists_range hcovers hfirst hvalue
  have hrange : ranges[rangeOf ranges value]? = some range := by
    rw [← Array.getElem?_toList, rangeOf, hranges]
    exact hfound
  refine ⟨(Array.getElem?_eq_some_iff.mp hrange).1, ?_⟩
  intro s rest h
  rw [extraBits, hrange] at h
  obtain ⟨t, hnumber, ht⟩ :=
    BitStream.yields_number? (show value - range.base < 2 ^ range.extraBits by omega) h
  refine ⟨t, ?_, ht⟩
  rw [Token.readRanged?, hrange]
  simp only [hnumber, Option.some.injEq, Prod.mk.injEq, and_true]
  omega

/-! ## Tokens -/

/-- Whether a token has bits: a copy has to have a length and a distance within the ranges. -/
def Writable : Token → Prop
  | .copy length distance => minCopy ≤ length ∧ length ≤ maxCopy ∧ 0 < distance ∧ distance ≤ 32768
  | _ => True

/-- **Reading a token.**  A token that has bits is read back from them, whatever follows. -/
theorem yields_read? {token : Token} (hwritable : Writable token)
    (h : s.bits = tokenBits token ++ rest) :
    Yields (Token.read? Inflate.fixedLiterals Inflate.fixedDistances s) token rest := by
  cases token with
  | literal byte =>
    have hbyte : byte.toNat < Token.endSymbol := byte.toNat_lt
    obtain ⟨t, hsymbol, ht⟩ := yields_literal byte.toNat (Nat.lt_trans hbyte (by decide)) h
    refine ⟨t, ?_, ht⟩
    rw [Token.read?, hsymbol]
    simp only [Token.readAfter?]
    rw [if_pos hbyte, UInt8.ofNat_toNat]
  | endOfBlock =>
    obtain ⟨t, hsymbol, ht⟩ := yields_literal Token.endSymbol (by decide) h
    refine ⟨t, ?_, ht⟩
    rw [Token.read?, hsymbol]
    rfl
  | copy length distance =>
    obtain ⟨hmin, hmax, hpos, hfar⟩ := hwritable
    obtain ⟨hlength, hreadLength⟩ :=
      yields_readRanged? Token.lengthRanges rfl covers_lengthRanges hmin hmax
    obtain ⟨hdistance, hreadDistance⟩ :=
      yields_readRanged? Token.distanceRanges rfl covers_distanceRanges hpos hfar
    change rangeOf Token.lengthRanges length < 29 at hlength
    change rangeOf Token.distanceRanges distance < 30 at hdistance
    simp only [tokenBits, List.append_assoc] at h
    -- four parts: the symbol of the length, its extra bits, and the same for the distance
    obtain ⟨t, hsymbol, ht⟩ := yields_literal _ (by unfold Token.endSymbol; omega) h
    obtain ⟨u, hranged, hu⟩ := hreadLength ht
    obtain ⟨v, hfar', hv⟩ := yields_distance _ (by omega) hu
    obtain ⟨w, hranged', hw⟩ := hreadDistance hv
    refine ⟨w, ?_, hw⟩
    have hafter : ¬rangeOf Token.lengthRanges length + Token.endSymbol + 1 < Token.endSymbol := by
      omega
    have hlast : ¬rangeOf Token.lengthRanges length + Token.endSymbol + 1 = Token.endSymbol := by
      omega
    have hindex : rangeOf Token.lengthRanges length + Token.endSymbol + 1 - (Token.endSymbol + 1)
        = rangeOf Token.lengthRanges length := by
      omega
    rw [Token.read?, hsymbol]
    simp only [Token.readAfter?]
    rw [if_neg hafter, if_neg hlast, hindex, hranged]
    simp only [Token.readDistance?, hfar', hranged']

end Deflate

end FantasyComputer
