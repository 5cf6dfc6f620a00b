/-
# FantasyComputer.Proofs.Deflation — what is compressed is decompressed again.

The compressor may choose any tokens that stand for its data: `Splits` says what that takes.  A
literal is the byte at its position, and a copy repeats bytes that the data repeats as well, so that
the decompressor, which only knows what it has written so far, writes what the data holds
(`expand_extract`).  The tokens that the search finds are of that kind whatever distances it looks
at (`splits_tokensFrom`), and tokens of that kind are read back to the data
(`Splits.yields_readTokens?`).

`inflate?_deflate` is the round trip, for every byte string and every list of distances within the
reach of a copy.
-/
import FantasyComputer.Proofs.FixedCodes

namespace FantasyComputer

open BitStream (Yields)

namespace Deflate

variable {data : Array UInt8}

/-! ## Copies -/

/-- Whether a stretch of the data repeats the bytes at a distance before it. -/
def Repeats (data : Array UInt8) (position length distance : Nat) : Prop :=
  ∀ i < length, position + i < data.size ∧ data[position + i]? = data[position + i - distance]?

/-- **Copies.**  Carrying out a copy after the data up to a position appends the stretch that the
copy stands for, also where it overlaps what it writes. -/
theorem expand_extract {position length distance : Nat} (hpos : 0 < distance)
    (hdistance : distance ≤ position) (h : Repeats data position length distance) :
    Token.expand (data.extract 0 position) distance length
      = data.extract 0 (position + length) := by
  induction length generalizing position with
  | zero => rfl
  | succ length ih =>
    -- the first byte is there already; with it written the rest is a shorter copy
    obtain ⟨hlt, hbyte⟩ := h 0 (Nat.zero_lt_succ length)
    rw [Nat.add_zero] at hlt hbyte
    have hsize : (data.extract 0 position).size = position := by
      rw [Array.size_extract, Nat.min_eq_left (Nat.le_of_lt hlt), Nat.sub_zero]
    have hcopied : (data.extract 0 position).getD (position - distance) 0 = data[position] := by
      rw [Array.getD_eq_getD_getElem?, Array.getElem?_extract, if_pos (by omega), Nat.zero_add,
        ← hbyte, Array.getElem?_eq_getElem hlt, Option.getD_some]
    have hnext : Repeats data (position + 1) length distance := by
      intro i hi
      have hold := h (i + 1) (Nat.succ_lt_succ hi)
      rwa [show position + (i + 1) = position + 1 + i by omega] at hold
    rw [Token.expand, hsize, hcopied, Array.push_extract_getElem hlt, Nat.zero_min,
      ih (Nat.le_succ_of_le hdistance) hnext]
    congr 1
    omega

/-! ## The search for copies -/

/-- The search goes on as long as there are bytes and they agree. -/
theorem repetition_succ (data : Array UInt8) (distance position limit : Nat) :
    repetition data distance position (limit + 1)
      = if position < data.size ∧ data[position]? = data[position - distance]? then
          1 + repetition data distance (position + 1) limit
        else 0 := by
  by_cases hin : position < data.size
  · have hback : position - distance < data.size := Nat.lt_of_le_of_lt (Nat.sub_le _ _) hin
    have hbytes : data[position]? = data[position - distance]?
        ↔ data[position] = data[position - distance] := by
      rw [Array.getElem?_eq_getElem hin, Array.getElem?_eq_getElem hback, Option.some.injEq]
    refine (dif_pos hin).trans ?_
    by_cases hagree : data[position] = data[position - distance]
    · rw [if_pos hagree, if_pos ⟨hin, hbytes.mpr hagree⟩]
    · rw [if_neg hagree, if_neg fun h => hagree (hbytes.mp h.2)]
  · rw [if_neg fun h => hin h.1]
    exact dif_neg hin

/-- The search counts bytes that repeat. -/
theorem repeats_repetition {position distance : Nat} (hdistance : distance ≤ position)
    (limit : Nat) :
    Repeats data position (repetition data distance position limit) distance := by
  induction limit generalizing position with
  | zero =>
    intro i hi
    exact absurd hi (Nat.not_lt_zero i)
  | succ limit ih =>
    intro i hi
    rw [repetition_succ] at hi
    split at hi
    · next hagree =>
      cases i with
      | zero => exact hagree
      | succ i =>
        rw [show position + (i + 1) = position + 1 + i by omega]
        exact ih (show distance ≤ position + 1 by omega) i (by omega)
    · exact absurd hi (Nat.not_lt_zero i)

theorem repetition_le (data : Array UInt8) (distance position limit : Nat) :
    repetition data distance position limit ≤ limit := by
  induction limit generalizing position with
  | zero => exact Nat.le_refl 0
  | succ limit ih =>
    have hmore := ih (position + 1)
    rw [repetition_succ]
    split <;> omega

/-- What the search may answer for a position: nothing, or a copy that can be carried out there. -/
def Found (distances : List Nat) (data : Array UInt8) (position : Nat) (best : Nat × Nat) : Prop :=
  best.1 = 0 ∨ best.1 ≤ maxCopy ∧ 0 < best.2 ∧ best.2 ≤ position ∧ best.2 ∈ distances
    ∧ Repeats data position best.1 best.2

theorem Found.longer {distances : List Nat} {position distance : Nat} {best : Nat × Nat}
    (h : Found distances data position best) (hdistance : distance ∈ distances) :
    Found distances data position (longer data position best distance) := by
  unfold Deflate.longer
  split
  · next hreach =>
    simp only
    split
    · exact Or.inr ⟨repetition_le _ _ _ _, hreach.1, hreach.2, hdistance,
        repeats_repetition hreach.2 _⟩
    · exact h
  · exact h

theorem found_longest (distances : List Nat) (data : Array UInt8) (position : Nat) :
    Found distances data position (longest distances data position) := by
  have hfold : ∀ (looked : List Nat) (best : Nat × Nat), (∀ d ∈ looked, d ∈ distances) →
      Found distances data position best →
        Found distances data position (looked.foldl (Deflate.longer data position) best) := by
    intro looked
    induction looked with
    | nil =>
      intro best _ h
      exact h
    | cons distance looked ih =>
      intro best hlooked h
      exact ih _ (fun d hd => hlooked d (List.mem_cons_of_mem distance hd))
        (h.longer (hlooked distance List.mem_cons_self))
  exact hfold distances (0, 0) (fun _ hd => hd) (Or.inl rfl)

/-! ## Splitting into tokens -/

/-- Tokens that stand for the data from a position on. -/
inductive Splits (data : Array UInt8) : Nat → List Token → Prop where
  | done : Splits data data.size []
  | literal {position : Nat} {tokens : List Token} (hlt : position < data.size)
      (hrest : Splits data (position + 1) tokens) :
      Splits data position (.literal data[position] :: tokens)
  | copy {position length distance : Nat} {tokens : List Token}
      (hwritable : Writable (.copy length distance)) (hdistance : distance ≤ position)
      (hrepeats : Repeats data position length distance)
      (hrest : Splits data (position + length) tokens) :
      Splits data position (.copy length distance :: tokens)

theorem Repeats.end_le {position length distance : Nat} (h : Repeats data position length distance)
    (hpos : 0 < length) : position + length ≤ data.size := by
  have hlast := (h (length - 1) (by omega)).1
  omega

/-- **The search splits the data.** -/
theorem splits_tokensFrom {distances : List Nat} (hreach : ∀ d ∈ distances, d ≤ 32768)
    (position : Nat) (found : Array Token) (hle : position ≤ data.size) :
    ∃ tokens, (tokensFrom distances data position found).toList = found.toList ++ tokens
      ∧ Splits data position tokens := by
  fun_induction tokensFrom distances data position found with
  | case1 position found hlt length distance hlongest hcopy ih =>
    -- a copy is taken only when the search has found one
    have hfound := found_longest distances data position
    rw [hlongest] at hfound
    have hnonzero : ¬length = 0 := by
      intro hzero
      rw [hzero] at hcopy
      exact absurd hcopy (by decide)
    obtain ⟨hmax, hpos, hdistance, hmem, hrepeats⟩ := hfound.resolve_left hnonzero
    obtain ⟨tokens, htokens, hsplits⟩ := ih (hrepeats.end_le (by omega))
    refine ⟨.copy length distance :: tokens, ?_, ?_⟩
    · rw [htokens, Array.toList_push, List.append_assoc, List.singleton_append]
    · exact Splits.copy ⟨hcopy, hmax, hpos, hreach distance hmem⟩ hdistance hrepeats hsplits
  | case2 position found hlt length distance hlongest hshort ih =>
    obtain ⟨tokens, htokens, hsplits⟩ := ih hlt
    refine ⟨.literal data[position] :: tokens, ?_, Splits.literal hlt hsplits⟩
    rw [htokens, Array.toList_push, List.append_assoc, List.singleton_append]
  | case3 position found hover =>
    have hend : position = data.size := by omega
    refine ⟨[], (List.append_nil _).symm, ?_⟩
    rw [hend]
    exact Splits.done

/-! ## Reading the tokens -/

/-- One token of a block. -/
theorem readTokens?_eq {literals distances : PrefixCode} {s t : BitStream} {token : Token}
    (h : Token.read? literals distances s = some (token, t)) (out : Array UInt8) :
    Inflate.readTokens? literals distances s out
      = match token with
        | .endOfBlock => some (out, t)
        | .literal byte => Inflate.readTokens? literals distances t (out.push byte)
        | .copy length distance =>
          if distance ≤ out.size then
            Inflate.readTokens? literals distances t (Token.expand out distance length)
          else none := by
  rw [Inflate.readTokens?]
  split
  all_goals
    next hread =>
      rw [h] at hread
      cases hread
      try rfl

/-- **Reading a block.**  Tokens that stand for the data from a position on are read back to the
data, when the data before that position is there already. -/
theorem Splits.yields_readTokens? {position : Nat} {tokens : List Token}
    (hsplits : Splits data position tokens) {s : BitStream} {rest : List Bool}
    (h : s.bits = (tokens ++ [Token.endOfBlock]).flatMap tokenBits ++ rest) :
    Yields (Inflate.readTokens? Inflate.fixedLiterals Inflate.fixedDistances s
      (data.extract 0 position)) data rest := by
  induction hsplits generalizing s with
  | done =>
    have hbits : s.bits = tokenBits .endOfBlock ++ rest := by
      rw [h, List.nil_append, List.flatMap_singleton]
    obtain ⟨t, hread, ht⟩ := yields_read? (show Writable .endOfBlock from trivial) hbits
    refine ⟨t, ?_, ht⟩
    rw [readTokens?_eq hread, Array.extract_size]
  | @literal position tokens hlt hrest ih =>
    have hbits : s.bits = tokenBits (.literal data[position])
        ++ ((tokens ++ [Token.endOfBlock]).flatMap tokenBits ++ rest) := by
      rw [h, List.cons_append, List.flatMap_cons, List.append_assoc]
    obtain ⟨t, hread, ht⟩ := yields_read? (show Writable (.literal _) from trivial) hbits
    rw [readTokens?_eq hread]
    simp only
    rw [Array.push_extract_getElem hlt, Nat.zero_min]
    exact ih ht
  | @copy position length distance tokens hwritable hdistance hrepeats hrest ih =>
    have hbits : s.bits = tokenBits (.copy length distance)
        ++ ((tokens ++ [Token.endOfBlock]).flatMap tokenBits ++ rest) := by
      rw [h, List.cons_append, List.flatMap_cons, List.append_assoc]
    obtain ⟨t, hread, ht⟩ := yields_read? hwritable hbits
    have hlength : 0 < length := Nat.lt_of_lt_of_le (by decide) hwritable.1
    have hend := hrepeats.end_le hlength
    have hsize : (data.extract 0 position).size = position := by
      rw [Array.size_extract, Nat.min_eq_left (by omega), Nat.sub_zero]
    rw [readTokens?_eq hread]
    simp only
    rw [hsize, if_pos hdistance, expand_extract hwritable.2.2.1 hdistance hrepeats]
    exact ih ht

/-- One block of a stream. -/
theorem readBlocks?_eq {s t u : BitStream} {mark : Nat} {out all : Array UInt8}
    (hmark : s.number? 3 = some (mark, t))
    (hblock : Inflate.readBlock? (mark / 2) t out = some (all, u)) :
    Inflate.readBlocks? s out
      = if mark % 2 = 1 then some (all, u) else Inflate.readBlocks? u all := by
  rw [Inflate.readBlocks?]
  split
  · next hnone =>
    rw [hmark] at hnone
    cases hnone
  · next hsome =>
    rw [hmark] at hsome
    cases hsome
    split
    · next hnone =>
      rw [hblock] at hnone
      cases hnone
    · next hall =>
      rw [hblock] at hall
      cases hall
      rfl

end Deflate

/-! ## The round trip -/

/-- The one block of compressed data: its mark, its tokens, and what is left over, which are the zeros
that fill its last byte and the bytes that follow it. -/
theorem exists_block_deflate {distances : List Nat} (hreach : ∀ d ∈ distances, d ≤ 32768)
    (data more : Bytes) :
    ∃ zeros < 8, ∃ t u : BitStream,
      (BitStream.ofBytes (deflate distances data ++ more)).number? 3
          = some (Deflate.lastFixedMark, t)
        ∧ Inflate.readTokens? Inflate.fixedLiterals Inflate.fixedDistances t #[]
          = some (data.toArray, u)
        ∧ u.bits = List.replicate zeros false ++ more.flatMap bitsOfByte := by
  obtain ⟨tokens, htokens, hsplits⟩ :=
    Deflate.splits_tokensFrom hreach 0 #[] (Nat.zero_le data.toArray.size)
  obtain ⟨zeros, hfew, hpack⟩ := bits_ofBytes_pack
    (bitsOfNat 3 Deflate.lastFixedMark
      ++ (Deflate.tokens distances data.toArray ++ [Token.endOfBlock]).flatMap Deflate.tokenBits)
    more
  change (BitStream.ofBytes (deflate distances data ++ more)).bits = _ at hpack
  rw [Deflate.tokens, htokens, List.append_assoc] at hpack
  obtain ⟨t, hmark, ht⟩ := BitStream.yields_number? (by decide) hpack
  obtain ⟨u, hblock, hu⟩ := hsplits.yields_readTokens? ht
  rw [Array.extract_eq_empty_of_le (Nat.min_le_left 0 _)] at hblock
  exact ⟨zeros, hfew, t, u, hmark, hblock, hu⟩

/-- A stream whose only block has fixed codes is read as that block. -/
theorem readBlocks?_of_fixed {s t u : BitStream} {out : Array UInt8}
    (hmark : s.number? 3 = some (Deflate.lastFixedMark, t))
    (hblock : Inflate.readTokens? Inflate.fixedLiterals Inflate.fixedDistances t #[]
      = some (out, u)) :
    Inflate.readBlocks? s #[] = some (out, u) := by
  rw [Deflate.readBlocks?_eq hmark hblock]
  rfl

/-- **Compressed data is decompressed again**, whatever distances the compressor looks at, as long
as a copy reaches that far. -/
theorem inflate?_deflate {distances : List Nat} (hreach : ∀ d ∈ distances, d ≤ 32768)
    (data : Bytes) : inflate? (deflate distances data) = some data := by
  obtain ⟨zeros, -, t, u, hmark, hblock, -⟩ := exists_block_deflate hreach data []
  rw [List.append_nil] at hmark
  rw [inflate?, Inflate.split?, readBlocks?_of_fixed hmark hblock]
  rfl

end FantasyComputer
