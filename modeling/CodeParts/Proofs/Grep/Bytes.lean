import CodeParts.Proofs.Grep.Hits

/-!
# Searching the bytes of a text

A text is kept as its UTF-8 form, and a needle is looked for among the bytes of that. The hits are
byte offsets then, and one pass turns them into character offsets: for each hit the characters
since the one before are counted and added to what was counted up to there (`charOffsets`).

The bytes of a needle stand exactly where the needle does. A needle begins with the first byte of a
character, so its bytes do not stand in the middle of one (`not_prefix_inside`), and the form of a
character does not begin that of another, so bytes that agree come from characters that agree
(`utf8Bytes_prefix_iff`). So the search among the bytes takes the same hits as the one among the
characters (`spacedOffsets_byteStart`), and counting leads from the bytes back to the characters
(`charOffsets_byteStart`).
-/

namespace CodeParts

variable {cs lit : List Char} {c d : Char} {b : UInt8} {bs bs' : List UInt8} {i j k : Nat}

/-- The bytes of the UTF-8 form of a text. -/
def utf8Bytes (cs : List Char) : List UInt8 := cs.flatMap String.utf8EncodeChar

/-- The number of characters that begin among some bytes. -/
def charCount (bs : List UInt8) : Nat := bs.countP fun b => decide b.IsUTF8FirstByte

/-- The byte offset at which character `k` begins. -/
def byteStart (cs : List Char) (k : Nat) : Nat := (utf8Bytes (cs.take k)).length

/-! ### Hits among bytes -/

/-- The byte offsets at which the needle stands, without overlaps. -/
def byteHits (text needle : List UInt8) : List Nat :=
  spacedOffsets (fun i => needle.isPrefixOf (text.drop i)) needle.length text.length 0

/-- The character offsets for byte offsets in increasing order, where the character offset
`lastChar` belongs to the byte offset `lastByte`: only what lies in between is counted. -/
def charOffsets (text : List UInt8) (lastByte lastChar : Nat) : (offsets : List Nat) → List Nat
  | [] => []
  | byte :: offsets =>
      let char := lastChar + charCount ((text.drop lastByte).take (byte - lastByte))
      char :: charOffsets text byte char offsets

/-- The character offsets of the hits of a needle, by way of the bytes. An empty needle hits at
every character. -/
def byteSearch (cs lit : List Char) : List Nat :=
  if lit = [] then List.range cs.length
  else charOffsets (utf8Bytes cs) 0 0 (byteHits (utf8Bytes cs) (utf8Bytes lit))

/-! ### Bytes of characters -/

@[simp] theorem utf8Bytes_nil : utf8Bytes [] = [] := rfl

@[simp] theorem utf8Bytes_cons (c : Char) (cs : List Char) :
    utf8Bytes (c :: cs) = String.utf8EncodeChar c ++ utf8Bytes cs := rfl

theorem utf8Bytes_append (cs ds : List Char) :
    utf8Bytes (cs ++ ds) = utf8Bytes cs ++ utf8Bytes ds := List.flatMap_append

/-- Only the first byte of a character is a first byte. -/
theorem isUTF8FirstByte_iff (h : (String.utf8EncodeChar c)[k]? = some b) :
    b.IsUTF8FirstByte ↔ k = 0 := by
  obtain ⟨hk, rfl⟩ := List.getElem?_eq_some_iff.1 h
  exact UInt8.isUTF8FirstByte_getElem_utf8EncodeChar

theorem exists_utf8EncodeChar (c : Char) :
    ∃ b bs, String.utf8EncodeChar c = b :: bs ∧ b.IsUTF8FirstByte ∧
      ∀ x ∈ bs, ¬ x.IsUTF8FirstByte := by
  cases hbytes : String.utf8EncodeChar c with
  | nil =>
      have hlength := String.length_utf8EncodeChar c
      have := c.utf8Size_pos
      rw [hbytes, List.length_nil] at hlength
      omega
  | cons b bs =>
      have hfirst : (String.utf8EncodeChar c)[0]? = some b := by rw [hbytes]; rfl
      refine ⟨b, bs, rfl, (isUTF8FirstByte_iff hfirst).2 rfl, fun x hx => ?_⟩
      obtain ⟨k, hk⟩ := List.getElem?_of_mem hx
      have hlater : (String.utf8EncodeChar c)[k + 1]? = some x := by rw [hbytes]; exact hk
      rw [isUTF8FirstByte_iff hlater]
      exact Nat.succ_ne_zero k

theorem charCount_utf8Bytes (cs : List Char) : charCount (utf8Bytes cs) = cs.length := by
  induction cs with
  | nil => rfl
  | cons c cs ih =>
      obtain ⟨b, bs, hbytes, hfirst, hrest⟩ := exists_utf8EncodeChar c
      have hnone : bs.countP (fun b => decide b.IsUTF8FirstByte) = 0 :=
        List.countP_eq_zero.2 fun x hx => by simpa using hrest x hx
      unfold charCount at ih ⊢
      rw [utf8Bytes_cons, List.countP_append, ih, hbytes, List.countP_cons, hnone,
        if_pos (decide_eq_true hfirst), List.length_cons]
      omega

/-- The form of a character does not begin that of another. -/
theorem eq_of_utf8EncodeChar_append
    (h : String.utf8EncodeChar c ++ bs = String.utf8EncodeChar d ++ bs') : c = d := by
  have hdecode := congrArg (fun xs => xs.toByteArray.utf8DecodeChar? 0) h
  simp only [List.toByteArray_append, ByteArray.utf8DecodeChar?_utf8EncodeChar_append] at hdecode
  exact Option.some.inj hdecode

/-- Bytes that agree come from characters that agree. -/
theorem utf8Bytes_prefix_iff : utf8Bytes lit <+: utf8Bytes cs ↔ lit <+: cs := by
  constructor
  · intro h
    induction lit generalizing cs with
    | nil => exact List.nil_prefix
    | cons c lit ih =>
        obtain ⟨rest, hrest⟩ := h
        rw [utf8Bytes_cons, List.append_assoc] at hrest
        cases cs with
        | nil =>
            obtain ⟨b, bs, hbytes, -⟩ := exists_utf8EncodeChar c
            rw [hbytes] at hrest
            cases hrest
        | cons d cs =>
            obtain rfl := eq_of_utf8EncodeChar_append hrest
            have htail := List.append_cancel_left hrest
            exact List.cons_prefix_cons.2 ⟨rfl, ih ⟨rest, htail⟩⟩
  · intro h
    obtain ⟨rest, rfl⟩ := h
    rw [utf8Bytes_append]
    exact List.prefix_append _ _

/-! ### Where characters begin -/

theorem drop_byteStart (cs : List Char) (k : Nat) :
    (utf8Bytes cs).drop (byteStart cs k) = utf8Bytes (cs.drop k) := by
  conv_lhs => rw [← List.take_append_drop k cs, utf8Bytes_append]
  rw [byteStart, List.take_append_drop, List.drop_left]

theorem take_byteStart (cs : List Char) (k : Nat) :
    (utf8Bytes cs).take (byteStart cs k) = utf8Bytes (cs.take k) := by
  conv_lhs => rw [← List.take_append_drop k cs, utf8Bytes_append]
  rw [byteStart, List.take_append_drop, List.take_left]

theorem byteStart_add (cs : List Char) (k m : Nat) :
    byteStart cs (k + m) = byteStart cs k + byteStart (cs.drop k) m := by
  rw [byteStart, List.take_add, utf8Bytes_append, List.length_append]
  rfl

theorem byteStart_cons_one (c : Char) (cs : List Char) :
    byteStart (c :: cs) 1 = (String.utf8EncodeChar c).length := by
  rw [byteStart, List.take_succ_cons, utf8Bytes_cons, List.take_zero, utf8Bytes_nil,
    List.append_nil]

theorem byteStart_of_length_le (h : cs.length ≤ k) : byteStart cs k = (utf8Bytes cs).length := by
  rw [byteStart, List.take_of_length_le h]

theorem byteStart_le (cs : List Char) (k : Nat) : byteStart cs k ≤ (utf8Bytes cs).length := by
  rw [byteStart, ← take_byteStart]
  exact List.length_take_le' _ _

/-- A character takes at least one byte. -/
theorem byteStart_lt_succ (h : k < cs.length) : byteStart cs k < byteStart cs (k + 1) := by
  rw [byteStart_add, List.drop_eq_getElem_cons h, byteStart_cons_one]
  obtain ⟨b, bs, hbytes, -⟩ := exists_utf8EncodeChar cs[k]
  rw [hbytes, List.length_cons]
  omega

/-- Behind a needle a character begins where its bytes end. -/
theorem byteStart_add_length (h : lit <+: cs.drop k) :
    byteStart cs (k + lit.length) = byteStart cs k + (utf8Bytes lit).length := by
  obtain ⟨rest, hrest⟩ := h
  have hlit : byteStart (lit ++ rest) lit.length = (utf8Bytes lit).length := by
    rw [byteStart, List.take_left]
  rw [byteStart_add, ← hrest, hlit]

/-- Inside of a character no other begins. -/
theorem not_isUTF8FirstByte_inside (hlt : byteStart cs k < j) (hj : j < byteStart cs (k + 1))
    (hb : (utf8Bytes cs)[j]? = some b) : ¬ b.IsUTF8FirstByte := by
  obtain ⟨m, rfl⟩ := Nat.exists_eq_add_of_lt hlt
  rw [Nat.add_assoc, ← List.getElem?_drop, drop_byteStart] at hb
  rw [byteStart_add] at hj
  cases hrest : cs.drop k with
  | nil =>
      rw [hrest] at hb
      cases hb
  | cons c rest =>
      rw [hrest] at hb hj
      have hm : m + 1 < (String.utf8EncodeChar c).length := by
        rw [byteStart_cons_one] at hj
        omega
      rw [utf8Bytes_cons, List.getElem?_append_left hm] at hb
      rw [isUTF8FirstByte_iff hb]
      exact Nat.succ_ne_zero m

/-! ### The hits -/

/-- Where nothing is found a search goes on. -/
theorem spacedOffsets_skip {p : Nat → Bool} {width n : Nat} (hik : i ≤ k) (hkn : k ≤ n)
    (h : ∀ j, i ≤ j → j < k → ¬ p j = true) :
    spacedOffsets p width n i = spacedOffsets p width n k := by
  induction hik using Nat.decreasingInduction with
  | self => rfl
  | of_succ i hik ih =>
      rw [spacedOffsets, if_pos (by omega), if_neg (h i (Nat.le_refl _) hik)]
      exact ih fun j hj => h j (by omega)

/-- The bytes of a needle do not stand inside of a character. -/
theorem not_prefix_inside (hne : lit ≠ []) (hlt : byteStart cs k < j)
    (hj : j < byteStart cs (k + 1)) : ¬ utf8Bytes lit <+: (utf8Bytes cs).drop j := by
  intro h
  obtain ⟨rest, hrest⟩ := h
  obtain ⟨c, lit, rfl⟩ := List.exists_cons_of_ne_nil hne
  obtain ⟨b, bs, hbytes, hfirst, -⟩ := exists_utf8EncodeChar c
  refine not_isUTF8FirstByte_inside hlt hj ?_ hfirst
  rw [← Nat.add_zero j, ← List.getElem?_drop, ← hrest, utf8Bytes_cons, hbytes]
  rfl

/-- The search among the bytes that begins with a character finds what the search among the
characters finds. -/
theorem spacedOffsets_byteStart {p q : Nat → Bool} (hne : lit ≠ [])
    (hp : ∀ i, p i = true ↔ lit <+: cs.drop i)
    (hq : ∀ j, q j = true ↔ utf8Bytes lit <+: (utf8Bytes cs).drop j) (k : Nat) :
    spacedOffsets q (utf8Bytes lit).length (utf8Bytes cs).length (byteStart cs k) =
      (spacedOffsets p lit.length cs.length k).map (byteStart cs) := by
  have hboundary (i : Nat) : q (byteStart cs i) = true ↔ p i = true := by
    rw [hq, hp, drop_byteStart, utf8Bytes_prefix_iff]
  fun_induction spacedOffsets p lit.length cs.length k with
  | case1 k hlt hhit ih =>
      have hpos : 0 < lit.length := List.length_pos_iff.2 hne
      have hbytes : 0 < (utf8Bytes lit).length :=
        Nat.lt_of_lt_of_le (Nat.zero_lt_of_lt (byteStart_lt_succ hpos)) (byteStart_le lit (0 + 1))
      have hstart := byteStart_lt_succ hlt
      have hsize := byteStart_le cs (k + 1)
      rw [Nat.max_eq_right hpos, byteStart_add_length ((hp k).1 hhit)] at ih
      rw [spacedOffsets, if_pos (by omega), if_pos ((hboundary k).2 hhit),
        Nat.max_eq_right hbytes, ih, Nat.max_eq_right hpos, List.map_cons]
  | case2 k hlt hmiss ih =>
      have hstart := byteStart_lt_succ hlt
      rw [← ih]
      refine spacedOffsets_skip (Nat.le_of_lt hstart) (byteStart_le cs (k + 1)) fun j hle hj => ?_
      rcases Nat.eq_or_lt_of_le hle with rfl | hinside
      · rwa [hboundary]
      · rw [hq]
        exact not_prefix_inside hne hinside hj
  | case3 k hge =>
      rw [byteStart_of_length_le (Nat.le_of_not_lt hge), spacedOffsets_of_le (Nat.le_refl _)]
      rfl

/-- What is counted between the characters at two byte offsets is how many lie in between. -/
theorem charOffsets_byteStart {os : List Nat} (hsorted : os.Pairwise (· < ·))
    (hbounds : ∀ o ∈ os, k ≤ o ∧ o < cs.length) :
    charOffsets (utf8Bytes cs) (byteStart cs k) k (os.map (byteStart cs)) = os := by
  induction os generalizing k with
  | nil => rfl
  | cons o os ih =>
      obtain ⟨hfirst, hsorted⟩ := List.pairwise_cons.1 hsorted
      obtain ⟨⟨hko, ho⟩, hrest⟩ := List.forall_mem_cons.1 hbounds
      have hbetween : charCount
          (((utf8Bytes cs).drop (byteStart cs k)).take (byteStart cs o - byteStart cs k)) =
            o - k := by
        rw [show o = k + (o - k) by omega, byteStart_add, Nat.add_sub_cancel_left, drop_byteStart,
          take_byteStart, charCount_utf8Bytes, List.length_take, List.length_drop]
        omega
      rw [List.map_cons, charOffsets, hbetween, Nat.add_sub_cancel' hko,
        ih hsorted fun p hp => ⟨Nat.le_of_lt (hfirst p hp), (hrest p hp).2⟩]

/-- Searching the bytes and counting characters between the hits finds the hits. -/
theorem byteSearch_eq_hits (src : Source) (lit : List Char) :
    byteSearch src.toList lit = src.hits lit := by
  rw [byteSearch]
  split
  · next hnil => rw [hnil, Source.hits_nil, Source.length_toList]
  · next hne =>
    have hhits := Source.hits_eq src lit
    rw [← Source.length_toList] at hhits
    have hbytes : byteHits (utf8Bytes src.toList) (utf8Bytes lit) =
        (src.hits lit).map (byteStart src.toList) := by
      rw [hhits]
      exact spacedOffsets_byteStart hne (fun i => Source.literalAt_iff_prefix_drop)
        (fun j => List.isPrefixOf_iff_prefix) 0
    rw [hbytes]
    refine charOffsets_byteStart (k := 0) (Source.pairwise_hits src lit) fun o ho =>
      ⟨Nat.zero_le o, ?_⟩
    rw [Source.length_toList]
    exact Source.lt_size_of_mem_hits ho

/-- A character of three bytes before the first hit, and the second behind one of two bytes. -/
example : byteHits (utf8Bytes "€oéaé".toList) (utf8Bytes "é".toList) = [4, 7] ∧
    byteSearch "€oéaé".toList "é".toList = [2, 4] := by
  decide +kernel

namespace Grep

/-- A search finds the same by way of the bytes. -/
theorem search_eq_byteSearch (text needle : String) {scope : Scope} (h : 0 < scope.maxMatches) :
    search text needle scope =
      .ok (resultOf (.ofString text) (byteSearch text.toList needle.toList) scope) := by
  rw [search_of_pos h, ← byteSearch_eq_hits, Source.toList_ofString]

end Grep

end CodeParts
