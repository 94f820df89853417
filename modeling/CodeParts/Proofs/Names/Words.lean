import CodeParts.Proofs.Names.Declared
import Mathlib.Data.Set.Card

/-!
# Words and their counts

A word of a text is a maximal run of word characters (`Source.WordRun`), letters and digits of
all scripts among them. The pattern for identifiers takes only characters of names, but it
begins and ends at a word edge. In a text without dollar signs all characters of names are word
characters, so what it takes is a word from one end to the other; and where a word spells a name,
it takes all of it (`firstEnd_iff_wordRun`).

Two words of a text do not overlap, so a search finds all of them that spell names
(`mem_allMatches_iff`), and counting the identifiers is counting words (`counts_of_words`).
-/

namespace CodeParts

namespace Source

variable {src : Source} {a b c d : Nat}

/-- The span `[a, b)` is a maximal run of word characters: all its characters are word characters,
and none stands next to it. -/
structure WordRun (src : Source) (a b : Nat) : Prop where
  lt : a < b
  inside : ∀ j, a ≤ j → j < b → src.classAt isWordChar j = true
  before : src.wordBefore a = false
  behind : src.classAt isWordChar b = false

theorem wordBefore_of_classAt (hab : a < b) (h : src.classAt isWordChar (b - 1) = true) :
    src.wordBefore b = true := by
  rw [wordBefore, h, Bool.and_true, bne_iff_ne]
  exact Nat.ne_zero_of_lt hab

/-- Word characters between two word edges are a maximal run. -/
theorem wordRun_of_edges (hab : a < b)
    (hinside : ∀ j, a ≤ j → j < b → src.classAt isWordChar j = true)
    (ha : src.wordEdgeAt a = true) (hb : src.wordEdgeAt b = true) : src.WordRun a b := by
  refine ⟨hab, hinside, ?_, ?_⟩
  · rw [wordEdgeAt, hinside a (Nat.le_refl a) hab] at ha
    simpa using ha
  · rw [wordEdgeAt, wordBefore_of_classAt hab (hinside (b - 1) (by omega) (by omega))] at hb
    simpa using hb

namespace WordRun

theorem edge_start (h : src.WordRun a b) : src.wordEdgeAt a = true := by
  rw [wordEdgeAt, h.before, h.inside a (Nat.le_refl a) h.lt]
  rfl

theorem edge_stop (h : src.WordRun a b) : src.wordEdgeAt b = true := by
  have hlast := h.inside (b - 1) (Nat.le_sub_one_of_lt h.lt) (Nat.sub_one_lt_of_lt h.lt)
  rw [wordEdgeAt, wordBefore_of_classAt h.lt hlast, h.behind]
  rfl

/-- A word ends before the next one begins. -/
theorem stop_le (h : src.WordRun a b) (h' : src.WordRun c d) (hac : a < c) : b ≤ c := by
  refine Nat.le_of_not_lt fun hcb => ?_
  have hword := wordBefore_of_classAt hac (h.inside (c - 1) (by omega) (by omega))
  rw [h'.before] at hword
  cases hword

theorem le_size (h : src.WordRun a b) : b ≤ src.size := by
  have := Pattern.lt_size_of_classAt (h.inside (b - 1) (Nat.le_sub_one_of_lt h.lt)
    (Nat.sub_one_lt_of_lt h.lt))
  omega

end WordRun

/-- The spans of the words of a text that read `w`. -/
def wordSpans (src : Source) (w : String) : Set (Nat × Nat) :=
  {s | src.WordRun s.1 s.2 ∧ src.slice s.1 s.2 = w.toList}

end Source

namespace Names

open Pattern Construct

variable {src : Source} {text w : String} {cs : List Char} {a b i : Nat} {m : Match}

/-! ### Words that are names -/

/-- The characters spell a word of ASCII: a letter or an underscore, then letters, digits and
underscores. -/
def isWord : List Char → Bool
  | [] => false
  | ch :: cs => (ch.isAlpha || ch == '_') && cs.all fun c => c.isAlphanum || c == '_'

theorem isWord_iff : isWord cs = true ↔ isName cs = true ∧ '$' ∉ cs := by
  cases cs with
  | nil => simp [isWord, isName]
  | cons ch cs =>
      have hstart : (ch.isAlpha || ch == '_') = true ↔ isNameStart ch = true ∧ ch ≠ '$' := by
        by_cases hch : ch = '$'
        · subst hch
          decide
        · simp [isNameStart, hch]
      have hrest (d : Char) :
          (d.isAlphanum || d == '_') = true ↔ isNameChar d = true ∧ d ≠ '$' := by
        by_cases hd : d = '$'
        · subst hd
          decide
        · simp [isNameChar, isNameStart, Char.isAlphanum, hd]
          tauto
      simp only [isWord, isName, Bool.and_eq_true, List.all_eq_true, hstart, hrest, List.mem_cons,
        not_or, ← ne_eq]
      constructor
      · rintro ⟨⟨hname, hch⟩, hall⟩
        exact ⟨⟨hname, fun d hd => (hall d hd).1⟩, hch.symm, fun hmem => (hall _ hmem).2 rfl⟩
      · rintro ⟨⟨hname, hall⟩, hch, hmem⟩
        exact ⟨⟨hname, hch.symm⟩, fun d hd => ⟨hall d hd, fun heq => hmem (heq ▸ hd)⟩⟩

/-! ### The words that the pattern takes -/

theorem classAt_isWordChar (hdollar : '$' ∉ src.toList) (h : src.classAt isNameChar i = true) :
    src.classAt isWordChar i = true := by
  obtain ⟨ch, hch, hname⟩ := exists_charAt_of_classAt (fun _ => id) h
  rw [Source.classAt_eq, hch, Option.any_some]
  refine isWordChar_of_isNameChar hname fun heq => hdollar ?_
  rw [heq, Source.charAt_eq] at hch
  exact List.mem_of_getElem? hch

/-- In a text without dollar signs a name between word edges is a whole word, and a word that is
a name is taken whole. -/
theorem firstEnd_iff_wordRun (hdollar : '$' ∉ src.toList) :
    src.wordEdgeAt a = true ∧ firstEnd src namePattern wordEdge a = some b ↔
      src.WordRun a b ∧ isName (src.slice a b) = true := by
  constructor
  · rintro ⟨ha, hfirst⟩
    obtain ⟨hends, hedge⟩ := of_firstEnd hfirst
    refine ⟨Source.wordRun_of_edges (mem_ends_namePattern.1 hends).2.1 (fun j haj hjb => ?_) ha
      (ends_wordEdge_ne_nil_iff.1 hedge), isName_of_mem_ends hends⟩
    exact classAt_isWordChar hdollar (classAt_of_mem_ends_namePattern hends haj hjb)
  · rintro ⟨hword, hname⟩
    refine ⟨hword.edge_start, firstEnd_of_head? ?_ (ends_wordEdge_ne_nil_iff.2 hword.edge_stop)⟩
    have hinside : ∀ ch ∈ src.slice a b, isNameChar ch = true := fun _ hch =>
      isNameChar_of_isName hname hch
    have hstart : src.classAt isNameStart a = true := by
      obtain ⟨ch, hch, -⟩ := exists_charAt_of_classAt (fun _ => id)
        (hword.inside a (Nat.le_refl a) hword.lt)
      rw [Source.slice_of_charAt hword.lt hch, isName, Bool.and_eq_true] at hname
      rw [Source.classAt_eq, hch, Option.any_some]
      exact hname.1
    -- What stands behind the word is no character of a name, for that would be one of a word.
    have hbehind : src.classAt isNameChar b = false := by
      by_contra hno
      have := classAt_isWordChar hdollar (Bool.not_eq_false _ ▸ hno)
      rw [hword.behind] at this
      cases this
    rw [head?_ends_namePattern hstart, runEnd_of_classAt hword.lt hword.le_size ?_ hbehind]
    exact fun j haj => classAt_of_forall_mem_slice hinside hword.le_size (Nat.le_of_succ_le haj)

/-- In a text without dollar signs the pattern for identifiers matches the words that are names,
each where it begins. -/
theorem matchAt_identifierPattern (hdollar : '$' ∉ src.toList) :
    identifierPattern.matchAt src a = some m ↔
      ∃ b, (src.WordRun a b ∧ isName (src.slice a b) = true) ∧ m = ⟨a, b, [("name", a, b)]⟩ := by
  have hpattern : identifierPattern = seq wordEdge (seq (group "name" namePattern) wordEdge) := rfl
  simp only [← firstEnd_iff_wordRun hdollar]
  rw [hpattern, matchAt_named (q := namePattern) rfl rfl rfl, ends_wordEdge]
  split
  · next ha =>
      rw [List.findSome?_singleton, Option.bind_eq_some_iff]
      refine exists_congr fun b => ?_
      constructor
      · rintro ⟨hb, hm⟩
        obtain ⟨e, he, rfl⟩ := Option.map_eq_some_iff.1 hm
        obtain ⟨-, rfl⟩ := mem_ends_wordEdge.1 (List.mem_of_mem_head? he)
        exact ⟨⟨ha, hb⟩, rfl⟩
      · rintro ⟨⟨-, hb⟩, rfl⟩
        have hedge := ((firstEnd_iff_wordRun hdollar).1 ⟨ha, hb⟩).1.edge_stop
        exact ⟨hb, by simp [hedge]⟩
  · next ha => simp [ha]

/-- A search finds the words that are names, all of them. -/
theorem mem_allMatches_iff (hdollar : '$' ∉ src.toList) :
    m ∈ identifierPattern.allMatches src ↔
      ∃ a b, (src.WordRun a b ∧ isName (src.slice a b) = true) ∧
        m = ⟨a, b, [("name", a, b)]⟩ := by
  constructor
  · intro h
    obtain ⟨a, -, hm⟩ := exists_matchAt_of_mem_findAll h
    exact ⟨a, (matchAt_identifierPattern hdollar).1 hm⟩
  · rintro ⟨a, b, hword, hm⟩
    refine mem_findAll_of_matchAt (Nat.zero_le a)
      (Nat.le_trans (Nat.le_of_lt hword.1.lt) hword.1.le_size)
      ((matchAt_identifierPattern hdollar).2 ⟨b, hword, hm⟩) fun k n _ hka hn => ?_
    obtain ⟨c, hbefore, rfl⟩ := (matchAt_identifierPattern hdollar).1 hn
    exact hbefore.1.stop_le hword.1 hka

/-! ### Counts -/

/-- The spans at which identifiers that read `w` are found, from left to right. -/
def foundSpans (src : Source) (w : String) : List (Nat × Nat) :=
  ((identifierPattern.allMatches src).filter fun m => m.text? src "name" == some w).map
    fun m => (m.start, m.stop)

theorem nodup_foundSpans (src : Source) (w : String) : (foundSpans src w).Nodup := by
  refine List.pairwise_map.2 (((pairwise_start_findAll src identifierPattern 0).filter _).imp ?_)
  intro m n hlt heq
  rw [Prod.mk.injEq] at heq
  exact Nat.ne_of_lt hlt heq.1

theorem count_identifiers (h : w ∉ reservedWords) :
    (identifiers src).count w = (foundSpans src w).length := by
  rw [identifiers, List.count_filter (by simpa using h), captures, List.count_filterMap,
    List.countP_eq_length_filter, foundSpans, List.length_map]

theorem mem_foundSpans (hdollar : '$' ∉ src.toList) (hname : isName w.toList = true)
    {s : Nat × Nat} : s ∈ foundSpans src w ↔ s ∈ src.wordSpans w := by
  obtain ⟨a, b⟩ := s
  rw [foundSpans, List.mem_map]
  constructor
  · rintro ⟨m, hm, hspan⟩
    obtain ⟨hm, htext⟩ := List.mem_filter.1 hm
    obtain ⟨c, d, ⟨hword, -⟩, rfl⟩ := (mem_allMatches_iff hdollar).1 hm
    cases hspan
    refine ⟨hword, ?_⟩
    rw [← Option.some.inj (beq_iff_eq.1 htext), String.toList_ofList]
  · rintro ⟨hword, hslice⟩
    refine ⟨⟨a, b, [("name", a, b)]⟩,
      List.mem_filter.2 ⟨(mem_allMatches_iff hdollar).2 ?_, ?_⟩, rfl⟩
    · exact ⟨a, b, ⟨hword, by rw [hslice]; exact hname⟩, rfl⟩
    · change (some (String.ofList (src.slice a b)) == some w) = true
      rw [hslice, String.ofList_toList, beq_self_eq_true]

/-- A word that is a name is found as often as it stands in the text. -/
theorem encard_wordSpans (hdollar : '$' ∉ src.toList) (hname : isName w.toList = true)
    (h : w ∉ reservedWords) :
    (src.wordSpans w).encard = countOf (identifierCounts src) w := by
  have hspans : src.wordSpans w = ↑(foundSpans src w).toFinset := by
    ext s
    rw [Finset.mem_coe, List.mem_toFinset, mem_foundSpans hdollar hname]
  rw [hspans, Set.encard_coe_eq_coe_finsetCard,
    List.toFinset_card_of_nodup (nodup_foundSpans src w), countOf_identifierCounts,
    count_identifiers h]

/-- The keys of the counts are the words that are names and not reserved. -/
theorem mem_keys_iff (hdollar : '$' ∉ src.toList) :
    w ∈ (identifierCounts src).map Prod.fst ↔
      isWord w.toList = true ∧ w ∉ reservedWords ∧ (src.wordSpans w).Nonempty := by
  rw [identifierCounts, mem_map_fst_tally]
  constructor
  · intro h
    obtain ⟨hcaptured, hreserved⟩ := List.mem_filter.1 h
    obtain ⟨m, hm, htext⟩ := List.mem_filterMap.1 hcaptured
    obtain ⟨a, b, ⟨hword, hname⟩, rfl⟩ := (mem_allMatches_iff hdollar).1 hm
    have hslice : src.slice a b = w.toList := by
      rw [← Option.some.inj htext, String.toList_ofList]
    rw [hslice] at hname
    refine ⟨isWord_iff.2 ⟨hname, fun hmem => hdollar ?_⟩, of_decide_eq_true hreserved, (a, b),
      hword, hslice⟩
    rw [← hslice, Source.slice_eq] at hmem
    exact List.mem_of_mem_drop (List.mem_of_mem_take hmem)
  · rintro ⟨hword, hreserved, s, hs⟩
    have hspan := (mem_foundSpans hdollar (isWord_iff.1 hword).1).2 hs
    rw [← List.count_pos_iff, count_identifiers hreserved]
    exact List.length_pos_of_mem hspan

/-- In a text without dollar signs every word of ASCII that is not reserved is counted as often
as it is a word of the text, from one end to the other. Nothing else is counted, and so nothing
that stands next to a digit or to a letter of any script wherever it occurs. -/
theorem counts_of_words (hdollar : '$' ∉ text.toList) :
    (∀ w, isWord w.toList = true → w ∉ reservedWords →
        ((Source.ofString text).wordSpans w).encard =
          countOf (identifierCounts (Source.ofString text)) w) ∧
      (∀ w, w ∈ (identifierCounts (Source.ofString text)).map Prod.fst ↔
        isWord w.toList = true ∧ w ∉ reservedWords ∧
          ((Source.ofString text).wordSpans w).Nonempty) ∧
      ∀ w, (∀ a, w.toList <+: text.toList.drop a →
          (Source.ofString text).wordBefore a = true ∨
            (Source.ofString text).classAt isWordChar (a + w.length) = true) →
        w ∉ (identifierCounts (Source.ofString text)).map Prod.fst := by
  rw [← Source.toList_ofString text] at hdollar
  refine ⟨fun w hword hreserved => encard_wordSpans hdollar (isWord_iff.1 hword).1 hreserved,
    fun w => mem_keys_iff hdollar, fun w hglued hkey => ?_⟩
  obtain ⟨-, -, ⟨a, b⟩, hword, hslice⟩ := (mem_keys_iff hdollar).1 hkey
  have hlength : w.length = b - a := by
    rw [← String.length_toList, ← hslice, Source.length_slice, Nat.min_eq_left hword.le_size]
  have hoccurs : w.toList <+: text.toList.drop a := by
    rw [← hslice, Source.slice_eq]
    exact List.take_prefix _ _
  -- A word of the text has no word character on either side.
  have hbehind := hword.behind
  rcases hglued a hoccurs with h | h
  · rw [hword.before] at h
    cases h
  · rw [hlength, Nat.add_sub_cancel' (Nat.le_of_lt hword.lt), hbehind] at h
    cases h

/-- A name that stands four times in the text, and twice as a word of its own, and one that
stands only before a letter that is not of ASCII. -/
theorem counts_of_words_glued :
    '$' ∉ "x 1x yé x\nx_".toList ∧ isWord "x".toList = true ∧ "x" ∉ reservedWords ∧
      ((Source.ofString "x 1x yé x\nx_").wordSpans "x").encard = 2 ∧
      "y" ∉ (identifierCounts (Source.ofString "x 1x yé x\nx_")).map Prod.fst := by
  have hdollar : '$' ∉ "x 1x yé x\nx_".toList := by decide
  have hcount : countOf (identifierCounts (Source.ofString "x 1x yé x\nx_")) "x" = 2 :=
    (countOf_identifierCounts _ _).trans (by decide +kernel)
  refine ⟨hdollar, rfl, by decide, ?_, (counts_of_words hdollar).2.2 "y" fun a ha => .inr ?_⟩
  · rw [(counts_of_words hdollar).1 "x" rfl (by decide), hcount]
    rfl
  · have hglued : ∀ a < 12, "y".toList <+: "x 1x yé x\nx_".toList.drop a →
        (Source.ofString "x 1x yé x\nx_").classAt isWordChar (a + 1) = true := by decide +kernel
    refine hglued a (Nat.lt_of_not_le fun hle => ?_) ha
    rw [List.drop_eq_nil_of_le hle, List.prefix_nil] at ha
    cases ha

end Names

end CodeParts
