import CodeParts.Proofs.Lexer.Steps
import CodeParts.Proofs.Names.Parts
import CodeParts.Proofs.Pattern.Ends

/-!
# Declared names among the identifiers

A declared name is taken by one of six forms, an identifier by a pattern of its own. Both take
names as long as possible, but the pattern for identifiers wants a word edge on either side,
and a dollar sign is a character of names and not of words.

What stands next to a declared name is never part of a name or of a word, except behind the
name of a class, where there is a word edge anyway. So a declared name is an identifier at the
same place if it begins and ends with a word character (`mem_captures_identifierPattern`). A
name that begins or ends with a dollar sign may be declared without being counted
(`declared_counted_iff`).
-/

namespace CodeParts.Names

open Pattern Construct

variable {src : Source} {p q words after : Pattern} {name : String} {ch : Char}
  {i j a b : Nat}

/-! ### Characters of names -/

theorem toNat_lt_of_isAlphanum (h : ch.isAlphanum = true) : ch.toNat < 0x80 := by
  change ((decide (ch.val ≥ 'A'.val ∧ ch.val ≤ 'Z'.val) ||
    decide (ch.val ≥ 'a'.val) && decide (ch.val ≤ 'z'.val)) ||
    decide (ch.val ≥ '0'.val) && decide (ch.val ≤ '9'.val)) = true at h
  simp only [Bool.or_eq_true, Bool.and_eq_true, decide_eq_true_eq, ge_iff_le,
    UInt32.le_iff_toNat_le] at h
  have hval : ch.toNat = ch.val.toNat := rfl
  have hupper : 'Z'.val.toNat = 90 := rfl
  have hlower : 'z'.val.toNat = 122 := rfl
  have hdigit : '9'.val.toNat = 57 := rfl
  omega

/-- But for the dollar sign, what may stand in a name may stand in a word. -/
theorem isWordChar_of_isNameChar (h : isNameChar ch = true) (hne : ch ≠ '$') :
    isWordChar ch = true := by
  have hword : ch.isAlphanum = true ∨ ch = '_' := by
    simp only [isNameChar, isNameStart, Bool.or_eq_true, beq_iff_eq] at h
    rw [Char.isAlphanum, Bool.or_eq_true]
    tauto
  rcases hword with hword | rfl
  · rw [isWordChar, if_pos (toNat_lt_of_isAlphanum hword), hword, Bool.true_or]
  · decide +kernel

/-- The character is part of neither a name nor a word. -/
def Separates (ch : Char) : Prop := isNameChar ch = false ∧ isWordChar ch = false

instance (ch : Char) : Decidable (Separates ch) := inferInstanceAs (Decidable (_ ∧ _))

/-- The numbers of the blank characters. -/
def blankCodes : List Nat :=
  [9, 10, 11, 12, 13, 0x20, 0x85, 0xA0, 0x1680, 0x2000, 0x2001, 0x2002, 0x2003, 0x2004, 0x2005,
    0x2006, 0x2007, 0x2008, 0x2009, 0x200A, 0x2028, 0x2029, 0x202F, 0x205F, 0x3000]

theorem separates_of_isBlank (h : isBlank ch = true) : Separates ch := by
  have hcodes : ∀ n ∈ blankCodes, Separates (Char.ofNat n) := by decide +kernel
  have hmem : ch.toNat ∈ blankCodes := by
    simp only [isBlank, Bool.or_eq_true, Bool.and_eq_true, beq_iff_eq, decide_eq_true_eq] at h
    simp only [blankCodes, List.mem_cons, List.not_mem_nil, or_false]
    omega
  have hseparates := hcodes _ hmem
  rwa [Char.ofNat_toNat] at hseparates

theorem not_isBlank_of_isNameChar (h : isNameChar ch = true) : isBlank ch = false := by
  by_contra hblank
  have hseparates := separates_of_isBlank (Bool.not_eq_false _ ▸ hblank)
  rw [hseparates.1] at h
  cases h

/-- The characters spell a name. -/
def isName : List Char → Bool
  | [] => false
  | ch :: cs => isNameStart ch && cs.all isNameChar

theorem exists_cons_of_isName {cs : List Char} (h : isName cs = true) :
    ∃ ch ds, cs = ch :: ds := by
  cases cs with
  | nil => cases h
  | cons ch ds => exact ⟨ch, ds, rfl⟩

theorem isNameChar_of_isName {cs : List Char} (h : isName cs = true) (hch : ch ∈ cs) :
    isNameChar ch = true := by
  cases cs with
  | nil => cases hch
  | cons d cs =>
      rw [isName, Bool.and_eq_true, List.all_eq_true] at h
      rcases List.mem_cons.1 hch with rfl | hch
      · rw [isNameChar, h.1, Bool.true_or]
      · exact h.2 ch hch

/-! ### Where names end -/

theorem mem_ends_namePattern :
    b ∈ namePattern.ends src a ↔
      src.classAt isNameStart a = true ∧ a < b ∧ b ≤ src.runEnd isNameChar (a + 1) := by
  rw [namePattern, mem_ends_seq, ends_one]
  by_cases ha : src.classAt isNameStart a = true
  · simp [ha]
    omega
  · simp [ha]

/-- A name is taken as long as possible. -/
theorem head?_ends_namePattern (h : src.classAt isNameStart a = true) :
    (namePattern.ends src a).head? = some (src.runEnd isNameChar (a + 1)) := by
  have hle := le_runEnd src isNameChar (a + 1)
  simp only [namePattern, ends_seq, ends_one, if_pos h, List.flatMap_singleton, ends_many,
    List.head?_reverse, List.getLast?_range']
  rw [if_neg (by omega)]
  congr 1
  omega

/-- All characters of a name are name characters. -/
theorem classAt_of_mem_ends_namePattern (h : b ∈ namePattern.ends src a) (haj : a ≤ j)
    (hjb : j < b) : src.classAt isNameChar j = true := by
  obtain ⟨hstart, hab, hb⟩ := mem_ends_namePattern.1 h
  rcases Nat.eq_or_lt_of_le haj with rfl | hlt
  · rw [Source.classAt_eq, Option.any_eq_true] at hstart ⊢
    obtain ⟨ch, hch, hcls⟩ := hstart
    exact ⟨ch, hch, by rw [isNameChar, hcls, Bool.true_or]⟩
  · exact classAt_of_le_of_lt_runEnd hlt (Nat.lt_of_lt_of_le hjb hb)

theorem le_size_of_mem_ends_namePattern (h : b ∈ namePattern.ends src a) : b ≤ src.size := by
  obtain ⟨hstart, -, hb⟩ := mem_ends_namePattern.1 h
  exact Nat.le_trans hb (runEnd_le (lt_size_of_classAt hstart))

/-- What is taken as a name spells one. -/
theorem isName_of_mem_ends (h : b ∈ namePattern.ends src a) :
    isName (src.slice a b) = true := by
  obtain ⟨hstart, hab, -⟩ := mem_ends_namePattern.1 h
  rw [Source.classAt_eq, Option.any_eq_true] at hstart
  obtain ⟨ch, hch, hstart⟩ := hstart
  rw [Source.slice_of_charAt hab hch, isName, hstart, Bool.true_and, List.all_eq_true]
  exact forall_mem_slice_of_classAt fun k hak hkb =>
    classAt_of_mem_ends_namePattern h (Nat.le_of_succ_le hak) hkb

/-! ### What stands next to a declared name -/

/-- Matches end just behind a character that separates words. -/
def EndsApart (p : Pattern) : Prop :=
  ∀ (src : Source) (i j : Nat), j ∈ p.ends src i →
    0 < j ∧ ∃ ch, src.charAt (j - 1) = some ch ∧ Separates ch

/-- Matches begin just before a character that separates words. -/
def BeginsApart (p : Pattern) : Prop :=
  ∀ (src : Source) (i : Nat), p.ends src i ≠ [] → ∃ ch, src.charAt i = some ch ∧ Separates ch

theorem exists_separates_of_classAt_isBlank (h : src.classAt isBlank i = true) :
    ∃ ch, src.charAt i = some ch ∧ Separates ch :=
  exists_charAt_of_classAt (fun _ => separates_of_isBlank) h

theorem EndsApart.seq (h : EndsApart q) (p : Pattern) : EndsApart (seq p q) := by
  intro src i j hj
  obtain ⟨k, -, hk⟩ := mem_ends_seq.1 hj
  exact h src k j hk

/-- Blanks behind a character that separates words. -/
theorem separates_before_runEnd (hi : ∃ ch, src.charAt i = some ch ∧ Separates ch) :
    ∃ ch, src.charAt (src.runEnd isBlank (i + 1) - 1) = some ch ∧ Separates ch := by
  rcases Nat.eq_or_lt_of_le (le_runEnd src isBlank (i + 1)) with heq | hlt
  · rw [← heq]
    exact hi
  · exact exists_separates_of_classAt_isBlank
      (classAt_of_le_of_lt_runEnd (i := i + 1) (by omega) (by omega))

theorem endsApart_gap : EndsApart gap := by
  intro src i j hj
  have hle := le_runEnd src isBlank (i + 1)
  rw [gap, several, ends_seq, ends_one] at hj
  split at hj
  · next hblank =>
      rw [List.flatMap_singleton, ends_all, List.mem_singleton] at hj
      rw [hj]
      exact ⟨by omega, separates_before_runEnd (exists_separates_of_classAt_isBlank hblank)⟩
  · cases hj

theorem endsApart_keyword_blanks {s : String} (hs : s.toList = [ch]) (hch : Separates ch) :
    EndsApart (Pattern.seq (keyword s) blanks) := by
  intro src i j hj
  have hle := le_runEnd src isBlank (i + 1)
  obtain ⟨k, hk, hj⟩ := mem_ends_seq.1 hj
  rw [keyword, hs] at hk
  obtain ⟨hlit, rfl⟩ := mem_ends_literal.1 hk
  rw [blanks, ends_all, List.mem_singleton] at hj
  have hchar : src.charAt i = some ch := Source.charIs_eq_true.1 (Bool.and_eq_true_iff.1 hlit).1
  rw [hj]
  exact ⟨Nat.lt_of_lt_of_le (Nat.succ_pos i) hle, separates_before_runEnd ⟨ch, hchar, hch⟩⟩

theorem beginsApart_blanks_keyword {s : String} (hs : s.toList = [ch]) (hch : Separates ch) :
    BeginsApart (Pattern.seq blanks (keyword s)) := by
  intro src i hends
  obtain ⟨j, hj⟩ := List.exists_mem_of_ne_nil _ hends
  obtain ⟨k, hk, hj⟩ := mem_ends_seq.1 hj
  rw [keyword, hs] at hj
  obtain ⟨hlit, -⟩ := mem_ends_literal.1 hj
  rw [blanks, ends_all, List.mem_singleton] at hk
  rcases Nat.eq_or_lt_of_le (le_runEnd src isBlank i) with heq | hlt
  · rw [hk, ← heq] at hlit
    exact ⟨ch, Source.charIs_eq_true.1 (Bool.and_eq_true_iff.1 hlit).1, hch⟩
  · exact exists_separates_of_classAt_isBlank (classAt_of_lt_runEnd hlt)

theorem beginsApart_openParameters : BeginsApart openParameters :=
  beginsApart_blanks_keyword (s := "(") rfl (by decide +kernel)

/-- What all forms of declaration have in common: the words end apart from the name, and so
begins what follows, unless it is only a word edge. -/
structure Form (words after : Pattern) : Prop where
  plain_words : words.plain = true
  plain_after : after.plain = true
  endsApart_words : EndsApart words
  after_cases : after = wordEdge ∨ BeginsApart after

theorem exists_form_of_mem_declarations (h : p ∈ declarations) :
    ∃ words after, p = declaration words after ∧ Form words after := by
  have hequals : BeginsApart (Pattern.seq blanks (keyword "=")) :=
    beginsApart_blanks_keyword rfl (by decide +kernel)
  have hstar : EndsApart (Pattern.seq (keyword "*") blanks) :=
    endsApart_keyword_blanks rfl (by decide +kernel)
  simp only [declarations, List.mem_cons, List.not_mem_nil, or_false] at h
  rcases h with rfl | rfl | rfl | rfl | rfl | rfl
  · exact ⟨_, _, rfl, rfl, rfl, endsApart_gap.seq _, .inr beginsApart_openParameters⟩
  · exact ⟨_, _, rfl, rfl, rfl, ((endsApart_gap.seq _).seq _).seq _,
      .inr beginsApart_openParameters⟩
  · exact ⟨_, _, rfl, rfl, rfl, (hstar.seq _).seq _, .inr beginsApart_openParameters⟩
  · exact ⟨_, _, rfl, rfl, rfl, (((hstar.seq _).seq _).seq _).seq _,
      .inr beginsApart_openParameters⟩
  · exact ⟨_, _, rfl, rfl, rfl, endsApart_gap.seq _, .inl rfl⟩
  · exact ⟨_, _, rfl, rfl, rfl, endsApart_gap.seq _, .inr hequals⟩

/-! ### Where a name is declared -/

/-- At offset `i` a form of declaration matches and takes `[a, b)` as its name. -/
structure DeclaresAt (src : Source) (words after : Pattern) (i a b : Nat) : Prop where
  form : Form words after
  mem_ends_words : a ∈ (Pattern.seq indentedLine words).ends src i
  firstEnd_eq : firstEnd src namePattern after a = some b

variable {m : Match}

theorem exists_declaresAt (hp : p ∈ declarations) (hm : m ∈ p.allMatches src) :
    ∃ words after a b, p = declaration words after ∧ m.span? "name" = some (a, b) ∧
      DeclaresAt src words after m.start a b := by
  obtain ⟨words, after, rfl, hform⟩ := exists_form_of_mem_declarations hp
  obtain ⟨i, -, hmatch⟩ := exists_matchAt_of_mem_findAll hm
  rw [start_of_matchAt hmatch]
  have hwords : (Pattern.seq indentedLine words).plain = true := hform.plain_words
  have hassoc := matchAt_seq_assoc src indentedLine words
    (Pattern.seq (group "name" namePattern) after) i
  obtain ⟨a, b, hspan, ha, hb⟩ := span?_of_matchAt_named hwords (q := namePattern) rfl
    hform.plain_after (hassoc.symm.trans hmatch)
  exact ⟨words, after, a, b, rfl, hspan, hform, ha, hb⟩

theorem mem_declaredNames {max : Nat} (h : name ∈ declaredNames src max) :
    ∃ p ∈ declarations, ∃ m ∈ p.allMatches src, m.text? src "name" = some name := by
  have hmem := List.mem_eraseDups.1 (List.mem_of_mem_take h)
  obtain ⟨p, hp, hname⟩ := List.mem_flatMap.1 hmem
  exact ⟨p, hp, List.mem_filterMap.1 hname⟩

theorem DeclaresAt.mem_ends (h : DeclaresAt src words after i a b) :
    b ∈ namePattern.ends src a :=
  (of_firstEnd h.firstEnd_eq).1

/-- A name that ends at a character that separates words is as long as possible. -/
theorem DeclaresAt.eq_runEnd (h : DeclaresAt src words after i a b)
    (hb : ∃ ch, src.charAt b = some ch ∧ Separates ch) :
    b = src.runEnd isNameChar (a + 1) := by
  obtain ⟨-, hab, hle⟩ := mem_ends_namePattern.1 h.mem_ends
  obtain ⟨ch, hch, hname, -⟩ := hb
  refine Nat.le_antisymm hle (Nat.le_of_not_lt fun hlt => ?_)
  have hcls := classAt_of_le_of_lt_runEnd (i := a + 1) hab hlt
  rw [Source.classAt_eq, hch, Option.any_some, hname] at hcls
  cases hcls

/-- A declared name ends at the first word edge if its last character is one of a word. -/
theorem DeclaresAt.firstEnd_wordEdge (h : DeclaresAt src words after i a b)
    (hlast : src.classAt isWordChar (b - 1) = true) :
    firstEnd src namePattern wordEdge a = some b := by
  rcases h.form.after_cases with heq | hbegins
  · rw [← heq]
    exact h.firstEnd_eq
  · have hb := hbegins src b (of_firstEnd h.firstEnd_eq).2
    obtain ⟨hstart, hab, -⟩ := mem_ends_namePattern.1 h.mem_ends
    have hedge : src.wordEdgeAt b = true := by
      obtain ⟨ch, hch, -, hword⟩ := hb
      rw [Source.wordEdgeAt, Source.wordBefore, hlast, Source.classAt_eq, hch, Option.any_some,
        hword]
      simp
      omega
    -- The end of the name is the first that is tried.
    have hhead := head?_ends_namePattern hstart
    rw [← h.eq_runEnd hb] at hhead
    exact firstEnd_of_head? hhead (by simp [hedge])

/-! ### Identifiers -/

theorem only_isNameChar_identifierPattern : identifierPattern.Only (isNameChar · = true) := by
  refine ⟨trivial, ⟨fun ch h => ?_, fun ch h => h⟩, trivial⟩
  simp [isNameChar, h]

/-- An identifier does not reach past a character that separates words. -/
theorem stop_le_of_separates {k : Nat} (hm : identifierPattern.matchAt src k = some m)
    (hkj : k ≤ j) (hj : ∃ ch, src.charAt j = some ch ∧ Separates ch) : m.stop ≤ j := by
  obtain ⟨ch, hch, hname, -⟩ := hj
  obtain ⟨d, hd, rfl⟩ := exists_mem_run_of_matchAt hm
  refine Nat.le_of_not_lt fun hlt => ?_
  obtain ⟨other, hother, hcls⟩ := charAt_of_mem_run only_isNameChar_identifierPattern hd hkj hlt
  rw [hch, Option.some.injEq] at hother
  rw [← hother, hname] at hcls
  cases hcls

/-- A declared name that begins and ends with a word character is an identifier. -/
theorem mem_captures_identifierPattern (h : DeclaresAt src words after i a b)
    (hfirst : src.classAt isWordChar a = true) (hlast : src.classAt isWordChar (b - 1) = true) :
    String.ofList (src.slice a b) ∈ identifierPattern.captures src "name" := by
  obtain ⟨k, -, ha⟩ := mem_ends_seq.1 h.mem_ends_words
  obtain ⟨hpos, ch, hch, hseparates⟩ := h.form.endsApart_words src k a ha
  have hedge : src.wordEdgeAt a = true := by
    rw [Source.wordEdgeAt, Source.wordBefore, hfirst, Source.classAt_eq, hch, Option.any_some,
      hseparates.2]
    simp
  obtain ⟨e, hm⟩ := matchAt_named_of_firstEnd (p := wordEdge) (q := namePattern) rfl rfl rfl "name"
    (by rw [ends_wordEdge, if_pos hedge]) (h.firstEnd_wordEdge hlast)
  refine List.mem_filterMap.2 ⟨_, mem_findAll_of_matchAt (Nat.zero_le a)
    (Nat.le_of_lt (lt_size_of_classAt hfirst)) hm ?_, rfl⟩
  -- An identifier from before would have to reach past the character before the name.
  intro k n _ hka hn
  have := stop_le_of_separates hn (j := a - 1) (by omega) ⟨ch, hch, hseparates⟩
  omega

/-- An identifier is a name between two word edges. -/
theorem of_mem_captures_identifierPattern
    (h : name ∈ identifierPattern.captures src "name") :
    ∃ a b, src.wordEdgeAt a = true ∧ b ∈ namePattern.ends src a ∧ src.wordEdgeAt b = true ∧
      name.toList = src.slice a b := by
  obtain ⟨m, hm, htext⟩ := List.mem_filterMap.1 h
  obtain ⟨k, -, hmatch⟩ := exists_matchAt_of_mem_findAll hm
  obtain ⟨a, b, hspan, ha, hb⟩ :=
    span?_of_matchAt_named (p := wordEdge) (q := namePattern) rfl rfl rfl hmatch
  rw [Match.text?, hspan, Option.map_some, Option.some.injEq] at htext
  obtain ⟨hedge, rfl⟩ := mem_ends_wordEdge.1 ha
  refine ⟨a, b, hedge, (of_firstEnd hb).1, ends_wordEdge_ne_nil_iff.1 (of_firstEnd hb).2, ?_⟩
  rw [← htext, String.toList_ofList]

/-- The identifiers of a text in the order of its index, before the list is cut. -/
def indexedNames (src : Source) : List String := distinct ((identifierCounts src).map (·.1))

theorem mem_indexedNames : name ∈ indexedNames src ↔ name ∈ identifiers src := by
  rw [indexedNames, mem_distinct, identifierCounts, mem_map_fst_tally]

/-! ### A text that declares a name -/

/-- A text reads the keyword of a function and its name behind that. -/
structure ReadsFunction (src : Source) (name : List Char) : Prop where
  toList_eq : src.toList = "function".toList ++ ' ' :: (name ++ "() \x7b\x7d".toList)

namespace ReadsFunction

variable {cs : List Char}

theorem drop_eight (h : ReadsFunction src cs) :
    src.toList.drop 8 = ' ' :: (cs ++ "() \x7b\x7d".toList) := by
  rw [h.toList_eq]
  rfl

theorem drop_nine (h : ReadsFunction src cs) :
    src.toList.drop 9 = cs ++ "() \x7b\x7d".toList :=
  have hspace : src.toList.drop 8 = [' '] ++ (cs ++ "() \x7b\x7d".toList) := h.drop_eight
  Source.drop_add hspace

theorem charAt_behind (h : ReadsFunction src cs) : src.charAt (9 + cs.length) = some '(' :=
  Source.charAt_of_drop (Source.drop_add h.drop_nine)

theorem charAt_name (h : ReadsFunction src cs) {k : Nat} (hk : k < cs.length) :
    src.charAt (9 + k) = cs[k]? := by
  rw [Source.charAt_eq, ← List.getElem?_drop, h.drop_nine, List.getElem?_append_left hk]

/-- A dollar sign can stand only in the name. -/
theorem of_charAt_dollar (h : ReadsFunction src cs) (hj : src.charAt j = some '$') :
    9 ≤ j ∧ j < 9 + cs.length := by
  constructor
  · by_contra hlt
    have hmem : '$' ∈ "function ".toList := by
      refine List.mem_of_getElem? (i := j) ?_
      rw [← hj, Source.charAt_eq, h.toList_eq]
      have hinside : j < "function ".toList.length := Nat.lt_of_not_le hlt
      exact (List.getElem?_append_left hinside).symm
    revert hmem
    decide
  · by_contra hge
    have hmem : '$' ∈ "() \x7b\x7d".toList := by
      refine List.mem_of_getElem? (i := j - (9 + cs.length)) ?_
      rw [← hj, Source.charAt_eq, ← Source.drop_add h.drop_nine, List.getElem?_drop]
      congr 1
      omega
    revert hmem
    decide

/-- The words before the name, the name and the parenthesis are what the form takes. -/
theorem ends_words (h : ReadsFunction src cs) (hcs : isName cs = true) :
    (Pattern.seq indentedLine (Pattern.seq (keyword "function") gap)).ends src 0 = [9] := by
  obtain ⟨ch, ds, rfl⟩ := exists_cons_of_isName hcs
  have hch : src.charAt 9 = some ch := Source.charAt_of_drop h.drop_nine
  have hblank := not_isBlank_of_isNameChar (isNameChar_of_isName hcs List.mem_cons_self)
  have hf : src.charAt 0 = some 'f' := Source.charAt_of_drop h.toList_eq
  have hline : Reads src indentedLine 0 0 := (reads_lineStart rfl).seq (reads_all hf rfl)
  have hfunction : Reads src (keyword "function") 0 8 := reads_literal h.toList_eq
  have hgap : Reads src gap 8 9 :=
    (reads_one (Source.charAt_of_drop h.drop_eight) rfl).seq (reads_all hch hblank)
  exact ends_of_reads (hline.seq (hfunction.seq hgap))

theorem head?_ends_name (h : ReadsFunction src cs) (hcs : isName cs = true) :
    (namePattern.ends src 9).head? = some (9 + cs.length) := by
  obtain ⟨ch, ds, rfl⟩ := exists_cons_of_isName hcs
  have hstart : src.classAt isNameStart 9 = true := by
    rw [Source.classAt_eq, Source.charAt_of_drop h.drop_nine, Option.any_some]
    exact (Bool.and_eq_true_iff.1 hcs).1
  rw [head?_ends_namePattern hstart,
    runEnd_of_charAt (by simp; omega) (fun k hk hlt => ?_) h.charAt_behind rfl]
  obtain ⟨k, rfl⟩ := Nat.exists_eq_add_of_le (Nat.le_of_succ_le hk)
  rw [Source.classAt_eq, h.charAt_name (by omega), List.getElem?_eq_getElem (by omega),
    Option.any_some]
  exact isNameChar_of_isName hcs (List.getElem_mem _)

theorem ends_openParameters_ne_nil (h : ReadsFunction src cs) :
    openParameters.ends src (9 + cs.length) ≠ [] := by
  have hdrop : src.toList.drop (9 + cs.length) = ['('] ++ ") \x7b\x7d".toList :=
    Source.drop_add h.drop_nine
  have hreads : Reads src openParameters _ _ :=
    (reads_all h.charAt_behind rfl).seq (reads_literal hdrop)
  rw [ends_of_reads hreads]
  exact List.cons_ne_nil _ _

/-- The name is declared, and it is the first that is. -/
theorem mem_declaredNames (h : ReadsFunction src cs) (hcs : isName cs = true) :
    String.ofList cs ∈ declaredNames src 1 := by
  obtain ⟨e, hm⟩ := matchAt_named_of_firstEnd (q := namePattern) rfl rfl rfl "name"
    (h.ends_words hcs) (firstEnd_of_head? (h.head?_ends_name hcs) h.ends_openParameters_ne_nil)
  rw [← matchAt_seq_assoc] at hm
  have htext : Match.text? ⟨0, e, [("name", 9, 9 + cs.length)]⟩ src "name" =
      some (String.ofList cs) := by
    simp only [Match.text?, Match.span?, List.find?_cons, BEq.rfl, Option.map_some]
    rw [Source.slice_eq, h.drop_nine, Nat.add_sub_cancel_left, List.take_left]
  -- The form with the one word `function` comes first, and it matches at the beginning.
  unfold declaredNames declarations
  rw [List.flatMap_cons, captures, allMatches, findAll_eq, if_pos (Nat.zero_le _)]
  simp only [declaration, chain, hm, List.filterMap_cons, htext, List.cons_append]
  rw [List.eraseDups_cons, List.take_succ_cons]
  exact List.mem_cons_self

/-- A name with a dollar sign is found as an identifier nowhere else. -/
theorem eq_of_slice_eq (h : ReadsFunction src cs) (hb : b ∈ namePattern.ends src a)
    (hslice : cs = src.slice a b) (haj : a ≤ j) (hjb : j < b)
    (hj : src.charAt j = some '$') : a = 9 ∧ b = 9 + cs.length := by
  obtain ⟨h9, hlt⟩ := h.of_charAt_dollar hj
  have hlength : cs.length = b - a := by
    rw [hslice, Source.length_slice, Nat.min_eq_left (le_size_of_mem_ends_namePattern hb)]
  -- Neither the blank before the name nor the parenthesis behind it is part of an identifier.
  have hout {k : Nat} {ch : Char} (hk : src.charAt k = some ch) (hch : isNameChar ch = false) :
      ¬ (a ≤ k ∧ k < b) := by
    rintro ⟨hak, hkb⟩
    have hcls := classAt_of_mem_ends_namePattern hb hak hkb
    rw [Source.classAt_eq, hk, Option.any_some, hch] at hcls
    cases hcls
  have hbefore := hout (Source.charAt_of_drop h.drop_eight) rfl
  have hbehind := hout h.charAt_behind rfl
  omega

/-- A name that is found as an identifier has no dollar sign at its edges. -/
theorem ne_dollar_of_mem (h : ReadsFunction src cs)
    (hmem : String.ofList cs ∈ identifierPattern.captures src "name") :
    cs.head? ≠ some '$' ∧ cs.getLast? ≠ some '$' := by
  obtain ⟨a, b, ha, hb, hedge, hslice⟩ := of_mem_captures_identifierPattern hmem
  rw [String.toList_ofList] at hslice
  have hab := (mem_ends_namePattern.1 hb).2.1
  have hlast : cs.getLast? = src.charAt (b - 1) := by
    rw [hslice, Source.getLast?_slice hab (le_size_of_mem_ends_namePattern hb)]
  have hhead : cs.head? = src.charAt a := by
    rw [hslice, List.head?_eq_getElem?, Source.getElem?_slice, if_pos (by omega), Nat.add_zero]
  constructor
  · intro hdollar
    rw [hhead] at hdollar
    obtain ⟨rfl, -⟩ := h.eq_of_slice_eq hb hslice (Nat.le_refl a) hab hdollar
    have hblank : src.charAt 8 = some ' ' := Source.charAt_of_drop h.drop_eight
    revert ha
    simp [Source.wordEdgeAt, Source.wordBefore, Source.classAt_eq, hdollar, hblank,
      show isWordChar '$' = false by decide +kernel, show isWordChar ' ' = false by decide +kernel]
  · intro hdollar
    rw [hlast] at hdollar
    have heq := h.eq_of_slice_eq hb hslice (Nat.le_sub_one_of_lt hab) (by omega) hdollar
    have hopen : src.charAt b = some '(' := by
      rw [heq.2]
      exact h.charAt_behind
    revert hedge
    simp [Source.wordEdgeAt, Source.wordBefore, Source.classAt_eq, hdollar, hopen,
      show isWordChar '$' = false by decide +kernel, show isWordChar '(' = false by decide +kernel]

end ReadsFunction

/-! ### Declared names are counted -/

theorem counted_of_mem_identifiers (h : name ∈ identifiers src) :
    0 < countOf (identifierCounts src) name ∧ name ∈ indexedNames src := by
  rw [countOf_identifierCounts, List.count_pos_iff]
  exact ⟨h, mem_indexedNames.2 h⟩

/-- A declared name without a dollar sign at its edges is found as an identifier. -/
theorem mem_captures_of_mem_declaredNames {max : Nat} (h : name ∈ declaredNames src max) :
    isName name.toList = true ∧
      (name.toList.head? ≠ some '$' → name.toList.getLast? ≠ some '$' →
        name ∈ identifierPattern.captures src "name") := by
  obtain ⟨p, hp, m, hm, htext⟩ := mem_declaredNames h
  obtain ⟨words, after, a, b, -, hspan, hdeclares⟩ := exists_declaresAt hp hm
  rw [Match.text?, hspan, Option.map_some, Option.some.injEq] at htext
  have hb := hdeclares.mem_ends
  obtain ⟨-, hab, -⟩ := mem_ends_namePattern.1 hb
  have hsize := le_size_of_mem_ends_namePattern hb
  rw [← htext, String.toList_ofList]
  refine ⟨isName_of_mem_ends hb, fun hhead hlast => ?_⟩
  rw [Source.getLast?_slice hab hsize] at hlast
  rw [List.head?_eq_getElem?, Source.getElem?_slice, if_pos (by omega), Nat.add_zero] at hhead
  have hword {j : Nat} (haj : a ≤ j) (hjb : j < b) (hj : src.charAt j ≠ some '$') :
      src.classAt isWordChar j = true := by
    have hcls := classAt_of_mem_ends_namePattern hb haj hjb
    rw [Source.classAt_eq, Option.any_eq_true] at hcls ⊢
    obtain ⟨ch, hch, hname⟩ := hcls
    exact ⟨ch, hch, isWordChar_of_isNameChar hname fun heq => hj (heq ▸ hch)⟩
  exact mem_captures_identifierPattern hdeclares (hword (Nat.le_refl a) hab hhead)
    (hword (Nat.le_sub_one_of_lt hab) (by omega) hlast)

/-- That a name which is not reserved is counted in every text that declares it holds just of
the names that neither begin nor end with a dollar sign. -/
theorem declared_counted_iff (hreserved : name ∉ reservedWords) :
    (∀ text max, name ∈ declaredNames (Source.ofString text) max →
        0 < countOf (identifierCounts (Source.ofString text)) name ∧
          name ∈ indexedNames (Source.ofString text) ∧
          (Index.ofSource (Source.ofString text)).identifiers =
            ⟨(indexedNames (Source.ofString text)).length,
              ((indexedNames (Source.ofString text)).take 6000).toArray⟩) ↔
      (isName name.toList = true →
        name.toList.head? ≠ some '$' ∧ name.toList.getLast? ≠ some '$') := by
  constructor
  · intro h hname
    have hreads : ReadsFunction (Source.ofString ("function " ++ name ++ "() \x7b\x7d"))
        name.toList := by
      constructor
      rw [Source.toList_ofString, String.toList_append, String.toList_append, List.append_assoc]
      rfl
    have hdeclared := hreads.mem_declaredNames hname
    rw [String.ofList_toList] at hdeclared
    have hmem := mem_indexedNames.1 (h _ 1 hdeclared).2.1
    refine hreads.ne_dollar_of_mem ?_
    rw [String.ofList_toList]
    exact (List.mem_filter.1 hmem).1
  · intro h text max hdeclared
    obtain ⟨hname, hcaptured⟩ := mem_captures_of_mem_declaredNames hdeclared
    obtain ⟨hhead, hlast⟩ := h hname
    have hmem : name ∈ identifiers (Source.ofString text) :=
      List.mem_filter.2 ⟨hcaptured hhead hlast, decide_eq_true hreserved⟩
    obtain ⟨hcount, hindexed⟩ := counted_of_mem_identifiers hmem
    exact ⟨hcount, hindexed, rfl⟩

/-- A class with a dollar sign inside of its name, behind another declaration. -/
theorem declared_counted_iff_inner_dollar :
    "a$b" ∉ reservedWords ∧
      "a$b" ∈ declaredNames (Source.ofString "let a$ = 1\nclass a$b \x7b\x7d") 9 ∧
      0 < countOf (identifierCounts (Source.ofString "let a$ = 1\nclass a$b \x7b\x7d")) "a$b" := by
  have hreserved : "a$b" ∉ reservedWords := by decide
  have hdeclared : "a$b" ∈ declaredNames (Source.ofString "let a$ = 1\nclass a$b \x7b\x7d") 9 := by
    decide +kernel
  exact ⟨hreserved, hdeclared,
    ((declared_counted_iff hreserved).2 (fun _ => by decide) _ _ hdeclared).1⟩

/-- A function whose name ends with a dollar sign is declared and not counted. -/
theorem not_counted_function_dollar :
    "f$" ∉ reservedWords ∧
      "f$" ∈ declaredNames (Source.ofString "function f$() \x7b\x7d") 40 ∧
      countOf (identifierCounts (Source.ofString "function f$() \x7b\x7d")) "f$" = 0 ∧
      "f$" ∉ indexedNames (Source.ofString "function f$() \x7b\x7d") := by
  refine ⟨by decide, by decide +kernel, ?_, ?_⟩
  · rw [countOf_identifierCounts]
    decide +kernel
  · rw [mem_indexedNames]
    decide +kernel

end CodeParts.Names
