import CodeParts.Proofs.Construct.Declaration
import CodeParts.Proofs.Names.Declared

/-!
# Declared names and the constructs they name

The forms in which names are listed and the signatures by which constructs are extracted are
two families of patterns. A form of function takes a name that its signature takes too: both go
on with the opening parenthesis. A form of class only wants a word edge behind the name, and a
name such as `Foo$` has one before its dollar sign, so `Foo` is listed; the signature of a
class wants a character there that is not part of a name, and does not match.

That is the whole difference: where a name is listed, its signature matches just if no name
character follows, and then the construct is found, or its block is never closed
(`located_iff`).
-/

namespace CodeParts.Names

open Pattern Construct

variable {src : Source} {p closer : Pattern} {ps : List Pattern} {name : List Char}
  {s : Signature} {i a b : Nat} {m : Match}

/-! ### Signatures where names are declared -/

theorem mem_ends_exportWords (src : Source) (i : Nat) : i ∈ exportWords.ends src i :=
  mem_ends_seq.2 ⟨i, mem_ends_optional src _ i, mem_ends_optional src _ i⟩

/-- The signature matches where its words stand before the name and its end behind it; the
words that export a declaration need not be there. -/
theorem ends_signature_ne_nil (ps : List Pattern)
    (hs : s.pattern = chain ([indentedLine, exportWords] ++ ps ++ [literal name, closer]))
    (ha : a ∈ (Pattern.seq indentedLine (chain ps)).ends src i)
    (hname : src.literalAt name a = true)
    (hcloser : closer.ends src (a + name.length) ≠ []) : s.pattern.ends src i ≠ [] := by
  obtain ⟨k, hk, ha⟩ := mem_ends_seq.1 ha
  obtain ⟨e, he⟩ := List.exists_mem_of_ne_nil _ hcloser
  refine List.ne_nil_of_mem (a := e) ?_
  rw [hs, ends_chain_append, ends_chain_append, List.mem_flatMap]
  refine ⟨a, List.mem_flatMap.2 ⟨k, ?_, ha⟩, ?_⟩
  · exact mem_ends_seq.2 ⟨k, hk, mem_ends_exportWords src k⟩
  · exact mem_ends_seq.2 ⟨_, mem_ends_literal.2 ⟨hname, rfl⟩, he⟩

/-- What the signature of a class wants behind the name. -/
def classEnd : Pattern := alt (one fun ch => !isNameChar ch) lineEnd

theorem ends_classEnd_ne_nil_iff (hb : b ≤ src.size) :
    classEnd.ends src b ≠ [] ↔ src.classAt isNameChar b = false := by
  have hone : src.classAt (fun ch => !isNameChar ch) b =
      (src.charAt b).any fun ch => !isNameChar ch := Source.classAt_eq _ _ _
  rw [classEnd, ends_alt, ends_one, ends_lineEnd, hone, Source.classAt_eq, Source.lineEndsAt]
  rcases Nat.eq_or_lt_of_le hb with rfl | hlt
  · simp [Source.charAt_eq_none]
  · obtain ⟨ch, hch⟩ := Source.exists_charAt hlt
    have hne : b ≠ src.size := Nat.ne_of_lt hlt
    cases hname : isNameChar ch with
    | false => simp [hch, hname]
    | true =>
        have hnl : ch ≠ '\n' := by
          rintro rfl
          cases hname
        simp [hch, hname, hne, Source.newlineAt, Source.charIs_eq, hnl]

/-- The forms of declaration with the signatures that answer to them. A variable has its own,
and these want more than the name and an equals sign. -/
theorem mem_declarations_cases (hp : p ∈ declarations) (name : List Char) :
    p = declaration (Pattern.seq variableWord gap) (Pattern.seq blanks (keyword "=")) ∨
      (∃ ps, p = declaration (chain ps) openParameters ∧ ∃ s ∈ allSignatures name,
        s.pattern =
          chain ([indentedLine, exportWords] ++ ps ++ [literal name, openParameters])) ∨
      p = declaration (chain [keyword "class", gap]) wordEdge := by
  simp only [declarations, List.mem_cons, List.not_mem_nil, or_false] at hp
  rcases hp with rfl | rfl | rfl | rfl | rfl | rfl
  · exact .inr (.inl ⟨[keyword "function", gap], rfl, _, List.mem_of_getElem? (i := 0) rfl, rfl⟩)
  · exact .inr (.inl ⟨[keyword "async", gap, keyword "function", gap], rfl, _,
      List.mem_of_getElem? (i := 1) rfl, rfl⟩)
  · exact .inr (.inl ⟨[keyword "function", blanks, keyword "*", blanks], rfl, _,
      List.mem_of_getElem? (i := 2) rfl, rfl⟩)
  · exact .inr (.inl ⟨[keyword "async", gap, keyword "function", blanks, keyword "*", blanks],
      rfl, _, List.mem_of_getElem? (i := 3) rfl, rfl⟩)
  · exact .inr (.inr rfl)
  · exact .inl rfl

theorem ends_indentedLine_of_mem (h : a ∈ indentedLine.ends src i) :
    indentedLine.ends src i = [a] := by
  rw [indentedLine, ends_seq, ends_lineStart] at h ⊢
  split at h
  · next hstart =>
      rw [List.flatMap_singleton, ends_all, List.mem_singleton] at h
      rw [if_pos hstart, List.flatMap_singleton, ends_all, h]
  · cases h

/-- Two literals that stand at one offset begin alike. -/
theorem take_eq_of_literalAt {xs ys : List Char} (hx : src.literalAt xs i = true)
    (hy : src.literalAt ys i = true) {n : Nat} (hn : n ≤ xs.length) (hn' : n ≤ ys.length) :
    xs.take n = ys.take n := by
  refine List.ext_getElem? fun k => ?_
  rw [List.getElem?_take, List.getElem?_take]
  split
  · next hk =>
      rw [← Source.literalAt_eq_true.1 hx k (by omega), Source.literalAt_eq_true.1 hy k (by omega)]
  · rfl

/-- No other word of a signature begins with the letters `cl`. -/
theorem ends_keyword_eq_nil (hlit : src.literalAt "class".toList i = true) (word : String)
    (hlength : 2 ≤ word.toList.length) (hne : word.toList.take 2 ≠ "cl".toList) :
    (keyword word).ends src i = [] := by
  rw [keyword, ends_literal, if_neg fun hother => ?_]
  exact hne (take_eq_of_literalAt hother hlit hlength (by decide))

theorem ends_exportWords_of_class (hlit : src.literalAt "class".toList i = true) :
    exportWords.ends src i = [i] := by
  have hwords (qs : List Pattern) : (optional (chain (keyword "export" :: qs))).ends src i = [i] :=
    ends_optional_of_eq_nil (by
      rw [ends_chain_cons, ends_keyword_eq_nil hlit "export" (by decide) (by decide)]
      rfl)
  have hfirst := hwords [gap, keyword "default", gap]
  have hsecond := hwords [gap]
  rw [exportWords, ends_seq, hfirst, List.flatMap_singleton]
  exact hsecond

theorem ends_variableWord_of_class (hlit : src.literalAt "class".toList i = true) :
    variableWord.ends src i = [] := by
  simp only [variableWord, ends_alt, ends_keyword_eq_nil hlit "var" (by decide) (by decide),
    ends_keyword_eq_nil hlit "let" (by decide) (by decide),
    ends_keyword_eq_nil hlit "const" (by decide) (by decide), List.append_nil]

/-- Where a class is declared no signature matches but that of a class. -/
theorem ends_eq_nil_of_class
    (ha : a ∈ (Pattern.seq indentedLine (chain [keyword "class", gap])).ends src i)
    (hend : classEnd.ends src (a + name.length) = []) (hs : s ∈ allSignatures name) :
    s.pattern.ends src i = [] := by
  obtain ⟨k, hk, ha⟩ := mem_ends_seq.1 ha
  obtain ⟨l, hl, ha⟩ := mem_ends_seq.1 ha
  obtain ⟨hlit, rfl⟩ := mem_ends_literal.1 hl
  have hline := ends_indentedLine_of_mem hk
  have hexport := ends_exportWords_of_class hlit
  have hfunction (word : String) (qs : List Pattern) (hlength : 2 ≤ word.toList.length)
      (hne : word.toList.take 2 ≠ "cl".toList) :
      (chain (indentedLine :: exportWords :: keyword word :: qs)).ends src i = [] := by
    simp only [ends_chain_cons, hline, hexport, ends_keyword_eq_nil hlit word hlength hne,
      List.flatMap_singleton, List.flatMap_nil]
  have hvariable (qs : List Pattern) : (chain (variableNamed name :: qs)).ends src i = [] := by
    simp only [ends_chain_cons, variableNamed, hline, ends_variableWord_of_class hlit,
      List.flatMap_singleton, List.flatMap_nil]
  -- The signature of a class takes the words, and then nothing that may end it follows the name.
  have hclass : (chain [indentedLine, exportWords, keyword "class", gap, literal name,
      classEnd]).ends src i = [] := by
    have hgap : gap.ends src (k + "class".toList.length) = [a] := ends_several_of_mem ha
    have hword : (keyword "class").ends src k = [k + "class".toList.length] := by
      rw [keyword, ends_literal, if_pos hlit]
    have hlast : (chain [literal name, classEnd]).ends src a = [] := by
      rw [ends_chain_cons, ends_literal]
      split
      · rw [List.flatMap_singleton]
        exact hend
      · rfl
    simp only [ends_chain_cons src indentedLine, ends_chain_cons src exportWords,
      ends_chain_cons src (keyword "class"), ends_chain_cons src gap, hline, hexport, hword, hgap,
      List.flatMap_singleton, hlast]
  simp only [allSignatures, List.mem_cons, List.not_mem_nil, or_false] at hs
  rcases hs with rfl | rfl | rfl | rfl | rfl | rfl | rfl | rfl
  · exact hfunction "function" _ (by decide) (by decide)
  · exact hfunction "async" _ (by decide) (by decide)
  · exact hfunction "function" _ (by decide) (by decide)
  · exact hfunction "async" _ (by decide) (by decide)
  · exact hvariable _
  · exact hvariable _
  · exact hvariable _
  · exact hclass

/-! ### Extraction -/

/-- A construct whose signature matches somewhere is found, or its block is not closed. -/
theorem extractBraced_of_matchAt (hs : s ∈ signatures name) (hi : i ≤ src.size)
    (hm : s.pattern.matchAt src i = some m) :
    (∃ c, extractBraced src name = .found c) ∨
      ∃ kind, extractBraced src name = .unterminated kind := by
  cases hfind : findSignature src name with
  | none =>
      have hnone := List.findSome?_eq_none_iff.1 hfind s hs
      rw [Option.map_eq_none_iff, find_eq_none_iff (Nat.zero_le _)] at hnone
      rw [hnone i (Nat.zero_le i) hi] at hm
      cases hm
  | some found =>
      obtain ⟨t, n⟩ := found
      cases hclose : matchingBraceEnd src (t.searchFrom n) with
      | some stop => exact .inl ⟨_, extractBraced_eq_found hfind hclose⟩
      | none => exact .inr ⟨_, extractBraced_eq_unterminated hfind hclose⟩

/-- The name of a listed construct is looked for as it is. -/
theorem extract_eq_extractBraced {name : String} (h : isName name.toList = true) (text : String) :
    extract text name .braces = extractBraced (Source.ofString text) name.toList := by
  have htrim : trim name.toList = name.toList :=
    trim_eq_self fun ch hch => not_isBlank_of_isNameChar (isNameChar_of_isName h hch)
  have hempty : ¬ (trim name.toList).isEmpty = true := by
    rw [htrim, List.isEmpty_iff]
    intro hnil
    rw [hnil] at h
    cases h
  rw [extract_braces hempty, htrim]

theorem literalAt_slice (hb : b ≤ src.size) : src.literalAt (src.slice a b) a = true := by
  rw [Source.literalAt_eq_true]
  intro k hk
  rw [Source.length_slice, Nat.min_eq_left hb] at hk
  rw [Source.getElem?_slice, if_pos hk]
  rfl

theorem declaration_inj {words after words' after' : Pattern}
    (h : declaration words after = declaration words' after') :
    words = words' ∧ after = after' := by
  simpa [declaration, chain] using h

/-- Where a name is listed, one of its signatures matches just if no name character follows. -/
theorem exists_signature_iff
    (hvariables : (declaration (Pattern.seq variableWord gap)
      (Pattern.seq blanks (keyword "="))).allMatches src = [])
    (hp : p ∈ declarations) (hm : m ∈ p.allMatches src) (hspan : m.span? "name" = some (a, b)) :
    (∃ s ∈ allSignatures (src.slice a b), ∃ n, s.pattern.matchAt src m.start = some n) ↔
      src.classAt isNameChar b = false := by
  have hends {s : Signature} :
      (∃ n, s.pattern.matchAt src m.start = some n) ↔ s.pattern.ends src m.start ≠ [] := by
    rw [← Option.isSome_iff_exists, ← Option.ne_none_iff_isSome, ne_eq, matchAt_eq_none_iff]
  obtain ⟨words, after, a', b', rfl, hspan', hdeclares⟩ := exists_declaresAt hp hm
  rw [hspan, Option.some.injEq, Prod.mk.injEq] at hspan'
  obtain ⟨rfl, rfl⟩ := hspan'
  have hb := le_size_of_mem_ends_namePattern hdeclares.mem_ends
  have hab := (mem_ends_namePattern.1 hdeclares.mem_ends).2.1
  have hlength : a + (src.slice a b).length = b := by
    rw [Source.length_slice]
    omega
  have hafter := (of_firstEnd hdeclares.firstEnd_eq).2
  rcases mem_declarations_cases hp (src.slice a b) with heq | ⟨ps, heq, s, hs, hpattern⟩ | heq
  · rw [heq, hvariables] at hm
    cases hm
  · obtain ⟨rfl, rfl⟩ := declaration_inj heq
    rw [← hlength] at hafter
    refine iff_of_true ⟨s, hs, hends.2 (ends_signature_ne_nil _ hpattern
      hdeclares.mem_ends_words (literalAt_slice hb) hafter)⟩ ?_
    obtain ⟨ch, hch, hname, -⟩ := beginsApart_openParameters src _ hafter
    rw [← hlength, Source.classAt_eq, hch, Option.any_some, hname]
  · obtain ⟨rfl, rfl⟩ := declaration_inj heq
    rw [← ends_classEnd_ne_nil_iff hb]
    constructor
    · rintro ⟨s, hs, hn⟩ hend
      rw [← hlength] at hend
      exact hends.1 hn (ends_eq_nil_of_class hdeclares.mem_ends_words hend hs)
    · intro hend
      rw [← hlength] at hend
      exact ⟨_, List.mem_of_getElem? (i := 7) rfl, hends.2 (ends_signature_ne_nil
        [keyword "class", gap] rfl hdeclares.mem_ends_words (literalAt_slice hb) hend)⟩

/-- If no variable is declared and there is room for a name that is listed, some form of
declaration takes the name; and wherever one does, a signature for the name matches just if no
name character follows, and then the name is no unknown one to the extraction. -/
theorem located_iff {text name : String} {max : Nat}
    (hvariables : (declaration (Pattern.seq variableWord gap)
      (Pattern.seq blanks (keyword "="))).allMatches (Source.ofString text) = [])
    (hroom : ∀ s ∈ allSignatures name.toList, hasRoom s.fixedSpace name.toList = true)
    (h : name ∈ declaredNames (Source.ofString text) max) :
    (∃ p ∈ declarations, ∃ m ∈ p.allMatches (Source.ofString text), ∃ a b,
        m.span? "name" = some (a, b) ∧ (Source.ofString text).slice a b = name.toList) ∧
      ∀ p ∈ declarations, ∀ m ∈ p.allMatches (Source.ofString text), ∀ a b,
        m.span? "name" = some (a, b) → (Source.ofString text).slice a b = name.toList →
        ((∃ s ∈ signatures name.toList, ∃ n,
            s.pattern.matchAt (Source.ofString text) m.start = some n) ↔
          (Source.ofString text).classAt isNameChar b = false) ∧
        ((Source.ofString text).classAt isNameChar b = false →
          (∃ c, extract text name .braces = .found c) ∨
            ∃ kind, extract text name .braces = .unterminated kind) := by
  have hname := (mem_captures_of_mem_declaredNames h).1
  have hsignatures : signatures name.toList = allSignatures name.toList :=
    List.filter_eq_self.2 hroom
  constructor
  · obtain ⟨p, hp, m, hm, htext⟩ := mem_declaredNames h
    obtain ⟨⟨a, b⟩, hspan, rfl⟩ := Option.map_eq_some_iff.1 htext
    exact ⟨p, hp, m, hm, a, b, hspan, String.toList_ofList.symm⟩
  · intro p hp m hm a b hspan hslice
    have hiff := exists_signature_iff hvariables hp hm hspan
    rw [hslice] at hiff
    rw [hsignatures, extract_eq_extractBraced hname]
    refine ⟨hiff, fun hnext => ?_⟩
    obtain ⟨s, hs, n, hn⟩ := hiff.2 hnext
    obtain ⟨i, hi, hmatch⟩ := exists_matchAt_of_mem_findAll hm
    rw [start_of_matchAt hmatch] at hn
    exact extractBraced_of_matchAt (hsignatures ▸ hs) hi hn

/-- A class whose block is never closed. -/
theorem located_iff_open_class :
    (declaration (Pattern.seq variableWord gap) (Pattern.seq blanks (keyword "="))).allMatches
        (Source.ofString "class Foo \x7b") = [] ∧
      (∀ s ∈ allSignatures "Foo".toList, hasRoom s.fixedSpace "Foo".toList = true) ∧
      "Foo" ∈ declaredNames (Source.ofString "class Foo \x7b") 1 ∧
      ((∃ c, extract "class Foo \x7b" "Foo" .braces = .found c) ∨
        ∃ kind, extract "class Foo \x7b" "Foo" .braces = .unterminated kind) := by
  have hvariables : (declaration (Pattern.seq variableWord gap)
      (Pattern.seq blanks (keyword "="))).allMatches (Source.ofString "class Foo \x7b") = [] := by
    decide +kernel
  have hroom : ∀ s ∈ allSignatures "Foo".toList, hasRoom s.fixedSpace "Foo".toList = true := by
    decide +kernel
  have hname : "Foo" ∈ declaredNames (Source.ofString "class Foo \x7b") 1 := by decide +kernel
  exact ⟨hvariables, hroom, hname, ((located_iff hvariables hroom hname).2 _
    (List.mem_of_getElem? (i := 4) rfl) ⟨0, 9, [("name", 6, 9)]⟩ (by decide +kernel) 6 9 rfl
    (by decide)).2 (by decide +kernel)⟩

/-- A class is listed under its name without the dollar sign, and cannot be found by that. -/
theorem not_located_class_dollar :
    (declaration (Pattern.seq variableWord gap) (Pattern.seq blanks (keyword "="))).allMatches
        (Source.ofString "class Foo$ \x7b\x7d") = [] ∧
      declaredNames (Source.ofString "class Foo$ \x7b\x7d") 40 = ["Foo"] ∧
      extract "class Foo$ \x7b\x7d" "Foo" .braces = .notFound ∧
      extract "class Foo$ \x7b\x7d" "Foo$" .braces =
        .found ⟨.classDeclaration, 0, 13, "class Foo$ \x7b\x7d", 1, 1⟩ := by
  refine ⟨?_, ?_, ?_, ?_⟩ <;> decide +kernel

end CodeParts.Names
