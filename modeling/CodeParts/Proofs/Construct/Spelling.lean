import CodeParts.Proofs.Construct.Span
import CodeParts.Proofs.Names.Located
import CodeParts.Proofs.Pattern.Takes

/-!
# How a construct that is found is spelled

A construct in braces is found by a signature, and what the match has taken is the beginning of
the construct. Read as text it is an indentation, the words that declare a construct of its
kind, the name, and what has to follow a name of that kind (`spelling_of_extract`). On neither
side of the name stands a character that could be part of a name, so it is not a piece of a
longer one.

The grammar of the words is stated here on its own (`DeclarationWords`), and each signature is
related to it once (`exists_form_of_mem_allSignatures`).
-/

namespace CodeParts.Construct

open Pattern Names

/-! ### Words and white space -/

/-- Words, each with white space behind it. -/
inductive Spaced : List String → List Char → Prop where
  | nil : Spaced [] []
  | cons {w : String} {ws : List String} {gap cs : List Char} (hne : gap ≠ [])
      (hgap : ∀ ch ∈ gap, isBlank ch = true) (h : Spaced ws cs) :
      Spaced (w :: ws) (w.toList ++ (gap ++ cs))

/-- The words that may stand before a declaration to export it. -/
def exportForms : List (List String) :=
  [[], ["export"], ["export", "default"], ["export", "default", "export"]]

/-- The words that may declare a variable. -/
def variableWords : List String := ["var", "let", "const"]

/-- The words that stand between the indentation and the name of a construct. -/
inductive DeclarationWords : Kind → List Char → Prop where
  | function {ex : List String} {cs : List Char} (hex : ex ∈ exportForms)
      (h : Spaced (ex ++ ["function"]) cs) : DeclarationWords .function cs
  | asyncFunction {ex : List String} {cs : List Char} (hex : ex ∈ exportForms)
      (h : Spaced (ex ++ ["async", "function"]) cs) : DeclarationWords .asyncFunction cs
  /-- The white space around the star may be left out. -/
  | generatorFunction {ex as : List String} {cs before behind : List Char}
      (hex : ex ∈ exportForms) (has : as ∈ [[], ["async"]]) (h : Spaced (ex ++ as) cs)
      (hbefore : ∀ ch ∈ before, isBlank ch = true) (hbehind : ∀ ch ∈ behind, isBlank ch = true) :
      DeclarationWords .generatorFunction
        (cs ++ ("function".toList ++ (before ++ '*' :: behind)))
  | functionExpression {w : String} {cs : List Char} (hw : w ∈ variableWords)
      (h : Spaced [w] cs) : DeclarationWords .functionExpression cs
  | arrowFunction {w : String} {cs : List Char} (hw : w ∈ variableWords)
      (h : Spaced [w] cs) : DeclarationWords .arrowFunction cs
  | classDeclaration {ex : List String} {cs : List Char} (hex : ex ∈ exportForms)
      (h : Spaced (ex ++ ["class"]) cs) : DeclarationWords .classDeclaration cs

/-- White space, which may be left out, and then a mark. -/
def BeginsWithMark (mark : Char) (cs : List Char) : Prop :=
  ∃ gap rest, cs = gap ++ mark :: rest ∧ ∀ ch ∈ gap, isBlank ch = true

/-- What follows the name of a construct. -/
def FollowsName : Kind → List Char → Prop
  | .function | .asyncFunction | .generatorFunction => BeginsWithMark '('
  | .functionExpression | .arrowFunction => BeginsWithMark '='
  | _ => fun _ => True

variable {src : Source} {p q : Pattern} {kind : Kind} {name xs ys cs : List Char}
  {ws vs as : List String} {s : Signature} {i a b j : Nat} {w : String}

theorem Spaced.append (h : Spaced ws xs) (h' : Spaced vs ys) : Spaced (ws ++ vs) (xs ++ ys) := by
  induction h with
  | nil => exact h'
  | cons hne hgap _ ih =>
      rw [List.append_assoc, List.append_assoc]
      exact .cons hne hgap ih

theorem Spaced.ne_nil (h : Spaced ws cs) (hws : ws ≠ []) : cs ≠ [] := by
  cases h with
  | nil => exact absurd rfl hws
  | cons hne _ _ => simp [hne]

theorem DeclarationWords.ne_nil (h : DeclarationWords kind cs) : cs ≠ [] := by
  cases h with
  | function _ h | asyncFunction _ h | classDeclaration _ h =>
      exact h.ne_nil (List.append_ne_nil_of_right_ne_nil _ (List.cons_ne_nil _ _))
  | functionExpression _ h | arrowFunction _ h => exact h.ne_nil (List.cons_ne_nil _ _)
  | generatorFunction => simp

theorem BeginsWithMark.append {mark : Char} (h : BeginsWithMark mark cs) (ds : List Char) :
    BeginsWithMark mark (cs ++ ds) := by
  obtain ⟨gap, rest, rfl, hgap⟩ := h
  exact ⟨gap, rest ++ ds, by rw [List.append_assoc, List.cons_append], hgap⟩

theorem FollowsName.append (h : FollowsName kind cs) (ds : List Char) :
    FollowsName kind (cs ++ ds) := by
  cases kind with
  | function | asyncFunction | generatorFunction | functionExpression | arrowFunction =>
      exact BeginsWithMark.append h ds
  | classDeclaration | definition | asyncDefinition => trivial

/-! ### The words that patterns take -/

/-- The pattern of words, each with white space behind it. -/
def spacedWords (ws : List String) : List Pattern := ws.flatMap fun w => [keyword w, gap]

theorem takes_chain_append {ps qs : List Pattern} (h : (chain (ps ++ qs)).Takes cs) :
    ∃ xs ys, cs = xs ++ ys ∧ (chain ps).Takes xs ∧ (chain qs).Takes ys := by
  induction ps generalizing cs with
  | nil => exact ⟨[], cs, rfl, rfl, h⟩
  | cons p ps ih =>
      cases ps with
      | nil =>
          cases qs with
          | nil => exact ⟨cs, [], (List.append_nil cs).symm, h, rfl⟩
          | cons q qs => exact h
      | cons p' ps =>
          obtain ⟨xs, zs, rfl, hp, hrest⟩ := h
          obtain ⟨ys, zs, rfl, hps, hqs⟩ := ih hrest
          exact ⟨xs ++ ys, zs, (List.append_assoc xs ys zs).symm, ⟨xs, ys, rfl, hp, hps⟩, hqs⟩

theorem ne_nil_of_takes_gap (h : gap.Takes cs) : cs ≠ [] ∧ ∀ ch ∈ cs, isBlank ch = true := by
  obtain ⟨xs, ys, rfl, ⟨ch, rfl, hch⟩, hys⟩ := h
  refine ⟨List.cons_ne_nil _ _, fun d hd => ?_⟩
  rcases List.mem_cons.1 hd with rfl | hd
  · exact hch
  · exact hys d hd

theorem spaced_of_takes (h : (chain (spacedWords ws)).Takes cs) : Spaced ws cs := by
  induction ws generalizing cs with
  | nil =>
      rw [show cs = [] from h]
      exact .nil
  | cons w ws ih =>
      have hcut : (chain ([keyword w, gap] ++ spacedWords ws)).Takes cs := h
      obtain ⟨xs, ys, rfl, hw, hws⟩ := takes_chain_append hcut
      obtain ⟨us, vs, rfl, hus, hvs⟩ := hw
      obtain ⟨hne, hblank⟩ := ne_nil_of_takes_gap hvs
      rw [show us = w.toList from hus, List.append_assoc]
      exact .cons hne hblank (ih hws)

theorem spaced_of_takes_optional (ws : List String)
    (h : (optional (chain (spacedWords ws))).Takes cs) : Spaced ws cs ∨ Spaced [] cs := by
  rcases h with h | h
  · exact .inl (spaced_of_takes h)
  · right
    rw [show cs = [] from h]
    exact .nil

theorem exists_exportForm_of_takes (h : exportWords.Takes cs) :
    ∃ ex ∈ exportForms, Spaced ex cs := by
  obtain ⟨xs, ys, rfl, hxs, hys⟩ := h
  rcases spaced_of_takes_optional ["export", "default"] hxs with hxs | hxs <;>
    rcases spaced_of_takes_optional ["export"] hys with hys | hys
  · exact ⟨_, by decide, hxs.append hys⟩
  · exact ⟨_, by decide, hxs.append hys⟩
  · exact ⟨_, by decide, hxs.append hys⟩
  · exact ⟨_, by decide, hxs.append hys⟩

/-- Words behind the words that export a declaration. -/
theorem exists_spaced_of_takes (ws : List String)
    (h : (chain (exportWords :: spacedWords ws)).Takes cs) :
    ∃ ex ∈ exportForms, Spaced (ex ++ ws) cs := by
  have hcut : (chain ([exportWords] ++ spacedWords ws)).Takes cs := h
  obtain ⟨xs, ys, rfl, hex, hws⟩ := takes_chain_append hcut
  obtain ⟨ex, hmem, hex⟩ := exists_exportForm_of_takes hex
  exact ⟨ex, hmem, hex.append (spaced_of_takes hws)⟩

/-- The keyword and the star of a generator behind other words. -/
theorem declarationWords_generator (has : as ∈ [[], ["async"]])
    (h : (chain ((exportWords :: spacedWords as) ++
      [keyword "function", blanks, keyword "*", blanks])).Takes cs) :
    DeclarationWords .generatorFunction cs := by
  obtain ⟨xs, ys, rfl, hwords, hstar⟩ := takes_chain_append h
  obtain ⟨ex, hex, hwords⟩ := exists_spaced_of_takes as hwords
  obtain ⟨_, _, rfl, hfunction, before, _, rfl, hbefore, _, behind, rfl, hmark, hbehind⟩ := hstar
  rw [show _ = "function".toList from hfunction, show _ = ['*'] from hmark]
  exact .generatorFunction hex has hwords hbefore hbehind

/-- The word that declares a variable. -/
theorem exists_variableWord_of_takes (h : (seq variableWord gap).Takes cs) :
    ∃ w ∈ variableWords, Spaced [w] cs := by
  obtain ⟨xs, ys, rfl, hword, hgap⟩ := h
  have hspaced {w : String} (hw : xs = w.toList) : Spaced [w] (xs ++ ys) :=
    spaced_of_takes (show (chain (spacedWords [w])).Takes (xs ++ ys) from ⟨xs, ys, rfl, hw, hgap⟩)
  rcases hword with hw | hw | hw
  · exact ⟨_, by decide, hspaced hw⟩
  · exact ⟨_, by decide, hspaced hw⟩
  · exact ⟨_, by decide, hspaced hw⟩

/-! ### The parts of a signature -/

/-- A signature is an indentation, the words of its kind, the name and what follows it. -/
structure IsForm (s : Signature) (name : List Char) (words after : List Pattern) : Prop where
  ends_eq : ∀ src i, s.pattern.ends src i =
    (chain (indentedLine :: words ++ literal name :: after)).ends src i
  declarationWords : ∀ cs, (chain words).Takes cs → DeclarationWords s.kind cs
  followsName : ∀ cs, (chain after).Takes cs → FollowsName s.kind cs
  endsApart : EndsApart (chain words)
  apart_after : ∀ src b, b ≤ src.size → (chain after).ends src b ≠ [] →
    src.classAt isNameChar b = false

theorem beginsWithMark_of_takes {mark : Char} (hw : w.toList = [mark])
    (h : (seq blanks (seq (keyword w) p)).Takes cs) : BeginsWithMark mark cs := by
  obtain ⟨gap, _, rfl, hgap, _, rest, rfl, hmark, -⟩ := h
  rw [show _ = w.toList from hmark, hw]
  exact ⟨gap, rest, rfl, hgap⟩

theorem classAt_of_beginsApart (hp : BeginsApart p) (h : p.ends src b ≠ []) :
    src.classAt isNameChar b = false := by
  obtain ⟨ch, hch, hname, -⟩ := hp src b h
  rw [Source.classAt_eq, hch, Option.any_some, hname]

theorem beginsApart_of_seq (hp : BeginsApart (seq p q)) (r : Pattern) :
    BeginsApart (seq p (seq q r)) := by
  intro src i h
  obtain ⟨j, hj⟩ := List.exists_mem_of_ne_nil _ h
  obtain ⟨k, hk, hj⟩ := mem_ends_seq.1 hj
  obtain ⟨l, hl, -⟩ := mem_ends_seq.1 hj
  exact hp src i (List.ne_nil_of_mem (mem_ends_seq.2 ⟨k, hk, hl⟩))

/-- A function's name is followed by its parameters. -/
theorem isForm_of_parameters {words : List Pattern}
    (hpattern : s.pattern = chain (indentedLine :: words ++ [literal name, openParameters]))
    (hwords : ∀ cs, (chain words).Takes cs → DeclarationWords s.kind cs)
    (hapart : EndsApart (chain words)) (hkind : FollowsName s.kind = BeginsWithMark '(') :
    IsForm s name words [openParameters] where
  ends_eq src i := by rw [hpattern]
  declarationWords := hwords
  followsName := by
    intro cs h
    obtain ⟨gap, _, rfl, hgap, hmark⟩ := h
    rw [show _ = ['('] from hmark, hkind]
    exact ⟨gap, [], rfl, hgap⟩
  endsApart := hapart
  apart_after src b _ := classAt_of_beginsApart beginsApart_openParameters

theorem ends_chain_chain (src : Source) (ps qs : List Pattern) (i : Nat) :
    (chain (chain ps :: qs)).ends src i = (chain (ps ++ qs)).ends src i := by
  rw [ends_chain_cons, ends_chain_append]

/-- A variable's name is followed by the equals sign. -/
theorem isForm_of_variable {value : List Pattern}
    (hpattern : s.pattern = chain (variableNamed name :: value))
    (hkind : s.kind = .functionExpression ∨ s.kind = .arrowFunction) :
    IsForm s name [variableWord, gap] (blanks :: keyword "=" :: blanks :: value) where
  ends_eq src i := by
    rw [hpattern, variableNamed, ends_chain_chain]
    rfl
  declarationWords := by
    intro cs h
    obtain ⟨w, hw, hspaced⟩ := exists_variableWord_of_takes h
    rcases hkind with hkind | hkind
    · rw [hkind]
      exact .functionExpression hw hspaced
    · rw [hkind]
      exact .arrowFunction hw hspaced
  followsName := by
    intro cs h
    have hmark : BeginsWithMark '=' cs := beginsWithMark_of_takes (w := "=") rfl h
    rcases hkind with hkind | hkind
    · rw [hkind]
      exact hmark
    · rw [hkind]
      exact hmark
  endsApart := endsApart_gap.seq _
  apart_after src b _ := by
    have hequals : BeginsApart (seq blanks (keyword "=")) :=
      beginsApart_blanks_keyword rfl (by decide +kernel)
    exact classAt_of_beginsApart (beginsApart_of_seq hequals _)

/-- A class's name is followed by anything that is not part of a name. -/
theorem isForm_of_class
    (hpattern : s.pattern =
      chain (indentedLine :: [exportWords, keyword "class", gap] ++ [literal name, classEnd]))
    (hkind : s.kind = .classDeclaration) :
    IsForm s name [exportWords, keyword "class", gap] [classEnd] where
  ends_eq src i := by rw [hpattern]
  declarationWords := by
    intro cs h
    obtain ⟨ex, hex, h⟩ := exists_spaced_of_takes ["class"] h
    rw [hkind]
    exact .classDeclaration hex h
  followsName cs _ := by
    rw [hkind]
    trivial
  endsApart := (endsApart_gap.seq _).seq _
  apart_after src b hb := (ends_classEnd_ne_nil_iff hb).1

theorem exists_form_of_mem_allSignatures (hs : s ∈ allSignatures name) :
    ∃ words after, IsForm s name words after := by
  have hstar : EndsApart (seq (keyword "*") blanks) :=
    endsApart_keyword_blanks rfl (by decide +kernel)
  simp only [allSignatures, List.mem_cons, List.not_mem_nil, or_false] at hs
  rcases hs with rfl | rfl | rfl | rfl | rfl | rfl | rfl | rfl
  · refine ⟨exportWords :: spacedWords ["function"], _, isForm_of_parameters rfl ?_ ?_ rfl⟩
    · intro cs h
      obtain ⟨ex, hex, h⟩ := exists_spaced_of_takes _ h
      exact .function hex h
    · exact (endsApart_gap.seq _).seq _
  · refine ⟨exportWords :: spacedWords ["async", "function"], _,
      isForm_of_parameters rfl ?_ ?_ rfl⟩
    · intro cs h
      obtain ⟨ex, hex, h⟩ := exists_spaced_of_takes _ h
      exact .asyncFunction hex h
    · exact (((endsApart_gap.seq _).seq _).seq _).seq _
  · refine ⟨(exportWords :: spacedWords []) ++ [keyword "function", blanks, keyword "*", blanks], _,
      isForm_of_parameters rfl ?_ ?_ rfl⟩
    · intro cs h
      exact declarationWords_generator (by decide) h
    · exact ((hstar.seq _).seq _).seq _
  · refine ⟨(exportWords :: spacedWords ["async"]) ++
      [keyword "function", blanks, keyword "*", blanks], _, isForm_of_parameters rfl ?_ ?_ rfl⟩
    · intro cs h
      exact declarationWords_generator (by decide) h
    · exact ((((hstar.seq _).seq _).seq _).seq _).seq _
  · exact ⟨_, _, isForm_of_variable rfl (.inl rfl)⟩
  · exact ⟨_, _, isForm_of_variable rfl (.inr rfl)⟩
  · exact ⟨_, _, isForm_of_variable rfl (.inr rfl)⟩
  · exact ⟨_, _, isForm_of_class rfl rfl⟩

/-! ### The parts of a construct -/

/-- A construct of a kind is spelled as an indentation, words, its name and the rest. -/
structure SpelledAs (kind : Kind) (name indent words rest : List Char) : Prop where
  indent_eq : ∀ ch ∈ indent, ch = ' ' ∨ ch = '\t'
  declarationWords : DeclarationWords kind words
  before_name : ∃ ch, words.getLast? = some ch ∧ isNameChar ch = false
  behind_name : ∃ ch, rest.head? = some ch ∧ isNameChar ch = false
  followsName : FollowsName kind rest
  closed : rest.getLast? = some '\x7d'

theorem isIndent_of_takes (h : indentedLine.Takes cs) : ∀ ch ∈ cs, ch = ' ' ∨ ch = '\t' := by
  obtain ⟨_, ys, rfl, rfl, hys⟩ := h
  intro ch hch
  simpa [isIndent] using hys ch hch

/-- A match whose block closes behind it is spelled as a construct of the signature's kind. -/
theorem spelledAs_of_mem_ends {e : Nat} (hs : s ∈ allSignatures name) (hname : isName name = true)
    (hj : j ∈ s.pattern.ends src i) (hje : j ≤ e) (he : e ≤ src.size)
    (hclosed : src.charAt (e - 1) = some '\x7d') :
    ∃ indent words rest, src.slice i e = indent ++ (words ++ (name ++ rest)) ∧
      SpelledAs s.kind name indent words rest := by
  obtain ⟨words, after, hform⟩ := exists_form_of_mem_allSignatures hs
  rw [hform.ends_eq, mem_ends_chain_literal] at hj
  obtain ⟨a, ha, hlit, hj⟩ := hj
  rw [ends_chain_cons, List.mem_flatMap] at ha
  obtain ⟨k, hk, ha⟩ := ha
  have hik := le_of_mem_ends hk
  have hka := le_of_mem_ends ha
  have hbj := le_of_mem_ends hj
  -- The name ends before the construct, which ends in a brace.
  have hlast : src.charAt (a + name.length - 1) ≠ some '\x7d' := by
    rw [Source.charAt_of_literalAt hlit (by rintro rfl; cases hname)]
    intro hbrace
    have hch := isNameChar_of_isName hname (List.mem_of_getLast? hbrace)
    revert hch
    decide
  have hbe : a + name.length < e := by
    refine Nat.lt_of_le_of_ne (Nat.le_trans hbj hje) fun heq => hlast ?_
    rw [heq]
    exact hclosed
  have hwords := hform.declarationWords _ (takes_of_mem_ends ha)
  refine ⟨src.slice i k, src.slice k a, src.slice (a + name.length) e, ?_, ?_⟩
  · have hslice : src.slice a (a + name.length) ++ src.slice (a + name.length) e =
        src.slice a e := Source.slice_append_slice src (Nat.le_add_right _ _) (Nat.le_of_lt hbe)
    rw [Source.slice_of_literalAt hlit] at hslice
    rw [hslice, Source.slice_append_slice src hka (by omega),
      Source.slice_append_slice src hik (by omega)]
  constructor
  case indent_eq => exact isIndent_of_takes (takes_of_mem_ends hk)
  case declarationWords => exact hwords
  case before_name =>
    obtain ⟨-, ch, hch, hseparates, -⟩ := hform.endsApart src k a ha
    have hlt : k < a := by
      refine Nat.lt_of_le_of_ne hka fun heq => hwords.ne_nil ?_
      rw [heq, Source.slice_self]
    exact ⟨ch, by rw [Source.getLast?_slice hlt (by omega), hch], hseparates⟩
  case behind_name =>
    obtain ⟨ch, hch⟩ := Source.exists_charAt (show a + name.length < src.size by omega)
    have hapart := hform.apart_after src _ (by omega) (List.ne_nil_of_mem hj)
    rw [Source.classAt_eq, hch, Option.any_some] at hapart
    exact ⟨ch, by rw [Source.slice_of_charAt hbe hch, List.head?_cons], hapart⟩
  case followsName =>
    rw [← Source.slice_append_slice src hbj hje]
    exact (hform.followsName _ (takes_of_mem_ends hj)).append _
  case closed => rw [Source.getLast?_slice hbe he, hclosed]

/-- A construct in braces that is found is spelled as one of its kind with its name. -/
theorem spelling_of_extract {text name : String} {c : Construct} (hname : isName name.toList = true)
    (h : extract text name .braces = .found c) :
    ∃ indent words rest,
      (Source.ofString text).slice c.start c.stop = indent ++ (words ++ (name.toList ++ rest)) ∧
        SpelledAs c.kind name.toList indent words rest := by
  rw [extract_eq_extractBraced hname] at h
  obtain ⟨s, m, hsig, hle, hclose, hc⟩ := of_extractBraced_found h
  obtain ⟨-, -, -, hm, -⟩ := of_findSignature hsig
  have hs := mem_allSignatures_of_mem (mem_signatures_of_findSignature hsig)
  have hends := (mem_ends_of_matchAt (firstMatch_of_find (Nat.zero_le _) hm).matchAt_eq).2
  rw [hc]
  exact spelledAs_of_mem_ends hs hname hends hle (matchingBraceEnd_le hclose)
    (charAt_of_matchingBraceEnd hclose)

/-- A generator whose name begins a longer one that is declared before it. -/
theorem spelling_of_extract_generator :
    isName "f$".toList = true ∧
      extract "const f$a = 1;\n\texport async function  *\n f$ () \x7b\x7d" "f$" .braces =
        .found ⟨.generatorFunction, 15, 50, "\texport async function  *\n f$ () \x7b\x7d", 2, 3⟩ ∧
      ∃ indent words rest,
        (Source.ofString
            "const f$a = 1;\n\texport async function  *\n f$ () \x7b\x7d").slice 15 50 =
            indent ++ (words ++ ("f$".toList ++ rest)) ∧
          SpelledAs .generatorFunction "f$".toList indent words rest := by
  have hname : isName "f$".toList = true := by decide
  have hfound : extract "const f$a = 1;\n\texport async function  *\n f$ () \x7b\x7d" "f$" .braces =
      .found ⟨.generatorFunction, 15, 50, "\texport async function  *\n f$ () \x7b\x7d", 2, 3⟩ := by
    decide +kernel
  exact ⟨hname, hfound, spelling_of_extract hname hfound⟩

end CodeParts.Construct
