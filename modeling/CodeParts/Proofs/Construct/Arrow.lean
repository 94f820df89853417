import CodeParts.Proofs.Construct.Spelling

/-!
# Block arrows

The signature of an arrow with parameters in parentheses takes all parameters, through the
first closing parenthesis, and the brace that opens the block. The block is looked for at that
brace, and so nothing in the parameters can be taken for it, be it a brace, a quote or the
beginning of a comment: if there is room for the name, the whole arrow is extracted
(`extract_arrow_iff`).

The forms with a higher priority all have the word `function`, between characters that are
not part of a name (`exists_wordAt_of_mem_ends`). In a text without that word none of them is
found.
-/

namespace CodeParts.Construct

open Pattern Lexer Names

variable {src : Source} {p q : Pattern} {ps qs : List Pattern} {name : List Char}
  {s : Signature} {i j k : Nat}

/-! ### Words of a text -/

/-- No character of a name or a word stands just before an offset. -/
def WordStartsAt (src : Source) (i : Nat) : Prop :=
  ∀ ch, 0 < i → src.charAt (i - 1) = some ch → Separates ch

/-- The word stands at an offset, and it is not a piece of a longer one. -/
structure WordAt (src : Source) (word : List Char) (i : Nat) : Prop where
  literalAt : src.literalAt word i = true
  wordStartsAt : WordStartsAt src i
  separates : ∀ ch, src.charAt (i + word.length) = some ch → Separates ch

theorem wordStartsAt_of_endsApart (hp : EndsApart p) (h : j ∈ p.ends src i) :
    WordStartsAt src j := by
  obtain ⟨-, ch, hch, hseparates⟩ := hp src i j h
  intro other _ hother
  rw [hch, Option.some.injEq] at hother
  rwa [← hother]

/-- Words that may be left out keep the start of a word. -/
theorem wordStartsAt_of_optional (hp : EndsApart p) (hi : WordStartsAt src i)
    (h : j ∈ (optional p).ends src i) : WordStartsAt src j := by
  rw [Pattern.optional, ends_alt, ends_empty, List.mem_append, List.mem_singleton] at h
  rcases h with h | rfl
  · exact wordStartsAt_of_endsApart hp h
  · exact hi

theorem wordStartsAt_of_indentedLine (h : j ∈ indentedLine.ends src i) : WordStartsAt src j := by
  intro ch hpos hch
  rw [indentedLine, ends_seq, ends_lineStart] at h
  split at h
  · next hstart =>
      rw [List.flatMap_singleton, ends_all, List.mem_singleton] at h
      rcases Nat.eq_or_lt_of_le (le_runEnd src isIndent i) with heq | hlt
      · -- Without indentation the line begins here.
        rw [← heq] at h
        rw [h] at hpos hch
        have hnl := Source.newlineAt_of_lineStartsAt hpos hstart
        rw [Source.newlineAt_eq_true, hch, Option.some.injEq] at hnl
        rw [hnl]
        decide +kernel
      · have hcls := classAt_of_le_of_lt_runEnd (show i ≤ j - 1 by omega)
          (show j - 1 < src.runEnd isIndent i by omega)
        rw [Source.classAt_eq, hch, Option.any_some, isIndent, Bool.or_eq_true, beq_iff_eq,
          beq_iff_eq] at hcls
        rcases hcls with rfl | rfl <;> decide +kernel
  · cases h

theorem wordStartsAt_of_exportWords (hi : WordStartsAt src i) (h : j ∈ exportWords.ends src i) :
    WordStartsAt src j := by
  obtain ⟨k, hk, hj⟩ := mem_ends_seq.1 h
  have hk : WordStartsAt src k :=
    wordStartsAt_of_optional (((endsApart_gap.seq _).seq _).seq _) hi hk
  exact wordStartsAt_of_optional (endsApart_gap.seq _) hk hj

/-! ### Signatures with the word `function` -/

/-- The pattern has the word `function` in it, apart from what stands before and behind. -/
structure HasWord (p : Pattern) (word : String) (before behind : List Pattern) : Prop where
  pattern_eq : p = chain (before ++ keyword word :: behind)
  wordStartsAt : ∀ src i j, j ∈ (chain before).ends src i → WordStartsAt src j
  beginsApart : BeginsApart (chain behind)

/-- Where a pattern matches, its word stands. -/
theorem exists_wordAt_of_mem_ends {word : String} (hp : HasWord p word ps qs)
    (h : j ∈ p.ends src i) : ∃ k, WordAt src word.toList k := by
  rw [hp.pattern_eq] at h
  obtain ⟨k, hk, hlit, hj⟩ := mem_ends_chain_literal.1 h
  refine ⟨k, hlit, hp.wordStartsAt src i k hk, fun ch hch => ?_⟩
  obtain ⟨other, hother, hseparates⟩ := hp.beginsApart src _ (List.ne_nil_of_mem hj)
  rw [hch, Option.some.injEq] at hother
  rwa [hother]

theorem beginsApart_gap (q : Pattern) : BeginsApart (seq gap q) := by
  intro src i h
  obtain ⟨j, hj⟩ := List.exists_mem_of_ne_nil _ h
  obtain ⟨k, hk, -⟩ := mem_ends_seq.1 hj
  obtain ⟨l, hl, -⟩ := mem_ends_seq.1 hk
  rw [ends_one] at hl
  split at hl
  · next hblank => exact exists_separates_of_classAt_isBlank hblank
  · cases hl

/-- The form of an arrow with parameters in parentheses. -/
def arrowSignature (name : List Char) : Signature :=
  ⟨.arrowFunction,
    chain [variableNamed name, optional (seq (keyword "async") blanks), keyword "(",
      throughClosing, blockArrow],
    true, 6688⟩

/-- Words behind the indentation and the words that export a declaration. -/
theorem wordStartsAt_of_mem_ends_exported
    (h : j ∈ (chain [indentedLine, exportWords]).ends src i) : WordStartsAt src j := by
  obtain ⟨k, hk, hj⟩ := mem_ends_seq.1 h
  exact wordStartsAt_of_exportWords (wordStartsAt_of_indentedLine hk) hj

/-- All forms with a higher priority than arrows have the word `function`. -/
theorem allSignatures_eq_append (name : List Char) :
    ∃ before after, allSignatures name = before ++ arrowSignature name :: after ∧
      ∀ s ∈ before, ∃ ps qs, HasWord s.pattern "function" ps qs := by
  have hstar : BeginsApart (seq blanks (keyword "*")) :=
    beginsApart_blanks_keyword rfl (by decide +kernel)
  have hvariable : EndsApart (variableNamed name) :=
    (((((endsApart_keyword_blanks (s := "=") rfl (by decide +kernel)).seq _).seq _).seq _).seq
      _).seq _
  have hasync : EndsApart (chain [indentedLine, exportWords, keyword "async", gap]) :=
    ((endsApart_gap.seq _).seq _).seq _
  refine ⟨[_, _, _, _, _], [_, _], rfl, fun s hs => ?_⟩
  simp only [List.mem_cons, List.not_mem_nil, or_false] at hs
  rcases hs with rfl | rfl | rfl | rfl | rfl
  · exact ⟨[indentedLine, exportWords], [gap, literal name, openParameters], rfl,
      fun _ _ _ => wordStartsAt_of_mem_ends_exported, beginsApart_gap _⟩
  · exact ⟨[indentedLine, exportWords, keyword "async", gap], [gap, literal name, openParameters],
      rfl, fun _ _ _ => wordStartsAt_of_endsApart hasync, beginsApart_gap _⟩
  · exact ⟨[indentedLine, exportWords], [blanks, keyword "*", blanks, literal name, openParameters],
      rfl, fun _ _ _ => wordStartsAt_of_mem_ends_exported, beginsApart_of_seq hstar _⟩
  · exact ⟨[indentedLine, exportWords, keyword "async", gap],
      [blanks, keyword "*", blanks, literal name, openParameters], rfl,
      fun _ _ _ => wordStartsAt_of_endsApart hasync, beginsApart_of_seq hstar _⟩
  · refine ⟨[variableNamed name, optional (seq (keyword "async") gap)], [openParameters], rfl,
      fun src i j h => ?_, beginsApart_openParameters⟩
    obtain ⟨k, hk, hj⟩ := mem_ends_seq.1 h
    exact wordStartsAt_of_optional (endsApart_gap.seq _) (wordStartsAt_of_endsApart hvariable hk) hj

/-- Without the word `function` an arrow that matches at the start of a text is what is found. -/
theorem findSignature_of_arrow {e : Nat} (hword : ∀ i, ¬ WordAt src "function".toList i)
    (hroom : hasRoom (arrowSignature name).fixedSpace name = true)
    (h : Reads src (arrowSignature name).pattern 0 e) :
    findSignature src name = some (arrowSignature name, ⟨0, e, []⟩) := by
  obtain ⟨before, after, hall, hbefore⟩ := allSignatures_eq_append name
  refine List.findSome?_eq_some_iff.2 ⟨before.filter fun s => hasRoom s.fixedSpace name,
    arrowSignature name, after.filter fun s => hasRoom s.fixedSpace name, ?_, ?_, ?_⟩
  · have hkeep := List.filter_cons_of_pos (p := fun s : Signature => hasRoom s.fixedSpace name)
      (l := after) hroom
    rw [signatures, hall, List.filter_append, hkeep]
  · rw [find_of_reads h]
    rfl
  · intro s hs
    obtain ⟨ps, qs, hp⟩ := hbefore s (List.mem_filter.1 hs).1
    rw [Option.map_eq_none_iff, find_eq_none_iff (Nat.zero_le _)]
    intro j _ _
    rw [matchAt_eq_none_iff, List.eq_nil_iff_forall_not_mem]
    intro l hl
    obtain ⟨k, hk⟩ := exists_wordAt_of_mem_ends hp hl
    exact hword k hk

/-! ### An arrow at the start of a text -/

/-- A variable with a block arrow. -/
def arrow (name params body : String) : String :=
  "const " ++ name ++ " = (" ++ params ++ ") => \x7b" ++ body ++ "\x7d"

/-- The characters of a text that begins with an arrow. -/
theorem toList_arrow (name params body after : String) :
    (Source.ofString (arrow name params body ++ after)).toList =
      "const".toList ++ ' ' :: (name.toList ++ ' ' :: '=' :: ' ' :: '(' :: (params.toList ++
        ')' :: ' ' :: '=' :: '>' :: ' ' :: '\x7b' :: (body.toList ++ '\x7d' :: after.toList))) := by
  have hhead : "const ".toList = "const".toList ++ [' '] := by decide
  have hequals : " = (".toList = [' ', '=', ' ', '('] := by decide
  have hbrace : ") => \x7b".toList = [')', ' ', '=', '>', ' ', '\x7b'] := by decide
  unfold arrow
  simp only [Source.toList_ofString, String.toList_append, List.append_assoc, hhead, hequals,
    hbrace]
  rfl

theorem length_arrow (name params body : String) :
    (arrow name params body).toList.length =
      6 + name.toList.length + 4 + params.toList.length + 6 + body.toList.length + 1 := by
  unfold arrow
  simp only [String.toList_append, List.length_append]
  rfl

/-- The beginning of a text with the equals sign and the parenthesis behind a name. -/
structure BeginsWithVariable (src : Source) (name rest : List Char) : Prop where
  toList_eq : src.toList = "const".toList ++ ' ' :: (name ++ ' ' :: '=' :: ' ' :: '(' :: rest)
  head_eq : ∃ ch cs, name = ch :: cs ∧ isBlank ch = false

theorem BeginsWithVariable.drop_name {rest : List Char} (h : BeginsWithVariable src name rest) :
    src.toList.drop 6 = name ++ ' ' :: '=' :: ' ' :: '(' :: rest := by
  rw [h.toList_eq]
  rfl

theorem BeginsWithVariable.drop_parameters {rest : List Char}
    (h : BeginsWithVariable src name rest) :
    src.toList.drop (6 + name.length + 3) = '(' :: rest := by
  rw [← List.drop_drop, Source.drop_add h.drop_name]
  rfl

/-- A space between two other characters. -/
theorem reads_space {ch : Char} {rest : List Char} (h : src.toList.drop i = ' ' :: ch :: rest)
    (hch : isBlank ch = false) : Reads src blanks i (i + 1) := by
  have hspace : ∀ d ∈ [' '], isBlank d = true := fun d hd => by
    rw [List.mem_singleton.1 hd]
    rfl
  exact reads_all_run (show src.toList.drop i = [' '] ++ ch :: rest from h) hspace hch

/-- The name is taken with the equals sign and the white space around it. -/
theorem BeginsWithVariable.reads {rest : List Char} (h : BeginsWithVariable src name rest) :
    Reads src (variableNamed name) 0 (6 + name.length + 3) := by
  obtain ⟨ch, cs, hname, hch⟩ := h.head_eq
  have hc : src.charAt 0 = some 'c' := Source.charAt_of_drop h.toList_eq
  have hvar : Fails src (keyword "var") 0 := fails_literal hc (d := 'v') rfl (by decide)
  have hlet : Fails src (keyword "let") 0 := fails_literal hc (d := 'l') rfl (by decide)
  have hconst : Reads src (keyword "const") 0 5 := reads_literal h.toList_eq
  have h6 := h.drop_name
  have h5 : src.toList.drop 5 = ' ' :: (name ++ ' ' :: '=' :: ' ' :: '(' :: rest) := by
    rw [h.toList_eq]
    rfl
  have hspace : src.toList.drop (6 + name.length) = ' ' :: '=' :: ' ' :: '(' :: rest :=
    Source.drop_add h6
  have hequals : src.toList.drop (6 + name.length + 1) = ['='] ++ (' ' :: '(' :: rest) :=
    Source.drop_succ hspace
  have hspace' : src.toList.drop (6 + name.length + 2) = ' ' :: '(' :: rest :=
    Source.drop_add hequals
  have hline : Reads src indentedLine 0 0 := (reads_lineStart rfl).seq (reads_all hc rfl)
  have hword : Reads src variableWord 0 5 := Reads.alt_right hvar (Reads.alt_right hlet hconst)
  have hgap : Reads src gap 5 6 := by
    rw [hname] at h6
    exact (reads_one (Source.charAt_of_drop h5) rfl).seq (reads_all (Source.charAt_of_drop h6) hch)
  have hliteral : Reads src (literal name) 6 (6 + name.length) := reads_literal h6
  have hbefore : Reads src blanks (6 + name.length) (6 + name.length + 1) :=
    reads_space hspace rfl
  have hmark : Reads src (keyword "=") (6 + name.length + 1) (6 + name.length + 2) :=
    reads_literal hequals
  have hbehind : Reads src blanks (6 + name.length + 2) (6 + name.length + 3) :=
    reads_space hspace' rfl
  exact hline.seq (hword.seq (hgap.seq (hliteral.seq (hbefore.seq (hmark.seq hbehind)))))

/-- The parameters are taken whatever they are, through the brace that opens the block. -/
theorem reads_arrowSignature {params rest : List Char} (hparams : ')' ∉ params)
    (h : BeginsWithVariable src name
      (params ++ ')' :: ' ' :: '=' :: '>' :: ' ' :: '\x7b' :: rest)) :
    Reads src (arrowSignature name).pattern 0 (6 + name.length + 4 + params.length + 6) ∧
      src.toList.drop (6 + name.length + 4 + params.length + 5) = '\x7b' :: rest := by
  have hopen := h.drop_parameters
  have hc := Source.charAt_of_drop hopen
  have hasync : Reads src (optional (seq (keyword "async") blanks)) (6 + name.length + 3)
      (6 + name.length + 3) := ((fails_literal hc (d := 'a') rfl (by decide)).seq _).optional
  have hparen : Reads src (keyword "(") (6 + name.length + 3) (6 + name.length + 4) :=
    reads_literal hopen
  have hinside : src.toList.drop (6 + name.length + 4) =
      params ++ ')' :: ' ' :: '=' :: '>' :: ' ' :: '\x7b' :: rest := Source.drop_succ hopen
  have hclosing := reads_throughClosing hinside hparams
  have hbehind := Source.drop_add hinside
  generalize 6 + name.length + 4 + params.length = e at hclosing hbehind ⊢
  -- From the closing parenthesis on everything stands at a fixed distance.
  have hdrop (k : Nat) : src.toList.drop (e + k) =
      (')' :: ' ' :: '=' :: '>' :: ' ' :: '\x7b' :: rest).drop k := by
    rw [← hbehind, List.drop_drop]
  have hspace : Reads src blanks (e + 1) (e + 2) := reads_space (hdrop 1) rfl
  have hmark : Reads src (keyword "=>") (e + 2) (e + 4) :=
    reads_literal (show src.toList.drop (e + 2) = ['=', '>'] ++ ' ' :: '\x7b' :: rest from hdrop 2)
  have hspace' : Reads src blanks (e + 4) (e + 5) := reads_space (hdrop 4) rfl
  have hbrace : Reads src (one (· == '\x7b')) (e + 5) (e + 6) :=
    reads_one (Source.charAt_of_drop (hdrop 5)) rfl
  exact ⟨h.reads.seq (hasync.seq (hparen.seq (hclosing.seq
    (hspace.seq (hmark.seq (hspace'.seq hbrace)))))), hdrop 5⟩

/-- The form with one parameter and no parentheses does not match where they stand. -/
theorem fails_of_parentheses {rest : List Char} (h : BeginsWithVariable src name rest) :
    Fails src (chain [variableNamed name, optional (seq (keyword "async") gap), namePattern,
      blockArrow]) 0 := by
  have hc := Source.charAt_of_drop h.drop_parameters
  have hasync : Reads src (optional (seq (keyword "async") gap)) (6 + name.length + 3)
      (6 + name.length + 3) := ((fails_literal hc (d := 'a') rfl (by decide)).seq _).optional
  have hname : Fails src namePattern (6 + name.length + 3) := (fails_one hc rfl).seq _
  exact fails_seq_of_reads h.reads (fails_seq_of_reads hasync (hname.seq _))

/-! ### Whole arrows -/

/-- An arrow at the start of a text is taken by the form with parentheses or by none. -/
theorem eq_arrowSignature {rest : List Char} {m : Match} (h : BeginsWithVariable src name rest)
    (hsig : findSignature src name = some (s, m)) (hkind : s.kind = .arrowFunction)
    (hstart : m.start = 0) : s = arrowSignature name := by
  have hs := mem_allSignatures_of_mem (mem_signatures_of_findSignature hsig)
  obtain ⟨-, -, -, hm, -⟩ := of_findSignature hsig
  have hmatch := (firstMatch_of_find (Nat.zero_le _) hm).matchAt_eq
  rw [hstart] at hmatch
  simp only [allSignatures, List.mem_cons, List.not_mem_nil, or_false] at hs
  rcases hs with rfl | rfl | rfl | rfl | rfl | rfl | rfl | rfl
  case inr.inr.inr.inr.inr.inl => rfl
  case inr.inr.inr.inr.inr.inr.inl =>
    rw [matchAt_eq, fails_of_parentheses h ⟨0, []⟩ rfl] at hmatch
    cases hmatch
  all_goals cases hkind

/-- A block arrow is extracted whole, whatever its parameters, just if there is room for its
name. -/
theorem extract_arrow_iff {name params body after : String} (hne : name ≠ "")
    (hname : ∀ ch ∈ name.toList, isBlank ch = false)
    (hparams : ')' ∉ params.toList) (hbody : BlockBody body.toList)
    (hword : ∀ i,
      ¬ WordAt (Source.ofString (arrow name params body ++ after)) "function".toList i) :
    (∃ c, extract (arrow name params body ++ after) name .braces = .found c ∧
        c.kind = .arrowFunction ∧ c.start = 0 ∧ c.body = arrow name params body) ↔
      hasRoom (arrowSignature name.toList).fixedSpace name.toList = true := by
  have htrim : trim name.toList = name.toList := trim_eq_self hname
  have hempty : ¬ (trim name.toList).isEmpty = true := by simpa [htrim] using hne
  obtain ⟨ch, cs, hcs⟩ :=
    List.exists_cons_of_ne_nil fun hnil => hne (String.toList_eq_nil_iff.1 hnil)
  have hbegins : BeginsWithVariable (Source.ofString (arrow name params body ++ after)) name.toList
      (params.toList ++ ')' :: ' ' :: '=' :: '>' :: ' ' :: '\x7b' ::
        (body.toList ++ '\x7d' :: after.toList)) :=
    ⟨toList_arrow name params body after, ch, cs, hcs, hname ch (hcs ▸ List.mem_cons_self)⟩
  rw [extract_braces hempty, htrim]
  constructor
  · intro h
    obtain ⟨c, hfound, hkind, hstart, -⟩ := h
    obtain ⟨s, m, hsig, -, -, hc⟩ := of_extractBraced_found hfound
    rw [hc] at hkind hstart
    rw [← eq_arrowSignature hbegins hsig hkind hstart]
    exact (List.mem_filter.1 (mem_signatures_of_findSignature hsig)).2
  · intro hroom
    obtain ⟨hreads, hdrop⟩ := reads_arrowSignature hparams hbegins
    have hclose : matchingBraceEnd (Source.ofString (arrow name params body ++ after))
        (6 + name.toList.length + 4 + params.toList.length + 5) =
          some (arrow name params body).toList.length := by
      rw [matchingBraceEnd_eq, hdrop, closingStep_block hbody, length_arrow]
    rw [extractBraced_eq_found (findSignature_of_arrow hword hroom hreads) hclose]
    refine ⟨_, rfl, rfl, rfl, ?_⟩
    simp only [ofSpan, Source.slice_eq, Source.toList_ofString, String.toList_append,
      List.drop_zero, Nat.sub_zero, List.take_left, String.ofList_toList]

/-- A word does not stand in a text without its first letter. -/
theorem not_wordAt_of_not_mem {ch : Char} {word : List Char} (h : ch ∉ src.toList) (i : Nat) :
    ¬ WordAt src (ch :: word) i := by
  intro hword
  have hchar := Source.charIs_eq_true.1 (Bool.and_eq_true_iff.1 hword.literalAt).1
  rw [Source.charAt_eq] at hchar
  exact h (List.mem_of_getElem? hchar)

/-- Parameters with a brace in a literal, the beginning of a comment and a quote. -/
theorem extract_arrow_odd_parameters :
    ("g$" ≠ "" ∧ (∀ ch ∈ "g$".toList, isBlank ch = false)) ∧
      ')' ∉ "\x7ba = \"\x7b\"\x7d, /* b\n '".toList ∧ BlockBody "while (a) \x7b\x7d".toList ∧
      (∀ i, ¬ WordAt (Source.ofString (arrow "g$" "\x7ba = \"\x7b\"\x7d, /* b\n '"
        "while (a) \x7b\x7d" ++ "; g$()")) "function".toList i) ∧
      ∃ c, extract (arrow "g$" "\x7ba = \"\x7b\"\x7d, /* b\n '" "while (a) \x7b\x7d" ++ "; g$()")
          "g$" .braces = .found c ∧
        c.kind = .arrowFunction ∧ c.start = 0 ∧
          c.body = arrow "g$" "\x7ba = \"\x7b\"\x7d, /* b\n '" "while (a) \x7b\x7d" := by
  have hne : "g$" ≠ "" := by decide
  have hname : ∀ ch ∈ "g$".toList, isBlank ch = false := by
    intro ch hch
    rcases List.mem_cons.1 (show ch ∈ ['g', '$'] from hch) with rfl | hch
    · rfl
    · rw [List.mem_singleton.1 hch]
      rfl
  have hparams : ')' ∉ "\x7ba = \"\x7b\"\x7d, /* b\n '".toList := by decide
  have hbody : BlockBody "while (a) \x7b\x7d".toList := by decide
  have hword : ∀ i, ¬ WordAt (Source.ofString (arrow "g$" "\x7ba = \"\x7b\"\x7d, /* b\n '"
      "while (a) \x7b\x7d" ++ "; g$()")) "function".toList i :=
    not_wordAt_of_not_mem (by decide)
  exact ⟨⟨hne, hname⟩, hparams, hbody, hword,
    (extract_arrow_iff hne hname hparams hbody hword).2 (by decide)⟩

/-! ### A name without room -/

/-- Without room for a name nothing is found under it. -/
theorem extract_eq_notFound {name : String} (text : String) (hname : isName name.toList = true)
    (hroom : ∀ space, hasRoom space name.toList = false) :
    extract text name .braces = .notFound := by
  have hsignatures : signatures name.toList = [] :=
    List.filter_eq_nil_iff.2 fun s _ => by rw [hroom]; exact Bool.false_ne_true
  have hfind : findSignature (Source.ofString text) name.toList = none := by
    rw [findSignature, hsignatures, List.findSome?_nil]
  rw [extract_eq_extractBraced hname text]
  unfold extractBraced
  rw [hfind]

theorem nameBytes_replicate (n : Nat) : nameBytes (List.replicate n 'a') = n := by
  induction n with
  | zero => rfl
  | succ n ih =>
      rw [nameBytes] at ih ⊢
      rw [List.replicate_succ, List.map_cons, List.foldr_cons, ih]
      exact Nat.add_comm 1 n

/-- A name of 340000 letters. -/
def longName : String := String.ofList (List.replicate 340000 'a')

theorem toList_longName : longName.toList = List.replicate 340000 'a' := String.toList_ofList

theorem not_hasRoom_longName (space : Nat) : hasRoom space longName.toList = false := by
  rw [hasRoom, toList_longName, nameBytes_replicate, decide_eq_false_iff_not, stateSpace,
    spaceLimit]
  intro hle
  have hlimit : 10 * Nat.pow 2 20 < 32 * 340000 := by decide
  omega

/-- A long name is not looked for at all, and so its arrow is not found. -/
theorem extract_arrow_long_name :
    (isName longName.toList = true ∧ ')' ∉ "".toList ∧ BlockBody "".toList ∧
        ∀ i, ¬ WordAt (Source.ofString (arrow longName "" "" ++ "")) "function".toList i) ∧
      extract (arrow longName "" "" ++ "") longName .braces = .notFound ∧
      ¬ ∃ c, extract (arrow longName "" "" ++ "") longName .braces = .found c ∧
        c.kind = .arrowFunction ∧ c.start = 0 ∧ c.body = arrow longName "" "" := by
  have hname : isName longName.toList = true := by
    rw [toList_longName, List.replicate_succ, isName, Bool.and_eq_true, List.all_eq_true]
    refine ⟨by decide, fun ch hch => ?_⟩
    rw [List.eq_of_mem_replicate hch]
    decide
  have hword : ∀ i,
      ¬ WordAt (Source.ofString (arrow longName "" "" ++ "")) "function".toList i := by
    have hletter : 'f' ∉ longName.toList := by
      rw [toList_longName]
      exact fun hmem => absurd (List.eq_of_mem_replicate hmem) (by decide)
    have htext : 'f' ∉ (Source.ofString (arrow longName "" "" ++ "")).toList := by
      rw [toList_arrow]
      simp [hletter]
    exact not_wordAt_of_not_mem htext
  have hnone := extract_eq_notFound (arrow longName "" "" ++ "") hname not_hasRoom_longName
  refine ⟨⟨hname, by decide, by decide, hword⟩, hnone, ?_⟩
  intro h
  obtain ⟨c, hc, -⟩ := h
  rw [hnone] at hc
  cases hc

end CodeParts.Construct
