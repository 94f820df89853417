import CodeParts.Proofs.Construct.Window
import CodeParts.Proofs.Pattern.Reading

/-!
# Function declarations

The signature of a function declaration ends with the parenthesis that opens the
parameters, and the block of the function is taken to be the first one from there on. So a
declaration is extracted whole just if its parameters open no block of their own
(`extract_declaration_iff`). Where they do, because a parameter is taken apart or has an
object as its default, the construct ends in the middle of the parameters.

Braces in comments and literals do not count, in the parameters as little as in the body,
because both are scanned.
-/

namespace CodeParts

theorem trim_eq_self {cs : List Char} (h : ∀ ch ∈ cs, isBlank ch = false) : trim cs = cs := by
  have hdrop (ds : List Char) (hds : ∀ ch ∈ ds, isBlank ch = false) :
      ds.dropWhile isBlank = ds := by
    cases ds with
    | nil => rfl
    | cons ch ds => exact List.dropWhile_cons_of_neg (by simp [hds ch List.mem_cons_self])
  rw [trim, trimEnd, trimStart, hdrop cs h, hdrop _ (by simpa using h), List.reverse_reverse]

namespace Construct

open Pattern Lexer

variable {src : Source} {s : Signature}

/-- A function declaration. -/
def declaration (name params body : String) : String :=
  "function " ++ name ++ "(" ++ params ++ ") \x7b" ++ body ++ "\x7d"

/-- The characters of a text that begins with a declaration. -/
theorem toList_declaration (name params body after : String) :
    (Source.ofString (declaration name params body ++ after)).toList =
      "function".toList ++ ' ' :: (name.toList ++ '(' :: (params.toList ++
        ')' :: ' ' :: '\x7b' :: (body.toList ++ '\x7d' :: after.toList))) := by
  have hhead : "function ".toList = "function".toList ++ [' '] := by decide
  have hbrace : ") \x7b".toList = [')', ' ', '\x7b'] := by decide
  unfold declaration
  simp only [Source.toList_ofString, String.toList_append, List.append_assoc, hhead, hbrace]
  rfl

theorem length_declaration (name params body : String) :
    (declaration name params body).toList.length =
      10 + name.toList.length + params.toList.length + 3 + body.toList.length + 1 := by
  unfold declaration
  simp only [String.toList_append, List.length_append]
  show 9 + name.toList.length + 1 + params.toList.length + 3 + body.toList.length + 1 = _
  omega

/-- What follows the opening parenthesis of a declaration at the start of a text. -/
theorem drop_declaration (name params body after : String) :
    (Source.ofString (declaration name params body ++ after)).toList.drop
        (10 + name.toList.length) =
      params.toList ++ ')' :: ' ' :: '\x7b' :: (body.toList ++ '\x7d' :: after.toList) := by
  have hlength : 10 + name.toList.length =
      0 + ("function".toList ++ ' ' :: (name.toList ++ ['('])).length := by
    rw [List.length_append, List.length_cons, List.length_append]
    show _ = 0 + (8 + (name.toList.length + 1 + 1))
    omega
  rw [hlength]
  refine Source.drop_add ?_
  rw [List.drop_zero, toList_declaration]
  simp only [List.append_assoc, List.cons_append, List.nil_append]

/-! ### The signature of a declaration -/

/-- The form of a plain function. -/
def functionPattern (name : List Char) : Pattern :=
  chain [indentedLine, exportWords, keyword "function", gap, literal name, openParameters]

/-- The form of a plain function comes first, if there is room for the name. -/
theorem of_kind_eq_function {name : List Char} (hs : s ∈ signatures name)
    (hkind : s.kind = .function) :
    (∃ rest, signatures name = s :: rest) ∧ s.pattern = functionPattern name ∧
      ∀ m, s.searchFrom m = m.stop := by
  obtain ⟨hmem, hroom⟩ := List.mem_filter.1 hs
  simp only [allSignatures, List.mem_cons, List.not_mem_nil, or_false] at hmem
  rcases hmem with rfl | rfl | rfl | rfl | rfl | rfl | rfl | rfl
  case inl =>
    refine ⟨?_, rfl, fun _ => rfl⟩
    unfold signatures allSignatures
    exact ⟨_, List.filter_cons_of_pos hroom⟩
  all_goals cases hkind

/-- A declaration at the start of a text begins with its signature. -/
theorem reads_functionPattern {ch : Char} {cs rest : List Char}
    (htext : src.toList = "function".toList ++ ' ' :: (ch :: cs ++ '(' :: rest))
    (hch : isBlank ch = false) :
    Reads src (functionPattern (ch :: cs)) 0 (10 + (ch :: cs).length) := by
  have h0 : src.toList.drop 0 = "function".toList ++ ' ' :: (ch :: cs ++ '(' :: rest) := htext
  have h8 : src.toList.drop 8 = [' '] ++ (ch :: cs ++ '(' :: rest) := Source.drop_add h0
  have h9 : src.toList.drop 9 = ch :: cs ++ '(' :: rest := Source.drop_add h8
  have hopen : src.toList.drop (9 + (ch :: cs).length) = ['('] ++ rest := Source.drop_add h9
  have hf : src.charAt 0 = some 'f' := Source.charAt_of_drop h0
  have hexport : Fails src (keyword "export") 0 := fails_literal hf (d := 'e') rfl (by decide)
  have hline : Reads src indentedLine 0 0 := (reads_lineStart rfl).seq (reads_all hf rfl)
  have hwords : Reads src exportWords 0 0 :=
    (hexport.seq _).optional.seq (hexport.seq _).optional
  have hfunction : Reads src (keyword "function") 0 8 := reads_literal h0
  have hgap : Reads src gap 8 9 :=
    (reads_one (Source.charAt_of_drop h8) rfl).seq (reads_all (Source.charAt_of_drop h9) hch)
  have hname : Reads src (literal (ch :: cs)) 9 (9 + (ch :: cs).length) := reads_literal h9
  have hparameters : Reads src openParameters (9 + (ch :: cs).length)
      (9 + (ch :: cs).length + 1) :=
    (reads_all (Source.charAt_of_drop hopen) rfl).seq (reads_literal hopen)
  rw [Nat.add_right_comm 9] at hparameters
  exact hline.seq (hwords.seq (hfunction.seq (hgap.seq (hname.seq hparameters))))

/-- What is found in a text that begins with a declaration is the declaration. -/
theorem findSignature_declaration {name : String} (hne : name ≠ "")
    (hname : ∀ ch ∈ name.toList, isBlank ch = false) (hs : s ∈ signatures name.toList)
    (hkind : s.kind = .function) (params body after : String) :
    findSignature (Source.ofString (declaration name params body ++ after)) name.toList =
      some (s, ⟨0, 10 + name.toList.length, []⟩) := by
  obtain ⟨⟨rest, hrest⟩, hpattern, -⟩ := of_kind_eq_function hs hkind
  have htext := toList_declaration name params body after
  have hreads : Reads (Source.ofString (declaration name params body ++ after)) s.pattern 0
      (10 + name.toList.length) := by
    rw [hpattern]
    cases hcs : name.toList with
    | nil => exact absurd (String.toList_eq_nil_iff.1 hcs) hne
    | cons ch cs =>
        rw [hcs] at htext hname
        exact reads_functionPattern htext (hname ch List.mem_cons_self)
  rw [findSignature, hrest, List.findSome?_cons, find_of_reads hreads]
  rfl

/-! ### The block of a declaration -/

/-- Parameters without a block are passed over. -/
theorem closingStep_parameters {ps cs : List Char} (hps : finish .initial ps = .initial)
    (hzero : ∀ x ∈ steps 0 .initial ps, x.state.depth = 0) (hcs : BlockBody cs) (i : Nat)
    (ds : List Char) :
    closingStep false
        (steps i .initial (ps ++ ')' :: ' ' :: '\x7b' :: (cs ++ '\x7d' :: ds))) =
      some (i + ps.length + 3 + cs.length + 1) := by
  have hclosing : (State.initial.advance ')' none).state = .initial := rfl
  have hspace : (State.initial.advance ' ' none).state = .initial := rfl
  have hskip := (forall_mem_steps (·.depth = 0) i .initial ps).2 hzero
  rw [steps_append_cons (by decide), hps, closingStep_append_of_zero hskip,
    steps_cons (by decide), hclosing, closingStep_cons_of_zero rfl,
    steps_cons (by decide), hspace, closingStep_cons_of_zero rfl,
    closingStep_block hcs]

/-- Parameters with a block are taken for more than parameters: that block closes in them. -/
theorem exists_closingStep_of_depth_ne_zero {ps : List Char}
    (hps : finish .initial ps = .initial)
    (hne : ¬ ∀ x ∈ steps 0 .initial ps, x.state.depth = 0) (i : Nat) :
    ∃ e, closingStep false (steps i .initial ps) = some e := by
  cases hclose : closingStep false (steps i .initial ps) with
  | some e => exact ⟨e, rfl⟩
  | none =>
      exfalso
      rcases of_closingStep_eq_none hclose with ⟨-, hzero⟩ | hopen
      · exact hne ((forall_mem_steps (·.depth = 0) i .initial ps).1 hzero)
      · have hpos := hopen .initial fun h => by cases h
        rw [stateAfter, ← finish_eq, hps] at hpos
        exact Nat.lt_irrefl 0 hpos

/-- Behind parameters without a block, the first block is the body. -/
theorem matchingBraceEnd_declaration {params body : String}
    (hparams : finish .initial params.toList = .initial)
    (hzero : ∀ x ∈ steps 0 .initial params.toList, x.state.depth = 0)
    (hbody : BlockBody body.toList) (name after : String) :
    matchingBraceEnd (Source.ofString (declaration name params body ++ after))
        (10 + name.toList.length) =
      some (declaration name params body).toList.length := by
  rw [matchingBraceEnd_eq, drop_declaration, closingStep_parameters hparams hzero hbody,
    length_declaration]

/-- With a block in the parameters, the first block closes before the parameters do. -/
theorem matchingBraceEnd_parameters {params : String}
    (hparams : finish .initial params.toList = .initial)
    (hne : ¬ ∀ x ∈ steps 0 .initial params.toList, x.state.depth = 0)
    (name body after : String) :
    ∃ e, matchingBraceEnd (Source.ofString (declaration name params body ++ after))
        (10 + name.toList.length) = some e ∧
      e ≤ 10 + name.toList.length + params.toList.length := by
  obtain ⟨e, he⟩ :=
    exists_closingStep_of_depth_ne_zero hparams hne (10 + name.toList.length)
  refine ⟨e, ?_⟩
  rw [matchingBraceEnd_eq, drop_declaration]
  exact (closingStep_steps_append _ _ _ _ _).1 he

/-! ### Whole declarations -/

/-- A function declaration is extracted whole just if there is room for its name and its
parameters open no block. -/
theorem extract_declaration_iff {name params body : String} (hne : name ≠ "")
    (hname : ∀ ch ∈ name.toList, isBlank ch = false)
    (hparams : finish .initial params.toList = .initial) (hbody : BlockBody body.toList)
    (after : String) :
    (∃ c, extract (declaration name params body ++ after) name .braces = .found c ∧
        c.kind = .function ∧ c.start = 0 ∧ c.body = declaration name params body) ↔
      (∃ s ∈ signatures name.toList, s.kind = .function) ∧
        ∀ x ∈ steps 0 .initial params.toList, x.state.depth = 0 := by
  have htrim : trim name.toList = name.toList := trim_eq_self hname
  have hempty : ¬ (trim name.toList).isEmpty = true := by simpa [htrim] using hne
  rw [extract_braces hempty, htrim]
  constructor
  · rintro ⟨c, hfound, hkind, -, htext⟩
    obtain ⟨s, m, hsig, -, hclose, hc⟩ := of_extractBraced_found hfound
    have hskind : s.kind = .function := by
      rw [← hkind, hc]
      rfl
    have hs := mem_signatures_of_findSignature hsig
    refine ⟨⟨s, hs, hskind⟩, Classical.byContradiction fun hblock => ?_⟩
    -- The block in the parameters ends the construct, which is then too short.
    rw [findSignature_declaration hne hname hs hskind] at hsig
    obtain ⟨-, rfl⟩ := Prod.mk.inj (Option.some.inj hsig)
    obtain ⟨e, he, hle⟩ := matchingBraceEnd_parameters hparams hblock name body after
    rw [(of_kind_eq_function hs hskind).2.2, he, Option.some.injEq] at hclose
    have hlength := congrArg (·.toList.length) htext
    rw [hc] at hlength
    simp only [ofSpan, String.toList_ofList, Source.length_slice, length_declaration] at hlength
    omega
  · rintro ⟨⟨s, hs, hskind⟩, hzero⟩
    have hclose := matchingBraceEnd_declaration hparams hzero hbody name after
    rw [extractBraced_eq_found (findSignature_declaration hne hname hs hskind params body after)
      (by rw [(of_kind_eq_function hs hskind).2.2]; exact hclose)]
    refine ⟨_, rfl, hskind, rfl, ?_⟩
    simp only [ofSpan, Source.slice_eq, Source.toList_ofString, String.toList_append,
      List.drop_zero, Nat.sub_zero, List.take_left, String.ofList_toList]

/-- A declaration with a block in its body, which another one follows. -/
theorem extract_declaration_nested :
    ("f" ≠ "" ∧ (∀ ch ∈ "f".toList, isBlank ch = false)) ∧
      finish .initial "a, b".toList = .initial ∧ BlockBody "if (a) \x7b\x7d".toList ∧
      ∃ c, extract (declaration "f" "a, b" "if (a) \x7b\x7d" ++ declaration "g" "" "") "f"
          .braces = .found c ∧
        c.kind = .function ∧ c.start = 0 ∧ c.body = declaration "f" "a, b" "if (a) \x7b\x7d" := by
  have hne : "f" ≠ "" := by decide
  have hname : ∀ ch ∈ "f".toList, isBlank ch = false := by
    intro ch hch
    rw [List.mem_singleton.1 (show ch ∈ ['f'] from hch)]
    rfl
  have hparams : finish .initial "a, b".toList = .initial := by decide
  have hbody : BlockBody "if (a) \x7b\x7d".toList := by decide
  have hzero : ∀ x ∈ steps 0 .initial "a, b".toList, x.state.depth = 0 := by decide
  have hroom : ∃ s ∈ signatures "f".toList, s.kind = .function :=
    ⟨⟨.function, functionPattern "f".toList, false, 4936⟩,
      List.mem_filter.2 ⟨List.mem_cons_self, by decide⟩, rfl⟩
  exact ⟨⟨hne, hname⟩, hparams, hbody,
    (extract_declaration_iff hne hname hparams hbody (declaration "g" "" "")).2 ⟨hroom, hzero⟩⟩

/-- A parameter that is taken apart ends the construct, though its braces match each other. -/
theorem extract_declaration_destructured :
    (finish .initial "\x7ba\x7d".toList = .initial ∧
        (steps 0 .initial "\x7ba\x7d".toList).map (·.state.depth) = [1, 1, 0] ∧
        BlockBody "".toList) ∧
      extract (declaration "f" "\x7ba\x7d" "" ++ "") "f" .braces =
        .found ⟨.function, 0, 14, "function f(\x7ba\x7d", 1, 1⟩ ∧
      ¬ ∃ c, extract (declaration "f" "\x7ba\x7d" "" ++ "") "f" .braces = .found c ∧
        c.kind = .function ∧ c.start = 0 ∧ c.body = declaration "f" "\x7ba\x7d" "" := by
  have hfound : extract (declaration "f" "\x7ba\x7d" "" ++ "") "f" .braces =
      .found ⟨.function, 0, 14, "function f(\x7ba\x7d", 1, 1⟩ := by
    decide +kernel
  refine ⟨⟨by decide, by decide, by decide⟩, hfound, ?_⟩
  rintro ⟨c, hc, -, -, hbody⟩
  rw [hfound] at hc
  cases hc
  revert hbody
  decide

end Construct

end CodeParts
