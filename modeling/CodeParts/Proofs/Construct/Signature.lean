import CodeParts.Construct.Braced
import CodeParts.Proofs.Pattern.Window

/-!
# Signatures in a window

If the signature that is found in a text lies in a window, the same signature is found in
the window (`findSignature_window`). The window may end anywhere, in the middle of a line
or of a word.

Signatures that end in an opening parenthesis or brace are settled, so a window can hide
but never add them. The signature of a class looks at what follows the name instead, and a
window that ends just behind a name makes a class of `class Foo` where the whole text
goes on with `Foobar`. That does no harm, because such a class lies behind the one that is
found: of two places where the words before a class name stand, the later one has the later
name (`le_offset_of_mem_run_classHead`).
-/

namespace CodeParts.Construct

open Pattern

variable {src sub : Source} {a : Nat} {name : List Char} {s : Signature} {c d e : Cursor}
  {m : Match}

/-! ### The words before a class name -/

/-- What stands before the name of a class. -/
def classHead : Pattern := chain [indentedLine, exportWords, keyword "class", gap]

/-- The name of a class with what ends it. -/
def className (name : List Char) : Pattern :=
  seq (literal name) (alt (one fun ch => !isNameChar ch) lineEnd)

theorem ne_of_isBlank {ch : Char} (h : isBlank ch = true) : ch ≠ 'c' := by
  rintro rfl
  revert h
  decide

theorem ne_of_isIndent {ch : Char} (h : isIndent ch = true) : ch ≠ 'c' := by
  rintro rfl
  revert h
  decide

theorem only_keyword {word : String} {ch : Char} (h : ch ∉ word.toList) :
    (keyword word).Only (· ≠ ch) := by
  intro other hother heq
  exact h (heq ▸ hother)

/-- No word that exports a declaration has the first letter of `class`. -/
theorem only_exportWords : (chain [indentedLine, exportWords]).Only (· ≠ 'c') := by
  have hgap : gap.Only (· ≠ 'c') := ⟨fun _ => ne_of_isBlank, fun _ => ne_of_isBlank⟩
  have hexport : (keyword "export").Only (· ≠ 'c') := only_keyword (by decide)
  have hdefault : (keyword "default").Only (· ≠ 'c') := only_keyword (by decide)
  exact ⟨⟨trivial, fun _ => ne_of_isIndent⟩,
    ⟨⟨hexport, hgap, hdefault, hgap⟩, trivial⟩, ⟨hexport, hgap⟩, trivial⟩

/-- The first letter of `class` stands once in what is before a name, and it tells where the
name begins. -/
theorem of_mem_run_classHead (h : d ∈ classHead.run src c) :
    ∃ k, c.offset ≤ k ∧ k < d.offset ∧ src.charAt k = some 'c' ∧
      d.offset = src.runEnd isBlank (k + 6) ∧
      ∀ j, c.offset ≤ j → j < d.offset → src.charAt j = some 'c' → j = k := by
  have hrun := run_chain_append src [indentedLine, exportWords] [keyword "class", gap] c
  have hhead : d ∈ (chain ([indentedLine, exportWords] ++ [keyword "class", gap])).run src c := h
  rw [hrun, mem_run_seq] at hhead
  obtain ⟨e, he, hd⟩ := hhead
  have hlass : (seq (keyword "lass") gap).Only (· ≠ 'c') :=
    ⟨only_keyword (by decide), fun _ => ne_of_isBlank, fun _ => ne_of_isBlank⟩
  -- Behind its first letter the rest of the keyword is matched like a keyword of its own.
  have hrest : src.charIs 'c' e.offset = true ∧
      d ∈ (seq (keyword "lass") gap).run src (e.moveTo (e.offset + 1)) ∧
      d.offset = src.runEnd isBlank (e.offset + 6) := by
    obtain ⟨f, hf, hgap⟩ := mem_run_seq.1 hd
    obtain ⟨hlit, rfl⟩ := mem_run_literal.1 hf
    have hsplit : src.charIs 'c' e.offset = true ∧
        src.literalAt "lass".toList (e.offset + 1) = true := Bool.and_eq_true_iff.1 hlit
    refine ⟨hsplit.1, mem_run_seq.2 ⟨_, mem_run_literal.2 ⟨hsplit.2, rfl⟩, hgap⟩, ?_⟩
    obtain ⟨g, hg, hall⟩ := mem_run_seq.1 hgap
    obtain ⟨-, rfl⟩ := mem_run_one.1 hg
    exact congrArg Cursor.offset (List.mem_singleton.1 hall)
  obtain ⟨hc, hrest, hoffset⟩ := hrest
  have hce : c.offset ≤ e.offset := le_offset_of_mem_run he
  have hed : e.offset + 1 ≤ d.offset := le_offset_of_mem_run hrest
  refine ⟨e.offset, hce, hed, Source.charIs_eq_true.1 hc, hoffset, ?_⟩
  intro j hcj hjd hj
  rcases Nat.lt_trichotomy j e.offset with hlt | heq | hgt
  · obtain ⟨ch, hch, hne⟩ := charAt_of_mem_run only_exportWords he hcj hlt
    rw [hj, Option.some.injEq] at hch
    exact absurd hch.symm hne
  · exact heq
  · obtain ⟨ch, hch, hne⟩ := charAt_of_mem_run hlass hrest hgt hjd
    rw [hj, Option.some.injEq] at hch
    exact absurd hch.symm hne

/-- Of two places where a class name may be expected, the later one has the later name. -/
theorem le_offset_of_mem_run_classHead {c' d' : Cursor} (h : d ∈ classHead.run src c)
    (h' : d' ∈ classHead.run src c') (hle : c.offset ≤ c'.offset) : d.offset ≤ d'.offset := by
  obtain ⟨k, -, -, -, hoffset, honly⟩ := of_mem_run_classHead h
  obtain ⟨k', hk', hlt', hc', hoffset', -⟩ := of_mem_run_classHead h'
  refine Nat.le_of_not_lt fun hlt => ?_
  -- The later `class` would begin inside of what stands before the earlier name.
  have hkk := honly k' (by omega) (by omega) hc'
  rw [hkk, ← hoffset] at hoffset'
  omega

/-! ### Signatures that agree through the end of a window -/

/-- All forms but that of a class end in what opens the parameters or the body. -/
theorem settled_of_mem_allSignatures (w : Source.Window sub src a)
    (ha : src.lineStartsAt a = true) (hs : s ∈ allSignatures name)
    (hkind : s.kind ≠ .classDeclaration) : Settled sub src a s.pattern := by
  have hopen : Settled sub src a openParameters :=
    settled_seq w ha blanks (settled_literal w (by decide))
  have harrow : Settled sub src a blockArrow :=
    settled_chain w ha [blanks, keyword "=>", blanks] (settled_one w _)
  simp only [allSignatures, List.mem_cons, List.not_mem_nil, or_false] at hs
  rcases hs with rfl | rfl | rfl | rfl | rfl | rfl | rfl | rfl
  · exact settled_chain w ha [_, _, _, _, _] hopen
  · exact settled_chain w ha [_, _, _, _, _, _, _] hopen
  · exact settled_chain w ha [_, _, _, _, _, _, _] hopen
  · exact settled_chain w ha [_, _, _, _, _, _, _, _, _] hopen
  · exact settled_chain w ha [_, _, _] hopen
  · exact settled_chain w ha [_, _, _, _] harrow
  · exact settled_chain w ha [_, _, _] harrow
  · exact absurd rfl hkind

/-- The form of a class is what stands before a class name and then the name. -/
theorem run_of_kind_eq_class (hs : s ∈ allSignatures name) (hkind : s.kind = .classDeclaration)
    (src : Source) (c : Cursor) :
    s.pattern.run src c = (seq classHead (className name)).run src c := by
  simp only [allSignatures, List.mem_cons, List.not_mem_nil, or_false] at hs
  rcases hs with rfl | rfl | rfl | rfl | rfl | rfl | rfl | rfl
  case inr.inr.inr.inr.inr.inr.inr =>
    exact run_chain_append src [indentedLine, exportWords, keyword "class", gap]
      [literal name, alt (one fun ch => !isNameChar ch) lineEnd] c
  all_goals cases hkind

/-- The form of a class comes last. -/
theorem pairwise_signatures (name : List Char) :
    (signatures name).Pairwise fun s _ => s.kind ≠ .classDeclaration := by
  refine List.Pairwise.sublist List.filter_sublist ?_
  simp [allSignatures]

theorem nullable_of_mem_allSignatures (hs : s ∈ allSignatures name) :
    s.pattern.nullable = false := by
  simp only [allSignatures, List.mem_cons, List.not_mem_nil, or_false] at hs
  rcases hs with rfl | rfl | rfl | rfl | rfl | rfl | rfl | rfl <;> rfl

/-- If the match of a class form in the whole text ends in the window, the form agrees there and
at all offsets before. -/
theorem agrees_of_kind_eq_class (w : Source.Window sub src a) (ha : src.lineStartsAt a = true)
    (hne : name ≠ []) (hs : s ∈ allSignatures name) (hkind : s.kind = .classDeclaration)
    (h : s.pattern.matchAt src m.start = some m) (hstop : m.stop ≤ a + sub.size) {i : Nat}
    (hi : a + i ≤ m.start) : Agrees sub src a (sub.size + 1) s.pattern ⟨i, []⟩ := by
  rw [Agrees, run_of_kind_eq_class hs hkind, run_of_kind_eq_class hs hkind]
  refine agrees_seq ?_ (agrees_size w ha classHead _) ?_
  · intro s k d e he hd
    obtain ⟨f, hf, he⟩ := mem_run_seq.1 he
    obtain ⟨-, rfl⟩ := mem_run_literal.1 hf
    have hpos : 0 < name.length := List.length_pos_iff.2 hne
    have hle : d.offset + name.length ≤ e.offset := le_offset_of_mem_run he
    omega
  · intro d hd hlt
    refine agrees_before_lineEnd w name _ fun _ hend => ?_
    -- The name of the match in the whole text ends no earlier than this one ends the window.
    have hsrc : d.shift a ∈ classHead.run src ⟨a + i, []⟩ := by
      have hagrees := agrees_size w ha classHead ⟨i, []⟩
      rw [Agrees] at hagrees
      refine (List.mem_filter.1 (hagrees ▸ List.mem_map_of_mem (List.mem_filter.2 ⟨hd, ?_⟩))).1
      simpa using hlt
    obtain ⟨e, hemem, hm⟩ := exists_mem_run_of_matchAt h
    rw [run_of_kind_eq_class hs hkind, mem_run_seq] at hemem
    obtain ⟨f, hf, hemem⟩ := hemem
    have hle : a + d.offset ≤ f.offset := le_offset_of_mem_run_classHead hsrc hf hi
    have hestop : e.offset = m.stop := congrArg Match.stop hm.symm
    obtain ⟨g, hg, hemem⟩ := mem_run_seq.1 hemem
    obtain ⟨-, rfl⟩ := mem_run_literal.1 hg
    rcases mem_run_alt.1 hemem with hone | hline
    · obtain ⟨-, rfl⟩ := mem_run_one.1 hone
      have : f.offset + name.length + 1 = m.stop := hestop
      omega
    · obtain ⟨hends, rfl⟩ := mem_run_lineEnd.1 hline
      have : f.offset + name.length = m.stop := hestop
      have heq : f.offset + name.length = a + sub.size := by omega
      rw [← heq]
      exact hends

/-! ### The signature in a window -/

theorem mem_allSignatures_of_mem (h : s ∈ signatures name) : s ∈ allSignatures name :=
  (List.mem_filter.1 h).1

/-- What is found of a signature, in the list of signatures and in the text. -/
theorem of_findSignature (h : findSignature src name = some (s, m)) :
    ∃ before after, signatures name = before ++ s :: after ∧ s.pattern.find src 0 = some m ∧
      ∀ t ∈ before, t.pattern.find src 0 = none := by
  obtain ⟨before, t, after, hsplit, ht, hbefore⟩ := List.findSome?_eq_some_iff.1 h
  rw [Option.map_eq_some_iff] at ht
  obtain ⟨m, hm, heq⟩ := ht
  cases heq
  refine ⟨before, after, hsplit, hm, ?_⟩
  intro t ht
  have hnone := hbefore t ht
  rwa [Option.map_eq_none_iff] at hnone

theorem mem_signatures_of_findSignature (h : findSignature src name = some (s, m)) :
    s ∈ signatures name := by
  obtain ⟨before, after, hsplit, -⟩ := of_findSignature h
  exact hsplit ▸ List.mem_append_right _ List.mem_cons_self

/-- The signature that is found in a text is found in a window that contains its match. -/
theorem findSignature_window (w : Source.Window sub src a) (ha : src.lineStartsAt a = true)
    (hne : name ≠ []) (h : findSignature src name = some (s, m)) (hstart : a ≤ m.start)
    (hstop : m.stop ≤ a + sub.size) :
    ∃ m', findSignature sub name = some (s, m') ∧ m = m'.shift a ∧ m'.start < m'.stop := by
  obtain ⟨before, after, hsplit, hm, hbefore⟩ := of_findSignature h
  have hmem {t : Signature} (ht : t ∈ before ++ s :: after) : t ∈ allSignatures name :=
    mem_allSignatures_of_mem (hsplit ▸ ht)
  have hs : s ∈ allSignatures name := hmem (List.mem_append_right _ List.mem_cons_self)
  have hfirst := firstMatch_of_find (Nat.zero_le _) hm
  obtain ⟨m', hm', rfl⟩ := find_eq_some_of_agrees w (fun i hi => by
    by_cases hkind : s.kind = .classDeclaration
    · exact agrees_of_kind_eq_class w ha hne hs hkind hfirst.matchAt_eq hstop hi
    · exact (settled_of_mem_allSignatures w ha hs hkind).agrees _) hm hstart hstop
  refine ⟨m', ?_, rfl, ?_⟩
  · -- A signature with a higher priority is no class, and it matches nowhere in the window.
    refine List.findSome?_eq_some_iff.2 ⟨before, s, after, hsplit, by rw [hm']; rfl, ?_⟩
    intro t ht
    have hkind := (List.pairwise_append.1 (hsplit ▸ pairwise_signatures name)).2.2
      t ht s List.mem_cons_self
    rw [Option.map_eq_none_iff]
    exact (settled_of_mem_allSignatures w ha (hmem (List.mem_append_left _ ht)) hkind).find_eq_none
      w (hbefore t ht)
  · have hfirst' := firstMatch_of_find (Nat.zero_le _) hm'
    exact start_lt_stop_of_matchAt (nullable_of_mem_allSignatures hs) hfirst'.matchAt_eq

end CodeParts.Construct
