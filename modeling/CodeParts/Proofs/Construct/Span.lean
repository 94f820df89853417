import CodeParts.Proofs.Construct.Window
import CodeParts.Proofs.Source.LineSpans
import CodeParts.Report.Fields

/-!
# The span of a construct

The two dialects find the place of a construct in different ways: with braces its offsets are
those of a match and of a step of a scan, and its lines are looked up in the table; with
indentation its lines are counted, and its offsets are the lengths of lines. Both ways lead
to a span that begins with a line, with the characters and the lines that the text has there
(`isSpan_of_extractBraced`, `isSpan_of_extractIndented`), and all else is said of such spans
(`verbatim_of_extract`).
-/

namespace CodeParts

namespace Construct

open Pattern

variable {src : Source} {name : List Char} {c : Construct} {s : Signature} {m : Match}

/-- A construct stands in a text where it says, from the start of a line on. -/
structure IsSpan (src : Source) (c : Construct) : Prop where
  start_lt : c.start < c.stop
  stop_le : c.stop ≤ src.size
  lineStartsAt : src.lineStartsAt c.start = true
  body_eq : c.body = String.ofList (src.slice c.start c.stop)
  startLine_eq : c.startLine = src.lineOf c.start + 1
  endLine_eq : c.endLine = src.lineOf (c.stop - 1) + 1

/-! ### Blocks delimited by braces -/

theorem beginsLine_of_mem_allSignatures (hs : s ∈ allSignatures name) :
    s.pattern.beginsLine = true := by
  simp only [allSignatures, List.mem_cons, List.not_mem_nil, or_false] at hs
  rcases hs with rfl | rfl | rfl | rfl | rfl | rfl | rfl | rfl <;> rfl

/-- A signature begins a line and takes at least one character. -/
theorem start_of_findSignature (h : findSignature src name = some (s, m)) :
    src.lineStartsAt m.start = true ∧ m.start < m.stop := by
  obtain ⟨before, after, hsplit, hm, -⟩ := of_findSignature h
  have hs := mem_allSignatures_of_mem (mem_signatures_of_findSignature h)
  have hmatch := (firstMatch_of_find (Nat.zero_le _) hm).matchAt_eq
  refine ⟨?_, start_lt_stop_of_matchAt (nullable_of_mem_allSignatures hs) hmatch⟩
  obtain ⟨d, hd, -⟩ := exists_mem_run_of_matchAt hmatch
  exact lineStartsAt_of_beginsLine (beginsLine_of_mem_allSignatures hs) hd

theorem isSpan_of_extractBraced (h : extractBraced src name = .found c) : IsSpan src c := by
  obtain ⟨s, m, hsig, hle, hclose, hc⟩ := of_extractBraced_found h
  obtain ⟨hstart, hlt⟩ := start_of_findSignature hsig
  have hstop := matchingBraceEnd_le hclose
  rw [hc]
  exact ⟨Nat.lt_of_lt_of_le hlt hle, hstop, hstart, rfl, rfl, rfl⟩

/-- A block in braces ends with a closing brace. -/
theorem getLast?_body_of_extractBraced (h : extractBraced src name = .found c) :
    c.body.toList.getLast? = some '\x7d' := by
  have hspan := isSpan_of_extractBraced h
  obtain ⟨s, m, -, -, hclose, -⟩ := of_extractBraced_found h
  rw [hspan.body_eq, String.toList_ofList, Source.getLast?_slice hspan.start_lt hspan.stop_le]
  exact charAt_of_matchingBraceEnd hclose

/-! ### Blocks delimited by indentation -/

/-- A construct of `count` lines behind the first `l` lines of a text. -/
def ofLines (src : Source) (kind : Kind) (l count : Nat) : Construct :=
  { kind
    start := src.lineStart l
    stop := src.lineStart (l + count)
    body := String.ofList (src.linesText l (l + count - 1))
    startLine := l + 1
    endLine := l + count }

theorem isSpan_ofLines (kind : Kind) {l count : Nat} (hpos : 0 < count)
    (hcount : l + count ≤ src.lineCount) : IsSpan src (ofLines src kind l count) := by
  have hl : l < src.lineCount := by omega
  have hlast : l + count - 1 + 1 = l + count := Nat.sub_add_cancel (by omega)
  constructor
  case start_lt =>
    exact Nat.lt_of_lt_of_le (Source.lineStart_lt_succ hl) (src.lineStart_mono (by omega))
  case stop_le => exact src.lineStart_le_size _
  case lineStartsAt => exact Source.lineStartsAt_lineStart hl
  case body_eq =>
    show String.ofList (src.linesText l (l + count - 1)) = _
    rw [Source.linesText, hlast]
    rfl
  case startLine_eq => exact congrArg (· + 1) (Source.lineOf_lineStart hl).symm
  case endLine_eq =>
    have hline := Source.lineOf_lineStart_succ_pred (show l + count - 1 < src.lineCount by omega)
    rw [hlast] at hline
    show l + count = src.lineOf (src.lineStart (l + count) - 1) + 1
    rw [hline, hlast]

/-- What is counted line by line is what the table says. -/
theorem ofLines_eq {before block after : List (List Char)}
    (h : src.lines = (before ++ block) ++ after) (hne : block ≠ []) (kind : Kind) :
    before.length + block.length ≤ src.lineCount ∧
      ofLines src kind before.length block.length =
        ⟨kind, before.flatten.length, before.flatten.length + block.flatten.length,
          String.ofList block.flatten, before.length + 1, before.length + block.length⟩ := by
  have hpos := List.length_pos_iff.2 hne
  rw [Source.lines_eq] at h
  have htake : (splitLines src.toList).take (before.length + block.length) = before ++ block := by
    rw [h, ← List.length_append, List.take_left]
  have hstart : src.lineStart before.length = before.flatten.length := by
    rw [Source.lineStart_eq, h, List.append_assoc, List.take_left]
  have hstop : src.lineStart (before.length + block.length) =
      before.flatten.length + block.flatten.length := by
    rw [Source.lineStart_eq, htake, List.flatten_append, List.length_append]
  have htext : src.linesText before.length (before.length + block.length - 1) = block.flatten := by
    rw [Source.linesText_eq src (by omega), Nat.sub_add_cancel (by omega), htake, List.drop_left]
  constructor
  · have hlength := congrArg List.length h
    rw [List.length_append, List.length_append] at hlength
    rw [Source.lineCount_eq]
    omega
  · rw [ofLines, hstart, hstop, htext]

/-- A block delimited by indentation is a header line with the lines that continue it, and what
stands behind them does not. -/
theorem of_extractIndented_found (h : extractIndented src name = .found c) :
    ∃ kind before line block after, src.lines = (before ++ line :: block) ++ after ∧
      headerKind (headers name) line = some kind ∧
      (∀ l ∈ block, continues (indentWidth line) l = true) ∧
      (∀ l, after.head? = some l → continues (indentWidth line) l = false) ∧
      before.length + (block.length + 1) ≤ src.lineCount ∧
      c = ofLines src kind before.length (block.length + 1) := by
  unfold extractIndented at h
  split at h
  · obtain ⟨before, line, following, kind, hlines, -, hline, rfl⟩ := lines_of_indentedBlock h
    have hcut : src.lines =
        (before ++ line :: following.takeWhile (continues (indentWidth line))) ++
          following.dropWhile (continues (indentWidth line)) := by
      rw [hlines, List.append_assoc, List.cons_append, List.takeWhile_append_dropWhile]
    obtain ⟨hcount, hblock⟩ := ofLines_eq hcut (List.cons_ne_nil _ _) kind
    refine ⟨kind, before, line, _, _, hcut, hline, ?_, ?_, hcount, hblock.symm⟩
    · exact fun l hl => List.all_eq_true.1 List.all_takeWhile l hl
    · intro l hl
      have hnot := List.head?_dropWhile_not (continues (indentWidth line)) following
      rw [hl] at hnot
      exact hnot
  · cases h

/-- A block delimited by indentation is a span of whole lines. -/
theorem isSpan_of_extractIndented (h : extractIndented src name = .found c) :
    IsSpan src c ∧ c.body.toList = src.linesText (c.startLine - 1) (c.endLine - 1) := by
  obtain ⟨kind, before, line, block, after, -, -, -, -, hcount, rfl⟩ := of_extractIndented_found h
  exact ⟨isSpan_ofLines kind (Nat.succ_pos _) hcount, String.toList_ofList⟩

/-! ### What a span says -/

/-- The place that a construct gives is verbatim and consistent with the lines of the text. -/
structure Verbatim (text : String) (c : Construct) : Prop where
  body_toList : c.body.toList = (text.toList.drop c.start).take (c.stop - c.start)
  body_ne : c.body ≠ ""
  stop_le : c.stop ≤ text.length
  begins_line : c.start = 0 ∨ text.toList[c.start - 1]? = some '\n'
  startLine_eq : c.startLine - 1 = (text.toList.take c.start).count '\n'
  endLine_eq : c.endLine - 1 = (text.toList.take (c.stop - 1)).count '\n'
  one_le_startLine : 1 ≤ c.startLine
  startLine_le : c.startLine ≤ c.endLine
  endLine_le : c.endLine ≤ (Source.ofString text).lineCount
  body_prefix : ∃ rest, (Source.ofString text).linesText (c.startLine - 1) (c.endLine - 1) =
    c.body.toList ++ rest ∧ '\n' ∉ rest.dropLast

theorem IsSpan.verbatim {text : String} (h : IsSpan (Source.ofString text) c) :
    Verbatim text c := by
  have hlt := h.start_lt
  have hle := h.stop_le
  have hbody : c.body.toList = (Source.ofString text).slice c.start c.stop := by
    rw [h.body_eq, String.toList_ofList]
  constructor
  case body_toList => rw [hbody, Source.slice_eq, Source.toList_ofString]
  case body_ne =>
    intro hempty
    have hlength := congrArg List.length hbody
    rw [hempty, Source.length_slice, Nat.min_eq_left hle, String.toList_empty,
      List.length_nil] at hlength
    omega
  case stop_le =>
    rw [← Source.size_ofString]
    exact hle
  case begins_line =>
    rcases Nat.eq_zero_or_pos c.start with hzero | hpos
    · exact .inl hzero
    · have hnl := Source.newlineAt_of_lineStartsAt hpos h.lineStartsAt
      rw [Source.newlineAt_eq_true, Source.charAt_eq] at hnl
      exact .inr hnl
  case startLine_eq =>
    rw [h.startLine_eq, Nat.add_sub_cancel, Source.lineOf_eq]
    rfl
  case endLine_eq =>
    rw [h.endLine_eq, Nat.add_sub_cancel, Source.lineOf_eq]
    rfl
  case one_le_startLine =>
    rw [h.startLine_eq]
    exact Nat.succ_pos _
  case startLine_le =>
    rw [h.startLine_eq, h.endLine_eq]
    exact Nat.succ_le_succ (Source.lineOf_mono _ (Nat.le_sub_one_of_lt hlt))
  case endLine_le =>
    rw [h.endLine_eq]
    exact Source.lineOf_lt_lineCount (by omega)
  case body_prefix =>
    rw [h.startLine_eq, h.endLine_eq, Nat.add_sub_cancel, Nat.add_sub_cancel, hbody]
    exact Source.linesText_of_span h.lineStartsAt hlt hle

/-! ### What is reported -/

/-- The fields of a report that tell where a construct stands. -/
def placeFields (found : Bool) (start stop : Nat) (body : String) (startLine endLine : Nat) :
    List (String × Json) := [
  ("found", .bool found), ("start_offset", Json.ofNat start), ("end_offset", Json.ofNat stop),
  ("body", .string body), ("start_line", Json.ofNat startLine), ("end_line", Json.ofNat endLine)]

theorem placeFields_of_found {e : Extraction} (h : e = .found c) :
    placeFields true c.start c.stop c.body c.startLine c.endLine <+: Report.extractionFields e := by
  subst h
  exact ⟨_, rfl⟩

theorem placeFields_of_none {e : Extraction} (h : e.construct? = none) :
    placeFields false 0 0 "" 0 0 <+: Report.extractionFields e := by
  rw [Report.extractionFields, h, List.append_assoc]
  exact List.prefix_append _ _

/-- The place of a construct that is found is verbatim; with braces its body ends with a closing
brace, and with indentation it is the lines from its first to its last. Without a construct the
place that is reported is all zeros. -/
theorem verbatim_of_extract (text name : String) :
    (∀ c, extract text name .braces = .found c →
      Verbatim text c ∧ c.body.toList.getLast? = some '\x7d') ∧
    (∀ c, extract text name .indentation = .found c →
      Verbatim text c ∧
        c.body.toList = (Source.ofString text).linesText (c.startLine - 1) (c.endLine - 1)) ∧
    ∀ dialect,
      (∀ c, extract text name dialect = .found c →
        placeFields true c.start c.stop c.body c.startLine c.endLine <+:
          Report.extractionFields (extract text name dialect)) ∧
      ((extract text name dialect).construct? = none →
        placeFields false 0 0 "" 0 0 <+: Report.extractionFields (extract text name dialect)) := by
  refine ⟨fun c h => ?_, fun c h => ?_, fun dialect => ⟨?_, placeFields_of_none⟩⟩
  · rw [extract_braces (name_ne_nil_of_found h)] at h
    exact ⟨(isSpan_of_extractBraced h).verbatim, getLast?_body_of_extractBraced h⟩
  · rw [extract_indentation (name_ne_nil_of_found h)] at h
    obtain ⟨hspan, hbody⟩ := isSpan_of_extractIndented h
    exact ⟨hspan.verbatim, hbody⟩
  · exact fun c => placeFields_of_found

/-- A function and a definition behind a letter of two bytes, and a name that nothing declares. -/
theorem verbatim_of_extract_behind_letter :
    Verbatim "é\nfunction f() \x7b\x7d x\n" ⟨.function, 2, 17, "function f() \x7b\x7d", 2, 2⟩ ∧
      Verbatim "é\ndef f():\n  x" ⟨.definition, 2, 14, "def f():\n  x", 2, 3⟩ ∧
      placeFields false 0 0 "" 0 0 <+: Report.extractionFields (extract "é\n" "f" .braces) := by
  have hbraces : extract "é\nfunction f() \x7b\x7d x\n" "f" .braces =
      .found ⟨.function, 2, 17, "function f() \x7b\x7d", 2, 2⟩ := by
    decide +kernel
  have hindentation : extract "é\ndef f():\n  x" "f" .indentation =
      .found ⟨.definition, 2, 14, "def f():\n  x", 2, 3⟩ := by
    decide +kernel
  have hnone : (extract "é\n" "f" .braces).construct? = none := by decide +kernel
  exact ⟨((verbatim_of_extract _ _).1 _ hbraces).1,
    ((verbatim_of_extract _ _).2.1 _ hindentation).1,
    ((verbatim_of_extract _ _).2.2 .braces).2 hnone⟩

end Construct

end CodeParts
