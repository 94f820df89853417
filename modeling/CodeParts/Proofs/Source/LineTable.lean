import CodeParts.Proofs.Source.LineSpans

/-!
# The line table of a text

The table of line starts has an entry for the start of the text and one behind each newline, in
increasing order. So from the entry of a line the next newline leads to the entry of the next
line (`firstNewline_of_lineStarts`), and counting newlines from there is counting entries
(`afterNewline_of_lineStarts`). With what `Lines` and `LineSpans` know of single lines this says
that every question about lines has the same answer whether the table is looked up or the
newlines are counted (`lines_of_table`). Lines are numbered without a bound here, so what a range
of lines is on a machine is said of ranges whose end a word can count (`wordLinesText`).
-/

namespace CodeParts.Source

variable {src : Source} {i j l m : Nat}

/-! ### The entries of the table -/

theorem lineStarts_of_lineStart (h : l < src.lineStarts.size) :
    src.lineStarts[l]? = some (src.lineStart l) := by
  rw [lineStart, Array.getElem?_eq_getElem h]
  rfl

/-- Behind every newline a line starts. -/
theorem exists_lineStarts_of_newlineAt (h : src.newlineAt i = true) :
    ∃ l : Nat, src.lineStarts[l]? = some (i + 1) := by
  rw [newlineAt_eq_true, charAt_eq] at h
  refine Array.getElem?_of_mem (Array.mem_toList_iff.1 ?_)
  rw [lineStarts_toList]
  exact List.mem_cons_of_mem 0 (mem_offsetsAfter.2 ⟨i, by omega, h⟩)

/-- Every line but the first starts behind a newline. -/
theorem exists_newlineAt_of_lineStarts (h : src.lineStarts[l + 1]? = some i) :
    ∃ nl, i = nl + 1 ∧ src.newlineAt nl = true := by
  rw [← Array.getElem?_toList, lineStarts_toList, List.getElem?_cons_succ] at h
  obtain ⟨k, hi, hk⟩ := mem_offsetsAfter.1 (List.mem_of_getElem? h)
  refine ⟨k, by omega, ?_⟩
  rwa [newlineAt_eq_true, charAt_eq]

/-- From the start of a line the next newline leads to the start of the next line. -/
theorem firstNewline_of_lineStarts (h : src.lineStarts[l]? = some i) :
    (src.firstNewline i src.size).map (· + 1) = src.lineStarts[l + 1]? := by
  -- A newline behind the start of line `l` starts a line behind `l`.
  have hlater {nl : Nat} (hle : i ≤ nl) (hnl : src.newlineAt nl = true) :
      ∃ m : Nat, l < m ∧ src.lineStarts[m]? = some (nl + 1) := by
    obtain ⟨m, hm⟩ := exists_lineStarts_of_newlineAt hnl
    refine ⟨m, Nat.lt_of_not_le fun hml => ?_, hm⟩
    rcases Nat.eq_or_lt_of_le hml with rfl | hlt
    · rw [h, Option.some.injEq] at hm
      omega
    · have := lineStarts_lt hm h hlt
      omega
  rw [firstNewline, Nat.min_self]
  cases hnext : src.lineStarts[l + 1]? with
  | none =>
      rw [Option.map_eq_none_iff, firstIn_eq_none_iff]
      intro nl hle _
      rw [← Bool.not_eq_true]
      intro hnl
      obtain ⟨m, hlm, hm⟩ := hlater hle hnl
      have hsize := (Array.getElem?_eq_some_iff.1 hm).1
      have := Array.getElem?_eq_none_iff.1 hnext
      omega
  | some e =>
      obtain ⟨nl, rfl, hnl⟩ := exists_newlineAt_of_lineStarts hnext
      have hlt := lineStarts_lt h hnext (Nat.lt_succ_self l)
      rw [Option.map_eq_some_iff]
      refine ⟨nl, firstIn_eq_some_iff.2 ⟨by omega, lt_size_of_newlineAt hnl, hnl, ?_⟩, rfl⟩
      intro k hik hk
      rw [← Bool.not_eq_true]
      intro hkl
      obtain ⟨m, hlm, hm⟩ := hlater hik hkl
      rcases Nat.eq_or_lt_of_le hlm with rfl | hlt
      · rw [hnext, Option.some.injEq] at hm
        omega
      · have := lineStarts_lt hnext hm hlt
        omega

/-- From the start of a line so many newlines lead to the start of the line so many behind it. -/
theorem afterNewline_of_lineStarts (h : src.lineStarts[l]? = some i) (count : Nat) :
    src.afterNewline i count = src.lineStarts[l + count]? := by
  induction count generalizing l i with
  | zero =>
      have hle := src.lineStart_le_size l
      rw [lineStart, h, Option.getD_some] at hle
      rw [afterNewline, Nat.min_eq_left hle, Nat.add_zero, h]
  | succ count ih =>
      have hnext := firstNewline_of_lineStarts h
      rw [afterNewline]
      cases hnl : src.firstNewline i src.size with
      | none =>
          rw [hnl, Option.map_none] at hnext
          have hsize := Array.getElem?_eq_none_iff.1 hnext.symm
          rw [Option.bind_none, Array.getElem?_eq_none (by omega)]
      | some nl =>
          rw [hnl, Option.map_some] at hnext
          rw [Option.bind_some, ih hnext.symm, Nat.add_assoc, Nat.add_comm 1]

/-! ### The table as a whole -/

/-- The lines `first` to `last` on a machine, which counts the line behind `last` in a word, where
numbers begin again at zero behind the greatest one. -/
def wordLinesText (src : Source) (first last : Nat) : List Char :=
  src.slice (src.lineStart first) (src.lineStart ((last + 1) % wordSize))

theorem wordLinesText_of_lt {first last : Nat} (h : last + 1 < wordSize) :
    src.wordLinesText first last = src.linesText first last := by
  rw [wordLinesText, linesText, Nat.mod_eq_of_lt h]

/-- The greatest word is the number of no line, and a machine ends with it before the first. -/
example : (ofString "a").wordLinesText 0 (wordSize - 1) = [] ∧
    (ofString "a").linesText 0 (wordSize - 1) = ['a'] := by
  decide +kernel

/-- The text of a range of lines, also of one that ends before it begins. -/
theorem linesText_eq_flatten (src : Source) (first last : Nat) :
    src.linesText first last = (((splitLines src.toList).take (last + 1)).drop first).flatten := by
  by_cases h : first ≤ last + 1
  · exact src.linesText_eq h
  · have hle := src.lineStart_mono (Nat.le_of_not_le h)
    have hnil : ((splitLines src.toList).take (last + 1)).drop first = [] :=
      List.drop_eq_nil_of_le (by rw [List.length_take]; omega)
    rw [linesText, slice_eq_nil (by omega), hnil]
    rfl

/-- The table of a text tells its lines as its newlines do. -/
structure TablesLines (src : Source) : Prop where
  /-- An offset lies in the line with as many newlines before it. -/
  lineOf_eq : ∀ o, src.lineOf o = (src.toList.take (min o src.size)).count '\n'
  lineOf_iff : ∀ o l, o < src.size →
    (src.lineStart l ≤ o ∧ o < src.lineStart (l + 1) ↔ l = src.lineOf o)
  ne_nil : ∀ l, l < src.lineCount → src.linesText l l ≠ []
  /-- A newline can only be the last character of a line. -/
  newline_last : ∀ l, l < src.lineCount → '\n' ∉ (src.linesText l l).dropLast
  flatten_eq : ((List.range src.lineCount).map fun l => src.linesText l l).flatten = src.toList
  /-- A range of lines has the lines of the range that there are, also on a machine if a word
  holds the number of the line behind it. -/
  linesText_eq : ∀ first last, last + 1 < wordSize →
    src.wordLinesText first last = src.linesText first last ∧
      src.linesText first last =
        ((((List.range src.lineCount).map fun l => src.linesText l l).take (last + 1)).drop
          first).flatten
  /-- Counting newlines from the start of a line is counting lines. -/
  afterNewline_eq : ∀ l count, l < src.lineStarts.size →
    src.afterNewline (src.lineStart l) count =
      if l + count < src.lineStarts.size then some (src.lineStart (l + count)) else none

/-- Looking a line up in the table of a text and counting newlines in the text come to the same:
for the line of an offset, also behind the end; for the spans of the lines, which are not empty,
end at their newlines and make up the text; and for the start of the line that lies so many
newlines behind the start of another. -/
theorem lines_of_table (src : Source) : src.TablesLines := by
  have hmem {l : Nat} (hl : l < src.lineCount) : src.linesText l l ∈ splitLines src.toList := by
    rw [← lines_eq]
    exact List.mem_of_getElem? (getElem?_lines hl)
  constructor
  case lineOf_eq =>
    intro o
    rw [src.lineOf_eq, ← length_toList, List.take_eq_take_min]
  case lineOf_iff =>
    intro o l ho
    rw [← Source.lineOf_eq_iff ho, eq_comm]
  case ne_nil => exact fun l hl => ne_nil_of_mem_splitLines (hmem hl)
  case newline_last => exact fun l hl => newline_not_mem_dropLast_of_mem_splitLines (hmem hl)
  case flatten_eq =>
    show src.lines.flatten = src.toList
    rw [lines_eq, flatten_splitLines]
  case linesText_eq =>
    intro first last hlast
    refine ⟨wordLinesText_of_lt hlast, ?_⟩
    show src.linesText first last = ((src.lines.take (last + 1)).drop first).flatten
    rw [lines_eq, src.linesText_eq_flatten]
  case afterNewline_eq =>
    intro l count hl
    rw [afterNewline_of_lineStarts (lineStarts_of_lineStart hl)]
    split
    · next hlt => exact lineStarts_of_lineStart hlt
    · next hge => exact Array.getElem?_eq_none (Nat.le_of_not_lt hge)

/-- A range that ends far behind the text, at the last line number that it may end at. -/
theorem lines_of_table_wordSize :
    wordSize - 2 + 1 < wordSize ∧
      (ofString "a\nb").wordLinesText 1 (wordSize - 2) = ['b'] := by
  have hlast : wordSize - 2 + 1 < wordSize := by decide
  obtain ⟨hword, hlines⟩ := (lines_of_table (ofString "a\nb")).linesText_eq 1 _ hlast
  refine ⟨hlast, hword.trans (hlines.trans ?_)⟩
  decide +kernel

/-- Behind a final newline the table has one more entry than there are lines. -/
example : (ofString "a\n").lineCount = 1 ∧ (ofString "a\n").lineStarts.size = 2 ∧
    (ofString "a\n").lineOf 7 = 1 ∧ (ofString "a\n").afterNewline 0 2 = none ∧
    (ofString "").lineCount = 0 := by
  decide +kernel

end CodeParts.Source
