import CodeParts.Pattern
import CodeParts.Proofs.Source.Window
import CodeParts.Text.Line

/-!
# The table of lines

A `Source` answers questions about lines from a table of line starts; `splitLines` cuts a
list of characters after each newline. This module says that the two agree: `lines_eq`
and `lineCount_eq` give the lines of a text, and `lineOf_eq` counts the newlines before an
offset.

Proofs about lines go line by line (`lineInduction`): a list is empty, or one line
without a newline, or a line with its newline and a rest.
-/

namespace CodeParts

/-! ### Cutting a list into lines -/

theorem splitLines_line {body : List Char} (h : '\n' ∉ body) (rest : List Char) :
    splitLines (body ++ '\n' :: rest) = (body ++ ['\n']) :: splitLines rest := by
  induction body with
  | nil => simp [splitLines]
  | cons c body ih =>
      have hc : c ≠ '\n' := by
        rintro rfl
        exact h List.mem_cons_self
      have hbody : '\n' ∉ body := fun hmem => h (List.mem_cons_of_mem c hmem)
      rw [List.cons_append, splitLines, if_neg hc, ih hbody]
      rfl

theorem splitLines_last {line : List Char} (hne : line ≠ []) (h : '\n' ∉ line) :
    splitLines line = [line] := by
  induction line with
  | nil => exact absurd rfl hne
  | cons c line ih =>
      have hc : c ≠ '\n' := by
        rintro rfl
        exact h List.mem_cons_self
      have hline : '\n' ∉ line := fun hmem => h (List.mem_cons_of_mem c hmem)
      rw [splitLines, if_neg hc]
      cases line with
      | nil => rfl
      | cons d line => rw [ih (List.cons_ne_nil d line) hline]

/-- Induction on the lines of a list. -/
theorem lineInduction {motive : List Char → Prop} (nil : motive [])
    (last : ∀ line, line ≠ [] → '\n' ∉ line → motive line)
    (line : ∀ body rest, '\n' ∉ body → motive rest → motive (body ++ '\n' :: rest))
    (cs : List Char) : motive cs := by
  by_cases hmem : '\n' ∈ cs
  · obtain ⟨body, rest, hcs, hbody⟩ := List.eq_append_cons_of_mem hmem
    have hlt : rest.length < cs.length := by
      rw [hcs, List.length_append, List.length_cons]
      omega
    rw [hcs]
    exact line body rest hbody (lineInduction nil last line rest)
  · by_cases hne : cs = []
    · rw [hne]
      exact nil
    · exact last cs hne hmem
termination_by cs.length

/-- A list of whole lines: it is empty or ends in a newline. -/
def WholeLines (cs : List Char) : Prop := ∀ c, cs.getLast? = some c → c = '\n'

theorem wholeLines_nil : WholeLines [] := by
  intro c h
  cases h

theorem wholeLines_of_newline {cs : List Char} (h : cs.getLast? = some '\n') :
    WholeLines cs := by
  intro c hc
  rw [h] at hc
  cases hc
  rfl

theorem getLast?_of_wholeLines {cs : List Char} (h : WholeLines cs) (hne : cs ≠ []) :
    cs.getLast? = some '\n' := by
  rw [List.getLast?_eq_some_getLast hne, h _ (List.getLast?_eq_some_getLast hne)]

theorem not_wholeLines_of_not_mem {line : List Char} (hne : line ≠ []) (h : '\n' ∉ line) :
    ¬ WholeLines line := by
  intro hwhole
  exact h (List.mem_of_getLast? (getLast?_of_wholeLines hwhole hne))

theorem wholeLines_line_iff (body rest : List Char) :
    WholeLines (body ++ '\n' :: rest) ↔ WholeLines rest := by
  have hlast : (body ++ '\n' :: rest).getLast? = rest.getLast?.or (some '\n') := by
    rw [List.getLast?_append, List.getLast?_cons]
    cases rest.getLast? <;> rfl
  unfold WholeLines
  rw [hlast]
  cases rest.getLast? <;> simp

/-- Whole lines are cut without regard to what follows them. -/
theorem splitLines_append {xs : List Char} (h : WholeLines xs) (ys : List Char) :
    splitLines (xs ++ ys) = splitLines xs ++ splitLines ys := by
  induction xs using lineInduction with
  | nil => rfl
  | last line hne hline => exact absurd h (not_wholeLines_of_not_mem hne hline)
  | line body rest hbody ih =>
      rw [wholeLines_line_iff] at h
      rw [List.append_assoc, List.cons_append, splitLines_line hbody, splitLines_line hbody, ih h]
      rfl

/-- A list whose only newline is its last character is one line. -/
theorem splitLines_singleton {line : List Char} (hne : line ≠ []) (h : '\n' ∉ line.dropLast) :
    splitLines line = [line] := by
  have hlast := List.dropLast_concat_getLast hne
  by_cases hnl : line.getLast hne = '\n'
  · rw [hnl] at hlast
    rw [← hlast, splitLines_line h []]
    rfl
  · refine splitLines_last hne fun hmem => ?_
    rw [← hlast, List.mem_append, List.mem_singleton] at hmem
    rcases hmem with hmem | hmem
    · exact h hmem
    · exact hnl hmem.symm

/-- Lists of one line each, all but the last with its newline, are the lines of their
concatenation. -/
theorem splitLines_flatten {ls : List (List Char)} (hne : ∀ l ∈ ls, l ≠ [])
    (hone : ∀ l ∈ ls, '\n' ∉ l.dropLast) (hend : ∀ l ∈ ls.dropLast, l.getLast? = some '\n') :
    splitLines ls.flatten = ls := by
  induction ls with
  | nil => rfl
  | cons l ls ih =>
      have hl := splitLines_singleton (hne l List.mem_cons_self) (hone l List.mem_cons_self)
      by_cases hnil : ls = []
      · rw [hnil, List.flatten_singleton, hl]
      · rw [List.dropLast_cons_of_ne_nil hnil] at hend
        have hwhole := wholeLines_of_newline (hend l List.mem_cons_self)
        rw [List.flatten_cons, splitLines_append hwhole, hl,
          ih (fun m hm => hne m (List.mem_cons_of_mem l hm))
            (fun m hm => hone m (List.mem_cons_of_mem l hm))
            (fun m hm => hend m (List.mem_cons_of_mem l hm))]
        rfl

/-- No line is empty. -/
theorem ne_nil_of_mem_splitLines {cs line : List Char} (h : line ∈ splitLines cs) :
    line ≠ [] := by
  induction cs using lineInduction with
  | nil => cases h
  | last only hne honly =>
      rw [splitLines_last hne honly, List.mem_singleton] at h
      rw [h]
      exact hne
  | line body rest hbody ih =>
      rw [splitLines_line hbody, List.mem_cons] at h
      rcases h with rfl | h
      · simp
      · exact ih h

/-- Only the last character of a line can be a newline. -/
theorem newline_not_mem_dropLast_of_mem_splitLines {cs line : List Char}
    (h : line ∈ splitLines cs) : '\n' ∉ line.dropLast := by
  induction cs using lineInduction with
  | nil => cases h
  | last only hne honly =>
      rw [splitLines_last hne honly, List.mem_singleton] at h
      rw [h]
      exact fun hmem => honly (List.dropLast_subset _ hmem)
  | line body rest hbody ih =>
      rw [splitLines_line hbody, List.mem_cons] at h
      rcases h with rfl | h
      · rwa [List.dropLast_concat]
      · exact ih h

theorem splitLines_eq_nil_iff {cs : List Char} : splitLines cs = [] ↔ cs = [] := by
  constructor
  · intro h
    rw [← flatten_splitLines cs, h]
    rfl
  · rintro rfl
    rfl

/-- Whole lines are as many as their newlines. -/
theorem length_splitLines_of_wholeLines {cs : List Char} (h : WholeLines cs) :
    (splitLines cs).length = cs.count '\n' := by
  induction cs using lineInduction with
  | nil => rfl
  | last line hne hline => exact absurd h (not_wholeLines_of_not_mem hne hline)
  | line body rest hbody ih =>
      rw [wholeLines_line_iff] at h
      rw [splitLines_line hbody, List.length_cons, ih h, List.count_append, List.count_cons_self,
        List.count_eq_zero.2 hbody, Nat.zero_add]

/-- A line without a newline is one more. -/
theorem length_splitLines_of_not_wholeLines {cs : List Char} (h : ¬ WholeLines cs) :
    (splitLines cs).length = cs.count '\n' + 1 := by
  induction cs using lineInduction with
  | nil => exact absurd wholeLines_nil h
  | last line hne hline =>
      rw [splitLines_last hne hline, List.count_eq_zero.2 hline]
      rfl
  | line body rest hbody ih =>
      rw [wholeLines_line_iff] at h
      rw [splitLines_line hbody, List.length_cons, ih h, List.count_append, List.count_cons_self,
        List.count_eq_zero.2 hbody, Nat.zero_add]

/-- The lines `a` to `b` of several stand in their concatenation after the lines before
`a`. -/
theorem take_drop_flatten {α : Type} (ls : List (List α)) {a b : Nat} (hab : a ≤ b) :
    (ls.flatten.drop (ls.take a).flatten.length).take
        ((ls.take b).flatten.length - (ls.take a).flatten.length) =
      ((ls.take b).drop a).flatten := by
  have htake : (ls.take b).flatten = (ls.take a).flatten ++ ((ls.take b).drop a).flatten := by
    have := List.take_append_drop a (ls.take b)
    rw [List.take_take, Nat.min_eq_left hab] at this
    rw [← List.flatten_append, this]
  have hls : ls.flatten =
      (ls.take a).flatten ++ (((ls.take b).drop a).flatten ++ (ls.drop b).flatten) := by
    rw [← List.append_assoc, ← htake, ← List.flatten_append, List.take_append_drop]
  rw [hls, List.drop_left, htake, List.length_append, Nat.add_sub_cancel_left, List.take_left]

/-! ### The table of a text -/

theorem offsetsAfter_append (c : Char) (i : Nat) (xs ys : List Char) :
    offsetsAfter c i (xs ++ ys) = offsetsAfter c i xs ++ offsetsAfter c (i + xs.length) ys := by
  induction xs generalizing i with
  | nil => rfl
  | cons d xs ih =>
      rw [List.cons_append, offsetsAfter, offsetsAfter, ih, List.length_cons, Nat.add_assoc,
        Nat.add_comm 1]
      split <;> rfl

theorem offsetsAfter_eq_nil {c : Char} {cs : List Char} (h : c ∉ cs) (i : Nat) :
    offsetsAfter c i cs = [] := by
  rw [List.eq_nil_iff_forall_not_mem]
  intro j hj
  obtain ⟨k, -, hk⟩ := mem_offsetsAfter.1 hj
  exact h (List.mem_of_getElem? hk)

theorem length_offsetsAfter (c : Char) (i : Nat) (cs : List Char) :
    (offsetsAfter c i cs).length = cs.count c := by
  induction cs generalizing i with
  | nil => rfl
  | cons d cs ih =>
      rw [offsetsAfter, List.count_cons]
      by_cases hd : d = c
      · rw [if_pos hd, if_pos (by simpa using hd), List.length_cons, ih]
      · rw [if_neg hd, if_neg (by simpa using hd), ih]
        rfl

/-- The entries of a table up to an offset are those of the characters before it. -/
theorem countP_offsetsAfter (c : Char) (i n : Nat) (cs : List Char) :
    (offsetsAfter c i cs).countP (fun j => decide (j ≤ i + n)) = (cs.take n).count c := by
  induction cs generalizing i n with
  | nil => simp [offsetsAfter]
  | cons d cs ih =>
      cases n with
      | zero =>
          rw [List.take_zero, List.count_nil, List.countP_eq_zero]
          intro j hj
          obtain ⟨k, rfl, -⟩ := mem_offsetsAfter.1 hj
          rw [decide_eq_true_eq]
          omega
      | succ n =>
          have hn : i + (n + 1) = i + 1 + n := by omega
          rw [List.take_succ_cons, List.count_cons, offsetsAfter, hn]
          by_cases hd : d = c
          · rw [if_pos hd, if_pos (by simpa using hd), List.countP_cons, ih, if_pos (by simp)]
          · rw [if_neg hd, if_neg (by simpa using hd), ih]
            rfl

/-- Where line `l` begins, as the length of the lines before it. -/
theorem getD_lineStarts (i l : Nat) (cs : List Char) :
    ((i :: offsetsAfter '\n' i cs)[l]?).getD (i + cs.length) =
      i + ((splitLines cs).take l).flatten.length := by
  induction cs using lineInduction generalizing i l with
  | nil => cases l <;> simp [offsetsAfter, splitLines]
  | last line hne hline =>
      rw [offsetsAfter_eq_nil hline, splitLines_last hne hline]
      cases l <;> simp
  | line body rest hbody ih =>
      rw [splitLines_line hbody]
      cases l with
      | zero => rfl
      | succ l =>
          have hih := ih (i + body.length + 1) l
          rw [offsetsAfter_append, offsetsAfter_eq_nil hbody, List.nil_append, offsetsAfter,
            if_pos rfl, List.getElem?_cons_succ, List.take_succ_cons, List.flatten_cons]
          simp only [List.length_append, List.length_cons, List.length_nil]
          rw [show i + (body.length + (rest.length + 1)) =
            i + body.length + 1 + rest.length by omega, hih]
          omega

/-- On a partitioned array the point counts the elements that satisfy the property. -/
theorem partitionPoint_eq_countP {α : Type} {p : α → Bool} {xs : Array α}
    (hp : Partitioned p xs) : partitionPoint p xs = xs.toList.countP p := by
  obtain ⟨hsize, hlow, hhigh⟩ := partitionPoint_spec hp
  generalize partitionPoint p xs = t at hsize hlow hhigh
  rw [← List.take_append_drop t xs.toList, List.countP_append]
  have htake : (xs.toList.take t).countP p = t := by
    rw [List.countP_eq_length.2, List.length_take, Array.length_toList, Nat.min_eq_left hsize]
    intro x hx
    obtain ⟨i, hi⟩ := List.getElem?_of_mem hx
    rw [List.getElem?_take] at hi
    split at hi
    · next hlt => exact hlow i x hlt (by simpa using hi)
    · cases hi
  have hdrop : (xs.toList.drop t).countP p = 0 := by
    rw [List.countP_eq_zero]
    intro x hx
    obtain ⟨i, hi⟩ := List.getElem?_of_mem hx
    rw [List.getElem?_drop] at hi
    rw [hhigh (t + i) x (by omega) (by simpa using hi)]
    decide
  omega

namespace Source

theorem lineStarts_toList (src : Source) :
    src.lineStarts.toList = 0 :: offsetsAfter '\n' 0 src.toList := by
  rw [src.lineStarts_eq, lineStartsOf, toList]

/-- The table is increasing. -/
theorem lineStarts_lt {src : Source} {l m i j : Nat} (hi : src.lineStarts[l]? = some i)
    (hj : src.lineStarts[m]? = some j) (hlm : l < m) : i < j := by
  have hpair : src.lineStarts.toList.Pairwise (· < ·) := by
    rw [lineStarts_toList]
    refine .cons (fun j hj => ?_) (pairwise_offsetsAfter _ _ _)
    obtain ⟨k, rfl, -⟩ := mem_offsetsAfter.1 hj
    omega
  rw [← Array.getElem?_toList] at hi hj
  obtain ⟨hl, rfl⟩ := List.getElem?_eq_some_iff.1 hi
  obtain ⟨hm, rfl⟩ := List.getElem?_eq_some_iff.1 hj
  exact List.pairwise_iff_getElem.1 hpair l m hl hm hlm

theorem partitioned_lineStarts (src : Source) (i : Nat) :
    Partitioned (fun start => decide (start ≤ i)) src.lineStarts := by
  intro a b x y hx hy hab hle
  simp only [decide_eq_true_eq] at hle ⊢
  rcases Nat.eq_or_lt_of_le hab with rfl | hlt
  · rw [hx] at hy
    cases hy
    exact hle
  · have := lineStarts_lt hx hy hlt
    omega

/-- The index of the line of an offset is the number of newlines before it. -/
theorem lineOf_eq (src : Source) (i : Nat) : src.lineOf i = (src.toList.take i).count '\n' := by
  have hcount := countP_offsetsAfter '\n' 0 i src.toList
  rw [Nat.zero_add] at hcount
  rw [lineOf, partitionPoint_eq_countP (src.partitioned_lineStarts i), lineStarts_toList,
    List.countP_cons, hcount, if_pos (by simp)]
  rfl

/-- The number of lines of a text. -/
theorem lineCount_eq (src : Source) : src.lineCount = (splitLines src.toList).length := by
  have hstarts : src.lineStarts.size = src.toList.count '\n' + 1 := by
    rw [← Array.length_toList, lineStarts_toList, List.length_cons, length_offsetsAfter]
  have hlast : src.toList.getLast? = src.charAt (src.size - 1) := by
    rw [List.getLast?_eq_getElem?, length_toList, charAt_eq]
  unfold lineCount
  by_cases hempty : src.toList = []
  · have hsize : src.isEmpty = true := by simp [isEmpty, ← length_toList, hempty]
    rw [if_pos hsize, hempty]
    rfl
  · have hsize : ¬ src.isEmpty = true := by simpa [isEmpty, ← length_toList] using hempty
    rw [if_neg hsize, hstarts]
    by_cases hnl : src.newlineAt (src.size - 1) = true
    · rw [newlineAt_eq_true, ← hlast] at hnl
      rw [if_pos (by rw [newlineAt_eq_true, ← hlast]; exact hnl),
        length_splitLines_of_wholeLines (wholeLines_of_newline hnl)]
      rfl
    · have hwhole : ¬ WholeLines src.toList := by
        intro hwhole
        rw [newlineAt_eq_true, ← hlast] at hnl
        exact hnl (getLast?_of_wholeLines hwhole hempty)
      rw [if_neg hnl, length_splitLines_of_not_wholeLines hwhole]

/-- Where a line begins, as the length of the lines before it. -/
theorem lineStart_eq (src : Source) (l : Nat) :
    src.lineStart l = ((splitLines src.toList).take l).flatten.length := by
  have := getD_lineStarts 0 l src.toList
  rw [Nat.zero_add, Nat.zero_add] at this
  rw [lineStart, ← Array.getElem?_toList, lineStarts_toList, ← length_toList, this]

/-- The text of a range of lines. -/
theorem linesText_eq (src : Source) {first last : Nat} (h : first ≤ last + 1) :
    src.linesText first last = (((splitLines src.toList).take (last + 1)).drop first).flatten := by
  have := take_drop_flatten (splitLines src.toList) h
  rw [flatten_splitLines] at this
  rw [linesText, slice_eq, lineStart_eq, lineStart_eq, this]

/-- The lines that the table gives are those after which the newlines cut. -/
theorem lines_eq (src : Source) : src.lines = splitLines src.toList := by
  refine List.ext_getElem? fun l => ?_
  rw [lines, List.getElem?_map]
  by_cases hl : l < src.lineCount
  · have hl' : l < (splitLines src.toList).length := by
      rw [← lineCount_eq]
      exact hl
    have hlen : ((splitLines src.toList).take l).length = l := by
      rw [List.length_take]
      omega
    rw [List.getElem?_range hl, List.getElem?_eq_getElem hl', Option.map_some,
      linesText_eq src (Nat.le_succ l), List.take_succ_eq_append_getElem hl',
      List.drop_left' hlen, List.flatten_singleton]
  · have hl' : (splitLines src.toList).length ≤ l := by
      rw [← lineCount_eq]
      omega
    rw [List.getElem?_eq_none hl', List.getElem?_eq_none (by simpa using hl)]
    rfl

theorem length_lines (src : Source) : src.lines.length = src.lineCount := by
  rw [lines, List.length_map, List.length_range]

theorem getElem?_lines {src : Source} {l : Nat} (h : l < src.lineCount) :
    src.lines[l]? = some (src.linesText l l) := by
  rw [lines, List.getElem?_map, List.getElem?_range h, Option.map_some]

theorem ne_nil_of_mem_lines {src : Source} {line : List Char} (h : line ∈ src.lines) :
    line ≠ [] := by
  rw [lines_eq] at h
  exact ne_nil_of_mem_splitLines h

/-! ### Newlines between two offsets -/

/-- The newlines of a span are as many as the lines it takes the offset forward. -/
theorem lineOf_eq_add_count (src : Source) {a b : Nat} (hab : a ≤ b) :
    src.lineOf b = src.lineOf a + (src.slice a b).count '\n' := by
  rw [lineOf_eq, lineOf_eq, slice_eq, ← List.count_append, ← List.take_add,
    Nat.add_sub_cancel' hab]

theorem newline_mem_slice_iff {src : Source} {a b : Nat} :
    '\n' ∈ src.slice a b ↔ ∃ j, a ≤ j ∧ j < b ∧ src.newlineAt j = true := by
  constructor
  · intro h
    obtain ⟨k, hk⟩ := List.getElem?_of_mem h
    rw [getElem?_slice] at hk
    split at hk
    · exact ⟨a + k, by omega, by omega, newlineAt_eq_true.2 hk⟩
    · cases hk
  · rintro ⟨j, haj, hjb, hj⟩
    refine List.mem_of_getElem? (i := j - a) ?_
    rw [getElem?_slice, if_pos (by omega), Nat.add_sub_cancel' haj]
    exact newlineAt_eq_true.1 hj

/-- Offsets without a newline between them belong to one line. -/
theorem lineOf_eq_lineOf_iff {src : Source} {a b : Nat} (hab : a ≤ b) :
    src.lineOf b = src.lineOf a ↔ ∀ j, a ≤ j → j < b → src.newlineAt j = false := by
  have hcount : src.lineOf b = src.lineOf a ↔ '\n' ∉ src.slice a b := by
    rw [src.lineOf_eq_add_count hab, Nat.add_eq_left, List.count_eq_zero]
  rw [hcount, newline_mem_slice_iff]
  simp

theorem lineOf_succ_le (src : Source) (i : Nat) : src.lineOf (i + 1) ≤ src.lineOf i + 1 := by
  have hcount := List.count_le_length (a := '\n') (l := src.slice i (i + 1))
  rw [length_slice] at hcount
  rw [src.lineOf_eq_add_count (Nat.le_add_right i 1)]
  omega

/-- Fewer than `count` newlines stand between an offset and what comes before the end of
the `count`-th line after it. -/
theorem lineOf_lt_of_lt_afterNewline {src : Source} {i j count : Nat} (hij : i ≤ j)
    (hj : j < (src.afterNewline i count).getD src.size) :
    src.lineOf j < src.lineOf i + count := by
  induction count generalizing i with
  | zero =>
      rw [afterNewline, Option.getD_some] at hj
      omega
  | succ count ih =>
      cases hnl : src.firstNewline i src.size with
      | none =>
          rw [afterNewline, hnl, Option.bind_none, Option.getD_none] at hj
          rw [firstNewline, Nat.min_self, firstIn_eq_none_iff] at hnl
          rw [(lineOf_eq_lineOf_iff hij).2 fun k hik hkj => hnl k hik (by omega)]
          omega
      | some nl =>
          rw [afterNewline, hnl, Option.bind_some] at hj
          obtain ⟨hinl, -, -, hmin⟩ := firstIn_eq_some_iff.1 hnl
          by_cases hle : j ≤ nl
          · rw [(lineOf_eq_lineOf_iff hij).2 fun k hik hkj => hmin k hik (by omega)]
            omega
          · have hnext := ih (i := nl + 1) (by omega) hj
            have hsucc := src.lineOf_succ_le nl
            rw [(lineOf_eq_lineOf_iff hinl).2 hmin] at hsucc
            omega

/-- From an offset to the end of its line only the last character can be a newline. -/
theorem newlineAt_of_lt_lineEndFrom {src : Source} {i j : Nat} (hij : i ≤ j)
    (hj : j + 1 < src.lineEndFrom i) : src.newlineAt j = false := by
  unfold lineEndFrom at hj
  cases hnl : src.firstNewline i src.size with
  | none =>
      rw [hnl] at hj
      rw [firstNewline, Nat.min_self, firstIn_eq_none_iff] at hnl
      exact hnl j hij (Nat.lt_of_succ_lt hj)
  | some nl =>
      rw [hnl] at hj
      exact (firstIn_eq_some_iff.1 hnl).2.2.2 j hij (Nat.lt_of_succ_lt_succ hj)

/-! ### Line breaks -/

/-- A line begins at offset `i`, or the text ends there. -/
def LineBreak (src : Source) (i : Nat) : Prop := src.lineStartsAt i = true ∨ i = src.size

theorem lineBreak_zero (src : Source) : src.LineBreak 0 := .inl rfl

theorem lineBreak_succ_of_newlineAt {src : Source} {i : Nat} (h : src.newlineAt i = true) :
    src.LineBreak (i + 1) := by
  refine .inl ?_
  rw [lineStartsAt, Nat.add_sub_cancel, h, Bool.or_true]

theorem newlineAt_of_lineStartsAt {src : Source} {i : Nat} (hi : 0 < i)
    (h : src.lineStartsAt i = true) : src.newlineAt (i - 1) = true := by
  rw [lineStartsAt, Bool.or_eq_true, beq_iff_eq] at h
  rcases h with h | h
  · omega
  · exact h

theorem lineBreak_lineEndFrom (src : Source) (i : Nat) : src.LineBreak (src.lineEndFrom i) := by
  unfold lineEndFrom
  cases hnl : src.firstNewline i src.size with
  | none => exact .inr rfl
  | some nl => exact lineBreak_succ_of_newlineAt (firstIn_eq_some_iff.1 hnl).2.2.1

/-- The end of a line is the first line break behind any offset of the line. -/
theorem lineEndFrom_le_of_lineBreak {src : Source} {i e : Nat} (hbreak : src.LineBreak e)
    (hi : i < e) :
    src.lineEndFrom i ≤ e := by
  rcases hbreak with hline | hend
  · have hnl := newlineAt_of_lineStartsAt (Nat.zero_lt_of_lt hi) hline
    refine Nat.le_of_not_lt fun hlt => ?_
    rw [newlineAt_of_lt_lineEndFrom (Nat.le_sub_one_of_lt hi) (by omega)] at hnl
    cases hnl
  · rw [hend]
    exact src.lineEndFrom_le i

/-- What stands before a line start is empty or ends in a newline. -/
theorem getLast?_slice_of_lineStartsAt {src : Source} {a b : Nat} (hab : a < b)
    (hb : b ≤ src.size) (h : src.lineStartsAt b = true) :
    (src.slice a b).getLast? = some '\n' := by
  rw [getLast?_slice hab hb, ← newlineAt_eq_true]
  exact newlineAt_of_lineStartsAt (by omega) h

theorem wholeLines_slice {src : Source} {a b : Nat} (hab : a ≤ b) (hb : b ≤ src.size)
    (h : src.lineStartsAt b = true) : WholeLines (src.slice a b) := by
  rcases Nat.eq_or_lt_of_le hab with rfl | hlt
  · rw [slice_self]
    exact wholeLines_nil
  · exact wholeLines_of_newline (getLast?_slice_of_lineStartsAt hlt hb h)

/-- A line starts behind whole lines. -/
theorem lineStartsAt_append {xs : List Char} (h : WholeLines xs) (ys : List Char) :
    (ofList (xs ++ ys)).lineStartsAt xs.length = true := by
  by_cases hne : xs = []
  · rw [hne]
    rfl
  · have hpos := List.length_pos_iff.2 hne
    have hlast := getLast?_of_wholeLines h hne
    rw [List.getLast?_eq_getElem?] at hlast
    rw [lineStartsAt, Bool.or_eq_true, newlineAt_eq_true, charAt_eq, toList_ofList,
      List.getElem?_append_left (Nat.sub_one_lt_of_lt hpos)]
    exact .inr hlast

/-! ### Lines of a window -/

namespace Window

variable {src sub : Source} {a : Nat}

theorem lineStartsAt_add (w : Window sub src a) (ha : src.lineStartsAt a = true) {i : Nat}
    (hi : i ≤ sub.size) : src.lineStartsAt (a + i) = sub.lineStartsAt i := by
  cases i with
  | zero => exact ha
  | succ i =>
      have hnl := w.newlineAt_add (i := i) (by omega)
      simp only [lineStartsAt, Nat.add_sub_cancel, ← Nat.add_assoc, hnl]
      simp

/-- The lines before an offset of a window are those before the window and those in it. -/
theorem lineOf_add (w : Window sub src a) {i : Nat} (hi : i ≤ sub.size) :
    src.lineOf (a + i) = src.lineOf a + sub.lineOf i := by
  have hslice : (src.toList.drop a).take i = sub.toList.take i := by
    have := w.slice_add (i := 0) hi
    rw [slice_eq, slice_eq] at this
    simpa using this
  rw [lineOf_eq, lineOf_eq, lineOf_eq, List.take_add, List.count_append, hslice]

theorem toList_append (w : Window sub src a) :
    src.toList = src.slice 0 a ++ (sub.toList ++ src.slice (a + sub.size) src.size) := by
  have := w.add_size_le
  rw [← w.toList_eq, slice_append_slice src (Nat.le_add_right _ _) this,
    slice_append_slice src (Nat.zero_le _) (by omega), slice_zero_size]

/-- The lines of a window between two line breaks are lines of the whole text. -/
theorem lines_append (w : Window sub src a) (ha : src.lineStartsAt a = true)
    (hend : src.LineBreak (a + sub.size)) :
    ∃ pre post, src.lines = pre ++ (sub.lines ++ post) ∧ pre.flatten.length = a ∧
      pre.length = src.lineOf a := by
  have hsize := w.add_size_le
  have hpre : WholeLines (src.slice 0 a) := wholeLines_slice (Nat.zero_le a) (by omega) ha
  refine ⟨splitLines (src.slice 0 a), splitLines (src.slice (a + sub.size) src.size), ?_, ?_, ?_⟩
  · rw [lines_eq, lines_eq, w.toList_append, splitLines_append hpre]
    rcases hend with hstart | hsrc
    · have hmid := wholeLines_slice (Nat.le_add_right a _) hsize hstart
      rw [w.toList_eq] at hmid
      rw [splitLines_append hmid]
    · rw [hsrc, slice_self, List.append_nil, splitLines, List.append_nil]
  · rw [flatten_splitLines, length_slice, Nat.sub_zero, Nat.min_eq_left (by omega)]
  · rw [length_splitLines_of_wholeLines hpre, lineOf_eq, slice_eq, List.drop_zero, Nat.sub_zero]

/-- The lines of a window between two line breaks are those of the whole text from its first
line on. -/
theorem linesText_add {l : Nat} (w : Window sub src a) (ha : src.lineStartsAt a = true)
    (hend : src.LineBreak (a + sub.size)) (hl : l < sub.lineCount) :
    src.linesText (src.lineOf a + l) (src.lineOf a + l) = sub.linesText l l := by
  obtain ⟨pre, post, hlines, -, hpre⟩ := w.lines_append ha hend
  have hlength := sub.length_lines
  have hline : src.lines[src.lineOf a + l]? = some (sub.linesText l l) := by
    rw [hlines, ← hpre, List.getElem?_append_right (Nat.le_add_right _ _),
      Nat.add_sub_cancel_left, List.getElem?_append_left (by omega), getElem?_lines hl]
  have hcount : src.lineOf a + l < src.lineCount := by
    have := (List.getElem?_eq_some_iff.1 hline).1
    rwa [length_lines] at this
  rw [getElem?_lines hcount, Option.some.injEq] at hline
  exact hline

end Window

end Source

end CodeParts
