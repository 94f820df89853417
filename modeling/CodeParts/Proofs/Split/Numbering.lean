import CodeParts.Proofs.Source.LineSpans
import CodeParts.Proofs.Split.Depth
import CodeParts.Proofs.Split.Tiling
import CodeParts.Split.Stats

/-!
# Line numbers and figures of parts

The parts of a text number its lines: one after the other, their lines are those of the table
of the text (`flatMap_lineNumbers`). So every line belongs to exactly one part, and the
figures of a split, which are added up part by part, are those of the text
(`numbering_of_split`).
-/

namespace CodeParts

/-- The numbers of the lines of a part. -/
def Part.lineNumbers (p : Part) : List Nat := List.range' p.startLine p.lineCount

namespace Split

variable {src : Source} {policy : Policy} {p : Part}

/-! ### The lines of one part -/

theorem count_lineNumbers (h : p.startLine ≤ p.endLine) (line : Nat) :
    p.lineNumbers.count line = if p.containsLine line then 1 else 0 := by
  have hmem : line ∈ p.lineNumbers ↔ p.containsLine line = true := by
    rw [Part.lineNumbers, List.mem_range'_1, Part.lineCount, Part.containsLine, Bool.and_eq_true,
      decide_eq_true_eq, decide_eq_true_eq]
    omega
  have hnodup : p.lineNumbers.Nodup := List.nodup_range' 1
  rw [hnodup.count]
  simp only [hmem]

/-- A part that is not empty has the lines from that of its first character to that of its
last. -/
theorem endLine_of_mem_assemble (h : 0 < src.size)
    (hp : p ∈ assemble src (boundaries src policy)) : p.endLine = src.lineOf (p.stop - 1) + 1 := by
  have hlt := (partOf_of_mem_assemble hp).start_lt h
  obtain ⟨i, b, -, rfl⟩ := exists_boundary_of_mem h hp
  simp only [Part.ofBoundary, Part.ofSpan] at hlt ⊢
  rw [Nat.max_eq_right (Nat.le_sub_one_of_lt hlt)]

theorem startLine_le_endLine (h : 0 < src.size)
    (hp : p ∈ assemble src (boundaries src policy)) : p.startLine ≤ p.endLine := by
  have hpart := partOf_of_mem_assemble hp
  rw [hpart.startLine_eq, endLine_of_mem_assemble h hp]
  exact Nat.succ_le_succ (src.lineOf_mono (Nat.le_sub_one_of_lt (hpart.start_lt h)))

/-- A part has as many lines as its text. -/
theorem lineCount_of_mem_assemble (h : 0 < src.size)
    (hp : p ∈ assemble src (boundaries src policy)) :
    p.lineCount = (Source.ofString p.text).lineCount := by
  have hpart := partOf_of_mem_assemble hp
  have hlt := hpart.start_lt h
  have hsize := hpart.add_size
  have hadd := hpart.window.lineOf_add (i := (Source.ofString p.text).size - 1) (by omega)
  rw [show p.start + ((Source.ofString p.text).size - 1) = p.stop - 1 by omega] at hadd
  rw [Part.lineCount, hpart.startLine_eq, endLine_of_mem_assemble h hp, hadd,
    Source.lineCount_eq_lineOf (by omega)]
  omega

/-! ### The lines of all parts -/

/-- The numbers of the lines of a span. -/
def linesBetween (src : Source) (a b : Nat) : List Nat :=
  if a < b then List.range' (src.lineOf a + 1) (src.lineOf (b - 1) - src.lineOf a + 1) else []

theorem lineNumbers_of_mem_assemble (h : 0 < src.size)
    (hp : p ∈ assemble src (boundaries src policy)) :
    p.lineNumbers = linesBetween src p.start p.stop := by
  have hpart := partOf_of_mem_assemble hp
  rw [linesBetween, if_pos (hpart.start_lt h), Part.lineNumbers, Part.lineCount,
    hpart.startLine_eq, endLine_of_mem_assemble h hp, Nat.add_sub_add_right]

/-- A line break separates lines. -/
theorem linesBetween_append {a b : Nat} (hab : a < b) (hb : b ≤ src.size)
    (hbreak : src.LineBreak b) :
    linesBetween src a b ++ linesBetween src b src.size = linesBetween src a src.size := by
  rcases Nat.eq_or_lt_of_le hb with rfl | hlt
  · rw [linesBetween, linesBetween, if_neg (Nat.lt_irrefl _), List.append_nil]
  · have hstart : src.lineStartsAt b = true := hbreak.resolve_right (Nat.ne_of_lt hlt)
    have hline := Source.lineOf_of_lineStartsAt (Nat.zero_lt_of_lt hab) hstart
    have hle := src.lineOf_mono (Nat.le_sub_one_of_lt hab)
    have hle' := src.lineOf_mono (Nat.le_sub_one_of_lt hlt)
    rw [linesBetween, linesBetween, linesBetween, if_pos hab, if_pos hlt, if_pos (by omega),
      show src.lineOf b + 1 = src.lineOf a + 1 + (src.lineOf (b - 1) - src.lineOf a + 1) by omega,
      List.range'_append_1]
    congr 1
    omega

/-- One after the other, the lines of the parts are the lines of the text. -/
theorem flatMap_lineNumbers (h : 0 < src.size) (policy : Policy) :
    (assemble src (boundaries src policy)).flatMap Part.lineNumbers =
      List.range' 1 src.lineCount := by
  have hzero : src.lineOf 0 = 0 := by
    rw [src.lineOf_eq]
    rfl
  rw [flatMap_assemble (fun p hp => lineNumbers_of_mem_assemble h hp) (if_neg (Nat.lt_irrefl _))
    fun a b => linesBetween_append, linesBetween, if_pos h, hzero, Source.lineCount_eq_lineOf h]
  rfl

/-- The parts number the lines of a text that is not empty. -/
structure Numbering (text : String) (ps : List Part) : Prop where
  first_startLine : ps.head?.map Part.startLine = some 1
  startLine_next : ∀ i p q, ps[i]? = some p → ps[i + 1]? = some q → q.startLine = p.endLine + 1
  last_endLine : ps.getLast?.map Part.endLine = some (Source.ofString text).lineCount
  countP_containsLine : ∀ line, 1 ≤ line → line ≤ (Source.ofString text).lineCount →
    ps.countP (·.containsLine line) = 1
  lineCount_eq : ∀ p ∈ ps, p.lineCount = (Source.ofString p.text).lineCount

theorem countP_eq_count_flatMap {α β : Type} [BEq β] {t : α → Bool} {f : α → List β} {b : β}
    {xs : List α} (h : ∀ x ∈ xs, (f x).count b = if t x then 1 else 0) :
    xs.countP t = (xs.flatMap f).count b := by
  induction xs with
  | nil => rfl
  | cons x xs ih =>
      rw [List.countP_cons, List.flatMap_cons, List.count_append, h x List.mem_cons_self,
        ih fun y hy => h y (List.mem_cons_of_mem x hy), Nat.add_comm]

theorem numbering_of_pos {text : String} (h : 0 < (Source.ofString text).size)
    (policy : Policy) :
    Numbering text
      (assemble (Source.ofString text) (boundaries (Source.ofString text) policy)) := by
  have hget := getElem?_assemble h (boundaries (Source.ofString text) policy)
  constructor
  case first_startLine =>
    rw [List.head?_eq_getElem?, hget, boundaries, boundariesFrom_of_lt h]
    show some ((Source.ofString text).lineOf 0 + 1) = some 1
    rw [Source.lineOf_eq]
    rfl
  case startLine_next =>
    intro i p q hp hq
    have hpmem := List.mem_of_getElem? hp
    have hqpart := partOf_of_mem_assemble (List.mem_of_getElem? hq)
    have hlt := (partOf_of_mem_assemble hpmem).start_lt h
    have hstart := hqpart.lineStartsAt
    rw [hqpart.startLine_eq, endLine_of_mem_assemble h hpmem]
    rw [← stop_eq_start_of_next hp hq] at hstart ⊢
    rw [Source.lineOf_of_lineStartsAt (Nat.zero_lt_of_lt hlt) hstart]
  case last_endLine =>
    have hlast := List.getLast?_eq_some_getLast (assemble_ne_nil (Source.ofString text) policy)
    have hstop := stop_of_getLast?_assemble h hlast
    rw [hlast, Option.map_some, endLine_of_mem_assemble h (List.mem_of_getLast? hlast), hstop,
      Source.lineCount_eq_lineOf h]
  case countP_containsLine =>
    intro line hpos hle
    rw [countP_eq_count_flatMap fun p hp => count_lineNumbers (startLine_le_endLine h hp) line,
      flatMap_lineNumbers h, (List.nodup_range' 1).count, if_pos]
    rw [List.mem_range'_1]
    omega
  case lineCount_eq => exact fun p hp => lineCount_of_mem_assemble h hp

/-! ### Figures -/

theorem charCount_sum (src : Source) (policy : Policy) :
    ((assemble src (boundaries src policy)).map Part.charCount).foldr (· + ·) 0 = src.size := by
  have hspans : (assemble src (boundaries src policy)).map Part.charCount =
      (assemble src (boundaries src policy)).map fun p => (src.slice p.start p.stop).length := by
    refine List.map_congr_left fun p hp => ?_
    rw [Source.length_slice, Nat.min_eq_left (partOf_of_mem_assemble hp).stop_le, Part.charCount]
  rw [hspans, ← length_flatMap_eq_foldr, flatMap_assemble (f := src.slice) (fun _ _ => rfl)
    (src.slice_self _) fun a b hab hb _ => src.slice_append_slice (Nat.le_of_lt hab) hb,
    Source.slice_zero_size, Source.length_toList]

/-- The lines of the parts that have characters are as many as those of the text. -/
theorem lineCount_sum (src : Source) (policy : Policy) :
    (((assemble src (boundaries src policy)).filter fun p => 0 < p.charCount).map
      Part.lineCount).foldr (· + ·) 0 = src.lineCount := by
  rcases Nat.eq_zero_or_pos src.size with hsize | hsize
  · have hempty : src.isEmpty = true := by rw [Source.isEmpty, hsize, beq_self_eq_true]
    rw [assemble_of_empty hsize, Source.lineCount, if_pos hempty]
    rfl
  · have hall : (assemble src (boundaries src policy)).filter (fun p => 0 < p.charCount) =
        assemble src (boundaries src policy) := by
      rw [List.filter_eq_self]
      intro p hp
      have := (partOf_of_mem_assemble hp).start_lt hsize
      rw [decide_eq_true_eq, Part.charCount]
      omega
    have hlength : Part.lineCount = fun p => p.lineNumbers.length := by
      funext p
      rw [Part.lineNumbers, List.length_range']
    rw [hall, hlength, ← length_flatMap_eq_foldr, flatMap_lineNumbers hsize, List.length_range']

/-- The parts of a text that is not empty number its lines, and the figures of any split are
those of the text: its characters, its lines, and the cuts at which one scan of it stands
outside all braces. -/
theorem numbering_of_split {text : String} {policy : Policy} {ps : List Part}
    (h : split text policy = .ok ps) (maxChars : Nat) :
    (text ≠ "" → Numbering text ps) ∧
      (Stats.ofParts ps maxChars).chars = text.length ∧
      (Stats.ofParts ps maxChars).lines = (Source.ofString text).lineCount ∧
      (Stats.ofParts ps maxChars).balanced =
        ps.countP fun p => ((Source.ofString text).scan 0 p.stop .initial).depth == 0 := by
  obtain ⟨-, rfl⟩ := split_eq_ok_iff.1 h
  refine ⟨fun hne => ?_, ?_, lineCount_sum _ policy, ?_⟩
  · refine numbering_of_pos ?_ policy
    rw [Source.size_ofString, Nat.pos_iff_ne_zero]
    exact fun hzero => hne (String.length_eq_zero_iff.1 hzero)
  · rw [← Source.size_ofString]
    exact charCount_sum _ policy
  · refine List.countP_congr fun p hp => ?_
    rw [(depth_of_mem_assemble hp).2]

/-- Three lines, the second of which opens a block and the last of which has no newline. -/
theorem numbering_of_split_open_line :
    ∃ ps, split "a\n\x7b\nb" ⟨⟨80, 1⟩, .strict, 0.3⟩ = .ok ps ∧ Numbering "a\n\x7b\nb" ps ∧
      ps.length = 3 ∧ (Stats.ofParts ps 80).chars = 5 ∧ (Stats.ofParts ps 80).lines = 3 ∧
      (Stats.ofParts ps 80).balanced = 1 := by
  have hvalid : Policy.Valid ⟨⟨80, 1⟩, .strict, 0.3⟩ :=
    ⟨by decide, by decide, by decide, by decide⟩
  have hps := split_of_valid hvalid "a\n\x7b\nb"
  obtain ⟨hnumbering, hchars, hlines, hbalanced⟩ := numbering_of_split hps 80
  refine ⟨_, hps, hnumbering (by decide), by decide +kernel, hchars.trans (by decide),
    hlines.trans (by decide +kernel), hbalanced.trans (by decide +kernel)⟩

end Split

end CodeParts
