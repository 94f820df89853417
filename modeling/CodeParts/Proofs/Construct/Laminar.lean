import CodeParts.Proofs.Construct.Span
import CodeParts.Proofs.Pattern.Takes

/-!
# Maximal blocks

A block delimited by indentation is a header line with the blank and the more deeply indented
lines behind it, and it goes on as long as there are such lines (`MaximalBlock`). Two such
blocks of one text never overlap in part: a header inside a block is indented more deeply than
the header of that block, so the line that ends the outer block ends the inner one, too
(`MaximalBlock.last_le`). For this a header line must not be blank, since a blank line is taken
whatever its indentation.
-/

namespace CodeParts.Construct

open Pattern

variable {src : Source} {header header' line cs name : List Char} {kind : Kind}
  {lines : List (List Char)} {first first' last last' : Nat} {c d : Construct}

/-! ### Blocks of lines -/

/-- The lines from `first` to `last`, counted from one, are a header line and all lines behind
it that are blank or indented more deeply. -/
structure MaximalBlock (lines : List (List Char)) (header : List Char) (first last : Nat) :
    Prop where
  one_le : 1 ≤ first
  first_le : first ≤ last
  last_le_length : last ≤ lines.length
  header_eq : lines[first - 1]? = some header
  not_blank : allBlank header = false
  deeper : ∀ l line, first < l → l ≤ last → lines[l - 1]? = some line →
    allBlank line = true ∨ indentWidth header < indentWidth line
  ends : ∀ line, lines[last]? = some line →
    allBlank line = false ∧ indentWidth line ≤ indentWidth header

/-- A header inside a block is indented at least as far as the header of the block. -/
theorem MaximalBlock.width_le (h : MaximalBlock lines header first last)
    (h' : MaximalBlock lines header' first' last') (hle : first ≤ first') (hin : first' ≤ last) :
    indentWidth header ≤ indentWidth header' := by
  have hheader' := h'.header_eq
  rcases Nat.eq_or_lt_of_le hle with rfl | hlt
  · rw [h.header_eq, Option.some.injEq] at hheader'
    exact Nat.le_of_eq (congrArg indentWidth hheader')
  · rcases h.deeper first' header' hlt hin hheader' with hblank | hdeeper
    · rw [h'.not_blank] at hblank
      cases hblank
    · exact Nat.le_of_lt hdeeper

/-- A block that begins inside another block ends in it. -/
theorem MaximalBlock.last_le (h : MaximalBlock lines header first last)
    (h' : MaximalBlock lines header' first' last') (hle : first ≤ first') (hin : first' ≤ last) :
    last' ≤ last := by
  by_contra hlt
  have hwidth := h.width_le h' hle hin
  have hlength := h'.last_le_length
  -- The line that ends the first block would be one of the lines behind the second header.
  obtain ⟨line, hline⟩ : ∃ line, lines[last]? = some line :=
    ⟨_, List.getElem?_eq_getElem (by omega)⟩
  obtain ⟨hblank, hend⟩ := h.ends line hline
  rcases h'.deeper (last + 1) line (by omega) (by omega) hline with hblank' | hdeeper
  · rw [hblank] at hblank'
    cases hblank'
  · omega

/-- Two blocks of a text are apart, or one of them has all lines of the other. -/
theorem MaximalBlock.laminar (h : MaximalBlock lines header first last)
    (h' : MaximalBlock lines header' first' last') :
    last < first' ∨ last' < first ∨ (first ≤ first' ∧ last' ≤ last) ∨
      (first' ≤ first ∧ last ≤ last') := by
  rcases Nat.lt_or_ge last first' with hapart | hin
  · exact .inl hapart
  rcases Nat.lt_or_ge last' first with hapart' | hin'
  · exact .inr (.inl hapart')
  rcases Nat.le_total first first' with hle | hle
  · exact .inr (.inr (.inl ⟨hle, h.last_le h' hle hin⟩))
  · exact .inr (.inr (.inr ⟨hle, h'.last_le h hle hin'⟩))

/-! ### Header lines -/

theorem allBlank_of_mem {ch : Char} (h : ch ∈ cs) (hch : isBlank ch = false) :
    allBlank cs = false := by
  rw [allBlank, List.all_eq_false]
  exact ⟨ch, h, by rw [hch]; exact Bool.false_ne_true⟩

/-- What a header takes is not blank. -/
theorem exists_mark_of_takes {p : Pattern} (hp : (kind, p) ∈ headers name) (h : p.Takes cs) :
    ∃ ch ∈ cs, isBlank ch = false := by
  simp only [headers, List.mem_cons, Prod.mk.injEq, List.not_mem_nil, or_false] at hp
  rcases hp with ⟨-, rfl⟩ | ⟨-, rfl⟩ | ⟨-, rfl⟩
  · obtain ⟨_, _, rfl, -, _, _, rfl, ⟨_, _, rfl, hword, -⟩, -⟩ := h
    rw [show _ = "async".toList from hword]
    exact ⟨'a', by simp, by decide⟩
  · obtain ⟨_, _, rfl, -, _, _, rfl, hword, -⟩ := h
    rw [show _ = "def".toList from hword]
    exact ⟨'d', by simp, by decide⟩
  · obtain ⟨_, _, rfl, -, _, _, rfl, hword, -⟩ := h
    rw [show _ = "class".toList from hword]
    exact ⟨'c', by simp, by decide⟩

/-- A header line is not blank. -/
theorem allBlank_of_headerKind (h : headerKind (headers name) line = some kind) :
    allBlank line = false := by
  obtain ⟨⟨k, p⟩, hp, hsome⟩ := List.exists_of_findSome?_eq_some h
  obtain ⟨m, hm, -⟩ := Option.map_eq_some_iff.1 hsome
  obtain ⟨ch, hmem, hch⟩ := exists_mark_of_takes hp (takes_of_mem_ends (mem_ends_of_matchAt hm).2)
  rw [Source.slice_eq, Source.toList_ofList] at hmem
  exact allBlank_of_mem (List.mem_of_mem_drop (List.mem_of_mem_take hmem)) hch

/-! ### Blocks of a text -/

/-- A header with the lines that continue it is maximal, if what stands behind does not. -/
theorem maximalBlock_append {before block after : List (List Char)}
    (hheader : allBlank header = false)
    (hblock : ∀ l ∈ block, continues (indentWidth header) l = true)
    (hafter : ∀ l, after.head? = some l → continues (indentWidth header) l = false) :
    MaximalBlock ((before ++ header :: block) ++ after) header (before.length + 1)
      (before.length + (block.length + 1)) := by
  have hlength : (before ++ header :: block).length = before.length + (block.length + 1) := by
    rw [List.length_append, List.length_cons]
  constructor
  case one_le => exact Nat.succ_pos _
  case first_le => omega
  case last_le_length =>
    rw [List.length_append, hlength]
    exact Nat.le_add_right _ _
  case header_eq =>
    rw [Nat.add_sub_cancel, List.append_assoc, List.getElem?_append_right (Nat.le_refl _),
      Nat.sub_self]
    rfl
  case not_blank => exact hheader
  case deeper =>
    intro l line hlt hle hline
    obtain ⟨k, rfl⟩ : ∃ k, l = before.length + (k + 2) := ⟨l - before.length - 2, by omega⟩
    rw [List.getElem?_append_left (by omega), List.getElem?_append_right (by omega),
      show before.length + (k + 2) - 1 - before.length = k + 1 by omega,
      List.getElem?_cons_succ] at hline
    have hcontinues := hblock line (List.mem_of_getElem? hline)
    rwa [continues, Bool.or_eq_true, decide_eq_true_eq] at hcontinues
  case ends =>
    intro line hline
    rw [List.getElem?_append_right (Nat.le_of_eq hlength), hlength, Nat.sub_self,
      ← List.head?_eq_getElem?] at hline
    have hcontinues := hafter line hline
    rwa [continues, Bool.or_eq_false_iff, decide_eq_false_iff_not, Nat.not_lt] at hcontinues

/-- A construct that is found begins with its header line, and its lines are a maximal block. -/
theorem maximalBlock_of_extractIndented (h : extractIndented src name = .found c) :
    ∃ header, headerKind (headers name) header = some c.kind ∧
      MaximalBlock src.lines header c.startLine c.endLine := by
  obtain ⟨kind, before, header, block, after, hlines, hkind, hblock, hafter, -, rfl⟩ :=
    of_extractIndented_found h
  rw [hlines]
  exact ⟨header, hkind, maximalBlock_append (allBlank_of_headerKind hkind) hblock hafter⟩

/-- Two constructs are apart, or one of them stands inside the other. -/
def NestedOrApart (c d : Construct) : Prop :=
  c.stop ≤ d.start ∨ d.stop ≤ c.start ∨ (c.start ≤ d.start ∧ d.stop ≤ c.stop) ∨
    (d.start ≤ c.start ∧ c.stop ≤ d.stop)

/-- Constructs of one text are related as their lines are. -/
theorem nestedOrApart_of_extractIndented {name' : List Char}
    (hc : extractIndented src name = .found c) (hd : extractIndented src name' = .found d) :
    NestedOrApart c d := by
  obtain ⟨_, -, hmaximal⟩ := maximalBlock_of_extractIndented hc
  obtain ⟨_, -, hmaximal'⟩ := maximalBlock_of_extractIndented hd
  have hlines := hmaximal.laminar hmaximal'
  obtain ⟨_, _, _, _, _, -, -, -, -, -, rfl⟩ := of_extractIndented_found hc
  obtain ⟨_, _, _, _, _, -, -, -, -, -, rfl⟩ := of_extractIndented_found hd
  simp only [ofLines] at hlines
  simp only [NestedOrApart, ofLines]
  rcases hlines with h | h | ⟨h, h'⟩ | ⟨h, h'⟩
  · exact .inl (src.lineStart_mono (by omega))
  · exact .inr (.inl (src.lineStart_mono (by omega)))
  · exact .inr (.inr (.inl ⟨src.lineStart_mono (by omega), src.lineStart_mono h'⟩))
  · exact .inr (.inr (.inr ⟨src.lineStart_mono (by omega), src.lineStart_mono h'⟩))

/-- The lines of each construct are a maximal block behind a header line for its name, and any
two constructs of one text are apart or one inside the other. -/
theorem laminar_of_extract (text : String) :
    (∀ name c, extract text name .indentation = .found c →
      ∃ header, headerKind (headers (trim name.toList)) header = some c.kind ∧
        MaximalBlock (Source.ofString text).lines header c.startLine c.endLine) ∧
    ∀ name name' c d, extract text name .indentation = .found c →
      extract text name' .indentation = .found d → NestedOrApart c d := by
  refine ⟨fun name c h => ?_, fun name name' c d hc hd => ?_⟩
  · rw [extract_indentation (name_ne_nil_of_found h)] at h
    exact maximalBlock_of_extractIndented h
  · rw [extract_indentation (name_ne_nil_of_found hc)] at hc
    rw [extract_indentation (name_ne_nil_of_found hd)] at hd
    exact nestedOrApart_of_extractIndented hc hd

/-- A method indented by a tab, with blank lines behind it, in a class that goes on. -/
theorem laminar_of_extract_method :
    (∃ header, headerKind (headers "f".toList) header = some .definition ∧
      MaximalBlock (Source.ofString "class A:\n\tdef f():\n      x\n \n\n    y\nz").lines header
        2 5) ∧
    (∃ header, headerKind (headers "A".toList) header = some .classDeclaration ∧
      MaximalBlock (Source.ofString "class A:\n\tdef f():\n      x\n \n\n    y\nz").lines header
        1 6) ∧
    NestedOrApart ⟨.definition, 9, 30, "\tdef f():\n      x\n \n\n", 2, 5⟩
      ⟨.classDeclaration, 0, 36, "class A:\n\tdef f():\n      x\n \n\n    y\n", 1, 6⟩ := by
  have hf : extract "class A:\n\tdef f():\n      x\n \n\n    y\nz" "f" .indentation =
      .found ⟨.definition, 9, 30, "\tdef f():\n      x\n \n\n", 2, 5⟩ := by
    decide +kernel
  have hclass : extract "class A:\n\tdef f():\n      x\n \n\n    y\nz" "A" .indentation =
      .found ⟨.classDeclaration, 0, 36, "class A:\n\tdef f():\n      x\n \n\n    y\n", 1, 6⟩ := by
    decide +kernel
  have htrim : trim "f".toList = "f".toList ∧ trim "A".toList = "A".toList := by decide
  obtain ⟨hblocks, hnested⟩ :=
    laminar_of_extract "class A:\n\tdef f():\n      x\n \n\n    y\nz"
  have hblockf := hblocks _ _ hf
  have hblockA := hblocks _ _ hclass
  rw [htrim.1] at hblockf
  rw [htrim.2] at hblockA
  exact ⟨hblockf, hblockA, hnested _ _ _ _ hf hclass⟩

end CodeParts.Construct
