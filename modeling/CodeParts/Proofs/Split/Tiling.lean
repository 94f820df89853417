import CodeParts.Proofs.Split.Run

/-!
# Parts tile their text

`Tiling text ps` says that the parts `ps` are the text `text`, cut after newlines: they
follow each other without gap or overlap, are numbered in order, and are at most as many
as the lines. `tiling_split` says that a policy that can be used always leads to such
parts, whatever its limits and its strategy.

The spans of a run make up what is left of a text (`flatten_boundariesFrom`), and each of
them takes at least one line off it (`length_boundariesFrom_le`).
-/

namespace CodeParts.Split

open Lexer

/-- The parts are the text in consecutive pieces that end after newlines. -/
structure Tiling (text : String) (ps : List Part) : Prop where
  ne_nil : ps ≠ []
  first_start : ∀ p, ps.head? = some p → p.start = 0
  adjacent : ∀ i p q, ps[i]? = some p → ps[i + 1]? = some q → p.stop = q.start
  last_stop : ∀ p, ps.getLast? = some p → p.stop = text.length
  within : ∀ p ∈ ps, p.start ≤ p.stop ∧ p.stop ≤ text.length
  text_eq : ∀ p ∈ ps, p.text.toList = (text.toList.drop p.start).take (p.stop - p.start)
  join_eq : String.join (ps.map Part.text) = text
  ordinal_eq : ∀ i p, ps[i]? = some p → p.ordinal = i + 1
  total_eq : ∀ p ∈ ps, p.total = ps.length
  ne_empty : text ≠ "" → ∀ p ∈ ps, p.text ≠ ""
  of_empty : text = "" → ∃ p, ps = [p] ∧ p.text = ""
  endsWithNewline : ∀ p ∈ ps.dropLast, p.endsWithNewline = true
  length_le : ps.length ≤ max 1 (Source.ofString text).lineCount

variable {src : Source} {policy : Policy} {start : Nat} {before : State}

/-! ### What is left of a text -/

/-- The spans of a run make up what is left of the text. -/
theorem flatten_boundariesFrom (h : start ≤ src.size) :
    ((boundariesFrom src policy start before).map fun b => src.slice b.start b.cut).flatten =
      src.slice start src.size := by
  rw [← List.flatMap_def]
  refine flatMap_boundariesFrom (src.slice_self _) ?_ h
  intro a b hab hb _
  exact src.slice_append_slice (Nat.le_of_lt hab) hb

/-- A run has at most as many boundaries as lines are left. -/
theorem length_boundariesFrom_le (h : start ≤ src.size) :
    (boundariesFrom src policy start before).length ≤
      (splitLines (src.slice start src.size)).length := by
  induction start, before using boundariesFrom.induct src policy with
  | case1 start before hlt b ih =>
      have hcut : start < b.cut := lt_selectBoundary_cut policy before hlt
      have hle : b.cut ≤ src.size := selectBoundary_cut_le
      have hne : splitLines (src.slice start b.cut) ≠ [] := by
        intro hnil
        have := congrArg List.length (splitLines_eq_nil_iff.1 hnil)
        rw [Source.length_slice, List.length_nil] at this
        omega
      have hone := List.length_pos_iff.2 hne
      have hcons : boundariesFrom src policy start before =
          b :: boundariesFrom src policy b.cut b.after := boundariesFrom_of_lt hlt
      rw [hcons, List.length_cons]
      have hbreak : src.LineBreak b.cut := lineBreak_selectBoundary_cut
      rcases hbreak with hstart | hend
      · -- The span of the boundary consists of whole lines, of at least one.
        have hwhole := Source.wholeLines_slice (Nat.le_of_lt hcut) hle hstart
        have := ih hle
        rw [← src.slice_append_slice (Nat.le_of_lt hcut) hle, splitLines_append hwhole,
          List.length_append]
        omega
      · -- Nothing is left behind the cut.
        have hrest : boundariesFrom src policy b.cut b.after = [] :=
          boundariesFrom_of_le (by omega)
        rw [hend] at hone
        rw [hrest, List.length_nil]
        omega
  | case2 start before hlt =>
      rw [boundariesFrom_of_le (by omega)]
      exact Nat.zero_le _

/-! ### Parts of a text that is not empty -/

theorem map_text_assemble (h : 0 < src.size) (bs : List Boundary) :
    (assemble src bs).map Part.text =
      bs.map fun b => String.ofList (src.slice b.start b.cut) := by
  refine List.ext_getElem? fun i => ?_
  rw [List.getElem?_map, List.getElem?_map, getElem?_assemble h, Option.map_map]
  rfl

theorem length_assemble (h : 0 < src.size) (bs : List Boundary) :
    (assemble src bs).length = bs.length := by
  rw [assemble_of_pos h, List.length_map, List.length_zipIdx]

/-- Every text has a part. -/
theorem assemble_ne_nil (src : Source) (policy : Policy) :
    assemble src (boundaries src policy) ≠ [] := by
  rcases Nat.eq_zero_or_pos src.size with hsize | hsize
  · rw [assemble_of_empty hsize]
    exact List.cons_ne_nil _ _
  · rw [← List.length_pos_iff, length_assemble hsize, List.length_pos_iff]
    exact boundariesFrom_ne_nil hsize

theorem getLast?_assemble (h : 0 < src.size) (bs : List Boundary) :
    (assemble src bs).getLast? = bs.getLast?.map (Part.ofBoundary src bs.length bs.length) := by
  rw [List.getLast?_eq_getElem?, List.getLast?_eq_getElem?, getElem?_assemble h,
    length_assemble h]
  cases bs with
  | nil => rfl
  | cons b bs => rfl

/-- The last part ends where the text does. -/
theorem stop_of_getLast?_assemble {p : Part} (h : 0 < src.size)
    (hp : (assemble src (boundaries src policy)).getLast? = some p) : p.stop = src.size := by
  rw [getLast?_assemble h, Option.map_eq_some_iff] at hp
  obtain ⟨b, hb, rfl⟩ := hp
  exact cut_of_getLast?_boundariesFrom hb

/-- All parts but the last end after a newline. -/
theorem lineStartsAt_cut_of_mem_dropLast {b : Boundary}
    (h : b ∈ (boundariesFrom src policy start before).dropLast) :
    src.lineStartsAt b.cut = true := by
  obtain ⟨i, hi⟩ := List.getElem?_of_mem h
  rw [List.getElem?_dropLast] at hi
  split at hi
  · next hlt =>
      have hnext : i + 1 < (boundariesFrom src policy start before).length := by omega
      obtain ⟨hstart, -⟩ := start_of_next hi (List.getElem?_eq_getElem hnext)
      obtain ⟨hc, hsize⟩ := getElem?_boundariesFrom (List.getElem?_eq_getElem hnext)
      obtain ⟨rfl, -⟩ := getElem?_boundariesFrom hi
      rw [nthBoundary_eq]
      -- The next boundary begins at the cut and before the end, so the cut is no end.
      rcases (lineBreak_selectBoundary_cut : src.LineBreak _) with hline | hend
      · exact hline
      · rw [← nthBoundary_eq, ← hstart] at hend
        omega
  · cases hi

/-! ### The tiling -/

theorem endsWithNewline_of_mem_dropLast {p : Part} (h : 0 < src.size)
    (hp : p ∈ (assemble src (boundaries src policy)).dropLast) : p.endsWithNewline = true := by
  have hpart := partOf_of_mem_assemble (List.dropLast_subset _ hp)
  obtain ⟨i, hi⟩ := List.getElem?_of_mem hp
  rw [List.getElem?_dropLast, length_assemble h] at hi
  -- Parts and boundaries are equally many, so the boundary is not the last one either.
  split at hi
  · next hlt =>
      rw [getElem?_assemble h, Option.map_eq_some_iff] at hi
      obtain ⟨b, hb, rfl⟩ := hi
      have hmem : b ∈ (boundaries src policy).dropLast := by
        refine List.mem_of_getElem? (i := i) ?_
        rw [List.getElem?_dropLast, if_pos hlt, hb]
      have hline := lineStartsAt_cut_of_mem_dropLast hmem
      have hlast := Source.getLast?_slice_of_lineStartsAt (hpart.start_lt h) hpart.stop_le hline
      rw [Part.endsWithNewline, hpart.text_eq, String.toList_ofList, hlast]
      rfl
  · cases hi

theorem tiling_of_empty {text : String} (h : text = "") (bs : List Boundary) :
    Tiling text (assemble (Source.ofString text) bs) := by
  subst h
  have hparts : assemble (Source.ofString "") bs =
      [Part.ofSpan (Source.ofString "") 1 1 0 0 0 0] := assemble_of_empty rfl bs
  rw [hparts]
  constructor
  case ordinal_eq =>
    intro i p hp
    cases i with
    | zero =>
        cases hp
        rfl
    | succ i => cases hp
  case of_empty => exact fun _ => ⟨_, rfl, rfl⟩
  case join_eq => rfl
  case length_le => exact Nat.le_max_left _ _
  all_goals simp [Part.ofSpan]

theorem tiling_of_pos {text : String} (hpos : 0 < text.length) (policy : Policy) :
    Tiling text (assemble (Source.ofString text) (boundaries (Source.ofString text) policy)) := by
  have hsize := Source.size_ofString text
  have hsrc : 0 < (Source.ofString text).size := by omega
  generalize hps : assemble (Source.ofString text) (boundaries (Source.ofString text) policy) = ps
  have hmem : ∀ p ∈ ps, PartOf (Source.ofString text) p := by
    intro p hp
    rw [← hps] at hp
    exact partOf_of_mem_assemble hp
  have hget : ∀ i, ps[i]? = (boundaries (Source.ofString text) policy)[i]?.map
      (Part.ofBoundary (Source.ofString text) (i + 1)
        (boundaries (Source.ofString text) policy).length) := by
    intro i
    rw [← hps, getElem?_assemble hsrc]
  have hlength : ps.length = (boundaries (Source.ofString text) policy).length := by
    rw [← hps, length_assemble hsrc]
  constructor
  case ne_nil =>
    rw [← hps]
    exact assemble_ne_nil _ policy
  case first_start =>
    intro p hp
    rw [List.head?_eq_getElem?, hget, Option.map_eq_some_iff] at hp
    obtain ⟨b, hb, rfl⟩ := hp
    obtain ⟨rfl, -⟩ := getElem?_boundariesFrom hb
    rfl
  case adjacent =>
    intro i p q hp hq
    rw [← hps] at hp hq
    exact stop_eq_start_of_next hp hq
  case last_stop =>
    intro p hp
    rw [← hps, getLast?_assemble hsrc, Option.map_eq_some_iff] at hp
    obtain ⟨b, hb, rfl⟩ := hp
    rw [← hsize]
    exact cut_of_getLast?_boundariesFrom hb
  case within =>
    intro p hp
    have := (hmem p hp).stop_le
    exact ⟨(hmem p hp).start_le, by omega⟩
  case text_eq =>
    intro p hp
    rw [(hmem p hp).text_eq, String.toList_ofList, Source.slice_eq, Source.toList_ofString]
  case join_eq =>
    rw [← String.toList_inj, String.toList_join, ← hps, map_text_assemble hsrc, List.flatMap_map]
    simp only [String.toList_ofList, List.flatMap_def]
    rw [boundaries, flatten_boundariesFrom (Nat.zero_le _), Source.slice_zero_size,
      Source.toList_ofString]
  case ordinal_eq =>
    intro i p hp
    rw [hget, Option.map_eq_some_iff] at hp
    obtain ⟨b, -, rfl⟩ := hp
    rfl
  case total_eq =>
    intro p hp
    obtain ⟨i, hi⟩ := List.getElem?_of_mem hp
    rw [hget, Option.map_eq_some_iff] at hi
    obtain ⟨b, -, rfl⟩ := hi
    rw [hlength]
    rfl
  case ne_empty =>
    intro _ p hp hempty
    have hlt := (hmem p hp).start_lt hsrc
    have hle := (hmem p hp).stop_le
    have hnil := congrArg String.toList hempty
    rw [(hmem p hp).text_eq, String.toList_ofList] at hnil
    have := congrArg List.length hnil
    rw [Source.length_slice, String.toList_empty, List.length_nil] at this
    omega
  case of_empty =>
    rintro rfl
    cases hpos
  case endsWithNewline =>
    intro p hp
    rw [← hps] at hp
    exact endsWithNewline_of_mem_dropLast hsrc hp
  case length_le =>
    have hlines : (boundaries (Source.ofString text) policy).length ≤
        (splitLines ((Source.ofString text).slice 0 (Source.ofString text).size)).length :=
      length_boundariesFrom_le (Nat.zero_le _)
    rw [Source.slice_zero_size, ← Source.lineCount_eq] at hlines
    rw [hlength]
    omega

/-- A policy that can be used splits every text, and the parts tile it. -/
theorem tiling_split {policy : Policy} (h : policy.Valid) (text : String) :
    ∃ ps, split text policy = .ok ps ∧ Tiling text ps := by
  refine ⟨_, split_of_valid h text, ?_⟩
  rcases Nat.eq_zero_or_pos text.length with hzero | hpos
  · exact tiling_of_empty (String.length_eq_zero_iff.1 hzero) _
  · exact tiling_of_pos hpos policy

/-- A block of two lines, cut at each of them. -/
theorem tiling_split_block :
    Policy.Valid ⟨⟨80, 1⟩, .hybrid, 0.3⟩ ∧
      ∃ ps, split "\x7b\n\x7d\n" ⟨⟨80, 1⟩, .hybrid, 0.3⟩ = .ok ps ∧ Tiling "\x7b\n\x7d\n" ps := by
  have hvalid : Policy.Valid ⟨⟨80, 1⟩, .hybrid, 0.3⟩ :=
    ⟨by decide, by decide, by decide, by decide⟩
  exact ⟨hvalid, tiling_split hvalid _⟩

end CodeParts.Split
