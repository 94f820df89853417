import CodeParts.Proofs.Lexer.Compose
import CodeParts.Split.Part

/-!
# Runs of boundaries

A text is cut by a run: each boundary is chosen from the cut and the state of the one
before it. `nthBoundary` is the run without an end, and `boundaries` is its part up to the
end of the text (`getElem?_boundariesFrom`). Every cut of a run is a line break, and the
last one of a text that is not empty is its end.

`split_eq_ok_iff` says for which policies there is a split at all, and
`partOf_of_mem_split` what is known of each part of it without looking at the other parts.
-/

namespace CodeParts.Split

open Lexer

/-! ### Policies that can be used -/

section Ratio

open Float.Model

theorem unpack_zero : (0.0 : Float).toModel.unpack = .zero .positive := by rfl

theorem float_lt_iff (x y : Float) :
    x < y ↔ x.toModel.unpack.compare y.toModel.unpack = some .lt := by
  show decide (x.toModel < y.toModel) = true ↔ _
  rw [decide_eq_true_iff]
  show (x.toModel.unpack.compare y.toModel.unpack == some .lt) = true ↔ _
  rw [beq_iff_eq]

theorem float_le_iff (x y : Float) :
    x ≤ y ↔ (x.toModel.unpack.compare y.toModel.unpack).any (·.isLE) = true := by
  show decide (x.toModel ≤ y.toModel) = true ↔ _
  rw [decide_eq_true_iff]
  rfl

/-- Only of numbers is one of two comparisons with zero the negation of the other. -/
theorem zero_le_iff_not_lt {x : Float} (h : x.isFinite = true) : 0.0 ≤ x ↔ ¬ x < 0.0 := by
  have hfinite : x.toModel.unpack.isFinite = true := h
  rw [float_le_iff, float_lt_iff, unpack_zero]
  cases hx : x.toModel.unpack with
  | notANumber =>
      rw [hx] at hfinite
      cases hfinite
  | infinity s =>
      rw [hx] at hfinite
      cases hfinite
  | zero s =>
      show (some Ordering.eq).any (·.isLE) = true ↔ ¬ some Ordering.eq = some Ordering.lt
      decide
  | finite s m e he =>
      cases s with
      | positive =>
          show (some Ordering.lt).any (·.isLE) = true ↔ ¬ some Ordering.gt = some Ordering.lt
          decide
      | negative =>
          show (some Ordering.gt).any (·.isLE) = true ↔ ¬ some Ordering.lt = some Ordering.lt
          decide

end Ratio

/-- The limits are positive, and the grace ratio is a finite number that is not
negative. -/
structure Policy.Valid (p : Policy) : Prop where
  maxChars_pos : 1 ≤ p.limits.maxChars
  maxLines_pos : 1 ≤ p.limits.maxLines
  ratio_finite : p.graceRatio.isFinite = true
  ratio_nonneg : 0.0 ≤ p.graceRatio

theorem checkGraceRatio_eq_ok_iff (x : Float) :
    checkGraceRatio x = .ok () ↔ x.isFinite = true ∧ 0.0 ≤ x := by
  unfold checkGraceRatio
  by_cases hfinite : x.isFinite = true
  · rw [zero_le_iff_not_lt hfinite, hfinite]
    by_cases hlt : x < 0.0 <;> simp [hlt]
  · simp [hfinite]

theorem Policy.check_eq_ok_iff (p : Policy) : p.check = .ok () ↔ p.Valid := by
  constructor
  · intro h
    unfold Policy.check at h
    split at h
    · cases h
    · split at h
      · cases h
      · obtain ⟨hfinite, hnonneg⟩ := (checkGraceRatio_eq_ok_iff _).1 h
        exact ⟨by omega, by omega, hfinite, hnonneg⟩
  · intro h
    have hchars := h.maxChars_pos
    have hlines := h.maxLines_pos
    unfold Policy.check
    rw [if_neg (by omega), if_neg (by omega)]
    exact (checkGraceRatio_eq_ok_iff _).2 ⟨h.ratio_finite, h.ratio_nonneg⟩

/-- A policy that can be used splits every text, and no other policy splits any. -/
theorem split_eq_ok_iff {text : String} {policy : Policy} {ps : List Part} :
    split text policy = .ok ps ↔
      policy.Valid ∧
        ps = assemble (Source.ofString text) (boundaries (Source.ofString text) policy) := by
  rw [← policy.check_eq_ok_iff]
  unfold split
  cases hcheck : policy.check with
  | error e => simp
  | ok u => simp [eq_comm]

theorem split_of_valid {policy : Policy} (h : policy.Valid) (text : String) :
    split text policy =
      .ok (assemble (Source.ofString text) (boundaries (Source.ofString text) policy)) :=
  split_eq_ok_iff.2 ⟨h, rfl⟩

/-! ### One boundary -/

variable {src : Source} {policy : Policy} {start : Nat} {before : State}

theorem tentativeCut_le (src : Source) (limits : Limits) (start : Nat) :
    tentativeCut src limits start ≤ src.size := by
  unfold tentativeCut
  omega

theorem selectBoundary_cut_le : (selectBoundary src policy start before).cut ≤ src.size :=
  snapToLineEnd_le src start _

theorem min_le_snapToLineEnd (src : Source) (start stop : Nat) :
    min stop src.size ≤ snapToLineEnd src start stop := by
  unfold snapToLineEnd
  split
  · have := src.le_lineEndFrom start
    omega
  · split
    · exact Nat.min_le_right _ _
    · split
      · exact Nat.min_le_left _ _
      · exact src.le_lineEndFrom stop

theorem le_snapToLineEnd (h : start ≤ src.size) (stop : Nat) :
    start ≤ snapToLineEnd src start stop := by
  rcases Nat.eq_or_lt_of_le h with rfl | hlt
  · unfold snapToLineEnd
    split
    · have := src.le_lineEndFrom src.size
      omega
    · split
      · exact Nat.le_refl _
      · omega
  · exact Nat.le_of_lt (lt_snapToLineEnd stop hlt)

theorem le_selectBoundary_cut (h : start ≤ src.size) :
    start ≤ (selectBoundary src policy start before).cut :=
  le_snapToLineEnd h _

theorem lineBreak_snapToLineEnd (src : Source) (start stop : Nat) :
    src.LineBreak (snapToLineEnd src start stop) := by
  unfold snapToLineEnd
  split
  · exact src.lineBreak_lineEndFrom start
  · split
    · exact .inr rfl
    · split
      · next hstart hsize hnl =>
          have := Source.lineBreak_succ_of_newlineAt hnl
          rwa [Nat.sub_add_cancel (by omega)] at this
      · exact src.lineBreak_lineEndFrom stop

/-- No line break lies between an offset and where it is moved. -/
theorem snapToLineEnd_le_of_lineBreak {e stop : Nat} (hbreak : src.LineBreak e) (hstart : start < e)
    (hstop : min stop src.size ≤ e) : snapToLineEnd src start stop ≤ e := by
  unfold snapToLineEnd
  by_cases hle : stop ≤ start
  · rw [if_pos hle]
    exact Source.lineEndFrom_le_of_lineBreak hbreak hstart
  · rw [if_neg hle]
    by_cases hsize : src.size ≤ stop
    · rw [if_pos hsize]
      omega
    · rw [if_neg hsize]
      have hstop : stop ≤ e := by omega
      split
      · exact hstop
      · next hnl =>
          -- The offset stands inside a line, so it is no line break itself.
          refine Source.lineEndFrom_le_of_lineBreak hbreak (Nat.lt_of_le_of_ne hstop ?_)
          intro heq
          subst heq
          rcases hbreak with hline | hend
          · exact hnl (Source.newlineAt_of_lineStartsAt (Nat.zero_lt_of_lt hstart) hline)
          · exact hsize (Nat.le_of_eq hend.symm)

/-- A later offset is moved no less far. -/
theorem snapToLineEnd_mono (hstart : start < src.size) {i j : Nat} (hij : i ≤ j) :
    snapToLineEnd src start i ≤ snapToLineEnd src start j := by
  have hj := min_le_snapToLineEnd src start j
  exact snapToLineEnd_le_of_lineBreak (lineBreak_snapToLineEnd src start j)
    (lt_snapToLineEnd j hstart) (by omega)

theorem lineBreak_selectBoundary_cut :
    src.LineBreak (selectBoundary src policy start before).cut :=
  lineBreak_snapToLineEnd src start _

/-! ### The run -/

/-- The boundary after `n` others in the run from `start` on. Behind the end of the text
the run stays where it is. -/
def nthBoundary (src : Source) (policy : Policy) (start : Nat) (before : State) :
    Nat → Boundary
  | 0 => selectBoundary src policy start before
  | n + 1 =>
      let b := nthBoundary src policy start before n
      selectBoundary src policy b.cut b.after

/-- Every boundary of a run is the one selected from its start. -/
theorem nthBoundary_eq (src : Source) (policy : Policy) (start : Nat) (before : State)
    (n : Nat) :
    nthBoundary src policy start before n =
      selectBoundary src policy (nthBoundary src policy start before n).start
        (nthBoundary src policy start before n).before := by
  cases n <;> rfl

/-- A run goes on after its first boundary as a run from there. -/
theorem nthBoundary_succ (n : Nat) :
    nthBoundary src policy start before (n + 1) =
      nthBoundary src policy (selectBoundary src policy start before).cut
        (selectBoundary src policy start before).after n := by
  induction n with
  | zero => rfl
  | succ n ih =>
      rw [nthBoundary, ih]
      rfl

theorem nthBoundary_cut_le (n : Nat) :
    (nthBoundary src policy start before n).cut ≤ src.size := by
  rw [nthBoundary_eq]
  exact selectBoundary_cut_le

theorem lt_nthBoundary_cut {n : Nat}
    (h : (nthBoundary src policy start before n).start < src.size) :
    (nthBoundary src policy start before n).start <
      (nthBoundary src policy start before n).cut := by
  have := lt_selectBoundary_cut policy (nthBoundary src policy start before n).before h
  rwa [← nthBoundary_eq] at this

theorem lineBreak_nthBoundary_cut (n : Nat) :
    src.LineBreak (nthBoundary src policy start before n).cut := by
  rw [nthBoundary_eq]
  exact lineBreak_selectBoundary_cut

/-- A run that begins at a line break goes from line break to line break. -/
theorem lineBreak_nthBoundary_start (h : src.LineBreak start) (n : Nat) :
    src.LineBreak (nthBoundary src policy start before n).start := by
  cases n with
  | zero => exact h
  | succ n => exact lineBreak_nthBoundary_cut n

theorem boundariesFrom_of_lt (h : start < src.size) :
    boundariesFrom src policy start before =
      selectBoundary src policy start before ::
        boundariesFrom src policy (selectBoundary src policy start before).cut
          (selectBoundary src policy start before).after := by
  rw [boundariesFrom, if_pos h]

theorem boundariesFrom_of_le (h : src.size ≤ start) :
    boundariesFrom src policy start before = [] := by
  rw [boundariesFrom, if_neg (by omega)]

/-- The boundaries of a text are the beginning of its run. -/
theorem getElem?_boundariesFrom {i : Nat} {b : Boundary}
    (h : (boundariesFrom src policy start before)[i]? = some b) :
    b = nthBoundary src policy start before i ∧ b.start < src.size := by
  induction i generalizing start before with
  | zero =>
      by_cases hlt : start < src.size
      · rw [boundariesFrom_of_lt hlt, List.getElem?_cons_zero, Option.some.injEq] at h
        subst h
        exact ⟨rfl, hlt⟩
      · rw [boundariesFrom_of_le (by omega)] at h
        cases h
  | succ i ih =>
      by_cases hlt : start < src.size
      · rw [boundariesFrom_of_lt hlt, List.getElem?_cons_succ] at h
        rw [nthBoundary_succ]
        exact ih h
      · rw [boundariesFrom_of_le (by omega)] at h
        cases h

/-- Every boundary of a text is the one selected from its start, which lies in the text. -/
theorem of_mem_boundariesFrom {b : Boundary}
    (h : b ∈ boundariesFrom src policy start before) :
    b.start < src.size ∧ b = selectBoundary src policy b.start b.before := by
  obtain ⟨i, hi⟩ := List.getElem?_of_mem h
  obtain ⟨rfl, hlt⟩ := getElem?_boundariesFrom hi
  exact ⟨hlt, nthBoundary_eq src policy start before i⟩

theorem bounds_of_mem_boundariesFrom {b : Boundary}
    (h : b ∈ boundariesFrom src policy start before) : b.start < b.cut ∧ b.cut ≤ src.size := by
  obtain ⟨hlt, hselect⟩ := of_mem_boundariesFrom h
  rw [hselect]
  exact ⟨lt_selectBoundary_cut policy b.before hlt, selectBoundary_cut_le⟩

/-- Each boundary begins where the one before it ends, and in the state at its end. -/
theorem start_of_next {i : Nat} {b c : Boundary}
    (hb : (boundariesFrom src policy start before)[i]? = some b)
    (hc : (boundariesFrom src policy start before)[i + 1]? = some c) :
    c.start = b.cut ∧ c.before = b.after := by
  obtain ⟨rfl, -⟩ := getElem?_boundariesFrom hb
  obtain ⟨rfl, -⟩ := getElem?_boundariesFrom hc
  exact ⟨rfl, rfl⟩

theorem boundariesFrom_ne_nil (h : start < src.size) :
    boundariesFrom src policy start before ≠ [] := by
  rw [boundariesFrom_of_lt h]
  exact List.cons_ne_nil _ _

/-- The last cut is the end of the text. -/
theorem cut_of_getLast?_boundariesFrom {b : Boundary}
    (h : (boundariesFrom src policy start before).getLast? = some b) : b.cut = src.size := by
  induction start, before using boundariesFrom.induct src policy with
  | case1 start before hlt b' ih =>
      rw [boundariesFrom_of_lt hlt, List.getLast?_cons, Option.some.injEq] at h
      cases hrest : (boundariesFrom src policy b'.cut b'.after).getLast? with
      | none =>
          -- Nothing follows the first boundary only if its cut is the end.
          rw [hrest, Option.getD_none] at h
          subst h
          rw [List.getLast?_eq_none_iff] at hrest
          have hle : b'.cut ≤ src.size := selectBoundary_cut_le
          by_cases hcut : b'.cut < src.size
          · exact absurd hrest (boundariesFrom_ne_nil hcut)
          · exact Nat.le_antisymm hle (Nat.le_of_not_lt hcut)
      | some last =>
          rw [hrest, Option.getD_some] at h
          subst h
          exact ih hrest
  | case2 start before hlt =>
      rw [boundariesFrom_of_le (by omega)] at h
      cases h

/-- What can be read off a text from line break to line break is read off the spans of a
run. -/
theorem flatMap_boundariesFrom {α : Type} {f : Nat → Nat → List α}
    (hnil : f src.size src.size = [])
    (happend : ∀ a b, a < b → b ≤ src.size → src.LineBreak b →
      f a b ++ f b src.size = f a src.size) (h : start ≤ src.size) :
    ((boundariesFrom src policy start before).flatMap fun b => f b.start b.cut) =
      f start src.size := by
  induction start, before using boundariesFrom.induct src policy with
  | case1 start before hlt b ih =>
      have hcut : start < b.cut := lt_selectBoundary_cut policy before hlt
      have hle : b.cut ≤ src.size := selectBoundary_cut_le
      rw [boundariesFrom_of_lt hlt, List.flatMap_cons, ih hle]
      exact happend start b.cut hcut hle lineBreak_selectBoundary_cut
  | case2 start before hlt =>
      have hend : start = src.size := by omega
      rw [boundariesFrom_of_le (by omega), hend, hnil]
      rfl

/-! ### Parts -/

theorem assemble_of_pos (h : 0 < src.size) (bs : List Boundary) :
    assemble src bs =
      bs.zipIdx.map fun (b, i) => Part.ofBoundary src (i + 1) bs.length b := by
  have : src.isEmpty = false := by
    rw [Source.isEmpty, beq_eq_false_iff_ne]
    omega
  rw [assemble, this]
  rfl

theorem assemble_of_empty (h : src.size = 0) (bs : List Boundary) :
    assemble src bs = [Part.ofSpan src 1 1 0 0 0 0] := by
  rw [assemble, Source.isEmpty, h]
  rfl

theorem getElem?_assemble (h : 0 < src.size) (bs : List Boundary) (i : Nat) :
    (assemble src bs)[i]? = bs[i]?.map (Part.ofBoundary src (i + 1) bs.length) := by
  rw [assemble_of_pos h, List.getElem?_map, List.getElem?_zipIdx, Option.map_map, Nat.zero_add]
  rfl

/-- The boundary at which a part of a text that is not empty ends. -/
theorem exists_boundary_of_mem {p : Part} (h : 0 < src.size)
    (hp : p ∈ assemble src (boundaries src policy)) :
    ∃ i b, (boundaries src policy)[i]? = some b ∧
      p = Part.ofBoundary src (i + 1) (boundaries src policy).length b := by
  obtain ⟨i, hi⟩ := List.getElem?_of_mem hp
  rw [getElem?_assemble h, Option.map_eq_some_iff] at hi
  obtain ⟨b, hb, rfl⟩ := hi
  exact ⟨i, b, hb, rfl⟩

theorem getElem?_assemble_of_boundary {i : Nat} {b : Boundary}
    (h : (boundaries src policy)[i]? = some b) :
    (assemble src (boundaries src policy))[i]? =
      some (Part.ofBoundary src (i + 1) (boundaries src policy).length b) := by
  obtain ⟨-, hlt⟩ := getElem?_boundariesFrom h
  rw [getElem?_assemble (Nat.zero_lt_of_lt hlt), h, Option.map_some]

theorem stop_eq_start_of_next {i : Nat} {p q : Part}
    (hp : (assemble src (boundaries src policy))[i]? = some p)
    (hq : (assemble src (boundaries src policy))[i + 1]? = some q) : p.stop = q.start := by
  rcases Nat.eq_zero_or_pos src.size with hsize | hsize
  · rw [assemble_of_empty hsize] at hq
    cases hq
  · rw [getElem?_assemble hsize, Option.map_eq_some_iff] at hp hq
    obtain ⟨b, hb, rfl⟩ := hp
    obtain ⟨c, hc, rfl⟩ := hq
    exact (start_of_next hb hc).1.symm

/-- What can be read off a text from line break to line break is read off its parts, if each
part tells what is in its span. -/
theorem flatMap_assemble {α : Type} {f : Nat → Nat → List α} {g : Part → List α}
    (hspan : ∀ p ∈ assemble src (boundaries src policy), g p = f p.start p.stop)
    (hnil : f src.size src.size = [])
    (happend : ∀ a b, a < b → b ≤ src.size → src.LineBreak b →
      f a b ++ f b src.size = f a src.size) :
    (assemble src (boundaries src policy)).flatMap g = f 0 src.size := by
  rw [List.flatMap_def, List.map_congr_left hspan, ← List.flatMap_def]
  rcases Nat.eq_zero_or_pos src.size with hsize | hsize
  · rw [assemble_of_empty hsize, hsize]
    exact List.append_nil _
  · have hbounds : ((assemble src (boundaries src policy)).flatMap fun p => f p.start p.stop) =
        (boundaries src policy).flatMap fun b => f b.start b.cut := by
      rw [assemble_of_pos hsize, List.flatMap_map]
      conv => rhs; rw [← List.zipIdx_map_fst 0 (boundaries src policy), List.flatMap_map]
      rfl
    rw [hbounds]
    exact flatMap_boundariesFrom hnil happend (Nat.zero_le _)

/-- What is added up over one list after the other is added up over all of them. -/
theorem foldr_map_flatMap {α β : Type} {size : List β → Nat} (hnil : size [] = 0)
    (happend : ∀ xs ys, size (xs ++ ys) = size xs + size ys) (f : α → List β) (xs : List α) :
    size (xs.flatMap f) = (xs.map fun x => size (f x)).foldr (· + ·) 0 := by
  induction xs with
  | nil => exact hnil
  | cons x xs ih => rw [List.flatMap_cons, happend, ih, List.map_cons, List.foldr_cons]

theorem length_flatMap_eq_foldr {α β : Type} (f : α → List β) (xs : List α) :
    (xs.flatMap f).length = (xs.map fun x => (f x).length).foldr (· + ·) 0 :=
  foldr_map_flatMap List.length_nil (fun _ _ => List.length_append) f xs

theorem count_flatMap_eq_foldr {α β : Type} [BEq β] (b : β) (f : α → List β) (xs : List α) :
    (xs.flatMap f).count b = (xs.map fun x => (f x).count b).foldr (· + ·) 0 :=
  foldr_map_flatMap List.count_nil (fun _ _ => List.count_append) f xs

/-- A part ends at the boundary that is selected from its start. -/
theorem exists_cut_of_mem {p : Part} (h : 0 < src.size)
    (hp : p ∈ assemble src (boundaries src policy)) :
    ∃ before, (selectBoundary src policy p.start before).cut = p.stop := by
  obtain ⟨i, b, hb, rfl⟩ := exists_boundary_of_mem h hp
  obtain ⟨rfl, -⟩ := getElem?_boundariesFrom hb
  refine ⟨_, congrArg Boundary.cut (nthBoundary_eq src policy 0 .initial i).symm⟩

/-- A part is a span of whole lines. -/
structure PartOf (src : Source) (p : Part) : Prop where
  start_le : p.start ≤ p.stop
  start_lt : 0 < src.size → p.start < p.stop
  stop_le : p.stop ≤ src.size
  lineStartsAt : src.lineStartsAt p.start = true
  lineBreak_stop : src.LineBreak p.stop
  text_eq : p.text = String.ofList (src.slice p.start p.stop)
  startLine_eq : p.startLine = src.lineOf p.start + 1

theorem partOf_of_mem_assemble {p : Part}
    (hp : p ∈ assemble src (boundaries src policy)) : PartOf src p := by
  rcases Nat.eq_zero_or_pos src.size with hsize | hsize
  · rw [assemble_of_empty hsize, List.mem_singleton] at hp
    subst hp
    refine ⟨Nat.le_refl 0, ?_, Nat.zero_le _, rfl, src.lineBreak_zero, rfl, rfl⟩
    omega
  · obtain ⟨i, b, hb, rfl⟩ := exists_boundary_of_mem hsize hp
    obtain ⟨rfl, hlt⟩ := getElem?_boundariesFrom hb
    have hcut := lt_nthBoundary_cut hlt
    have hstart : src.lineStartsAt (nthBoundary src policy 0 .initial i).start = true := by
      rcases lineBreak_nthBoundary_start src.lineBreak_zero i with h | h
      · exact h
      · omega
    exact ⟨Nat.le_of_lt hcut, fun _ => hcut, nthBoundary_cut_le i, hstart,
      lineBreak_nthBoundary_cut i, rfl, rfl⟩

theorem partOf_of_mem_split {text : String} {ps : List Part} {p : Part}
    (h : split text policy = .ok ps) (hp : p ∈ ps) : PartOf (Source.ofString text) p := by
  obtain ⟨-, rfl⟩ := split_eq_ok_iff.1 h
  exact partOf_of_mem_assemble hp

/-- The text of a part is a window of the whole text. -/
theorem PartOf.window {p : Part} (h : PartOf src p) :
    Source.Window (Source.ofString p.text) src p.start := by
  rw [h.text_eq, Source.ofString_ofList]
  exact Source.window_slice h.start_le h.stop_le

theorem PartOf.add_size {p : Part} (h : PartOf src p) :
    p.start + (Source.ofString p.text).size = p.stop := by
  rw [h.text_eq, Source.ofString_ofList, Source.size_ofList_slice h.stop_le]
  exact Nat.add_sub_cancel' h.start_le

end CodeParts.Split
