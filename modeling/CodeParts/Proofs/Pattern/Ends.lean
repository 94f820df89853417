import CodeParts.Proofs.Pattern.Lines
import CodeParts.Proofs.Pattern.Reading

/-!
# Where the matches of a pattern end

`run` carries the kept spans along, but they have no part in what matches. `Pattern.ends` is
what is left without them: the offsets at which a pattern can come to an end, the preferred one
first (`map_offset_run`), with one equation for each operator.

A pattern that keeps one span behind a beginning that keeps none is then described by the ends
of its three pieces (`matchAt_named`). A search finds a match at an offset if no match that
begins before it reaches past it (`mem_findAll_of_matchAt`).
-/

namespace CodeParts.Pattern

variable {src : Source} {p q r : Pattern} {i j : Nat} {cs : List Char} {cls : Char → Bool}
  {m : Match}

/-- The offsets at which a pattern that begins at offset `i` can end, the preferred one first. -/
def ends (src : Source) (p : Pattern) (i : Nat) : List Nat :=
  (p.run src ⟨i, []⟩).map (·.offset)

/-- Where a pattern can end does not depend on the spans kept before. -/
theorem map_offset_run (src : Source) (p : Pattern) (c : Cursor) :
    (p.run src c).map (·.offset) = p.ends src c.offset := by
  -- Both sides are runs from the same offset, so it is enough to compare any two of these.
  have hrun (c c' : Cursor) (h : c.offset = c'.offset) :
      (p.run src c).map (·.offset) = (p.run src c').map (·.offset) := by
    induction p generalizing c c' with
    | empty | all cls => simp [run, Cursor.moveTo, h]
    | one cls | literal cs =>
        simp only [run, h]
        split <;> simp [Cursor.moveTo]
    | many cls | throughClosing => simp [run, Cursor.moveTo, Function.comp_def, h]
    | seq p q ihp ihq =>
        have hq (d : Cursor) : (q.run src d).map (·.offset) =
            (q.run src ⟨d.offset, []⟩).map (·.offset) := ihq d ⟨d.offset, []⟩ rfl
        simp only [run, List.map_flatMap, hq]
        have hp := congrArg (List.flatMap fun k => (q.run src ⟨k, []⟩).map (·.offset)) (ihp c c' h)
        simpa only [List.flatMap_map] using hp
    | alt p q ihp ihq => simp only [run, List.map_append, ihp c c' h, ihq c c' h]
    | group label p ih =>
        have hp := ih c c' h
        simpa only [run, List.map_map, Function.comp_def, Cursor.record] using hp
    | lineStart | lineEnd | wordEdge =>
        simp only [run, h]
        split <;> simp [h]
  exact hrun c ⟨c.offset, []⟩ rfl

/-! ### One equation for each operator -/

@[simp] theorem ends_one (src : Source) (cls : Char → Bool) (i : Nat) :
    (one cls).ends src i = if src.classAt cls i then [i + 1] else [] := by
  rw [ends, run]
  split <;> rfl

@[simp] theorem ends_many (src : Source) (cls : Char → Bool) (i : Nat) :
    (many cls).ends src i = (List.range' i (src.runEnd cls i + 1 - i)).reverse := by
  simp [ends, run, Cursor.moveTo, Function.comp_def]

@[simp] theorem ends_all (src : Source) (cls : Char → Bool) (i : Nat) :
    (all cls).ends src i = [src.runEnd cls i] := rfl

@[simp] theorem ends_literal (src : Source) (cs : List Char) (i : Nat) :
    (literal cs).ends src i = if src.literalAt cs i then [i + cs.length] else [] := by
  rw [ends, run]
  split <;> rfl

@[simp] theorem ends_seq (src : Source) (p q : Pattern) (i : Nat) :
    (seq p q).ends src i = (p.ends src i).flatMap (q.ends src) := by
  simp only [ends, run, List.map_flatMap, List.flatMap_map]
  exact congrArg (List.flatMap · _) (funext fun d => map_offset_run src q d)

@[simp] theorem ends_alt (src : Source) (p q : Pattern) (i : Nat) :
    (alt p q).ends src i = p.ends src i ++ q.ends src i := by
  simp [ends, run]

@[simp] theorem ends_empty (src : Source) (i : Nat) : empty.ends src i = [i] := rfl

@[simp] theorem ends_group (src : Source) (label : String) (p : Pattern) (i : Nat) :
    (group label p).ends src i = p.ends src i := by
  simp [ends, run, Cursor.record, Function.comp_def]

@[simp] theorem ends_lineStart (src : Source) (i : Nat) :
    lineStart.ends src i = if src.lineStartsAt i then [i] else [] := by
  rw [ends, run]
  split <;> rfl

@[simp] theorem ends_lineEnd (src : Source) (i : Nat) :
    lineEnd.ends src i = if src.lineEndsAt i then [i] else [] := by
  rw [ends, run]
  split <;> rfl

@[simp] theorem ends_wordEdge (src : Source) (i : Nat) :
    wordEdge.ends src i = if src.wordEdgeAt i then [i] else [] := by
  rw [ends, run]
  split <;> rfl

theorem mem_ends_seq : j ∈ (seq p q).ends src i ↔ ∃ k, k ∈ p.ends src i ∧ j ∈ q.ends src k := by
  rw [ends_seq, List.mem_flatMap]

theorem mem_ends_literal :
    j ∈ (literal cs).ends src i ↔ src.literalAt cs i = true ∧ j = i + cs.length := by
  rw [ends_literal]
  split <;> simp [*]

theorem mem_ends_wordEdge : j ∈ wordEdge.ends src i ↔ src.wordEdgeAt i = true ∧ j = i := by
  rw [ends_wordEdge]
  split <;> simp [*]

theorem ends_wordEdge_ne_nil_iff : wordEdge.ends src i ≠ [] ↔ src.wordEdgeAt i = true := by
  rw [ends_wordEdge]
  split <;> simp [*]

/-- What may be left out can end where it begins. -/
theorem mem_ends_optional (src : Source) (p : Pattern) (i : Nat) :
    i ∈ (optional p).ends src i := by
  rw [optional, ends_alt, ends_empty]
  exact List.mem_append_right _ List.mem_cons_self

theorem ends_optional_of_eq_nil (h : p.ends src i = []) : (optional p).ends src i = [i] := by
  rw [optional, ends_alt, h, ends_empty, List.nil_append]

/-- A run of characters ends in one place. -/
theorem ends_several_of_mem (h : j ∈ (several cls).ends src i) :
    (several cls).ends src i = [j] := by
  rw [several, ends_seq, ends_one] at h ⊢
  split at h
  · next hcls =>
      rw [List.flatMap_singleton, ends_all, List.mem_singleton] at h
      rw [if_pos hcls, List.flatMap_singleton, ends_all, h]
  · cases h

/-- A chain is matched piece by piece. -/
theorem ends_chain_append (src : Source) (ps qs : List Pattern) (i : Nat) :
    (chain (ps ++ qs)).ends src i = ((chain ps).ends src i).flatMap ((chain qs).ends src) := by
  rw [← ends_seq, ends, ends, run_chain_append]

theorem ends_chain_cons (src : Source) (p : Pattern) (ps : List Pattern) (i : Nat) :
    (chain (p :: ps)).ends src i = (p.ends src i).flatMap ((chain ps).ends src) :=
  ends_chain_append src [p] ps i

theorem ends_of_reads (h : Reads src p i j) : p.ends src i = [j] := by
  rw [ends, h ⟨i, []⟩ rfl]
  rfl

/-- A pattern matches at an offset just if it can end somewhere. -/
theorem matchAt_eq_none_iff : p.matchAt src i = none ↔ p.ends src i = [] := by
  rw [matchAt_eq, Option.map_eq_none_iff, List.head?_eq_none_iff, ends, List.map_eq_nil_iff]

theorem matchAt_seq_assoc (src : Source) (p q r : Pattern) (i : Nat) :
    (seq p (seq q r)).matchAt src i = (seq (seq p q) r).matchAt src i := by
  simp only [matchAt_eq, run, List.flatMap_assoc]

/-! ### One span behind a beginning that keeps none -/

/-- The pattern keeps no spans. -/
def plain : Pattern → Bool
  | group _ _ => false
  | seq p q | alt p q => plain p && plain q
  | _ => true

/-- A pattern without spans to keep keeps those from before. -/
theorem run_of_plain (hp : p.plain = true) (c : Cursor) :
    p.run src c = (p.ends src c.offset).map c.moveTo := by
  have hgroups {d : Cursor} (h : d ∈ p.run src c) : d.groups = c.groups := by
    induction p generalizing c d with
    | empty | all cls =>
        rw [run, List.mem_singleton] at h
        subst h
        rfl
    | one cls =>
        obtain ⟨-, rfl⟩ := mem_run_one.1 h
        rfl
    | literal cs =>
        obtain ⟨-, rfl⟩ := mem_run_literal.1 h
        rfl
    | many cls | throughClosing =>
        rw [run, List.mem_map] at h
        obtain ⟨i, -, rfl⟩ := h
        rfl
    | seq p q ihp ihq =>
        rw [plain, Bool.and_eq_true] at hp
        obtain ⟨e, he, hd⟩ := mem_run_seq.1 h
        rw [ihq hp.2 e hd, ihp hp.1 c he]
    | alt p q ihp ihq =>
        rw [plain, Bool.and_eq_true] at hp
        rcases mem_run_alt.1 h with h | h
        · exact ihp hp.1 c h
        · exact ihq hp.2 c h
    | group label p => cases hp
    | lineStart | lineEnd | wordEdge =>
        rw [run] at h
        split at h
        · rw [List.mem_singleton] at h
          rw [h]
        · cases h
  rw [← map_offset_run, List.map_map]
  refine (List.map_id _).symm.trans (List.map_congr_left fun d hd => ?_)
  rw [Function.comp_apply, Cursor.moveTo, ← hgroups hd]
  rfl

/-- The first offset at which a pattern can end so that another one matches behind it. -/
def firstEnd (src : Source) (p q : Pattern) (i : Nat) : Option Nat :=
  (p.ends src i).find? fun j => !(q.ends src j).isEmpty

theorem of_firstEnd (h : firstEnd src p q i = some j) :
    j ∈ p.ends src i ∧ q.ends src j ≠ [] := by
  refine ⟨List.mem_of_find?_eq_some h, ?_⟩
  simpa using List.find?_some h

/-- The preferred end is taken if the other pattern matches behind it. -/
theorem firstEnd_of_head? (h : (p.ends src i).head? = some j) (hq : q.ends src j ≠ []) :
    firstEnd src p q i = some j := by
  obtain ⟨rest, hrest⟩ := List.head?_eq_some_iff.1 h
  rw [firstEnd, hrest, List.find?_cons_of_pos]
  simpa using hq

theorem findSome?_firstEnd (src : Source) (p q : Pattern) (i : Nat) (f : Nat → Nat → Match) :
    ((p.ends src i).findSome? fun j => (q.ends src j).head?.map (f j)) =
      (firstEnd src p q i).bind fun j => (q.ends src j).head?.map (f j) := by
  unfold firstEnd
  induction p.ends src i with
  | nil => rfl
  | cons j js ih =>
      rw [List.findSome?_cons, ih, List.find?_cons]
      cases hq : q.ends src j with
      | nil => rfl
      | cons k ks => simp [hq]

/-- The match of a pattern that keeps one span: the first way through its beginning, then the
first end of the span behind which the pattern goes on. -/
theorem matchAt_named (hp : p.plain = true) (hq : q.plain = true) (hr : r.plain = true)
    (src : Source) (label : String) (i : Nat) :
    (seq p (seq (group label q) r)).matchAt src i =
      (p.ends src i).findSome? fun a => (firstEnd src q r a).bind fun b =>
        (r.ends src b).head?.map fun e => ⟨i, e, [(label, a, b)]⟩ := by
  simp only [matchAt_eq, run, run_of_plain hp, run_of_plain hq, run_of_plain hr,
    List.head?_flatMap, List.flatMap_map, List.map_map, List.head?_map, ← findSome?_firstEnd]
  simp [Function.comp_def, List.map_findSome?, Cursor.record, Cursor.moveTo]

/-- What a pattern that keeps one span has kept. -/
theorem span?_of_matchAt_named (hp : p.plain = true) (hq : q.plain = true)
    (hr : r.plain = true) {label : String}
    (h : (seq p (seq (group label q) r)).matchAt src i = some m) :
    ∃ a b, m.span? label = some (a, b) ∧ a ∈ p.ends src i ∧ firstEnd src q r a = some b := by
  rw [matchAt_named hp hq hr] at h
  obtain ⟨a, ha, hm⟩ := List.exists_of_findSome?_eq_some h
  obtain ⟨b, hb, hm⟩ := Option.bind_eq_some_iff.1 hm
  obtain ⟨e, -, rfl⟩ := Option.map_eq_some_iff.1 hm
  exact ⟨a, b, by simp [Match.span?], ha, hb⟩

/-- Where there is one way through the beginning, the first end of the span is kept. -/
theorem matchAt_named_of_firstEnd (hp : p.plain = true) (hq : q.plain = true)
    (hr : r.plain = true) (label : String) {a b : Nat} (ha : p.ends src i = [a])
    (hb : firstEnd src q r a = some b) :
    ∃ e, (seq p (seq (group label q) r)).matchAt src i = some ⟨i, e, [(label, a, b)]⟩ := by
  obtain ⟨e, es, he⟩ := List.exists_cons_of_ne_nil (of_firstEnd hb).2
  rw [matchAt_named hp hq hr, ha, List.findSome?_singleton, hb, Option.bind_some, he]
  exact ⟨e, rfl⟩

/-! ### Searches -/

theorem le_start_of_mem_findAll (h : m ∈ p.findAll src i) : i ≤ m.start := by
  induction hn : src.size + 1 - i using Nat.strongRecOn generalizing i with
  | ind n ih =>
      rw [findAll_eq] at h
      split at h
      · next hle =>
          split at h
          · next m' hm =>
              rcases List.mem_cons.1 h with rfl | h
              · exact Nat.le_of_eq (start_of_matchAt hm).symm
              · have := ih _ (by omega) h rfl
                omega
          · have := ih _ (by omega) h rfl
            omega
      · cases h

/-- A search goes from left to right. -/
theorem pairwise_start_findAll (src : Source) (p : Pattern) (i : Nat) :
    (p.findAll src i).Pairwise fun m n => m.start < n.start := by
  induction hn : src.size + 1 - i using Nat.strongRecOn generalizing i with
  | ind n ih =>
      rw [findAll_eq]
      split
      · next hle =>
          split
          · next m hm =>
              refine .cons (fun m' hm' => ?_) (ih _ (by omega) _ rfl)
              have := le_start_of_mem_findAll hm'
              rw [start_of_matchAt hm]
              omega
          · exact ih _ (by omega) _ rfl
      · exact .nil

/-- A search finds the match at an offset if no match from before reaches past it. -/
theorem mem_findAll_of_matchAt (hij : i ≤ j) (hj : j ≤ src.size)
    (h : p.matchAt src j = some m)
    (hclear : ∀ k n, i ≤ k → k < j → p.matchAt src k = some n → n.stop ≤ j) :
    m ∈ p.findAll src i := by
  induction hn : j - i using Nat.strongRecOn generalizing i with
  | ind n ih =>
      rw [findAll_eq, if_pos (Nat.le_trans hij hj)]
      rcases Nat.eq_or_lt_of_le hij with rfl | hlt
      · rw [h]
        exact List.mem_cons_self
      · cases hm : p.matchAt src i with
        | none => exact ih (j - (i + 1)) (by omega) hlt (fun k n hk => hclear k n (by omega)) rfl
        | some m' =>
            have hstop := hclear i m' (Nat.le_refl i) hlt hm
            exact List.mem_cons_of_mem _ (ih (j - max (i + 1) m'.stop) (by omega) (by omega)
              (fun k n hk => hclear k n (by omega)) rfl)

end CodeParts.Pattern
