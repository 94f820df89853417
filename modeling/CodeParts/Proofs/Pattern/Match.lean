import CodeParts.Pattern.Search

/-!
# Where matches lie

A match goes forward and stays inside the text (`le_offset_of_mem_run`,
`offset_le_of_mem_run`), and a pattern that takes at least one character goes strictly
forward (`lt_offset_of_mem_run`). What it takes on its way are characters of its classes and
literals (`charAt_of_mem_run`). A search finds the match at the least offset that has one
(`find_eq_some_iff`, `find_eq_none_iff`).
-/

namespace CodeParts.Pattern

variable {src : Source} {p : Pattern} {c d : Cursor} {i : Nat} {m : Match}

/-! ### Matches of one piece -/

theorem mem_run_one {cls : Char → Bool} :
    d ∈ (one cls).run src c ↔
      src.classAt cls c.offset = true ∧ d = c.moveTo (c.offset + 1) := by
  rw [run]
  split <;> simp [*]

theorem mem_run_literal {cs : List Char} :
    d ∈ (literal cs).run src c ↔
      src.literalAt cs c.offset = true ∧ d = c.moveTo (c.offset + cs.length) := by
  rw [run]
  split <;> simp [*]

theorem mem_run_all {cls : Char → Bool} :
    d ∈ (all cls).run src c ↔ d = c.moveTo (src.runEnd cls c.offset) := List.mem_singleton

theorem mem_run_lineEnd :
    d ∈ lineEnd.run src c ↔ src.lineEndsAt c.offset = true ∧ d = c := by
  rw [run]
  split <;> simp [*]

theorem mem_run_seq {p q : Pattern} :
    d ∈ (seq p q).run src c ↔ ∃ e, e ∈ p.run src c ∧ d ∈ q.run src e :=
  List.mem_flatMap

theorem mem_run_alt {p q : Pattern} :
    d ∈ (alt p q).run src c ↔ d ∈ p.run src c ∨ d ∈ q.run src c :=
  List.mem_append

theorem mem_run_group {label : String} :
    d ∈ (group label p).run src c ↔ ∃ e, e ∈ p.run src c ∧ d = e.record label c.offset := by
  simp only [run, List.mem_map, eq_comm]

/-! ### Matches go forward -/

theorem runEnd_le {cls : Char → Bool} (h : i ≤ src.size) : src.runEnd cls i ≤ src.size := by
  unfold Source.runEnd
  cases hfirst : firstIn (fun j => !src.classAt cls j) i src.size with
  | none =>
      rw [Option.getD_none]
      omega
  | some j =>
      have := (firstIn_eq_some_iff.1 hfirst).2.1
      rw [Option.getD_some]
      omega

theorem lt_size_of_classAt {cls : Char → Bool} (h : src.classAt cls i = true) :
    i < src.size := by
  unfold Source.classAt at h
  split at h
  · assumption
  · cases h

theorem afterClosing_bounds {j : Nat} (h : src.afterClosing i = some j) :
    i < j ∧ j ≤ src.size := by
  rw [src.afterClosing_eq, Option.map_eq_some_iff] at h
  obtain ⟨k, hk, rfl⟩ := h
  have := firstIn_eq_some_iff.1 hk
  omega

/-- No match ends before it begins. -/
theorem le_offset_of_mem_run (h : d ∈ p.run src c) : c.offset ≤ d.offset := by
  induction p generalizing c d with
  | empty =>
      rw [run, List.mem_singleton] at h
      exact Nat.le_of_eq (congrArg Cursor.offset h.symm)
  | one cls =>
      rw [run] at h
      split at h
      · rw [List.mem_singleton] at h
        rw [h]
        exact Nat.le_succ _
      · cases h
  | many cls =>
      simp only [run, List.mem_map, List.mem_reverse, List.mem_range'_1] at h
      obtain ⟨i, hi, rfl⟩ := h
      exact hi.1
  | all cls =>
      rw [run, List.mem_singleton] at h
      rw [h]
      exact le_runEnd src cls c.offset
  | literal cs =>
      rw [run] at h
      split at h
      · rw [List.mem_singleton] at h
        rw [h]
        exact Nat.le_add_right _ _
      · cases h
  | throughClosing =>
      simp only [run, List.mem_map, Option.mem_toList] at h
      obtain ⟨i, hi, rfl⟩ := h
      exact Nat.le_of_lt (afterClosing_bounds hi).1
  | seq p q ihp ihq =>
      simp only [run, List.mem_flatMap] at h
      obtain ⟨e, he, hd⟩ := h
      exact Nat.le_trans (ihp he) (ihq hd)
  | alt p q ihp ihq =>
      simp only [run, List.mem_append] at h
      rcases h with h | h
      · exact ihp h
      · exact ihq h
  | group label p ih =>
      simp only [run, List.mem_map] at h
      obtain ⟨e, he, rfl⟩ := h
      exact ih (d := e) he
  | lineStart | lineEnd | wordEdge =>
      rw [run] at h
      split at h
      · rw [List.mem_singleton] at h
        exact Nat.le_of_eq (congrArg Cursor.offset h.symm)
      · cases h

/-- A match that begins inside the text ends inside it. -/
theorem offset_le_of_mem_run (h : d ∈ p.run src c) (hc : c.offset ≤ src.size) :
    d.offset ≤ src.size := by
  induction p generalizing c d with
  | empty =>
      rw [run, List.mem_singleton] at h
      rw [h]
      exact hc
  | one cls =>
      rw [run] at h
      split at h
      · next hcls =>
          rw [List.mem_singleton] at h
          rw [h]
          exact lt_size_of_classAt hcls
      · cases h
  | many cls =>
      simp only [run, List.mem_map, List.mem_reverse, List.mem_range'_1] at h
      obtain ⟨i, hi, rfl⟩ := h
      have : src.runEnd cls c.offset ≤ src.size := runEnd_le hc
      show i ≤ src.size
      omega
  | all cls =>
      rw [run, List.mem_singleton] at h
      rw [h]
      exact runEnd_le hc
  | literal cs =>
      rw [run] at h
      split at h
      · next hlit =>
          rw [List.mem_singleton] at h
          rw [h]
          cases cs with
          | nil => exact hc
          | cons ch cs => exact Source.add_length_le_size hlit (List.cons_ne_nil _ _)
      · cases h
  | throughClosing =>
      simp only [run, List.mem_map, Option.mem_toList] at h
      obtain ⟨i, hi, rfl⟩ := h
      exact (afterClosing_bounds hi).2
  | seq p q ihp ihq =>
      simp only [run, List.mem_flatMap] at h
      obtain ⟨e, he, hd⟩ := h
      exact ihq hd (ihp he hc)
  | alt p q ihp ihq =>
      simp only [run, List.mem_append] at h
      rcases h with h | h
      · exact ihp h hc
      · exact ihq h hc
  | group label p ih =>
      simp only [run, List.mem_map] at h
      obtain ⟨e, he, rfl⟩ := h
      exact ih (d := e) he hc
  | lineStart | lineEnd | wordEdge =>
      rw [run] at h
      split at h
      · rw [List.mem_singleton] at h
        rw [h]
        exact hc
      · cases h

/-- A pattern that is not nullable takes at least one character. -/
theorem lt_offset_of_mem_run (hp : p.nullable = false) (h : d ∈ p.run src c) :
    c.offset < d.offset := by
  induction p generalizing c d with
  | one cls =>
      rw [run] at h
      split at h
      · rw [List.mem_singleton] at h
        rw [h]
        exact Nat.lt_succ_self _
      · cases h
  | literal cs =>
      rw [run] at h
      split at h
      · have : 0 < cs.length := List.length_pos_iff.2 (by simpa [nullable] using hp)
        rw [List.mem_singleton] at h
        rw [h]
        exact Nat.lt_add_of_pos_right this
      · cases h
  | throughClosing =>
      simp only [run, List.mem_map, Option.mem_toList] at h
      obtain ⟨i, hi, rfl⟩ := h
      exact (afterClosing_bounds hi).1
  | seq p q ihp ihq =>
      simp only [run, List.mem_flatMap] at h
      obtain ⟨e, he, hd⟩ := h
      rw [nullable, Bool.and_eq_false_iff] at hp
      rcases hp with hp | hq
      · exact Nat.lt_of_lt_of_le (ihp hp he) (le_offset_of_mem_run hd)
      · exact Nat.lt_of_le_of_lt (le_offset_of_mem_run he) (ihq hq hd)
  | alt p q ihp ihq =>
      simp only [run, List.mem_append] at h
      rw [nullable, Bool.or_eq_false_iff] at hp
      rcases h with h | h
      · exact ihp hp.1 h
      · exact ihq hp.2 h
  | group label p ih =>
      simp only [run, List.mem_map] at h
      obtain ⟨e, he, rfl⟩ := h
      exact ih (d := e) hp he
  | _ => cases hp

/-! ### What a match takes -/

/-- Every class and every literal of a pattern keeps to the characters with the property `t`. -/
def Only (t : Char → Prop) : Pattern → Prop
  | one cls | many cls | all cls => ∀ ch, cls ch = true → t ch
  | literal cs => ∀ ch ∈ cs, t ch
  | throughClosing => False
  | seq p q | alt p q => Only t p ∧ Only t q
  | group _ p => Only t p
  | empty | lineStart | lineEnd | wordEdge => True

theorem classAt_of_le_of_lt_runEnd {cls : Char → Bool} {j : Nat} (hij : i ≤ j)
    (hj : j < src.runEnd cls i) : src.classAt cls j = true := by
  unfold Source.runEnd at hj
  cases hfirst : firstIn (fun j => !src.classAt cls j) i src.size with
  | none =>
      rw [hfirst, Option.getD_none] at hj
      rw [firstIn_eq_none_iff] at hfirst
      simpa using hfirst j hij (by omega)
  | some k =>
      rw [hfirst, Option.getD_some] at hj
      simpa using (firstIn_eq_some_iff.1 hfirst).2.2.2 j hij hj

theorem exists_charAt_of_classAt {cls : Char → Bool} {t : Char → Prop}
    (hcls : ∀ ch, cls ch = true → t ch) (h : src.classAt cls i = true) :
    ∃ ch, src.charAt i = some ch ∧ t ch := by
  rw [Source.classAt_eq, Option.any_eq_true] at h
  obtain ⟨ch, hch, h⟩ := h
  exact ⟨ch, hch, hcls ch h⟩

/-- A match takes only characters to which its pattern keeps. -/
theorem charAt_of_mem_run {t : Char → Prop} (hp : p.Only t) (h : d ∈ p.run src c) {j : Nat}
    (hcj : c.offset ≤ j) (hj : j < d.offset) : ∃ ch, src.charAt j = some ch ∧ t ch := by
  induction p generalizing c d with
  | empty =>
      rw [run, List.mem_singleton] at h
      rw [h] at hj
      omega
  | one cls =>
      rw [run] at h
      split at h
      · next hcls =>
          rw [List.mem_singleton] at h
          subst h
          have hlast : j < c.offset + 1 := hj
          obtain rfl : j = c.offset := by omega
          exact exists_charAt_of_classAt hp hcls
      · cases h
  | many cls =>
      simp only [run, List.mem_map, List.mem_reverse, List.mem_range'_1] at h
      obtain ⟨i, hi, rfl⟩ := h
      have hlt : j < i := hj
      exact exists_charAt_of_classAt hp (classAt_of_le_of_lt_runEnd hcj (by omega))
  | all cls =>
      rw [run, List.mem_singleton] at h
      rw [h] at hj
      exact exists_charAt_of_classAt hp (classAt_of_le_of_lt_runEnd hcj hj)
  | literal cs =>
      rw [run] at h
      split at h
      · next hlit =>
          rw [List.mem_singleton] at h
          subst h
          have hlt : j < c.offset + cs.length := hj
          obtain ⟨k, rfl⟩ := Nat.exists_eq_add_of_le hcj
          have hk : k < cs.length := by omega
          refine ⟨cs[k], ?_, hp _ (List.getElem_mem hk)⟩
          rw [← List.getElem?_eq_getElem hk]
          exact Source.literalAt_eq_true.1 hlit k hk
      · cases h
  | throughClosing => exact hp.elim
  | seq p q ihp ihq =>
      simp only [run, List.mem_flatMap] at h
      obtain ⟨e, he, hd⟩ := h
      rcases Nat.lt_or_ge j e.offset with hlt | hge
      · exact ihp hp.1 he hcj hlt
      · exact ihq hp.2 hd hge hj
  | alt p q ihp ihq =>
      simp only [run, List.mem_append] at h
      rcases h with h | h
      · exact ihp hp.1 h hcj hj
      · exact ihq hp.2 h hcj hj
  | group label p ih =>
      simp only [run, List.mem_map] at h
      obtain ⟨e, he, rfl⟩ := h
      exact ih (d := e) hp he hcj hj
  | lineStart | lineEnd | wordEdge =>
      rw [run] at h
      split at h
      · rw [List.mem_singleton] at h
        rw [h] at hj
        omega
      · cases h

/-! ### Chains -/

/-- A chain is matched piece by piece. -/
theorem run_chain_append (src : Source) (ps qs : List Pattern) (c : Cursor) :
    (chain (ps ++ qs)).run src c = (seq (chain ps) (chain qs)).run src c := by
  induction ps generalizing c with
  | nil => simp [chain, run]
  | cons p ps ih =>
      cases ps with
      | nil =>
          cases qs with
          | nil => simp [chain, run]
          | cons q qs => rfl
      | cons p' ps =>
          simp only [List.cons_append, chain, run] at ih ⊢
          rw [List.flatMap_assoc]
          exact congrArg (List.flatMap · _) (funext ih)

/-! ### Searches -/

/-- A match at an offset is one of the ways in which the pattern matches from there on. -/
theorem exists_mem_run_of_matchAt (h : p.matchAt src i = some m) :
    ∃ d, d ∈ p.run src ⟨i, []⟩ ∧ m = ⟨i, d.offset, d.groups⟩ := by
  rw [matchAt_eq, Option.map_eq_some_iff] at h
  obtain ⟨d, hd, rfl⟩ := h
  exact ⟨d, List.mem_of_head? hd, rfl⟩

theorem exists_matchAt_of_mem_run (h : d ∈ p.run src ⟨i, []⟩) :
    ∃ m, p.matchAt src i = some m := by
  obtain ⟨_, _, hrun⟩ := List.exists_cons_of_ne_nil (List.ne_nil_of_mem h)
  exact ⟨_, by rw [matchAt_eq, hrun]; rfl⟩

theorem start_of_matchAt (h : p.matchAt src i = some m) : m.start = i := by
  obtain ⟨d, -, rfl⟩ := exists_mem_run_of_matchAt h
  rfl

theorem start_le_stop_of_matchAt (h : p.matchAt src i = some m) : m.start ≤ m.stop := by
  obtain ⟨d, hd, rfl⟩ := exists_mem_run_of_matchAt h
  exact le_offset_of_mem_run hd

/-- A pattern that takes a character does not match the empty text. -/
theorem start_lt_stop_of_matchAt (hp : p.nullable = false) (h : p.matchAt src i = some m) :
    m.start < m.stop := by
  obtain ⟨d, hd, rfl⟩ := exists_mem_run_of_matchAt h
  exact lt_offset_of_mem_run hp hd

theorem stop_le_of_matchAt (hi : i ≤ src.size) (h : p.matchAt src i = some m) :
    m.stop ≤ src.size := by
  obtain ⟨d, hd, rfl⟩ := exists_mem_run_of_matchAt h
  exact offset_le_of_mem_run hd hi

/-- The match at the least offset from `i` on that has one. -/
structure FirstMatch (src : Source) (p : Pattern) (i : Nat) (m : Match) : Prop where
  le_start : i ≤ m.start
  start_le : m.start ≤ src.size
  matchAt_eq : p.matchAt src m.start = some m
  before_eq : ∀ j, i ≤ j → j < m.start → p.matchAt src j = none

theorem firstMatch_of_matchAt (hi : i ≤ src.size) (h : p.matchAt src i = some m) :
    FirstMatch src p i m := by
  have hstart := start_of_matchAt h
  constructor
  case le_start => exact Nat.le_of_eq hstart.symm
  case start_le => exact hstart ▸ hi
  case matchAt_eq => exact hstart ▸ h
  case before_eq =>
    intro j hij hj
    omega

theorem firstMatch_of_succ (hnone : p.matchAt src i = none) (h : FirstMatch src p (i + 1) m) :
    FirstMatch src p i m := by
  refine ⟨Nat.le_of_succ_le h.le_start, h.start_le, h.matchAt_eq, ?_⟩
  intro j hij hj
  rcases Nat.eq_or_lt_of_le hij with heq | hlt
  · exact heq ▸ hnone
  · exact h.before_eq j hlt hj

theorem FirstMatch.unique {m' : Match} (h : FirstMatch src p i m) (h' : FirstMatch src p i m') :
    m = m' := by
  have hstart : m.start = m'.start := by
    rcases Nat.lt_trichotomy m.start m'.start with hlt | heq | hgt
    · have hnone := h'.before_eq _ h.le_start hlt
      rw [h.matchAt_eq] at hnone
      cases hnone
    · exact heq
    · have hnone := h.before_eq _ h'.le_start hgt
      rw [h'.matchAt_eq] at hnone
      cases hnone
  have hmatch := h.matchAt_eq
  rw [hstart, h'.matchAt_eq, Option.some.injEq] at hmatch
  exact hmatch.symm

theorem firstMatch_of_find (hi : i ≤ src.size) (h : p.find src i = some m) :
    FirstMatch src p i m := by
  induction hn : src.size - i generalizing i with
  | zero =>
      rw [find_eq] at h
      cases hm : p.matchAt src i with
      | none =>
          rw [hm] at h
          simp only [if_neg (show ¬ i < src.size by omega)] at h
          cases h
      | some m' =>
          rw [hm] at h
          cases h
          exact firstMatch_of_matchAt hi hm
  | succ n ih =>
      rw [find_eq] at h
      cases hm : p.matchAt src i with
      | none =>
          rw [hm] at h
          simp only [if_pos (show i < src.size by omega)] at h
          exact firstMatch_of_succ hm (ih (by omega) h (by omega))
      | some m' =>
          rw [hm] at h
          cases h
          exact firstMatch_of_matchAt hi hm

theorem matchAt_eq_none_of_find {j : Nat} (h : p.find src i = none) (hij : i ≤ j)
    (hj : j ≤ src.size) : p.matchAt src j = none := by
  induction hn : j - i generalizing i with
  | zero =>
      have heq : i = j := by omega
      rw [find_eq] at h
      cases hm : p.matchAt src i with
      | none => exact heq ▸ hm
      | some m =>
          rw [hm] at h
          cases h
  | succ n ih =>
      rw [find_eq] at h
      cases hm : p.matchAt src i with
      | none =>
          rw [hm] at h
          simp only [if_pos (show i < src.size by omega)] at h
          exact ih h (by omega) (by omega)
      | some m =>
          rw [hm] at h
          cases h

/-- A search finds nothing just where the pattern matches nowhere. -/
theorem find_eq_none_iff (hi : i ≤ src.size) :
    p.find src i = none ↔ ∀ j, i ≤ j → j ≤ src.size → p.matchAt src j = none := by
  constructor
  · intro h j hij hj
    exact matchAt_eq_none_of_find h hij hj
  · intro h
    rw [Option.eq_none_iff_forall_ne_some]
    intro m hm
    have hfirst := firstMatch_of_find hi hm
    have hnone := h m.start hfirst.le_start hfirst.start_le
    rw [hfirst.matchAt_eq] at hnone
    cases hnone

/-- A search finds the match at the least offset that has one. -/
theorem find_eq_some_iff (hi : i ≤ src.size) :
    p.find src i = some m ↔ FirstMatch src p i m := by
  constructor
  · exact firstMatch_of_find hi
  · intro h
    cases hfind : p.find src i with
    | none =>
        have hnone := matchAt_eq_none_of_find hfind h.le_start h.start_le
        rw [h.matchAt_eq] at hnone
        cases hnone
    | some m' => rw [(firstMatch_of_find hi hfind).unique h]

end CodeParts.Pattern
