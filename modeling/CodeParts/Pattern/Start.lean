import CodeParts.Pattern

/-!
# Where a match can begin

Most offsets of a text can be ruled out by one look: a pattern may match only where a line
begins, or only before a character of some class. `Pattern.start` reads this off a pattern,
and `admits_start` says that it rules out no match.
-/

namespace CodeParts.Pattern

/-- The pattern may match without taking a character. -/
def nullable : Pattern → Bool
  | one _ => false
  | literal cs => cs.isEmpty
  | throughClosing => false
  | seq p q => nullable p && nullable q
  | alt p q => nullable p || nullable q
  | group _ p => nullable p
  | _ => true

/-- Classes to one of which the first character belongs of every match that takes one. -/
def firstClasses : Pattern → List (Char → Bool)
  | one cls => [cls]
  | many cls => [cls]
  | all cls => [cls]
  | literal (c :: _) => [(· == c)]
  | throughClosing => [fun _ => true]
  | seq p q => if nullable p then firstClasses p ++ firstClasses q else firstClasses p
  | alt p q => firstClasses p ++ firstClasses q
  | group _ p => firstClasses p
  | _ => []

/-- Every match begins where a line does. -/
def beginsLine : Pattern → Bool
  | lineStart => true
  | seq p _ => beginsLine p
  | group _ p => beginsLine p
  | _ => false

/-- What is known of the beginning of all matches of a pattern. -/
structure Start where
  /-- They begin where a line does. -/
  atLineStart : Bool
  /-- The classes of their first character, unless there may be none. -/
  classes? : Option (List (Char → Bool))

/-- What is known of the beginning of the matches of a pattern. -/
def start (p : Pattern) : Start :=
  ⟨p.beginsLine, if p.nullable then none else some p.firstClasses⟩

/-- A match may begin at offset `i`. -/
def Start.admits (s : Start) (src : Source) (i : Nat) : Bool :=
  (!s.atLineStart || src.lineStartsAt i) &&
    match s.classes? with
    | some classes => src.classAt (fun c => classes.any fun cls => cls c) i
    | none => true

theorem classAt_of_lt_runEnd {src : Source} {cls : Char → Bool} {i : Nat}
    (h : i < src.runEnd cls i) : src.classAt cls i = true := by
  cases hcls : src.classAt cls i with
  | true => rfl
  | false =>
      exfalso
      unfold Source.runEnd at h
      by_cases hi : i < src.size
      · rw [firstIn_eq_some_iff.2
          ⟨Nat.le_refl i, hi, by simp [hcls], fun j hij hji => by omega⟩] at h
        simp at h
      · rw [firstIn_eq_none_iff.2 fun j hij hji => by omega] at h
        simp only [Option.getD_none] at h
        omega

theorem le_runEnd (src : Source) (cls : Char → Bool) (i : Nat) : i ≤ src.runEnd cls i := by
  unfold Source.runEnd
  cases hf : firstIn (fun j => !src.classAt cls j) i src.size with
  | some j => exact (firstIn_eq_some_iff.1 hf).1
  | none => exact Nat.le_max_left _ _

theorem classAt_any {src : Source} {classes : List (Char → Bool)} {i : Nat} :
    src.classAt (fun c => classes.any fun cls => cls c) i = true ↔
      ∃ cls ∈ classes, src.classAt cls i = true := by
  unfold Source.classAt
  split <;> simp

/-- A match takes no character, or its first one belongs to one of the classes. -/
theorem classAt_firstClasses {src : Source} {p : Pattern} {c d : Cursor} (h : d ∈ p.run src c) :
    (d.offset = c.offset ∧ p.nullable = true) ∨
      ∃ cls ∈ p.firstClasses, src.classAt cls c.offset = true := by
  induction p generalizing c d with
  | empty =>
      simp only [run, List.mem_singleton] at h
      exact .inl ⟨h ▸ rfl, rfl⟩
  | one cls =>
      simp only [run] at h
      split at h
      · next hcls => exact .inr ⟨cls, List.mem_singleton_self _, hcls⟩
      · cases h
  | many cls =>
      simp only [run, List.mem_map, List.mem_reverse, List.mem_range'_1] at h
      obtain ⟨i, hi, rfl⟩ := h
      rcases Nat.eq_or_lt_of_le hi.1 with heq | hlt
      · exact .inl ⟨heq.symm, rfl⟩
      · exact .inr ⟨cls, List.mem_singleton_self _, classAt_of_lt_runEnd (by omega)⟩
  | all cls =>
      simp only [run, List.mem_singleton] at h
      subst h
      by_cases hlt : c.offset < src.runEnd cls c.offset
      · exact .inr ⟨cls, List.mem_singleton_self _, classAt_of_lt_runEnd hlt⟩
      · exact .inl ⟨Nat.le_antisymm (Nat.le_of_not_lt hlt) (le_runEnd src cls c.offset), rfl⟩
  | literal cs =>
      simp only [run] at h
      split at h
      · next hlit =>
        cases cs with
        | nil =>
            simp only [List.mem_singleton] at h
            subst h
            exact .inl ⟨rfl, rfl⟩
        | cons x cs =>
            simp only [Source.literalAt, Bool.and_eq_true] at hlit
            exact .inr ⟨_, List.mem_singleton_self _, hlit.1⟩
      · cases h
  | throughClosing =>
      simp only [run, List.mem_map, Option.mem_toList, src.afterClosing_eq,
        Option.map_eq_some_iff] at h
      obtain ⟨_, ⟨i, hi, -⟩, -⟩ := h
      have := firstIn_eq_some_iff.1 hi
      have hlt : c.offset < src.chars.size := Nat.lt_of_le_of_lt this.1 this.2.1
      exact .inr ⟨_, List.mem_singleton_self _, by simp [Source.classAt, hlt]⟩
  | seq p q ihp ihq =>
      simp only [run, List.mem_flatMap] at h
      obtain ⟨e, he, hd⟩ := h
      rcases ihp he with ⟨heq, hp⟩ | ⟨cls, hmem, hcls⟩
      · rw [firstClasses, if_pos hp, ← heq]
        rcases ihq hd with ⟨hde, hq⟩ | ⟨cls, hmem, hcls⟩
        · exact .inl ⟨hde, by simp [nullable, hp, hq]⟩
        · exact .inr ⟨cls, List.mem_append_right _ hmem, hcls⟩
      · refine .inr ⟨cls, ?_, hcls⟩
        unfold firstClasses
        split
        · exact List.mem_append_left _ hmem
        · exact hmem
  | alt p q ihp ihq =>
      simp only [run, List.mem_append] at h
      rcases h with h | h
      · rcases ihp h with ⟨heq, hp⟩ | ⟨cls, hmem, hcls⟩
        · exact .inl ⟨heq, by simp [nullable, hp]⟩
        · exact .inr ⟨cls, List.mem_append_left _ hmem, hcls⟩
      · rcases ihq h with ⟨heq, hq⟩ | ⟨cls, hmem, hcls⟩
        · exact .inl ⟨heq, by simp [nullable, hq]⟩
        · exact .inr ⟨cls, List.mem_append_right _ hmem, hcls⟩
  | group label p ih =>
      simp only [run, List.mem_map] at h
      obtain ⟨e, he, rfl⟩ := h
      exact ih (d := e) he
  | lineStart =>
      simp only [run] at h
      split at h <;> simp_all [nullable]
  | lineEnd =>
      simp only [run] at h
      split at h <;> simp_all [nullable]
  | wordEdge =>
      simp only [run] at h
      split at h <;> simp_all [nullable]

theorem lineStartsAt_of_beginsLine {src : Source} {p : Pattern} {c d : Cursor}
    (hp : p.beginsLine = true) (h : d ∈ p.run src c) : src.lineStartsAt c.offset = true := by
  induction p generalizing c d with
  | lineStart =>
      simp only [run] at h
      split at h
      · assumption
      · cases h
  | seq p q ihp _ =>
      simp only [run, List.mem_flatMap] at h
      obtain ⟨e, he, -⟩ := h
      exact ihp hp he
  | group label p ih =>
      simp only [run, List.mem_map] at h
      obtain ⟨e, he, -⟩ := h
      exact ih hp he
  | _ => cases hp

/-- The beginning of a pattern admits every match. -/
theorem admits_start {src : Source} {p : Pattern} {c d : Cursor} (h : d ∈ p.run src c) :
    p.start.admits src c.offset = true := by
  simp only [Start.admits, start, Bool.and_eq_true, Bool.or_eq_true, Bool.not_eq_true']
  constructor
  · cases hp : p.beginsLine with
    | false => exact .inl rfl
    | true => exact .inr (lineStartsAt_of_beginsLine hp h)
  · cases hp : p.nullable with
    | true => rfl
    | false =>
        rcases classAt_firstClasses h with ⟨-, hnull⟩ | hcls
        · rw [hp] at hnull
          cases hnull
        · exact classAt_any.2 hcls

end CodeParts.Pattern
