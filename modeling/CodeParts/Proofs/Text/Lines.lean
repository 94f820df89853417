import CodeParts.Proofs.Digits
import CodeParts.Proofs.Names.Declared
import Mathlib.Data.List.DropRight
import Mathlib.Data.List.Induction

/-!
# Trimming a text of lines

A text that is made of lines, each with a newline behind it, and is then trimmed at its end loses
the last newline and the blanks before it. So it has the same lines, but for the last one, which
is trimmed (`linesOf_trimEnd`); and that one stays as it is just if it ends in something visible
(`trimmedEnd_eq_self_iff`).
-/

namespace CodeParts

open Construct Names

variable {cs ds last : List Char} {before : List (List Char)} {s t sep : String} {c : Char}

/-! ### Trimming -/

theorem trimEnd_eq_rdropWhile (cs : List Char) : trimEnd cs = cs.rdropWhile isBlank := rfl

theorem trimEnd_append_of_allBlank (h : allBlank ds = true) : trimEnd (cs ++ ds) = trimEnd cs := by
  rw [trimEnd, trimEnd, List.reverse_append, List.dropWhile_append_of_pos]
  exact fun c hc => List.all_eq_true.1 h c (List.mem_reverse.1 hc)

theorem trimEnd_append_of_visible (h : allBlank ds = false) :
    trimEnd (cs ++ ds) = cs ++ trimEnd ds := by
  simp only [trimEnd_eq_rdropWhile]
  induction ds using List.reverseRecOn with
  | nil => cases h
  | append_singleton ds c ih =>
      rw [← List.append_assoc]
      by_cases hc : isBlank c = true
      · rw [allBlank, List.all_append, List.all_cons, hc, List.all_nil, Bool.true_and,
          Bool.and_true] at h
        rw [List.rdropWhile_concat_pos _ _ _ hc, List.rdropWhile_concat_pos _ _ _ hc, ih h]
      · rw [List.rdropWhile_concat_neg _ _ _ hc, List.rdropWhile_concat_neg _ _ _ hc,
          List.append_assoc]

theorem mem_of_mem_trimEnd (h : c ∈ trimEnd cs) : c ∈ cs :=
  (List.rdropWhile_prefix isBlank cs).mem h

/-! ### Texts of lines -/

theorem intercalate_concat (sep : List Char) (before : List (List Char)) (last : List Char) :
    sep.intercalate (before ++ [last]) = before.flatMap (· ++ sep) ++ last := by
  induction before with
  | nil => simp
  | cons l before ih =>
      obtain ⟨l', rest, hrest⟩ := List.exists_cons_of_ne_nil
        (List.append_ne_nil_of_right_ne_nil before (List.cons_ne_nil last []))
      rw [List.cons_append, List.flatMap_cons, hrest, List.intercalate_cons_cons, ← hrest, ih]
      simp only [List.append_assoc]

/-- When lines that each end in a newline are trimmed together, then the last one is trimmed. -/
theorem splitOn_trimEnd (hno : ∀ l ∈ before ++ [last], '\n' ∉ l) (h : allBlank last = false) :
    (trimEnd ((before ++ [last]).flatMap (· ++ ['\n']))).splitOn '\n' =
      before ++ [trimEnd last] := by
  have htrim : trimEnd ((before ++ [last]).flatMap (· ++ ['\n'])) =
      ['\n'].intercalate (before ++ [trimEnd last]) := by
    calc trimEnd ((before ++ [last]).flatMap (· ++ ['\n']))
        = trimEnd (before.flatMap (· ++ ['\n']) ++ last ++ ['\n']) := by
          rw [List.flatMap_append, List.flatMap_singleton, List.append_assoc]
      _ = before.flatMap (· ++ ['\n']) ++ trimEnd last := by
          rw [trimEnd_append_of_allBlank rfl, trimEnd_append_of_visible h]
      _ = ['\n'].intercalate (before ++ [trimEnd last]) := (intercalate_concat _ _ _).symm
  rw [htrim, List.splitOn_intercalate]
  · intro l hl
    rw [List.mem_append, List.mem_singleton] at hl
    rcases hl with hl | rfl
    · exact hno l (List.mem_append_left _ hl)
    · exact fun hmem => hno last List.mem_concat_self (mem_of_mem_trimEnd hmem)
  · exact List.append_ne_nil_of_right_ne_nil _ (List.cons_ne_nil _ _)

/-- A text without its newlines, in the pieces between them. -/
def linesOf (text : String) : List String := (text.toList.splitOn '\n').map String.ofList

/-- The text without blanks at its end. -/
def trimmedEnd (s : String) : String := String.ofList (trimEnd s.toList)

/-- The text has no newline. -/
def OneLine (s : String) : Prop := '\n' ∉ s.toList

instance (s : String) : Decidable (OneLine s) := inferInstanceAs (Decidable (¬ _))

@[simp]
theorem oneLine_append : OneLine (s ++ t) ↔ OneLine s ∧ OneLine t := by
  rw [OneLine, String.toList_append, List.mem_append, not_or, OneLine, OneLine]

@[simp]
theorem oneLine_toString (n : Nat) : OneLine (toString n) := by
  rw [OneLine, Nat.toString_eq_ofList_toDigits, String.toList_ofList]
  exact fun h => absurd (Digits.isDigit_of_mem_toDigits h) (by decide)

theorem oneLine_intercalate {ss : List String} (hsep : OneLine sep) (h : ∀ s ∈ ss, OneLine s) :
    OneLine (sep.intercalate ss) := by
  rcases List.eq_nil_or_concat' ss with rfl | ⟨before, last, rfl⟩
  · exact List.not_mem_nil
  · rw [OneLine, String.toList_intercalate, List.map_append, List.map_singleton, intercalate_concat,
      List.mem_append, List.mem_flatMap]
    rintro (⟨_, hl, hmem⟩ | hmem)
    · obtain ⟨s, hs, rfl⟩ := List.mem_map.1 hl
      exact (List.mem_append.1 hmem).elim (h s (List.mem_append_left _ hs)) hsep
    · exact h last List.mem_concat_self hmem

/-! ### What stands at the end of a text -/

/-- The text ends in a character that is not blank. -/
def EndsVisibly (s : String) : Prop := ∃ c, s.toList.getLast? = some c ∧ isBlank c = false

instance (s : String) : Decidable (EndsVisibly s) :=
  decidable_of_iff (s.toList.getLast?.any (fun c => !isBlank c) = true)
    (by simp [EndsVisibly, Option.any_eq_true])

namespace EndsVisibly

theorem append (h : EndsVisibly t) (s : String) : EndsVisibly (s ++ t) := by
  obtain ⟨c, hc, hblank⟩ := h
  refine ⟨c, ?_, hblank⟩
  rw [String.toList_append, List.getLast?_append, hc, Option.some_or]

theorem intercalate {ss : List String} (h : EndsVisibly t) (sep : String) :
    EndsVisibly (sep.intercalate (ss ++ [t])) := by
  obtain ⟨c, hc, hblank⟩ := h
  refine ⟨c, ?_, hblank⟩
  rw [String.toList_intercalate, List.map_append, List.map_singleton, intercalate_concat,
    List.getLast?_append, hc, Option.some_or]

theorem not_allBlank (h : EndsVisibly s) : allBlank s.toList = false := by
  obtain ⟨c, hc, hblank⟩ := h
  exact List.all_eq_false.2 ⟨c, List.mem_of_getLast? hc, by rw [hblank]; decide⟩

end EndsVisibly

theorem endsVisibly_toString (n : Nat) : EndsVisibly (toString n) := by
  have hne : Nat.toDigits 10 n ≠ [] := Nat.toDigits_ne_nil
  have hdigit := Digits.isDigit_of_mem_toDigits (List.getLast_mem hne)
  refine ⟨(Nat.toDigits 10 n).getLast hne, ?_, not_isBlank_of_isNameChar ?_⟩
  · rw [Nat.toString_eq_ofList_toDigits, String.toList_ofList, List.getLast?_eq_some_getLast hne]
  · rw [isNameChar, hdigit, Bool.or_true]

/-- Trimming leaves just those texts alone that end visibly, if they are not blank. -/
theorem trimmedEnd_eq_self_iff (h : allBlank s.toList = false) :
    trimmedEnd s = s ↔ EndsVisibly s := by
  have hne : s.toList ≠ [] := by
    intro hnil
    rw [hnil] at h
    cases h
  rw [trimmedEnd, ← String.toList_inj, String.toList_ofList, trimEnd_eq_rdropWhile,
    List.rdropWhile_eq_self_iff, EndsVisibly, List.getLast?_eq_some_getLast hne]
  simp [hne]

/-- The lines of a text that is made of lines, each with its newline, and then trimmed. -/
theorem linesOf_trimEnd {lines : List String} {last : String}
    (hno : ∀ line ∈ lines ++ [last], OneLine line) (h : allBlank last.toList = false) :
    linesOf (String.ofList (trimEnd
        (String.join ((lines ++ [last]).map (· ++ "\n"))).toList)) =
      lines ++ [trimmedEnd last] := by
  have hjoin : (String.join ((lines ++ [last]).map (· ++ "\n"))).toList =
      (lines.map String.toList ++ [last.toList]).flatMap (· ++ ['\n']) := by
    rw [String.toList_join, List.flatMap_map, ← List.map_singleton (f := String.toList),
      ← List.map_append, List.flatMap_map]
    exact List.flatMap_congr fun line _ => String.toList_append
  have hno' : ∀ l ∈ lines.map String.toList ++ [last.toList], '\n' ∉ l := by
    intro l hl
    rw [← List.map_singleton, ← List.map_append] at hl
    obtain ⟨line, hline, rfl⟩ := List.mem_map.1 hl
    exact hno line hline
  rw [linesOf, String.toList_ofList, hjoin, splitOn_trimEnd hno' h, List.map_append, List.map_map]
  simp [trimmedEnd]

end CodeParts
