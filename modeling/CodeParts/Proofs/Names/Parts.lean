import CodeParts.Names.Index
import CodeParts.Proofs.Names.Tally
import CodeParts.Proofs.Pattern.Lines
import CodeParts.Proofs.Split.Run

/-!
# Names in the parts of a text

An identifier does not reach across a line break, and no newline is a word character. So
the identifiers of a text are those of its parts, one after the other
(`identifiers_of_split`), and their counts add up (`countOf_of_split`).
-/

namespace CodeParts.Names

open Pattern Construct Split

variable {text name : String} {policy : Policy} {ps : List Part} {xs ys : List String}

/-! ### Identifiers -/

theorem isNameStart_ne_newline {ch : Char} (h : isNameStart ch = true) : ch ≠ '\n' := by
  rintro rfl
  cases h

theorem only_identifierPattern : identifierPattern.Only (· ≠ '\n') := by
  refine ⟨trivial, ⟨fun ch => isNameStart_ne_newline, ?_⟩, trivial⟩
  rintro _ h rfl
  cases h

theorem nullable_identifierPattern : identifierPattern.nullable = false := rfl

theorem identifiers_append {xs : List Char} (h : WholeLines xs) (ys : List Char) :
    identifiers (.ofList (xs ++ ys)) = identifiers (.ofList xs) ++ identifiers (.ofList ys) := by
  rw [identifiers, captures_append only_identifierPattern nullable_identifierPattern "name" h,
    List.filter_append]
  rfl

theorem identifiers_nil : identifiers (.ofList []) = [] := by
  have h := identifiers_append wholeLines_nil []
  exact List.self_eq_append_left.1 h

/-- The identifiers of a text are those of its parts, one after the other. -/
theorem identifiers_of_split (h : split text policy = .ok ps) :
    identifiers (Source.ofString text) =
      ps.flatMap fun p => identifiers (Source.ofString p.text) := by
  obtain ⟨-, rfl⟩ := split_eq_ok_iff.1 h
  let src := Source.ofString text
  have hparts : (assemble src (boundaries src policy)).flatMap
      (fun p => identifiers (Source.ofString p.text)) =
        identifiers (.ofList (src.slice 0 src.size)) := by
    refine flatMap_assemble (f := fun a b => identifiers (.ofList (src.slice a b))) ?_ ?_ ?_
    · intro p hp
      rw [(partOf_of_mem_assemble hp).text_eq, Source.ofString_ofList]
    · rw [Source.slice_self, identifiers_nil]
    · intro a b hab hb hbreak
      rcases hbreak with hstart | rfl
      · rw [← identifiers_append (Source.wholeLines_slice (Nat.le_of_lt hab) hb hstart),
          src.slice_append_slice (Nat.le_of_lt hab) hb]
      · rw [Source.slice_self, identifiers_nil, List.append_nil]
  rw [hparts, Source.slice_zero_size]
  rfl

/-! ### Counts -/

theorem countOf_identifierCounts (src : Source) (name : String) :
    countOf (identifierCounts src) name = (identifiers src).count name :=
  countOf_tally _ name

theorem length_tally_le (h : xs ⊆ ys) : (tally xs).length ≤ (tally ys).length := by
  have hsubset : distinct xs ⊆ distinct ys := fun name hname =>
    mem_distinct.2 (h (mem_distinct.1 hname))
  have := (nodup_distinct xs).length_le_of_subset hsubset
  rwa [distinct, distinct, List.length_map, List.length_map] at this

/-- The counts of every identifier in the parts of a text add up to that in the text, and the
index of the text has as many identifiers as there are names that some part counts. -/
theorem countOf_of_split (h : split text policy = .ok ps) :
    (∀ name, countOf (identifierCounts (Source.ofString text)) name =
      (ps.map fun p => countOf (identifierCounts (Source.ofString p.text)) name).foldr (· + ·) 0) ∧
    (∀ n, (identifierCounts (Source.ofString text)).length ≤ n → ∀ name,
      countOf (topIdentifiers (Source.ofString text) n) name =
        (ps.map fun p => countOf (topIdentifiers (Source.ofString p.text) n) name).foldr
          (· + ·) 0) ∧
    ∃ names : List String, names.Nodup ∧
      (∀ name, name ∈ names ↔
        ∃ p ∈ ps, 0 < countOf (identifierCounts (Source.ofString p.text)) name) ∧
      (Index.ofSource (Source.ofString text)).identifiers.total = names.length := by
  have hall := identifiers_of_split h
  refine ⟨fun name => ?_, fun n hn name => ?_, ?_⟩
  · simp only [countOf_identifierCounts]
    rw [hall, count_flatMap_eq_foldr]
  · have hpart (p : Part) (hp : p ∈ ps) : countOf (topIdentifiers (Source.ofString p.text) n) name =
        (identifiers (Source.ofString p.text)).count name := by
      refine countOf_rank (Nat.le_trans (length_tally_le fun name hname => ?_) hn) name
      rw [hall, List.mem_flatMap]
      exact ⟨p, hp, hname⟩
    rw [List.map_congr_left hpart, ← count_flatMap_eq_foldr, ← hall]
    exact countOf_rank hn name
  · refine ⟨distinct ((identifierCounts (Source.ofString text)).map Prod.fst), nodup_distinct _,
      fun name => ?_, rfl⟩
    simp only [countOf_identifierCounts, List.count_pos_iff]
    rw [mem_distinct, identifierCounts, mem_map_fst_tally, hall, List.mem_flatMap]

/-- Three lines that share a name, with a dollar sign and a letter that is no part of a name
next to the cuts. -/
theorem countOf_of_split_at_dollar :
    ∃ ps, split "x$\né x$\nx" ⟨⟨80, 1⟩, .strict, 0.3⟩ = .ok ps ∧ ps.length = 3 ∧
      countOf (identifierCounts (Source.ofString "x$\né x$\nx")) "x" = 3 ∧
      (ps.map fun p => countOf (identifierCounts (Source.ofString p.text)) "x").foldr
        (· + ·) 0 = 3 := by
  have hvalid : Policy.Valid ⟨⟨80, 1⟩, .strict, 0.3⟩ :=
    ⟨by decide, by decide, by decide, by decide⟩
  have hps := split_of_valid hvalid "x$\né x$\nx"
  have hcount : countOf (identifierCounts (Source.ofString "x$\né x$\nx")) "x" = 3 :=
    (countOf_identifierCounts _ _).trans (by decide +kernel)
  exact ⟨_, hps, by decide +kernel, hcount, ((countOf_of_split hps).1 "x").symm.trans hcount⟩

end CodeParts.Names
