import CodeParts.Proofs.Lexer.Steps
import CodeParts.Proofs.Pattern.Ends

/-!
# The texts that patterns take

`Pattern.ends` says where a pattern can end in a given text. What it has taken on the way is a
text of its own, and which texts these can be does not depend on where they stand:
`Pattern.Takes` is the language of a pattern, in which edges and line ends are empty and a
repetition is any text of its class. Every match takes a text of the language
(`takes_of_mem_ends`).

The converse does not hold, because a repetition of `all` gives nothing back. So `Takes` is for
reading off what a match is made of; that there is a match is a question for `Pattern.Reads`.
-/

namespace CodeParts

namespace Source

variable {src : Source} {i : Nat} {cs : List Char}

/-- What stands at an offset is the slice of its length. -/
theorem slice_of_literalAt (h : src.literalAt cs i = true) :
    src.slice i (i + cs.length) = cs := by
  refine List.ext_getElem? fun k => ?_
  rw [getElem?_slice, Nat.add_sub_cancel_left]
  split
  · next hk => exact literalAt_eq_true.1 h k hk
  · next hk => rw [List.getElem?_eq_none (Nat.le_of_not_lt hk)]

theorem slice_isInfix (src : Source) (a b : Nat) : src.slice a b <:+: src.toList := by
  rw [slice_eq]
  exact (List.take_prefix _ _).isInfix.trans (List.drop_suffix _ _).isInfix

end Source

namespace Pattern

variable {src : Source} {p : Pattern} {ps qs : List Pattern} {i j : Nat} {cs : List Char}

/-! ### Ends go forward -/

theorem le_of_mem_ends (h : j ∈ p.ends src i) : i ≤ j := by
  obtain ⟨d, hd, rfl⟩ := List.mem_map.1 h
  exact le_offset_of_mem_run hd

theorem mem_ends_of_matchAt {m : Match} (h : p.matchAt src i = some m) :
    m.start = i ∧ m.stop ∈ p.ends src i := by
  obtain ⟨d, hd, rfl⟩ := exists_mem_run_of_matchAt h
  exact ⟨rfl, List.mem_map_of_mem hd⟩

theorem mem_ends_chain_append :
    j ∈ (chain (ps ++ qs)).ends src i ↔
      ∃ k, k ∈ (chain ps).ends src i ∧ j ∈ (chain qs).ends src k := by
  rw [ends_chain_append, List.mem_flatMap]

/-- A chain with a literal in it takes what stands before, the literal and what stands behind. -/
theorem mem_ends_chain_literal :
    j ∈ (chain (ps ++ literal cs :: qs)).ends src i ↔
      ∃ k, k ∈ (chain ps).ends src i ∧ src.literalAt cs k = true ∧
        j ∈ (chain qs).ends src (k + cs.length) := by
  rw [mem_ends_chain_append]
  refine exists_congr fun k => and_congr_right fun _ => ?_
  rw [ends_chain_cons, List.mem_flatMap]
  constructor
  · intro h
    obtain ⟨l, hl, hj⟩ := h
    obtain ⟨hlit, rfl⟩ := mem_ends_literal.1 hl
    exact ⟨hlit, hj⟩
  · intro h
    exact ⟨_, mem_ends_literal.2 ⟨h.1, rfl⟩, h.2⟩

/-! ### The language of a pattern -/

/-- The characters are a text that the pattern may take. -/
def Takes : Pattern → List Char → Prop
  | one cls, cs => ∃ ch, cs = [ch] ∧ cls ch = true
  | many cls, cs | all cls, cs => ∀ ch ∈ cs, cls ch = true
  | literal lit, cs => cs = lit
  | throughClosing, cs => ∃ ds, cs = ds ++ [')']
  | seq p q, cs => ∃ xs ys, cs = xs ++ ys ∧ Takes p xs ∧ Takes q ys
  | alt p q, cs => Takes p cs ∨ Takes q cs
  | group _ p, cs => Takes p cs
  | empty, cs | lineStart, cs | lineEnd, cs | wordEdge, cs => cs = []

/-- A pattern that ends where it begins takes nothing. -/
theorem slice_of_mem_singleton (h : j ∈ [i]) : src.slice i j = [] := by
  rw [List.mem_singleton.1 h, Source.slice_self]

/-- What a match takes is a text of its pattern. -/
theorem takes_of_mem_ends (h : j ∈ p.ends src i) : p.Takes (src.slice i j) := by
  induction p generalizing i j with
  | empty => exact slice_of_mem_singleton h
  | lineStart | lineEnd | wordEdge =>
      simp only [ends_lineStart, ends_lineEnd, ends_wordEdge] at h
      split at h
      · exact slice_of_mem_singleton h
      · cases h
  | one cls =>
      rw [ends_one] at h
      split at h
      · next hcls =>
          rw [Source.classAt_eq, Option.any_eq_true] at hcls
          obtain ⟨ch, hch, hcls⟩ := hcls
          rw [List.mem_singleton.1 h, Source.slice_of_charAt (Nat.lt_succ_self i) hch,
            Source.slice_self]
          exact ⟨ch, rfl, hcls⟩
      · cases h
  | many cls =>
      rw [ends_many, List.mem_reverse, List.mem_range'_1] at h
      exact forall_mem_slice_of_classAt fun k hik hkj => classAt_of_le_of_lt_runEnd hik (by omega)
  | all cls =>
      rw [ends_all, List.mem_singleton] at h
      exact forall_mem_slice_of_classAt fun k hik hkj => classAt_of_le_of_lt_runEnd hik (h ▸ hkj)
  | literal lit =>
      obtain ⟨hlit, rfl⟩ := mem_ends_literal.1 h
      exact Source.slice_of_literalAt hlit
  | throughClosing =>
      obtain ⟨d, hd, rfl⟩ := List.mem_map.1 h
      simp only [run, List.mem_map, Option.mem_toList] at hd
      obtain ⟨k, hk, rfl⟩ := hd
      rw [src.afterClosing_eq, Option.map_eq_some_iff] at hk
      obtain ⟨l, hl, rfl⟩ := hk
      obtain ⟨hil, -, hchar, -⟩ := firstIn_eq_some_iff.1 hl
      refine ⟨src.slice i l, ?_⟩
      show src.slice i (l + 1) = _
      rw [← Source.slice_append_slice src hil (Nat.le_succ l),
        Source.slice_of_charAt (Nat.lt_succ_self l) (Source.charIs_eq_true.1 hchar),
        Source.slice_self]
  | seq p q ihp ihq =>
      obtain ⟨k, hk, hj⟩ := mem_ends_seq.1 h
      refine ⟨_, _, (Source.slice_append_slice src (le_of_mem_ends hk) (le_of_mem_ends hj)).symm,
        ihp hk, ihq hj⟩
  | alt p q ihp ihq =>
      rw [ends_alt, List.mem_append] at h
      rcases h with h | h
      · exact .inl (ihp h)
      · exact .inr (ihq h)
  | group label p ih =>
      rw [ends_group] at h
      exact ih h

end Pattern

end CodeParts
