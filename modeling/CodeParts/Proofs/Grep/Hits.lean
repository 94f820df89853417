import CodeParts.Grep
import CodeParts.Proofs.Source.LineSpans
import Mathlib.Data.List.Chain

/-!
# Hits of a literal

A search goes through a text once and never looks back. What it finds are the greedy
occurrences of the literal (`GreedyFrom`): the first one there is, then the first one that
begins behind the one before, and so on until there is none. `greedyFrom_spacedOffsets` says
this of the search, by induction on its steps: it stands at an offset where it takes a hit
(`GreedyFrom.take`) or at one that it passes over (`GreedyFrom.pass`).

What is shown of the hits are the first few, each with the number of its line
(`greedy_hits_of_search`).
-/

namespace CodeParts

/-! ### Searches without overlaps -/

variable {p : Nat → Bool} {occurs : Nat → Prop} {width n i j : Nat} {os : List Nat}

theorem spacedOffsets_of_le (h : n ≤ i) : spacedOffsets p width n i = [] := by
  rw [spacedOffsets, if_neg (Nat.not_lt.2 h)]

theorem bounds_of_mem_spacedOffsets (h : j ∈ spacedOffsets p width n i) : i ≤ j ∧ j < n := by
  fun_induction spacedOffsets p width n i with
  | case1 i hlt hp ih =>
      rw [List.mem_cons] at h
      rcases h with rfl | h
      · exact ⟨Nat.le_refl _, hlt⟩
      · have := ih h
        omega
  | case2 i hlt hp ih =>
      have := ih h
      omega
  | case3 i hge => cases h

theorem pairwise_spacedOffsets (p : Nat → Bool) (width n i : Nat) :
    (spacedOffsets p width n i).Pairwise (· < ·) := by
  fun_induction spacedOffsets p width n i with
  | case1 i hlt hp ih =>
      refine .cons (fun j hj => ?_) ih
      have := (bounds_of_mem_spacedOffsets hj).1
      omega
  | case2 i hlt hp ih => exact ih
  | case3 i hge => exact .nil

/-- What holds everywhere and takes no room is found at every offset. -/
theorem spacedOffsets_of_forall (hp : ∀ j, p j = true) :
    spacedOffsets p 0 n i = List.range' i (n - i) := by
  fun_induction spacedOffsets p 0 n i with
  | case1 i hlt hp ih =>
      rw [ih, show n - i = n - (i + max 1 0) + 1 by omega, List.range'_succ]
      rfl
  | case2 i hlt hno ih => exact absurd (hp i) hno
  | case3 i hge => rw [show n - i = 0 by omega, List.range'_zero]

/-! ### Greedy occurrences -/

/-- The offsets are the greedy occurrences from `i` on of something that takes `width`
characters: it occurs at each of them, at none before the first, between one that has been
passed and the next, or behind the last. -/
structure GreedyFrom (occurs : Nat → Prop) (width i : Nat) (os : List Nat) : Prop where
  le_of_mem : ∀ o ∈ os, i ≤ o
  occurs_of_mem : ∀ o ∈ os, occurs o
  before_first : ∀ j, i ≤ j → (∀ o ∈ os.head?, j < o) → ¬ occurs j
  apart : os.IsChain fun a b => a + width ≤ b ∧ ∀ j, a + width ≤ j → j < b → ¬ occurs j
  behind_last : ∀ o ∈ os.getLast?, ∀ j, o + width ≤ j → ¬ occurs j

namespace GreedyFrom

theorem nil (h : ∀ j, i ≤ j → ¬ occurs j) : GreedyFrom occurs width i [] where
  le_of_mem := nofun
  occurs_of_mem := nofun
  before_first := fun j hj _ => h j hj
  apart := .nil
  behind_last := nofun

/-- An occurrence is taken, and the search goes on behind it. -/
theorem take (hi : occurs i) (h : GreedyFrom occurs width (i + width) os) :
    GreedyFrom occurs width i (i :: os) := by
  constructor
  case le_of_mem =>
    intro o ho
    rcases List.mem_cons.1 ho with rfl | ho
    · exact Nat.le_refl _
    · exact Nat.le_of_add_right_le (h.le_of_mem o ho)
  case occurs_of_mem =>
    intro o ho
    rcases List.mem_cons.1 ho with rfl | ho
    · exact hi
    · exact h.occurs_of_mem o ho
  case before_first =>
    intro j hj hfirst
    exact absurd (hfirst i rfl) (Nat.not_lt.2 hj)
  case apart =>
    refine List.isChain_cons.2 ⟨fun b hb => ⟨h.le_of_mem b (List.mem_of_mem_head? hb), ?_⟩, h.apart⟩
    intro j hj hjb
    refine h.before_first j hj fun o ho => ?_
    rwa [Option.mem_unique ho hb]
  case behind_last =>
    intro o ho j hj
    cases os with
    | nil =>
        obtain rfl : i = o := Option.some.inj ho
        exact h.before_first j hj nofun
    | cons b os =>
        rw [List.getLast?_cons_cons] at ho
        exact h.behind_last o ho j hj

/-- An offset where nothing occurs is passed over. -/
theorem pass (hi : ¬ occurs i) (h : GreedyFrom occurs width (i + 1) os) :
    GreedyFrom occurs width i os where
  le_of_mem := fun o ho => Nat.le_of_succ_le (h.le_of_mem o ho)
  occurs_of_mem := h.occurs_of_mem
  before_first := by
    intro j hj hfirst
    rcases Nat.eq_or_lt_of_le hj with rfl | hlt
    · exact hi
    · exact h.before_first j hlt hfirst
  apart := h.apart
  behind_last := h.behind_last

end GreedyFrom

/-- A search finds the greedy occurrences. -/
theorem greedyFrom_spacedOffsets (hoccurs : ∀ j, p j = true ↔ occurs j)
    (hbound : ∀ j, occurs j → j < n) (hwidth : 0 < width) :
    GreedyFrom occurs width i (spacedOffsets p width n i) := by
  fun_induction spacedOffsets p width n i with
  | case1 i hlt hp ih =>
      rw [show max 1 width = width by omega] at ih ⊢
      exact ih.take ((hoccurs i).1 hp)
  | case2 i hlt hp ih => exact ih.pass fun hi => hp ((hoccurs i).2 hi)
  | case3 i hge =>
      refine .nil fun j hj hoccurs => ?_
      have := hbound j hoccurs
      omega

namespace Source

variable {src : Source} {lit : List Char}

/-- A literal stands at an offset if what is left of the text from there begins with it. -/
theorem literalAt_iff_prefix_drop : src.literalAt lit i = true ↔ lit <+: src.toList.drop i := by
  rw [literalAt_eq_true, List.prefix_iff_getElem?]
  refine forall₂_congr fun k hk => ?_
  rw [List.getElem?_drop, List.getElem?_eq_getElem hk, ← charAt_eq]
  rfl

theorem lt_size_of_mem_hits (h : i ∈ src.hits lit) : i < src.size := by
  rw [hits_eq] at h
  exact (bounds_of_mem_spacedOffsets h).2

theorem pairwise_hits (src : Source) (lit : List Char) : (src.hits lit).Pairwise (· < ·) := by
  rw [hits_eq]
  exact pairwise_spacedOffsets _ _ _ _

theorem greedyFrom_hits (src : Source) (hne : lit ≠ []) :
    GreedyFrom (fun i => lit <+: src.toList.drop i) lit.length 0 (src.hits lit) := by
  have hpos : 0 < lit.length := List.length_pos_iff.2 hne
  rw [hits_eq]
  refine greedyFrom_spacedOffsets (fun i => literalAt_iff_prefix_drop) (fun i hi => ?_) hpos
  have := add_length_le_size (literalAt_iff_prefix_drop.2 hi) hne
  omega

theorem hits_nil (src : Source) : src.hits [] = List.range src.size := by
  rw [hits_eq, List.range_eq_range']
  exact spacedOffsets_of_forall fun _ => rfl

end Source

namespace Grep

variable {text needle : String} {scope : Scope}

/-! ### Searches -/

/-- What a search shows of its hits. -/
def resultOf (src : Source) (hits : List Nat) (scope : Scope) : Result :=
  ⟨hits.length, (hits.take scope.maxMatches).map (windowAt src scope.contextLines)⟩

theorem search_of_pos (h : 0 < scope.maxMatches) :
    search text needle scope =
      .ok (resultOf (Source.ofString text) ((Source.ofString text).hits needle.toList) scope) := by
  rw [search, if_neg (Nat.ne_of_gt h)]
  rfl

theorem map_hitLine_resultOf (src : Source) (hits : List Nat) (scope : Scope) :
    (resultOf src hits scope).windows.map Window.hitLine =
      (hits.take scope.maxMatches).map fun i => src.lineOf i + 1 :=
  List.map_map

/-- The hits of a needle are its greedy occurrences, or all offsets if it is empty. A search
counts all of them and shows the first, each on the line that its offset belongs to. -/
theorem greedy_hits_of_search (text needle : String) {scope : Scope}
    (h : 0 < scope.maxMatches) :
    ((Source.ofString text).hits needle.toList).Pairwise (· < ·) ∧
      (needle ≠ "" → GreedyFrom (fun i => needle.toList <+: text.toList.drop i) needle.length 0
        ((Source.ofString text).hits needle.toList)) ∧
      (needle = "" → (Source.ofString text).hits needle.toList = List.range text.length) ∧
      ∃ r, search text needle scope = .ok r ∧
        r.hitCount = ((Source.ofString text).hits needle.toList).length ∧
        r.windows.map Window.hitLine =
          (((Source.ofString text).hits needle.toList).take scope.maxMatches).map fun i =>
            1 + (text.toList.take i).count '\n' := by
  refine ⟨Source.pairwise_hits _ _, fun hne => ?_, ?_, _, search_of_pos h, rfl, ?_⟩
  · rw [← String.length_toList]
    exact Source.greedyFrom_hits (.ofString text) fun hnil => hne (String.toList_eq_nil_iff.1 hnil)
  · rintro rfl
    rw [← Source.size_ofString]
    exact Source.hits_nil _
  · rw [map_hitLine_resultOf]
    refine List.map_congr_left fun i _ => ?_
    rw [Source.lineOf_eq, Nat.add_comm]
    rfl

/-- A needle that overlaps itself, behind a character of two bytes and once across a line. -/
theorem greedy_hits_of_search_overlapping :
    0 < 2 ∧ "a\na" ≠ "" ∧
      (Source.ofString "éa\na\na a\na").hits "a\na".toList = [1, 7] ∧
      GreedyFrom (fun i => "a\na".toList <+: "éa\na\na a\na".toList.drop i) "a\na".length 0 [1, 7] ∧
      ∃ r, search "éa\na\na a\na" "a\na" ⟨0, 2⟩ = .ok r ∧ r.hitCount = 2 ∧
        r.windows.map Window.hitLine = [1, 3] := by
  have hhits : (Source.ofString "éa\na\na a\na").hits "a\na".toList = [1, 7] := by decide +kernel
  have hne : "a\na" ≠ "" := by decide
  obtain ⟨-, hgreedy, -, r, hr, hcount, hlines⟩ :=
    greedy_hits_of_search "éa\na\na a\na" "a\na" (show 0 < (⟨0, 2⟩ : Scope).maxMatches by decide)
  rw [hhits] at hgreedy hcount hlines
  exact ⟨by decide, hne, hhits, hgreedy hne, r, hr, hcount, hlines⟩

end Grep

end CodeParts
