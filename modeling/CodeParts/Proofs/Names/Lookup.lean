import CodeParts.Proofs.Names.Arguments
import Mathlib.Data.Set.Card

/-!
# Looking a name up in an index

A list of an index is cut after so many names, but it still has the total of all of them. What
is left is the least of them in increasing order (`KeepsFirst`), and that is the order in which
a lookup compares. So halving finds exactly what was kept (`contains_iff`), and a name that
does not lie behind the last one kept is found just if it is one of all the names
(`lookup_of_index`).
-/

namespace CodeParts.Names

variable {s : Set String} {l : NameList} {x y : String} {limit : Nat}

/-! ### The first names of a set -/

/-- A list has the least names of a set in increasing order, as many as the limit allows, and
the number of all. -/
structure KeepsFirst (s : Set String) (limit : Nat) (l : NameList) : Prop where
  total_eq : l.total = s.ncard
  size_eq : l.items.size = min s.ncard limit
  increasing : l.items.toList.Pairwise (· < ·)
  subset : ∀ x ∈ l.items, x ∈ s
  before : ∀ x ∈ l.items, ∀ y ∈ s, y ∉ l.items → x < y

theorem pairwise_distinct (xs : List String) : (distinct xs).Pairwise (· < ·) :=
  List.pairwise_map.2 (pairwise_tally xs)

theorem ncard_setOf_mem {xs : List String} (h : xs.Nodup) : {x | x ∈ xs}.ncard = xs.length := by
  rw [← List.coe_toFinset, Set.ncard_coe_finset, List.toFinset_card_of_nodup h]

theorem ncard_eq_length_distinct (xs : List String) :
    {x | x ∈ xs}.ncard = (distinct xs).length := by
  rw [← ncard_setOf_mem (nodup_distinct xs)]
  exact congrArg Set.ncard (Set.ext fun _ => mem_distinct.symm)

theorem keepsFirst_ofNames (xs : List String) (limit : Nat) :
    KeepsFirst {x | x ∈ xs} limit (.ofNames xs limit) := by
  have hsorted := pairwise_distinct xs
  have hitems (x : String) : x ∈ (NameList.ofNames xs limit).items ↔ x ∈ (distinct xs).take limit :=
    List.mem_toArray
  constructor
  case total_eq => exact (ncard_eq_length_distinct xs).symm
  case size_eq =>
    rw [ncard_eq_length_distinct, NameList.ofNames, List.size_toArray, List.length_take,
      Nat.min_comm]
  case increasing => exact hsorted.take
  case subset =>
    intro x hx
    exact mem_distinct.1 (List.mem_of_mem_take ((hitems x).1 hx))
  case before =>
    intro x hx y hy hnot
    rw [hitems] at hx hnot
    have hy := mem_distinct.2 hy
    rw [← List.take_append_drop limit (distinct xs)] at hsorted hy
    exact (List.pairwise_append.1 hsorted).2.2 x hx y ((List.mem_append.1 hy).resolve_left hnot)

/-! ### Lookups -/

/-- Halving finds a name in an increasing list just if it is there. -/
theorem contains_iff (h : l.items.toList.Pairwise (· < ·)) :
    l.contains x = true ↔ x ∈ l.items := by
  have hlt {i j : Nat} {y z : String} (hy : l.items[i]? = some y) (hz : l.items[j]? = some z)
      (hij : i < j) : y < z := by
    obtain ⟨hi, rfl⟩ := Array.getElem?_eq_some_iff.1 hy
    obtain ⟨hj, rfl⟩ := Array.getElem?_eq_some_iff.1 hz
    exact List.pairwise_iff_getElem.1 h i j hi hj hij
  have hpart : Partitioned (fun item => decide (item < x)) l.items := by
    intro i j y z hy hz hij hzx
    rcases Nat.eq_or_lt_of_le hij with rfl | hij
    · rw [hy, Option.some.injEq] at hz
      rwa [hz]
    · exact decide_eq_true (String.lt_trans (hlt hy hz hij) (of_decide_eq_true hzx))
  obtain ⟨hsize, hbelow, habove⟩ := partitionPoint_spec hpart
  rw [NameList.contains, beq_iff_eq]
  constructor
  · exact Array.mem_of_getElem?
  · intro hx
    -- The point is where the name stands: what lies before it is less, what lies behind is not.
    obtain ⟨i, hi⟩ := Array.mem_iff_getElem?.1 hx
    rcases Nat.lt_trichotomy i (partitionPoint (fun item => decide (item < x)) l.items) with
      hip | rfl | hpi
    · exact absurd (of_decide_eq_true (hbelow i x hip hi)) (String.lt_irrefl x)
    · exact hi
    · have hi' := (Array.getElem?_eq_some_iff.1 hi).1
      have hp := Array.getElem?_eq_getElem (Nat.lt_trans hpi hi')
      exact absurd (hlt hp hi hpi) (of_decide_eq_false (habove _ _ (Nat.le_refl _) hp))

namespace KeepsFirst

theorem isTruncated_iff (h : KeepsFirst s limit l) :
    l.isTruncated = true ↔ limit < s.ncard := by
  rw [NameList.isTruncated, decide_eq_true_eq, h.size_eq, h.total_eq]
  omega

theorem nodup_items (h : KeepsFirst s limit l) : l.items.toList.Nodup :=
  h.increasing.imp String.ne_of_lt

/-- A list that is not truncated has every name of the set. -/
theorem mem_of_not_isTruncated (h : KeepsFirst s limit l) (hfinite : s.Finite)
    (hall : l.isTruncated = false) (hx : x ∈ s) : x ∈ l.items := by
  have hcap : s.ncard ≤ limit := by
    rw [← Nat.not_lt, ← h.isTruncated_iff, hall]
    exact Bool.false_ne_true
  have hcard : s.ncard ≤ {x | x ∈ l.items.toList}.ncard := by
    rw [ncard_setOf_mem h.nodup_items, Array.length_toList, h.size_eq, Nat.min_eq_left hcap]
  have hsubset : {x | x ∈ l.items.toList} ⊆ s := fun x hx =>
    h.subset x (Array.mem_toList_iff.1 hx)
  rw [← Set.eq_of_subset_of_ncard_le hsubset hcard hfinite] at hx
  exact Array.mem_toList_iff.1 hx

/-- A list has all the names up to its last one. -/
theorem mem_of_le_back (h : KeepsFirst s limit l) {last : String}
    (hlast : l.items.back? = some last) (hx : x ∈ s) (hle : x ≤ last) : x ∈ l.items := by
  by_contra hnot
  have hmem : last ∈ l.items := Array.mem_of_back? hlast
  exact hle (h.before last hmem x hx hnot)

end KeepsFirst

/-! ### The lists of the index -/

/-- The lists of names in an index. -/
inductive IndexList where
  | identifiers
  | arguments (list : ArgumentList)
  deriving DecidableEq, Repr

namespace IndexList

/-- The names of a list in a text, as a search finds them. -/
def found (src : Source) : IndexList → List String
  | identifiers => Names.identifiers src
  | arguments list => list.found src

/-- The names of a list in a text, before the list is cut. -/
def names (text : String) (l : IndexList) : Set String := {x | x ∈ l.found (.ofString text)}

/-- How many names a list keeps. -/
def cap : IndexList → Nat
  | identifiers => 6000
  | arguments list => list.cap

/-- The list in an index. -/
def ofIndex (index : Index) : IndexList → NameList
  | identifiers => index.identifiers
  | arguments list => list.ofIndex index

/-- The list in the index of a text. -/
def indexed (text : String) (l : IndexList) : NameList := l.ofIndex (.ofSource (.ofString text))

theorem keepsFirst (text : String) (l : IndexList) :
    KeepsFirst (l.names text) l.cap (l.indexed text) := by
  cases l with
  | identifiers =>
      have hnames : names text identifiers =
          {x | x ∈ (identifierCounts (.ofString text)).map Prod.fst} :=
        Set.ext fun _ => mem_map_fst_tally.symm
      rw [hnames]
      exact keepsFirst_ofNames _ _
  | arguments list =>
      rw [indexed, ofIndex, list.ofIndex_ofSource]
      exact keepsFirst_ofNames _ _

end IndexList

/-- Every list of the index of a text has the first of its names in increasing order, with the
total of all, and is truncated just if they are more than it keeps. A lookup finds just what was
kept; and of the names up to the last one kept, or of all if the list is not truncated, it
finds just those of the text. -/
theorem lookup_of_index (text : String) (l : IndexList) :
    KeepsFirst (l.names text) l.cap (l.indexed text) ∧
      ((l.indexed text).isTruncated = true ↔ l.cap < (l.names text).ncard) ∧
      (∀ x, (l.indexed text).contains x = true ↔ x ∈ (l.indexed text).items) ∧
      ∀ x, ((l.indexed text).isTruncated = false ∨
          ∃ last, (l.indexed text).items.back? = some last ∧ x ≤ last) →
        ((l.indexed text).contains x = true ↔ x ∈ l.names text) := by
  have hkeeps := l.keepsFirst text
  refine ⟨hkeeps, hkeeps.isTruncated_iff, fun x => contains_iff hkeeps.increasing, fun x h => ?_⟩
  rw [contains_iff hkeeps.increasing]
  refine ⟨hkeeps.subset x, fun hx => ?_⟩
  rcases h with hall | ⟨last, hlast, hle⟩
  · exact hkeeps.mem_of_not_isTruncated (List.finite_toSet _) hall hx
  · exact hkeeps.mem_of_le_back hlast hx hle

/-- A name outside of ASCII that stands twice before a lesser one, and a name that is not there
and lies between the two. -/
theorem lookup_of_index_repeated :
    (IndexList.indexed "getElementById('é')+getElementById('é')+getElementById('b')"
        (.arguments .ids)).isTruncated = false ∧
      (IndexList.indexed "getElementById('é')+getElementById('é')+getElementById('b')"
        (.arguments .ids)).contains "é" = true ∧
      (IndexList.indexed "getElementById('é')+getElementById('é')+getElementById('b')"
        (.arguments .ids)).contains "c" = false := by
  have hfound : IndexList.found (.ofString
      "getElementById('é')+getElementById('é')+getElementById('b')") (.arguments .ids) =
        ["é", "é", "b"] := by decide +kernel
  obtain ⟨-, htruncated, -, hlookup⟩ := lookup_of_index
    "getElementById('é')+getElementById('é')+getElementById('b')" (.arguments .ids)
  rw [IndexList.names, hfound] at htruncated hlookup
  have hall : (IndexList.indexed "getElementById('é')+getElementById('é')+getElementById('b')"
      (.arguments .ids)).isTruncated = false := by
    rw [← Bool.not_eq_true, htruncated, ← List.coe_toFinset, Set.ncard_coe_finset]
    decide
  refine ⟨hall, (hlookup "é" (.inl hall)).2 List.mem_cons_self, ?_⟩
  rw [← Bool.not_eq_true, hlookup "c" (.inl hall)]
  decide

end CodeParts.Names
