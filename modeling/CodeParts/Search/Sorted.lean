/-!
# Binary search in a sorted array

`partitionPoint p xs` is the number of leading elements of `xs` that satisfy
`p`, found by halving. It is meant for arrays in which all elements that satisfy
`p` stand before all that do not, such as `(· ≤ x)` on an increasing array; there
`partitionPoint_spec` says that it separates the two groups.
-/

namespace CodeParts

variable {α : Type}

/-- One end of the search: all elements below `lo` satisfy `p`, none from `hi` on
does, and the interval between them is halved until it is empty. -/
@[specialize] def partitionPointIn (p : α → Bool) (xs : Array α) (lo hi : Nat) : Nat :=
  if lo < hi then
    match xs[(lo + hi) / 2]? with
    | some x =>
        if p x then partitionPointIn p xs ((lo + hi) / 2 + 1) hi
        else partitionPointIn p xs lo ((lo + hi) / 2)
    | none => lo
  else lo
termination_by hi - lo

/-- The number of leading elements of `xs` that satisfy `p`. -/
@[inline] def partitionPoint (p : α → Bool) (xs : Array α) : Nat :=
  partitionPointIn p xs 0 xs.size

/-- The elements that satisfy `p` stand before those that do not. -/
def Partitioned (p : α → Bool) (xs : Array α) : Prop :=
  ∀ (i j : Nat) (x y : α), xs[i]? = some x → xs[j]? = some y → i ≤ j → p y = true → p x = true

theorem partitionPointIn_spec {p : α → Bool} {xs : Array α} (hp : Partitioned p xs)
    {lo hi : Nat} (hhi : hi ≤ xs.size) (hle : lo ≤ hi)
    (hlow : ∀ i x, i < lo → xs[i]? = some x → p x = true)
    (hhigh : ∀ i x, hi ≤ i → xs[i]? = some x → p x = false) :
    partitionPointIn p xs lo hi ≤ xs.size ∧
      (∀ i x, i < partitionPointIn p xs lo hi → xs[i]? = some x → p x = true) ∧
      (∀ i x, partitionPointIn p xs lo hi ≤ i → xs[i]? = some x → p x = false) := by
  fun_induction partitionPointIn p xs lo hi with
  | case1 lo hi hlt x hx hpx ih =>
      refine ih hhi (by omega) (fun i y hi' hy => ?_) hhigh
      exact hp i ((lo + hi) / 2) y x hy hx (by omega) hpx
  | case2 lo hi hlt x hx hpx ih =>
      refine ih (by omega) (by omega) hlow (fun i y hi' hy => ?_)
      cases hpy : p y with
      | false => rfl
      | true => exact absurd (hp ((lo + hi) / 2) i x y hx hy hi' hpy) hpx
  | case3 lo hi hlt hx =>
      rw [Array.getElem?_eq_none_iff] at hx
      omega
  | case4 lo hi hlt =>
      have : lo = hi := by omega
      subst this
      exact ⟨hhi, hlow, hhigh⟩

/-- On a partitioned array the point separates the elements that satisfy `p` from
those that do not. -/
theorem partitionPoint_spec {p : α → Bool} {xs : Array α} (hp : Partitioned p xs) :
    partitionPoint p xs ≤ xs.size ∧
      (∀ i x, i < partitionPoint p xs → xs[i]? = some x → p x = true) ∧
      (∀ i x, partitionPoint p xs ≤ i → xs[i]? = some x → p x = false) := by
  refine partitionPointIn_spec hp (Nat.le_refl _) (Nat.zero_le _) (by simp) (fun i x hi hx => ?_)
  rw [Array.getElem?_eq_none hi] at hx
  cases hx

end CodeParts
