/-!
# The least and the greatest index of an interval with a property

Every search in a text asks for the first or the last offset of a half-open
interval at which something stands. `firstIn` and `lastIn` are these two
searches for an arbitrary property of offsets; `firstIn_eq_some_iff` and
`lastIn_eq_some_iff` say that they return the least and the greatest such
offset, and the `none` lemmas that they miss nothing.
-/

namespace CodeParts

variable {p : Nat → Bool} {a b i : Nat}

/-! ### The least index -/

/-- The least `i` in `[a, b)` with `p i`. -/
@[specialize] def firstIn (p : Nat → Bool) (a b : Nat) : Option Nat :=
  if a < b then
    if p a then some a else firstIn p (a + 1) b
  else none
termination_by b - a

theorem firstIn_eq_none_iff : firstIn p a b = none ↔ ∀ j, a ≤ j → j < b → p j = false := by
  fun_induction firstIn p a b with
  | case1 a hab hp =>
      simp only [reduceCtorEq, false_iff]
      intro h
      simp [h a (Nat.le_refl a) hab] at hp
  | case2 a hab hp ih =>
      rw [ih]
      constructor
      · intro h j haj hjb
        rcases Nat.eq_or_lt_of_le haj with rfl | hlt
        · simpa using hp
        · exact h j hlt hjb
      · intro h j haj hjb
        exact h j (by omega) hjb
  | case3 a hab =>
      simp only [true_iff]
      intro j haj hjb
      omega

theorem firstIn_eq_some_iff :
    firstIn p a b = some i ↔
      a ≤ i ∧ i < b ∧ p i = true ∧ ∀ j, a ≤ j → j < i → p j = false := by
  fun_induction firstIn p a b with
  | case1 a hab hp =>
      simp only [Option.some.injEq]
      constructor
      · rintro rfl
        exact ⟨Nat.le_refl _, hab, hp, fun j haj hji => by omega⟩
      · rintro ⟨hai, -, -, hmin⟩
        rcases Nat.eq_or_lt_of_le hai with h | h
        · exact h
        · simp [hmin a (Nat.le_refl a) h] at hp
  | case2 a hab hp ih =>
      rw [ih]
      constructor
      · rintro ⟨hai, hib, hpi, hmin⟩
        refine ⟨by omega, hib, hpi, fun j haj hji => ?_⟩
        rcases Nat.eq_or_lt_of_le haj with rfl | hlt
        · simpa using hp
        · exact hmin j hlt hji
      · rintro ⟨hai, hib, hpi, hmin⟩
        refine ⟨?_, hib, hpi, fun j haj hji => hmin j (by omega) hji⟩
        rcases Nat.eq_or_lt_of_le hai with rfl | hlt
        · simp [hpi] at hp
        · exact hlt
  | case3 a hab =>
      simp only [reduceCtorEq, false_iff]
      rintro ⟨hai, hib, -, -⟩
      omega

/-! ### The greatest index -/

/-- The greatest `i` in `[a, b)` with `p i`. -/
@[specialize] def lastIn (p : Nat → Bool) (a : Nat) : (b : Nat) → Option Nat
  | 0 => none
  | b + 1 =>
      if a ≤ b then
        if p b then some b else lastIn p a b
      else none

theorem lastIn_eq_none_iff : lastIn p a b = none ↔ ∀ j, a ≤ j → j < b → p j = false := by
  induction b with
  | zero => simp [lastIn]
  | succ b ih =>
      unfold lastIn
      split
      · next hab =>
        split
        · next hp =>
          simp only [reduceCtorEq, false_iff]
          intro h
          simp [h b hab (Nat.lt_succ_self b)] at hp
        · next hp =>
          rw [ih]
          constructor
          · intro h j haj hjb
            rcases Nat.eq_or_lt_of_le (Nat.le_of_lt_succ hjb) with rfl | hlt
            · simpa using hp
            · exact h j haj hlt
          · intro h j haj hjb
            exact h j haj (by omega)
      · next hab =>
        simp only [true_iff]
        intro j haj hjb
        omega

theorem lastIn_eq_some_iff :
    lastIn p a b = some i ↔
      a ≤ i ∧ i < b ∧ p i = true ∧ ∀ j, i < j → j < b → p j = false := by
  induction b with
  | zero => simp [lastIn]
  | succ b ih =>
      unfold lastIn
      split
      · next hab =>
        split
        · next hp =>
          simp only [Option.some.injEq]
          constructor
          · rintro rfl
            exact ⟨hab, Nat.lt_succ_self _, hp, fun j hij hjb => by omega⟩
          · rintro ⟨hai, hib, hpi, hmax⟩
            rcases Nat.eq_or_lt_of_le (Nat.le_of_lt_succ hib) with h | h
            · exact h.symm
            · simp [hmax b h (Nat.lt_succ_self b)] at hp
        · next hp =>
          rw [ih]
          constructor
          · rintro ⟨hai, hib, hpi, hmax⟩
            refine ⟨hai, by omega, hpi, fun j hij hjb => ?_⟩
            rcases Nat.eq_or_lt_of_le (Nat.le_of_lt_succ hjb) with rfl | hlt
            · simpa using hp
            · exact hmax j hij hlt
          · rintro ⟨hai, hib, hpi, hmax⟩
            refine ⟨hai, ?_, hpi, fun j hij hjb => hmax j hij (by omega)⟩
            rcases Nat.eq_or_lt_of_le (Nat.le_of_lt_succ hib) with rfl | hlt
            · simp [hpi] at hp
            · exact hlt
      · next hab =>
        simp only [reduceCtorEq, false_iff]
        rintro ⟨hai, hib, -, -⟩
        omega

end CodeParts
