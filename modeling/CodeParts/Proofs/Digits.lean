import CodeParts.Digits
import Mathlib.Data.List.Basic

/-!
# Numbers written in digits

The decimal digits of a number are digits, at least one, and stand for the number
(`value_toDigits`). Only zero begins with the digit zero (`head?_toDigits_ne`).
-/

namespace CodeParts.Digits

variable {c : Char} {n : Nat}

theorem ofChar_eq (h : c.isDigit) : ofChar c = c.toNat - '0'.toNat := by
  simp [ofChar, h]

theorem isDigit_of_mem_toDigits (h : c ∈ Nat.toDigits 10 n) : c.isDigit :=
  Nat.isDigit_of_mem_toDigits (by decide) (by decide) h

/-- The digits of a number stand for it. -/
theorem value_toDigits (n : Nat) : value 10 (Nat.toDigits 10 n) = n := by
  calc value 10 (Nat.toDigits 10 n)
      = Nat.ofDigitChars 10 (Nat.toDigits 10 n) 0 := by
        rw [Nat.ofDigitChars_eq_foldl, value, valueFrom]
        refine List.foldl_ext _ _ _ fun a c hc => ?_
        rw [ofChar_eq (isDigit_of_mem_toDigits hc), Nat.mul_comm]
    _ = n := Nat.ofDigitChars_ten_toDigits

/-- The first character of a number is a digit. -/
theorem exists_toDigits_eq_cons (n : Nat) :
    ∃ d ds, Nat.toDigits 10 n = d :: ds ∧ d.isDigit ∧ ds.all Char.isDigit := by
  obtain ⟨d, ds, h⟩ := List.exists_cons_of_ne_nil (Nat.toDigits_ne_nil (b := 10) (n := n))
  have hdigits : ∀ c ∈ d :: ds, c.isDigit := fun c hc => isDigit_of_mem_toDigits (h ▸ hc)
  rw [List.forall_mem_cons] at hdigits
  exact ⟨d, ds, h, hdigits.1, List.all_eq_true.2 hdigits.2⟩

/-- A number other than zero does not begin with the digit zero. -/
theorem head?_toDigits_ne (h : 0 < n) : (Nat.toDigits 10 n).head? ≠ some '0' := by
  induction n using Nat.strongRecOn with
  | ind n ih =>
      rcases Nat.lt_or_ge n 10 with hn | hn
      · have hdigit : ∀ n < 10, 0 < n → n.digitChar ≠ '0' := by decide
        rw [Nat.toDigits_of_lt_base hn]
        simpa using hdigit n hn h
      · -- The first digit is that of the number without its last digit.
        have hrest := ih _ (Nat.div_lt_self h (by decide)) (Nat.div_pos hn (by decide))
        obtain ⟨d, ds, hds, -⟩ := exists_toDigits_eq_cons (n / 10)
        rw [hds] at hrest
        rwa [Nat.toDigits_of_base_le (by decide) hn, hds]

end CodeParts.Digits
