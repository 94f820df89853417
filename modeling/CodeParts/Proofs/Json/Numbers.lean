import CodeParts.Json.Read
import CodeParts.Proofs.Digits
import Mathlib.Data.List.TakeWhile

/-!
# Numbers that are read back

A number is read as far as it goes, and what stands behind a value in an array or an object is
never part of one (`Delimited`, `number?_append`). Whether the text of a number is read as the
number is what has to be known of it (`Number.ReadsBack`): a float is read by its first digits
only. Whole numbers within 64 bits are read back (`readsBack_natural`).
-/

namespace CodeParts.Json

variable {α : Type} {cs rest : List Char} {c : Char} {n : Number}

/-! ### What stands behind a value -/

/-- The characters that stand behind a value in an array or an object. -/
def isDelimiter (c : Char) : Bool := c == ',' || c == ']' || c == '\x7d'

theorem isDelimiter_iff : isDelimiter c = true ↔ c = ',' ∨ c = ']' ∨ c = '\x7d' := by
  simp [isDelimiter, or_assoc]

/-- The text ends or goes on with a delimiter. -/
def Delimited (rest : List Char) : Prop := ∀ c ∈ rest.head?, isDelimiter c = true

theorem delimited_nil : Delimited [] := nofun

theorem delimited_cons (h : isDelimiter c = true) (cs : List Char) : Delimited (c :: cs) := by
  rintro _ ⟨⟩
  exact h

theorem Delimited.head?_ne (h : Delimited rest) (hc : isDelimiter c = false) :
    rest.head? ≠ some c := by
  intro hhead
  rw [h c hhead] at hc
  cases hc

/-- A text that is not itself empty has its own first character, and any other that of what
stands behind it. -/
theorem Delimited.head?_append_ne (h : Delimited rest) (hc : isDelimiter c = false)
    (hcs : cs.head? ≠ some c) : (cs ++ rest).head? ≠ some c := by
  cases cs with
  | nil => exact h.head?_ne hc
  | cons d cs => exact hcs

/-- What is read, with more text behind what it leaves. -/
def before (rest : List Char) (r : α × List Char) : α × List Char := (r.1, r.2 ++ rest)

@[simp]
theorem before_mk (rest : List Char) (a : α) (cs : List Char) :
    before rest (a, cs) = (a, cs ++ rest) :=
  rfl

/-! ### Numbers -/

theorem digitRun_append (h : Delimited rest) (cs : List Char) :
    digitRun (cs ++ rest) = ((digitRun cs).1, (digitRun cs).2 ++ rest) := by
  induction cs with
  | nil =>
      cases rest with
      | nil => rfl
      | cons c rest =>
          have hc : c.isDigit = false := by
            obtain rfl | rfl | rfl := isDelimiter_iff.1 (h c rfl) <;> rfl
          simp [digitRun, hc]
  | cons c cs ih =>
      simp only [digitRun, Prod.mk.injEq] at ih ⊢
      cases hc : c.isDigit <;> simp [hc, ih]

theorem wholePart?_append (h : Delimited rest) (cs : List Char) :
    wholePart? (cs ++ rest) = (wholePart? cs).map (before rest) := by
  rw [wholePart?, digitRun_append h, wholePart?]
  rcases digitRun cs with ⟨_ | ⟨d, _ | ⟨d', ds⟩⟩, r⟩
  · rfl
  · by_cases hd : d = '0' <;> simp [hd]
  · by_cases hd : d = '0' <;> simp [hd]

theorem fractionPart?_of_head?_ne (h : cs.head? ≠ some '.') :
    fractionPart? cs = some (none, cs) := by
  unfold fractionPart?
  split
  · exact absurd rfl h
  · rfl

theorem fractionPart?_append (h : Delimited rest) (cs : List Char) :
    fractionPart? (cs ++ rest) = (fractionPart? cs).map (before rest) := by
  by_cases hdot : cs.head? = some '.'
  · obtain ⟨cs, rfl⟩ := List.head?_eq_some_iff.1 hdot
    simp only [List.cons_append, fractionPart?, digitRun_append h]
    split <;> rfl
  · rw [fractionPart?_of_head?_ne (h.head?_append_ne rfl hdot), fractionPart?_of_head?_ne hdot]
    rfl

theorem exponentDigits?_append (h : Delimited rest) (sign : Int) (cs : List Char) :
    exponentDigits? sign (cs ++ rest) = (exponentDigits? sign cs).map (before rest) := by
  simp only [exponentDigits?, digitRun_append h]
  split <;> rfl

theorem exponent?_of_head?_ne (h : cs.head? ≠ some '-') (h' : cs.head? ≠ some '+') :
    exponent? cs = exponentDigits? 1 cs := by
  unfold exponent?
  split
  · exact absurd rfl h
  · exact absurd rfl h'
  · rfl

theorem exponent?_append (h : Delimited rest) (cs : List Char) :
    exponent? (cs ++ rest) = (exponent? cs).map (before rest) := by
  by_cases hminus : cs.head? = some '-'
  · obtain ⟨cs, rfl⟩ := List.head?_eq_some_iff.1 hminus
    exact exponentDigits?_append h (-1) cs
  by_cases hplus : cs.head? = some '+'
  · obtain ⟨cs, rfl⟩ := List.head?_eq_some_iff.1 hplus
    exact exponentDigits?_append h 1 cs
  rw [exponent?_of_head?_ne (h.head?_append_ne rfl hminus) (h.head?_append_ne rfl hplus),
    exponent?_of_head?_ne hminus hplus, exponentDigits?_append h]

theorem exponentPart?_of_head?_ne (h : cs.head? ≠ some 'e') (h' : cs.head? ≠ some 'E') :
    exponentPart? cs = some (0, cs) := by
  unfold exponentPart?
  split
  · exact absurd rfl h
  · exact absurd rfl h'
  · rfl

theorem exponentPart?_append (h : Delimited rest) (cs : List Char) :
    exponentPart? (cs ++ rest) = (exponentPart? cs).map (before rest) := by
  by_cases hlower : cs.head? = some 'e'
  · obtain ⟨cs, rfl⟩ := List.head?_eq_some_iff.1 hlower
    exact exponent?_append h cs
  by_cases hupper : cs.head? = some 'E'
  · obtain ⟨cs, rfl⟩ := List.head?_eq_some_iff.1 hupper
    exact exponent?_append h cs
  rw [exponentPart?_of_head?_ne (h.head?_append_ne rfl hlower) (h.head?_append_ne rfl hupper),
    exponentPart?_of_head?_ne hlower hupper]
  rfl

/-- A float computed from an exponent that is read. -/
theorem bind_exponentPart?_append (h : Delimited rest) (f : Int → Option Float)
    (negative : Bool) (cs : List Char) :
    ((exponentPart? (cs ++ rest)).bind fun e => (f e.1).bind fun x =>
        some (Number.float (signed negative x), e.2)) =
      ((exponentPart? cs).bind fun e => (f e.1).bind fun x =>
        some (Number.float (signed negative x), e.2)).map (before rest) := by
  rw [exponentPart?_append h]
  cases exponentPart? cs with
  | none => rfl
  | some e =>
      simp only [Option.map_some, Option.bind_some, before]
      cases f e.1 <;> rfl

theorem unsigned?_append (h : Delimited rest) (negative : Bool) (cs : List Char) :
    unsigned? negative (cs ++ rest) = (unsigned? negative cs).map (before rest) := by
  unfold unsigned?
  rw [wholePart?_append h]
  cases wholePart? cs with
  | none => rfl
  | some w =>
      obtain ⟨whole, cs⟩ := w
      simp only [Option.map_some, Option.bind_eq_bind, Option.bind_some, before_mk,
        fractionPart?_append h]
      cases fractionPart? cs with
      | none => rfl
      | some f =>
          obtain ⟨fraction, cs⟩ := f
          simp only [Option.map_some, Option.bind_some, before_mk]
          have hscaled := bind_exponentPart?_append h
            (fun e => scaled? (appendDigits 0 whole).1 ((appendDigits 0 whole).2 + e)) negative
          cases fraction with
          | some fraction =>
              exact bind_exponentPart?_append h (fun e => scaled? _ (_ + e)) negative cs
          | none =>
              by_cases hlower : cs.head? = some 'e'
              · obtain ⟨cs, rfl⟩ := List.head?_eq_some_iff.1 hlower
                exact hscaled ('e' :: cs)
              by_cases hupper : cs.head? = some 'E'
              · obtain ⟨cs, rfl⟩ := List.head?_eq_some_iff.1 hupper
                exact hscaled ('E' :: cs)
              have hlower' := h.head?_append_ne rfl hlower
              have hupper' := h.head?_append_ne rfl hupper
              split
              · next heq => exact absurd (congrArg List.head? heq) hlower'
              · next heq => exact absurd (congrArg List.head? heq) hupper'
              · split
                · exact absurd rfl hlower
                · exact absurd rfl hupper
                · cases wholeNumber? negative _ _ <;> rfl
                · contradiction
              · contradiction

theorem number?_of_head?_ne (h : cs.head? ≠ some '-') : number? cs = unsigned? false cs := by
  unfold number?
  split
  · exact absurd rfl h
  · rfl

/-- A number that is read does not depend on what stands behind it. -/
theorem number?_append (h : Delimited rest) (cs : List Char) :
    number? (cs ++ rest) = (number? cs).map (before rest) := by
  by_cases hminus : cs.head? = some '-'
  · obtain ⟨cs, rfl⟩ := List.head?_eq_some_iff.1 hminus
    exact unsigned?_append h true cs
  · rw [number?_of_head?_ne (h.head?_append_ne rfl hminus), number?_of_head?_ne hminus,
      unsigned?_append h]

/-- The text of a number reads back as the number. -/
def Number.ReadsBack (n : Number) : Prop := number? n.text.toList = some (n, [])

theorem Number.ReadsBack.number?_eq (hn : n.ReadsBack) (h : Delimited rest) :
    number? (n.text.toList ++ rest) = some (n, rest) := by
  rw [number?_append h, hn]
  rfl

/-- A number begins with a digit or a minus. -/
theorem head_of_number? {r : Number × List Char} (h : number? (c :: cs) = some r) :
    c = '-' ∨ c.isDigit = true := by
  by_cases hminus : c = '-'
  · exact .inl hminus
  refine .inr (Bool.of_not_eq_false fun hdigit => ?_)
  have hwhole : wholePart? (c :: cs) = none := by
    simp [wholePart?, digitRun, hdigit]
  rw [number?_of_head?_ne (by simpa using hminus), unsigned?, hwhole] at h
  cases h

theorem appendDigits_eq {k : Nat} {ds : List Char} (h : Digits.valueFrom 10 k ds < Nat.pow 2 64) :
    appendDigits k ds = (Digits.valueFrom 10 k ds, 0) := by
  induction ds generalizing k with
  | nil => rfl
  | cons d ds ih =>
      have hle : k * 10 + Digits.ofChar d < Nat.pow 2 64 :=
        Nat.lt_of_le_of_lt (Digits.le_valueFrom (by decide)) h
      rw [appendDigits, if_pos hle]
      exact ih h

/-- A whole number of 64 bits reads back. -/
theorem readsBack_natural {k : Nat} (h : k < Nat.pow 2 64) : (Number.natural k).ReadsBack := by
  have htext : (Number.natural k).text.toList = Nat.toDigits 10 k := by
    rw [Number.text, Nat.toString_eq_ofList_toDigits, String.toList_ofList]
  have hrun : digitRun (Nat.toDigits 10 k) = (Nat.toDigits 10 k, []) := by
    rw [digitRun, List.takeWhile_eq_self_iff.2 fun d => Digits.isDigit_of_mem_toDigits,
      List.dropWhile_eq_nil_iff.2 fun d => Digits.isDigit_of_mem_toDigits]
  have hwhole : wholePart? (Nat.toDigits 10 k) = some (Nat.toDigits 10 k, []) := by
    rcases Nat.eq_zero_or_pos k with rfl | hpos
    · rfl
    obtain ⟨d, ds, hds, -⟩ := Digits.exists_toDigits_eq_cons k
    have hd : d ≠ '0' := by
      rintro rfl
      exact Digits.head?_toDigits_ne hpos (by rw [hds]; rfl)
    rw [hds] at hrun ⊢
    rw [wholePart?, hrun]
    split
    · next heq => cases heq
    · next heq => exact absurd (List.cons.inj (congrArg Prod.fst heq)).1 hd
    · next heq => rw [← heq]
  have hminus : (Nat.toDigits 10 k).head? ≠ some '-' := by
    obtain ⟨d, ds, hds, hd, -⟩ := Digits.exists_toDigits_eq_cons k
    rw [hds, List.head?_cons]
    rintro ⟨⟩
    exact absurd hd (by decide)
  have hvalue : appendDigits 0 (Nat.toDigits 10 k) = (k, 0) := by
    have hk : Digits.valueFrom 10 0 (Nat.toDigits 10 k) = k := Digits.value_toDigits k
    rw [appendDigits_eq (by rwa [hk]), hk]
  rw [Number.ReadsBack, htext, number?_of_head?_ne hminus, unsigned?, hwhole]
  simp only [Option.bind_eq_bind, Option.bind_some, hvalue]
  rfl

end CodeParts.Json
