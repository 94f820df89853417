import CodeParts.Proofs.CommandLine.Words
import CodeParts.Proofs.Digits
import CodeParts.Proofs.Settings.Fields

/-!
# Values on the command line and in a file

Five fields of the settings can be given a value by an option of a command as well as by a key
in a file. A `ValueFlag` is such a value with the words that give it, the field of an object
that holds it, and what it does to the values laid over the settings. Reading its words does
exactly that (`readOptions_flags`), and so does the field of the object (`overlays_flags`).
-/

namespace CodeParts.CommandLine

/-- A value for a field of the settings that an option can give too. -/
inductive ValueFlag where
  | maxChars (n : UInt64)
  | maxLines (n : UInt64)
  | strategy (s : Strategy)
  | contextLines (n : UInt64)
  | maxMatches (n : UInt64)
  deriving DecidableEq

namespace ValueFlag

/-- The command that has the option. -/
def verb : ValueFlag → Verb
  | .maxChars _ | .maxLines _ | .strategy _ => .split
  | .contextLines _ | .maxMatches _ => .grep

/-- The option that gives the value. -/
def option : ValueFlag → Field
  | .maxChars _ => .maxChars
  | .maxLines _ => .maxLines
  | .strategy _ => .strategy
  | .contextLines _ => .contextLines
  | .maxMatches _ => .maxMatches

/-- The long name of the option. -/
def optionName : ValueFlag → String
  | .maxChars _ => "max-chars"
  | .maxLines _ => "max-lines"
  | .strategy _ => "strategy"
  | .contextLines _ => "context-lines"
  | .maxMatches _ => "max-matches"

/-- The value as a word. -/
def valueWord : ValueFlag → String
  | .maxChars n | .maxLines n | .contextLines n | .maxMatches n => toString n.toNat
  | .strategy s => s.name

/-- The words that give the value. -/
def words (f : ValueFlag) : List String := ["--" ++ f.optionName, f.valueWord]

/-- The field of an object that holds the value. -/
def entry : ValueFlag → String × Json
  | .maxChars n => ("max_chars", Json.ofNat n.toNat)
  | .maxLines n => ("max_lines", Json.ofNat n.toNat)
  | .strategy s => ("strategy", .string s.name)
  | .contextLines n => ("context_lines", Json.ofNat n.toNat)
  | .maxMatches n => ("max_matches", Json.ofNat n.toNat)

end ValueFlag

namespace Overrides

/-- The values with one more, in place of what they have for its field. -/
def put (o : Overrides) : ValueFlag → Overrides
  | .maxChars n => { o with maxChars := some n.toNat }
  | .maxLines n => { o with maxLines := some n.toNat }
  | .strategy s => { o with strategy := some s }
  | .contextLines n => { o with contextLines := some n.toNat }
  | .maxMatches n => { o with maxMatches := some n.toNat }

/-- The values with more of them, one after the other. -/
def putAll (o : Overrides) (flags : List ValueFlag) : Overrides := flags.foldl put o

/-- Whether there is a value for the field. -/
def has (o : Overrides) : Field → Bool
  | .maxChars => o.maxChars.isSome
  | .maxLines => o.maxLines.isSome
  | .strategy => o.strategy.isSome
  | .graceRatio => o.graceRatio.isSome
  | .contextLines => o.contextLines.isSome
  | .maxMatches => o.maxMatches.isSome
  | _ => false

variable {o : Overrides} {f f' : ValueFlag} {flags : List ValueFlag} {s : Settings}

theorem putAll_cons : o.putAll (f :: flags) = (o.put f).putAll flags := rfl

theorem has_put (o : Overrides) (f f' : ValueFlag) :
    (o.put f).has f'.option = (o.has f'.option || f.option == f'.option) := by
  cases f <;> cases f' <;> simp [put, has, ValueFlag.option]

/-- A value for a field that had none may as well be laid over the settings first. -/
theorem apply_put (h : o.has f.option = false) :
    (o.put f).apply s = o.apply ((({} : Overrides).put f).apply s) := by
  cases f <;> simp_all [put, has, apply, ValueFlag.option]

theorem has_put_eq_false (hfree : ∀ f' ∈ f :: flags, o.has f'.option = false)
    (hdistinct : ((f :: flags).map ValueFlag.option).Nodup) :
    ∀ f' ∈ flags, (o.put f).has f'.option = false := by
  intro f' hf'
  rw [has_put, hfree f' (List.mem_cons_of_mem _ hf'), Bool.false_or, beq_eq_false_iff_ne]
  intro heq
  exact (List.nodup_cons.1 hdistinct).1 (heq ▸ List.mem_map_of_mem hf')

/-- Values for different fields that had none may as well be laid over the settings first. -/
theorem apply_putAll (hfree : ∀ f ∈ flags, o.has f.option = false)
    (hdistinct : (flags.map ValueFlag.option).Nodup) :
    (o.putAll flags).apply s = o.apply ((({} : Overrides).putAll flags).apply s) := by
  -- The first flag is moved below the values of `o`, and with an empty `o` below none.
  induction flags generalizing o with
  | nil => rfl
  | cons f flags ih =>
      have hrest := (List.nodup_cons.1 hdistinct).2
      have hnone : ∀ f' ∈ f :: flags, ({} : Overrides).has f'.option = false := by
        intro f' _
        cases f' <;> rfl
      rw [putAll_cons, ih (has_put_eq_false hfree hdistinct) hrest,
        apply_put (hfree f List.mem_cons_self), putAll_cons,
        ih (has_put_eq_false hnone hdistinct) hrest]

end Overrides

/-! ### On the command line -/

theorem natural?_toString (n : UInt64) : natural? (toString n.toNat) = some n.toNat := by
  obtain ⟨d, ds, hcons, hd, hds⟩ := Digits.exists_toDigits_eq_cons n.toNat
  have hvalue : Digits.valueUpTo 10 (Nat.pow 2 64) (d :: ds) = n.toNat := by
    rw [← hcons, Digits.valueUpTo_eq (by decide) (by rw [Digits.value_toDigits]; exact n.toNat_lt),
      Digits.value_toDigits]
  have hplus : d ≠ '+' := by
    rintro rfl
    exact absurd hd (by decide)
  rw [natural?, Nat.toString_eq_ofList_toDigits, String.toList_ofList, hcons]
  simp [hplus, hvalue, hd, hds, n.toNat_lt]

/-- A word whose first character is not a dash is an operand. -/
theorem isOperand_ofString {s : String} {c : Char} {cs : List Char} (hs : s.toList = c :: cs)
    (hc : c ≠ '-') : (Word.ofString s).isOperand = true := by
  unfold Word.ofString
  rw [hs]
  split <;> simp_all [Word.isOperand]

namespace ValueFlag

variable {f : ValueFlag} {flags : List ValueFlag} {g : Given}

theorem isOperand_valueWord (f : ValueFlag) : (Word.ofString f.valueWord).isOperand = true := by
  have hnumber (n : UInt64) : (Word.ofString (toString n.toNat)).isOperand = true := by
    obtain ⟨d, ds, hcons, hd, -⟩ := Digits.exists_toDigits_eq_cons n.toNat
    have htoList : (toString n.toNat).toList = d :: ds := by
      rw [Nat.toString_eq_ofList_toDigits, String.toList_ofList, hcons]
    refine isOperand_ofString htoList ?_
    rintro rfl
    exact absurd hd (by decide)
  cases f with
  | strategy s => cases s <;> decide
  | maxChars n | maxLines n | contextLines n | maxMatches n => exact hnumber n

theorem ofString_optionName (f : ValueFlag) :
    Word.ofString ("--" ++ f.optionName) = .long f.optionName none := by
  cases f <;> simp only [optionName] <;> decide

theorem actionOfName?_optionName (f : ValueFlag) :
    actionOfName? f.verb.specs f.optionName = some (.set f.option) := by
  cases f <;> simp only [verb, optionName, option] <;> decide

/-- The command has the option of the flag, which waits for a value. -/
theorem readOption?_optionName (f : ValueFlag) (g : Given) :
    readOption? f.verb.specs g ("--" ++ f.optionName) = some (.ok (g, some f.option)) := by
  simp [readOption?, ofString_optionName, readLong, actionOfName?_optionName]

/-- The value word gives the value, once. -/
theorem set_valueWord (h : g.overrides.has f.option = false) :
    g.set f.option f.valueWord = .ok { g with overrides := g.overrides.put f } := by
  cases f with
  | strategy s =>
      have hname : Strategy.ofName s.name = .ok s := by cases s <;> rfl
      simp_all [Overrides.has, option, Given.set, valueWord, once, Overrides.put, Except.map,
        Except.toOption]
  | maxChars n | maxLines n | contextLines n | maxMatches n =>
      simp only [Overrides.has, option, Option.isSome_eq_false_iff, Option.isNone_iff_eq_none] at h
      simp only [option, Given.set, valueWord, natural?_toString, h, once, Overrides.put,
        Except.map]

/-- Reading the words of one flag. -/
theorem readOptions_words (h : g.overrides.has f.option = false) :
    readOptions f.verb.specs g f.words =
      .ok ({ g with overrides := g.overrides.put f }, []) := by
  simp [words, readOptions, readOption?_optionName, isOperand_valueWord, set_valueWord h]

/-- Reading the words of different flags of a command, whatever they are. -/
theorem readOptions_flags {verb : Verb} (hverb : ∀ f ∈ flags, f.verb = verb)
    (hfree : ∀ f ∈ flags, g.overrides.has f.option = false)
    (hdistinct : (flags.map option).Nodup) :
    readOptions verb.specs g (flags.flatMap words) =
      .ok ({ g with overrides := g.overrides.putAll flags }, []) := by
  induction flags generalizing g with
  | nil => rfl
  | cons f flags ih =>
      obtain ⟨rfl, hrest⟩ := List.forall_mem_cons.1 hverb
      rw [List.flatMap_cons, readOptions_append (readOptions_words (hfree f List.mem_cons_self)),
        List.nil_append,
        ih hrest (Overrides.has_put_eq_false hfree hdistinct) (List.nodup_cons.1 hdistinct).2]
      rfl

end ValueFlag

/-! ### In a file -/

section File

open Settings

variable {fields : List (String × Json)} {f : ValueFlag} {flags : List ValueFlag} {o : Overrides}
  {s t : Settings}

theorem mem_fieldKeys_entry (f : ValueFlag) : f.entry.1 ∈ fieldKeys := by
  cases f <;> simp [ValueFlag.entry, fieldKeys]

/-- One more field lays its value over what the fields before it have laid. -/
theorem overlays_put (h : Overlays (Json.lookup fields) s (o.apply t)) :
    Overlays (Json.lookup (fields ++ [f.entry])) s ((o.put f).apply t) := by
  have hlook : Json.lookup (fields ++ [f.entry]) = fun key =>
      (if f.entry.1 = key then some f.entry.2 else none).or (Json.lookup fields key) :=
    funext fun key => by rw [Json.lookup_append, Json.lookup_singleton]
  rw [hlook]
  cases f with
  | strategy x =>
      have hname : strategyOf (.string x.name) = .ok x := by cases x <;> rfl
      simp_all [overlays_iff, ValueFlag.entry, Overrides.put, Overrides.apply]
  | maxChars n | maxLines n | contextLines n | maxMatches n =>
      simp_all [overlays_iff, ValueFlag.entry, Overrides.put, Overrides.apply, natural,
        Json.ofNat]

/-- More fields lay their values over what the fields before them have laid. -/
theorem overlays_putAll (h : Overlays (Json.lookup fields) s (o.apply t)) :
    Overlays (Json.lookup (fields ++ flags.map ValueFlag.entry)) s ((o.putAll flags).apply t) := by
  induction flags generalizing fields o with
  | nil => rwa [List.map_nil, List.append_nil]
  | cons f flags ih =>
      rw [List.map_cons, List.append_cons]
      exact ih (overlays_put h)

end File

end CodeParts.CommandLine
