import CodeParts.CommandLine.Invocation
import Mathlib.Tactic.SplitIfs

/-!
# Command lines with options at their end

What the words of a command line give does not depend on the options that follow them:
options are read on from where the words before them end (`readOptions_append`,
`Reads.append`). What is said here of a preset follows from its name: no other option
gives one (`Reads.preset_eq_none`).
-/

namespace CodeParts.CommandLine

variable {specs : List Spec} {g g' : Given} {w : String} {words rest : List String}

/-! ### Options -/

/-- Reading stops at a word that is no option, whatever has been given. -/
theorem readOptions_stop (h : readOption? specs g w = none) (g' : Given) (words : List String) :
    readOptions specs g' (w :: words) = .ok (g', w :: words) := by
  have h' : readOption? specs g' w = none := by
    cases hw : Word.ofString w <;> simp_all [readOption?]
  simp [readOptions, h']

/-- Reading goes on from what is left once more words follow. -/
theorem readOptions_append (h : readOptions specs g words = .ok (g', rest))
    (more : List String) :
    readOptions specs g (words ++ more) = readOptions specs g' (rest ++ more) := by
  -- Over the words as they are read; the cases that end in an error are ruled out by `h`.
  fun_induction readOptions specs g words with
  | case1 g =>
      cases h
      rfl
  | case2 g w words hw =>
      cases h
      rfl
  | case4 g w words g₁ hw ih =>
      rw [← ih h, List.cons_append]
      simp only [readOptions, hw]
  | case6 g w g₁ f hw v words hv g₂ hset ih =>
      rw [← ih h, List.cons_append, List.cons_append]
      simp only [readOptions, hw, hv, hset, if_true]
  | case3 | case5 | case7 | case8 => exact absurd h (by simp)

/-- What is left begins with a word that is no option. -/
theorem readOptions_left (h : readOptions specs g words = .ok (g', w :: rest)) :
    readOption? specs g' w = none := by
  fun_induction readOptions specs g words with
  | case2 g w words hw =>
      cases h
      exact hw
  | case4 g w words g₁ hw ih => exact ih h
  | case6 g w g₁ f hw v words hv g₂ hset ih => exact ih h
  | case1 | case3 | case5 | case7 | case8 => exact absurd h (by simp)

theorem readOptions_suffix (h : readOptions specs g words = .ok (g', rest)) : rest <:+ words := by
  fun_induction readOptions specs g words with
  | case1 g =>
      cases h
      exact List.suffix_refl _
  | case2 g w words hw =>
      cases h
      exact List.suffix_refl _
  | case4 g w words g₁ hw ih => exact (ih h).trans (List.suffix_cons _ _)
  | case6 g w g₁ f hw v words hv g₂ hset ih =>
      exact (ih h).trans ((List.suffix_cons _ _).trans (List.suffix_cons _ _))
  | case3 | case5 | case7 | case8 => exact absurd h (by simp)

/-- Where the words end among operands, more words are left with them. -/
theorem readOptions_append_operand (h : readOptions specs g words = .ok (g', w :: rest))
    (more : List String) :
    readOptions specs g (words ++ more) = .ok (g', w :: (rest ++ more)) := by
  rw [readOptions_append h, List.cons_append, readOptions_stop (readOptions_left h)]

/-! ### Presets -/

/-- Only an option of that name gives a preset. -/
def PresetByName (specs : List Spec) : Prop :=
  ∀ spec ∈ specs, spec.action = .set .preset → spec.long = "preset" ∧ spec.letter = none

instance (specs : List Spec) : Decidable (PresetByName specs) :=
  inferInstanceAs (Decidable (∀ spec ∈ specs, _))

theorem presetByName_specs (verb : Verb) : PresetByName verb.specs := by
  cases verb <;> decide

theorem mark_preset {f : Flag} (h : g.mark f = .ok g') : g'.preset = g.preset := by
  cases f <;> simp only [Given.mark] at h <;> split_ifs at h <;> cases h <;> rfl

theorem exists_of_map_eq_ok {ε α β : Type} {f : α → β} {x : Except ε α} {b : β}
    (h : x.map f = .ok b) : ∃ a, x = .ok a ∧ f a = b := by
  cases x with
  | error e => exact absurd h (by simp [Except.map])
  | ok a => exact ⟨a, rfl, Except.ok.inj h⟩

theorem set_preset {f : Field} {v : String} (h : g.set f v = .ok g') (hf : f ≠ .preset) :
    g'.preset = g.preset := by
  cases f <;> first | contradiction | (obtain ⟨_, _, rfl⟩ := exists_of_map_eq_ok h; rfl)

theorem actionOfName?_ne_preset (hspecs : PresetByName specs) {name : String}
    (hname : name ≠ "preset") : actionOfName? specs name ≠ some (.set .preset) := by
  intro h
  simp only [actionOfName?, Option.map_eq_some_iff] at h
  obtain ⟨spec, hfind, haction⟩ := h
  have hlong := List.find?_some hfind
  exact hname (by
    rw [← (hspecs spec (List.mem_of_find?_eq_some hfind) haction).1]
    exact (eq_of_beq hlong).symm)

theorem actionOfLetter?_ne_preset (hspecs : PresetByName specs) (c : Char) :
    actionOfLetter? specs c ≠ some (.set .preset) := by
  intro h
  simp only [actionOfLetter?, Option.map_eq_some_iff] at h
  obtain ⟨spec, hfind, haction⟩ := h
  have hletter := List.find?_some hfind
  rw [(hspecs spec (List.mem_of_find?_eq_some hfind) haction).2] at hletter
  exact absurd hletter (by simp)

theorem readLong_preset (hspecs : PresetByName specs) {name : String} {value : Option String}
    {f? : Option Field} (hname : name ≠ "preset")
    (h : readLong specs g name value = .ok (g', f?)) :
    g'.preset = g.preset ∧ f? ≠ some .preset := by
  have hne := actionOfName?_ne_preset hspecs hname
  unfold readLong at h
  split at h
  · obtain ⟨g₁, hmark, heq⟩ := exists_of_map_eq_ok h
    cases heq
    exact ⟨mark_preset hmark, by simp⟩
  · rename_i f v haction
    obtain ⟨g₁, hset, heq⟩ := exists_of_map_eq_ok h
    cases heq
    exact ⟨set_preset hset fun hf => hne (hf ▸ haction), by simp⟩
  · rename_i f haction
    cases h
    exact ⟨rfl, fun hf => hne (Option.some.inj hf ▸ haction)⟩
  · exact absurd h (by simp)
  · exact absurd h (by simp)

theorem readLetters_preset (hspecs : PresetByName specs) {cs : List Char} {f? : Option Field}
    (h : readLetters specs g cs = .ok (g', f?)) :
    g'.preset = g.preset ∧ f? ≠ some .preset := by
  fun_induction readLetters specs g cs with
  | case1 g =>
      cases h
      exact ⟨rfl, by simp⟩
  | case2 g c cs f haction g₁ hmark ih =>
      rw [← mark_preset hmark]
      exact ih h
  | case4 g c f haction =>
      cases h
      exact ⟨rfl, fun hf => actionOfLetter?_ne_preset hspecs c (Option.some.inj hf ▸ haction)⟩
  | case5 g c f haction cs | case6 g c f haction cs =>
      obtain ⟨g₁, hset, heq⟩ := exists_of_map_eq_ok h
      cases heq
      exact ⟨set_preset hset fun hf => actionOfLetter?_ne_preset hspecs c (hf ▸ haction), by simp⟩
  | case3 | case7 | case8 => exact absurd h (by simp)

/-- A word that is not that option gives no preset, and the next word is no preset either. -/
theorem readOption?_preset (hspecs : PresetByName specs) {f? : Option Field}
    (hw : ∀ value, Word.ofString w ≠ .long "preset" value)
    (h : readOption? specs g w = some (.ok (g', f?))) :
    g'.preset = g.preset ∧ f? ≠ some .preset := by
  unfold readOption? at h
  cases hform : Word.ofString w with
  | separator => simp [hform] at h
  | operand s => simp [hform] at h
  | letters cs =>
      rw [hform] at h
      exact readLetters_preset hspecs (Option.some.inj h)
  | long name value =>
      rw [hform] at h
      exact readLong_preset hspecs (fun hname => hw value (hname ▸ hform)) (Option.some.inj h)

theorem readOptions_preset (hspecs : PresetByName specs)
    (hwords : ∀ w ∈ words, ∀ value, Word.ofString w ≠ .long "preset" value)
    (h : readOptions specs g words = .ok (g', rest)) : g'.preset = g.preset := by
  fun_induction readOptions specs g words with
  | case1 g =>
      cases h
      rfl
  | case2 g w words hw =>
      cases h
      rfl
  | case4 g w words g₁ hw ih =>
      obtain ⟨hfirst, hrest⟩ := List.forall_mem_cons.1 hwords
      rw [ih hrest h, (readOption?_preset hspecs hfirst hw).1]
  | case6 g w g₁ f hw v words hv g₂ hset ih =>
      obtain ⟨hfirst, hrest⟩ := List.forall_mem_cons.1 hwords
      obtain ⟨hkept, hf⟩ := readOption?_preset hspecs hfirst hw
      rw [ih (List.forall_mem_cons.1 hrest).2 h, set_preset hset fun heq => hf (congrArg some heq),
        hkept]
  | case3 | case5 | case7 | case8 => exact absurd h (by simp)

/-! ### Commands -/

namespace Invocation

variable {verb : Verb} {before after after' : Given} {file : String} {command : Command}
  {inv : Invocation} {more : List String}

/-- The words give options, the name of a command, and options and an operand after it. -/
def Reads (words : List String) (before : Given) (verb : Verb) (after : Given) (file : String) :
    Prop :=
  ∃ w rest, readOptions leadingSpecs {} words = .ok (before, w :: rest) ∧
    Verb.ofName? w = some verb ∧ readOperand verb rest = .ok (after, file)

theorem Reads.unique {before' : Given} {verb' : Verb} {file' : String}
    (h : Reads words before verb after file) (h' : Reads words before' verb' after' file') :
    before = before' ∧ verb = verb' ∧ after = after' ∧ file = file' := by
  obtain ⟨w, rest, hread, hverb, hoperand⟩ := h
  obtain ⟨w', rest', hread', hverb', hoperand'⟩ := h'
  rw [hread] at hread'
  cases hread'
  rw [hverb] at hverb'
  cases hverb'
  rw [hoperand] at hoperand'
  cases hoperand'
  exact ⟨rfl, rfl, rfl, rfl⟩

theorem path?_eq_some {s path : String} (h : path? s = some path) : s = path := by
  unfold path? at h
  split_ifs at h
  exact Option.some.inj h

theorem ofWords_eq_ok_iff :
    ofWords words = .ok inv ↔
      ∃ before verb after file command, Reads words before verb after file ∧
        path? file = some file ∧ command? verb after = some command ∧
        inv = assemble before after file command := by
  constructor
  · intro h
    unfold ofWords at h
    split at h
    · exact absurd h (by simp)
    · exact absurd h (by simp)
    · rename_i before w rest hread
      split_ifs at h
      split at h
      · exact absurd h (by simp)
      · rename_i verb hverb
        split at h
        · exact absurd h (by simp)
        · rename_i after file hoperand
          split at h
          · rename_i file' command hfile hcommand
            obtain rfl := path?_eq_some hfile
            exact ⟨before, verb, after, _, command, ⟨w, rest, hread, hverb, hoperand⟩, hfile,
              hcommand, (Except.ok.inj h).symm⟩
          · exact absurd h (by simp)
  · rintro ⟨before, verb, after, file, command, ⟨w, rest, hread, hverb, hoperand⟩, hfile,
      hcommand, rfl⟩
    have hhelp : w ≠ "help" := by
      rintro rfl
      rw [show Verb.ofName? "help" = none by decide] at hverb
      exact Option.some_ne_none verb hverb.symm
    simp [ofWords, hread, hhelp, hverb, hoperand, hfile, hcommand]

/-- Without a separator the operand is the first word that is no option, and options are all
that stands around it. -/
theorem readOperand_eq_ok (h : readOperand verb words = .ok (after, file)) (hsep : "--" ∉ words) :
    ∃ g rest, readOptions verb.specs {} words = .ok (g, file :: rest) ∧ file ≠ "--" ∧
      file.isEmpty = false ∧ readOptions verb.specs g rest = .ok (after, []) := by
  unfold readOperand at h
  split at h
  · exact absurd h (by simp)
  · exact absurd h (by simp)
  · rename_i g w rest hread
    have hsep' : "--" ∉ w :: rest := fun hmem => hsep ((readOptions_suffix hread).subset hmem)
    obtain ⟨hw, hrest⟩ := not_or.1 (mt List.mem_cons.2 hsep')
    rw [if_neg (Ne.symm hw)] at h
    split_ifs at h with hempty
    split at h
    · exact absurd h (by simp)
    · rename_i g₂ hrest₂
      cases h
      exact ⟨g, rest, hread, Ne.symm hw, Bool.eq_false_iff.2 hempty, hrest₂⟩
    · rename_i g₂ hrest₂
      exact absurd ((readOptions_suffix hrest₂).subset (List.mem_singleton_self _)) hrest
    · exact absurd h (by simp)

/-- Options after the operand are read after those around it. Behind a separator they would
be operands themselves. -/
theorem readOperand_append (h : readOperand verb words = .ok (after, file)) (hsep : "--" ∉ words)
    (hmore : readOptions verb.specs after more = .ok (after', [])) :
    readOperand verb (words ++ more) = .ok (after', file) := by
  obtain ⟨g, rest, hread, hfile, hempty, hrest⟩ := readOperand_eq_ok h hsep
  have hrest' : readOptions verb.specs g (rest ++ more) = .ok (after', []) := by
    rw [readOptions_append hrest, List.nil_append, hmore]
  simp [readOperand, readOptions_append_operand hread more, hfile, hempty, hrest']

theorem Reads.append (h : Reads words before verb after file) (hsep : "--" ∉ words)
    (hmore : readOptions verb.specs after more = .ok (after', [])) :
    Reads (words ++ more) before verb after' file := by
  obtain ⟨w, rest, hread, hverb, hoperand⟩ := h
  have hsep' : "--" ∉ rest := fun h =>
    hsep ((readOptions_suffix hread).subset (List.mem_cons_of_mem _ h))
  exact ⟨w, rest ++ more, readOptions_append_operand hread more, hverb,
    readOperand_append hoperand hsep' hmore⟩

theorem Reads.preset_eq_none (h : Reads words before verb after file) (hsep : "--" ∉ words)
    (hwords : ∀ w ∈ words, ∀ value, Word.ofString w ≠ .long "preset" value) :
    after.preset = none := by
  obtain ⟨w, rest, hread, -, hoperand⟩ := h
  have hrest : ∀ u ∈ rest, u ∈ words := fun u hu =>
    (readOptions_suffix hread).subset (List.mem_cons_of_mem _ hu)
  obtain ⟨g, rest', hread', -, -, hread''⟩ :=
    readOperand_eq_ok hoperand fun hmem => hsep (hrest _ hmem)
  have hrest' : ∀ u ∈ rest', u ∈ rest := fun u hu =>
    (readOptions_suffix hread').subset (List.mem_cons_of_mem _ hu)
  have hspecs := presetByName_specs verb
  rw [readOptions_preset hspecs (fun u hu => hwords u (hrest u (hrest' u hu))) hread'',
    readOptions_preset hspecs (fun u hu => hwords u (hrest u hu)) hread']

end Invocation

end CodeParts.CommandLine
