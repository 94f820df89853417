import CodeParts.Settings.Read
import Mathlib.Tactic.MkIffOfInductiveProp

/-!
# Settings from the fields of an object

An object sets fields one after the other in the order of its keys. As its keys are different,
only the value under each key counts: an object gives the settings that take each field from
the value under its key and keep the others (`ofJson_object_eq_ok_iff`). Whatever is read as
an object has different keys (`nodup_keys_of_read?`).
-/

namespace CodeParts

namespace Json

variable {fields fields' : List (String × Json)} {key : String} {v : Json}

/-! ### Keys -/

theorem lookup_append (fields fields' : List (String × Json)) (key : String) :
    lookup (fields ++ fields') key = (lookup fields' key).or (lookup fields key) := by
  rw [lookup, List.reverse_append, List.find?_append, lookup, lookup]
  cases fields'.reverse.find? (·.1 == key) <;> rfl

theorem lookup_singleton (f : String × Json) (key : String) :
    lookup [f] key = if f.1 = key then some f.2 else none := by
  by_cases h : f.1 = key <;> simp [lookup, h]

theorem lookup_cons (f : String × Json) (fields : List (String × Json)) (key : String) :
    lookup (f :: fields) key =
      (lookup fields key).or (if f.1 = key then some f.2 else none) := by
  rw [← List.singleton_append, lookup_append, lookup_singleton]

theorem lookup_eq_none_iff : lookup fields key = none ↔ key ∉ fields.map Prod.fst := by
  induction fields with
  | nil => simp [lookup]
  | cons f fields ih =>
      rw [lookup_cons, Option.or_eq_none_iff, ih, List.map_cons, List.mem_cons]
      by_cases h : f.1 = key
      · simp [h]
      · simp [h, Ne.symm h]

/-- Where the keys are different, each has the value that stands with it. -/
theorem lookup_eq_some_iff (h : (fields.map Prod.fst).Nodup) :
    lookup fields key = some v ↔ (key, v) ∈ fields := by
  induction fields with
  | nil => simp [lookup]
  | cons f fields ih =>
      obtain ⟨hnew, hrest⟩ := List.nodup_cons.1 h
      rw [lookup_cons, List.mem_cons, ← ih hrest]
      by_cases hkey : f.1 = key
      · rw [← hkey, lookup_eq_none_iff.2 hnew]
        obtain ⟨k, w⟩ := f
        simp [eq_comm]
      · have hne : (key, v) ≠ f := fun heq => hkey (congrArg Prod.fst heq).symm
        simp [hkey, hne]

/-- The order of different keys does not matter. -/
theorem lookup_perm (h : (fields.map Prod.fst).Nodup) (hperm : fields.Perm fields') :
    lookup fields key = lookup fields' key := by
  have h' : (fields'.map Prod.fst).Nodup := (hperm.map Prod.fst).nodup_iff.1 h
  refine Option.ext fun v => ?_
  rw [lookup_eq_some_iff h, lookup_eq_some_iff h', hperm.mem_iff]

/-! ### Objects that are read -/

/-- A field takes the place of the one that has its key, or comes last with a new key. -/
theorem map_fst_place (kept : List (String × Json)) (f : String × Json) :
    ((if kept.any (·.1 == f.1) then kept.map fun g => if g.1 == f.1 then f else g
      else kept ++ [f]).map Prod.fst) =
      if f.1 ∈ kept.map Prod.fst then kept.map Prod.fst else kept.map Prod.fst ++ [f.1] := by
  have hany : kept.any (·.1 == f.1) = true ↔ f.1 ∈ kept.map Prod.fst := by simp
  by_cases h : f.1 ∈ kept.map Prod.fst
  · rw [if_pos (hany.2 h), if_pos h, List.map_map]
    refine List.map_congr_left fun g _ => ?_
    by_cases hg : g.1 = f.1
    · simp [hg]
    · simp [hg]
  · rw [if_neg (mt hany.1 h), if_neg h, List.map_append, List.map_singleton]

theorem nodup_keys_lastWins (fields : List (String × Json)) :
    ((lastWins fields).map Prod.fst).Nodup := by
  -- Different keys among those kept are what each step preserves.
  suffices h : ∀ kept : List (String × Json), (kept.map Prod.fst).Nodup →
      ((fields.foldl
        (fun kept f =>
          if kept.any (·.1 == f.1) then kept.map fun g => if g.1 == f.1 then f else g
          else kept ++ [f])
        kept).map Prod.fst).Nodup from h [] List.nodup_nil
  induction fields with
  | nil => exact fun kept hkept => hkept
  | cons f fields ih =>
      intro kept hkept
      refine ih _ ?_
      rw [map_fst_place]
      by_cases h : f.1 ∈ kept.map Prod.fst
      · rwa [if_pos h]
      · rw [if_neg h]
        exact List.nodup_append.2 ⟨hkept, List.pairwise_singleton _ _, by
          intro a ha b hb
          rw [List.mem_singleton.1 hb]
          exact fun heq => h (heq ▸ ha)⟩

theorem nodup_keys_of_value? {fuel depth : Nat} {cs rest : List Char}
    (h : value? fuel depth cs = some (.object fields, rest)) : (fields.map Prod.fst).Nodup := by
  unfold value? at h
  split at h <;> simp only [Option.map_eq_some_iff, Prod.exists, Prod.mk.injEq, reduceCtorEq,
    false_and, and_false, exists_false] at h
  obtain ⟨fs, _, _, hfs, -⟩ := h
  rw [Json.object.injEq] at hfs
  exact hfs ▸ nodup_keys_lastWins fs

/-- An object that is read has different keys. -/
theorem nodup_keys_of_read? {cs : List Char} (h : read? cs = some (.object fields)) :
    (fields.map Prod.fst).Nodup := by
  simp only [read?, Option.bind_eq_bind, Option.bind_eq_some_iff, Prod.exists] at h
  obtain ⟨v, rest, hv, h⟩ := h
  by_cases hrest : (skipSpace rest).isEmpty
  · rw [if_pos hrest] at h
    rw [Option.some.inj h] at hv
    exact nodup_keys_of_value? hv
  · rw [if_neg hrest] at h
    exact absurd h (by simp)

end Json

namespace Settings

variable {fields : List (String × Json)} {s t : Settings}

/-! ### Fields -/

/-- A field has the value that is read for it, or keeps its own where none is given. -/
def Takes {α : Type} (read : Json → Except FieldError α) (given : Option Json) (kept value : α) :
    Prop :=
  match given with
  | some v => read v = .ok value
  | none => value = kept

@[simp]
theorem takes_none {α : Type} {read : Json → Except FieldError α} {kept value : α} :
    Takes read none kept value ↔ value = kept :=
  Iff.rfl

@[simp]
theorem takes_some {α : Type} {read : Json → Except FieldError α} {v : Json} {kept value : α} :
    Takes read (some v) kept value ↔ read v = .ok value :=
  Iff.rfl

/-- The settings `t` are `s` with the fields for which there are values. -/
@[mk_iff]
structure Overlays (given : String → Option Json) (s t : Settings) : Prop where
  maxChars : Takes natural (given "max_chars") s.maxChars t.maxChars
  maxLines : Takes natural (given "max_lines") s.maxLines t.maxLines
  strategy : Takes strategyOf (given "strategy") s.strategy t.strategy
  graceRatio : Takes float (given "grace_ratio") s.graceRatio t.graceRatio
  contextLines : Takes natural (given "context_lines") s.contextLines t.contextLines
  maxMatches : Takes natural (given "max_matches") s.maxMatches t.maxMatches

/-- Setting a field that has no other value lays one more value over the settings. -/
theorem setField_overlays_iff {given : String → Option Json} {key : String} {v : Json}
    (hnew : given key = none) :
    (∃ r, s.setField key v = .ok r ∧ Overlays given r t) ↔
      Overlays (fun k => (given k).or (if key = k then some v else none)) s t := by
  by_cases hkey : key ∈ fieldKeys
  · simp only [fieldKeys, List.mem_cons, List.not_mem_nil, or_false] at hkey
    obtain rfl | rfl | rfl | rfl | rfl | rfl := hkey
    · cases h : natural v <;> simp [setField, Except.map, overlays_iff, hnew, h, eq_comm]
    · cases h : natural v <;> simp [setField, Except.map, overlays_iff, hnew, h, eq_comm]
    · cases h : strategyOf v <;> simp [setField, Except.map, overlays_iff, hnew, h, eq_comm]
    · cases h : float v <;> simp [setField, Except.map, overlays_iff, hnew, h, eq_comm]
    · cases h : natural v <;> simp [setField, Except.map, overlays_iff, hnew, h, eq_comm]
    · cases h : natural v <;> simp [setField, Except.map, overlays_iff, hnew, h, eq_comm]
  · have hne : ∀ k ∈ fieldKeys, key ≠ k := fun k hk heq => hkey (heq ▸ hk)
    simp only [fieldKeys, List.forall_mem_cons] at hne
    obtain ⟨h₁, h₂, h₃, h₄, h₅, h₆, -⟩ := hne
    simp [setField, overlays_iff, h₁, h₂, h₃, h₄, h₅, h₆]

theorem ofFields_cons_eq_ok_iff {f : String × Json} :
    ofFields s (f :: fields) = .ok t ↔
      ∃ r, s.setField f.1 f.2 = .ok r ∧ ofFields r fields = .ok t := by
  rw [ofFields]
  cases s.setField f.1 f.2 <;> simp

/-- Fields with different keys are laid over the settings, in whatever order they stand. -/
theorem ofFields_eq_ok_iff (h : (fields.map Prod.fst).Nodup) :
    ofFields s fields = .ok t ↔ Overlays (Json.lookup fields) s t := by
  induction fields generalizing s with
  | nil =>
      obtain ⟨⟩ := s
      obtain ⟨⟩ := t
      simp [ofFields, overlays_iff, Json.lookup, eq_comm]
  | cons f fields ih =>
      obtain ⟨hnew, hrest⟩ := List.nodup_cons.1 h
      have hlook : Json.lookup (f :: fields) = fun key =>
          (Json.lookup fields key).or (if f.1 = key then some f.2 else none) :=
        funext fun key => Json.lookup_cons f fields key
      simp only [ofFields_cons_eq_ok_iff, ih hrest, hlook]
      exact setField_overlays_iff (Json.lookup_eq_none_iff.2 hnew)

theorem unknownKeys_eq_nil_iff :
    unknownKeys fields = [] ↔ ∀ key ∈ fields.map Prod.fst, key ∈ fieldKeys := by
  rw [unknownKeys, ← List.length_eq_zero_iff, List.length_mergeSort, List.length_eq_zero_iff,
    List.filter_eq_nil_iff]
  simp

/-- An object gives the settings over which its values are laid, and only if every key is the
key of a field. -/
theorem ofJson_object_eq_ok_iff (h : (fields.map Prod.fst).Nodup) :
    ofJson (.object fields) = .ok t ↔
      (∀ key ∈ fields.map Prod.fst, key ∈ fieldKeys) ∧ Overlays (Json.lookup fields) {} t := by
  have hperm : (fields.mergeSort fun a b => decide (a.1 ≤ b.1)).Perm fields :=
    List.mergeSort_perm _ _
  have hsorted : ((fields.mergeSort fun a b => decide (a.1 ≤ b.1)).map Prod.fst).Nodup :=
    (hperm.map Prod.fst).nodup_iff.2 h
  have hlook : Json.lookup (fields.mergeSort fun a b => decide (a.1 ≤ b.1)) =
      Json.lookup fields :=
    funext fun key => Json.lookup_perm hsorted hperm
  rw [← unknownKeys_eq_nil_iff, ← hlook, ← ofFields_eq_ok_iff hsorted]
  simp only [ofJson]
  cases unknownKeys fields with
  | nil =>
      cases ofFields {} (fields.mergeSort fun a b => decide (a.1 ≤ b.1)) with
      | error e => exact iff_of_false nofun nofun
      | ok r =>
          have hok {e : Type} : (Except.ok r : Except e Settings) = .ok t ↔ r = t := by simp
          exact (hok.trans hok.symm).trans (and_iff_right rfl).symm
  | cons key keys => simp

/-! ### Files -/

/-- The bytes of a file are the text of an object with these fields. -/
def HoldsObject (bytes : ByteArray) (fields : List (String × Json)) : Prop :=
  ∃ text, String.fromUTF8? bytes = some text ∧ Json.read? text.toList = some (.object fields)

/-- A text that is read as an object is a file with the object. -/
theorem holdsObject_toUTF8 (text : String) (fields : List (String × Json))
    (h : Json.read? text.toList = some (.object fields)) : HoldsObject text.toUTF8 fields :=
  ⟨text, by simp [String.fromUTF8?, text.isValidUTF8]; rfl, h⟩

theorem HoldsObject.nodup_keys {bytes : ByteArray} (h : HoldsObject bytes fields) :
    (fields.map Prod.fst).Nodup := by
  obtain ⟨text, -, hread⟩ := h
  exact Json.nodup_keys_of_read? hread

theorem HoldsObject.ofBytes_eq {bytes : ByteArray} (h : HoldsObject bytes fields) :
    ofBytes bytes = ofJson (.object fields) := by
  obtain ⟨text, hdecode, hread⟩ := h
  simp [ofBytes, ofText, hdecode, hread]

/-- A file with an object gives the settings over which the values of the object are laid. -/
theorem HoldsObject.ofBytes_eq_ok_iff {bytes : ByteArray} (h : HoldsObject bytes fields) :
    ofBytes bytes = .ok t ↔
      (∀ key ∈ fields.map Prod.fst, key ∈ fieldKeys) ∧ Overlays (Json.lookup fields) {} t := by
  rw [h.ofBytes_eq, ofJson_object_eq_ok_iff h.nodup_keys]

end Settings

end CodeParts
