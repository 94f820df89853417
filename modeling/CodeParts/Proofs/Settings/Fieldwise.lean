import CodeParts.Proofs.Json.RoundTrip
import CodeParts.Proofs.Names.Tally
import CodeParts.Proofs.Settings.Fields

/-!
# Settings field by field

The keys of a settings file, the fields of the settings and what is read for each stand in
different places. `Key` is a field with all three, and an object is read key by key
(`overlays_iff`): it gives the settings that take each field from what its key alone gives, and
the defaults for the others (`TakesEach`). Reading settings that were written gives them back.
-/

namespace CodeParts.Settings

variable {fields : List (String × Json)} {given : String → Option Json} {s t : Settings}

/-! ### Fields -/

/-- A field of the settings. -/
inductive Key where
  | maxChars
  | maxLines
  | strategy
  | graceRatio
  | contextLines
  | maxMatches

namespace Key

/-- The key of the field in a file. -/
def name : Key → String
  | .maxChars => "max_chars"
  | .maxLines => "max_lines"
  | .strategy => "strategy"
  | .graceRatio => "grace_ratio"
  | .contextLines => "context_lines"
  | .maxMatches => "max_matches"

theorem name_injective {key other : Key} (h : key.name = other.name) : key = other := by
  cases key <;> cases other <;> first | rfl | exact absurd h (by decide)

/-- What the field holds. -/
def Value : Key → Type
  | .maxChars | .maxLines | .contextLines | .maxMatches => Nat
  | .strategy => Strategy
  | .graceRatio => Float

/-- What settings have in the field. -/
def get (s : Settings) : (key : Key) → key.Value
  | .maxChars => s.maxChars
  | .maxLines => s.maxLines
  | .strategy => s.strategy
  | .graceRatio => s.graceRatio
  | .contextLines => s.contextLines
  | .maxMatches => s.maxMatches

/-- How a value for the field is read. -/
def read : (key : Key) → Json → Except FieldError key.Value
  | .maxChars | .maxLines | .contextLines | .maxMatches => natural
  | .strategy => strategyOf
  | .graceRatio => float

/-- The settings with these values in their fields. -/
def settings (x : (key : Key) → key.Value) : Settings :=
  ⟨x .maxChars, x .maxLines, x .strategy, x .graceRatio, x .contextLines, x .maxMatches⟩

theorem get_settings (x : (key : Key) → key.Value) (key : Key) : get (settings x) key = x key := by
  cases key <;> rfl

end Key

theorem mem_fieldKeys_iff {k : String} : k ∈ fieldKeys ↔ ∃ key : Key, key.name = k := by
  constructor
  · intro h
    simp only [fieldKeys, List.mem_cons, List.not_mem_nil, or_false] at h
    obtain rfl | rfl | rfl | rfl | rfl | rfl := h
    exacts [⟨.maxChars, rfl⟩, ⟨.maxLines, rfl⟩, ⟨.strategy, rfl⟩, ⟨.graceRatio, rfl⟩,
      ⟨.contextLines, rfl⟩, ⟨.maxMatches, rfl⟩]
  · rintro ⟨key, rfl⟩
    cases key <;> decide

theorem overlays_iff_forall :
    Overlays given s t ↔
      ∀ key : Key, Takes key.read (given key.name) (key.get s) (key.get t) := by
  constructor
  · rintro ⟨hmaxChars, hmaxLines, hstrategy, hgraceRatio, hcontextLines, hmaxMatches⟩ key
    cases key
    exacts [hmaxChars, hmaxLines, hstrategy, hgraceRatio, hcontextLines, hmaxMatches]
  · exact fun h => ⟨h .maxChars, h .maxLines, h .strategy, h .graceRatio, h .contextLines,
      h .maxMatches⟩

theorem exists_overlays_iff :
    (∃ t, Overlays given s t) ↔
      ∀ key : Key, ∃ x, Takes key.read (given key.name) (key.get s) x := by
  constructor
  · rintro ⟨t, ht⟩ key
    exact ⟨key.get t, overlays_iff_forall.1 ht key⟩
  · intro h
    choose x hx using h
    refine ⟨Key.settings x, overlays_iff_forall.2 fun key => ?_⟩
    rw [Key.get_settings]
    exact hx key

/-! ### One key at a time -/

/-- An object with one key gives settings exactly when the value is read. -/
theorem exists_ofJson_singleton_iff {key : Key} {v : Json} {x : key.Value} :
    (∃ r, ofJson (.object [(key.name, v)]) = .ok r ∧ key.get r = x) ↔ key.read v = .ok x := by
  have hknown : ∀ k ∈ [(key.name, v)].map Prod.fst, k ∈ fieldKeys := by
    intro k hk
    exact mem_fieldKeys_iff.2 ⟨key, (List.mem_singleton.1 hk).symm⟩
  have hgiven : Json.lookup [(key.name, v)] key.name = some v := by
    rw [Json.lookup_singleton, if_pos rfl]
  have hnodup : ([(key.name, v)].map Prod.fst).Nodup := List.pairwise_singleton _ _
  have hget {r : Settings} (hr : Overlays (Json.lookup [(key.name, v)]) {} r) :
      key.read v = .ok (key.get r) := by
    have := overlays_iff_forall.1 hr key
    rwa [hgiven] at this
  simp only [ofJson_object_eq_ok_iff hnodup, and_iff_right hknown]
  constructor
  · rintro ⟨r, hr, rfl⟩
    exact hget hr
  · intro hx
    have hexists : ∃ r, Overlays (Json.lookup [(key.name, v)]) {} r := by
      refine exists_overlays_iff.2 fun other => ?_
      rw [Json.lookup_singleton]
      by_cases hname : key.name = other.name
      · obtain rfl := Key.name_injective hname
        exact ⟨x, by rwa [if_pos rfl]⟩
      · exact ⟨other.get {}, by rw [if_neg hname]; rfl⟩
    obtain ⟨r, hr⟩ := hexists
    exact ⟨r, hr, Except.ok.inj ((hget hr).symm.trans hx)⟩

/-- Settings with each field from what its key gives alone, or by default where the key is
absent. -/
structure TakesEach (fields : List (String × Json)) (t : Settings) : Prop where
  given : ∀ (key : Key) (v : Json), (key.name, v) ∈ fields →
    ∃ r, ofJson (.object [(key.name, v)]) = .ok r ∧ key.get r = key.get t
  absent : ∀ key : Key, key.name ∉ fields.map Prod.fst → key.get t = key.get {}

theorem takesEach_iff (h : (fields.map Prod.fst).Nodup) :
    TakesEach fields t ↔ Overlays (Json.lookup fields) {} t := by
  rw [overlays_iff_forall]
  constructor
  · intro ht key
    cases hlook : Json.lookup fields key.name with
    | none => exact ht.absent key (Json.lookup_eq_none_iff.1 hlook)
    | some v =>
        have hmem := (Json.lookup_eq_some_iff h).1 hlook
        exact exists_ofJson_singleton_iff.1 (ht.given key v hmem)
  · intro ht
    refine ⟨fun key v hmem => exists_ofJson_singleton_iff.2 ?_, fun key habsent => ?_⟩
    · have := ht key
      rwa [(Json.lookup_eq_some_iff h).2 hmem] at this
    · have := ht key
      rwa [Json.lookup_eq_none_iff.2 habsent] at this

/-- An object with known keys gives settings exactly when each of its keys does alone. -/
theorem exists_ofJson_iff (h : (fields.map Prod.fst).Nodup)
    (hknown : ∀ k ∈ fields.map Prod.fst, k ∈ fieldKeys) :
    (∃ t, ofJson (.object fields) = .ok t) ↔
      ∀ f ∈ fields, ∃ r, ofJson (.object [f]) = .ok r := by
  simp only [ofJson_object_eq_ok_iff h, and_iff_right hknown, exists_overlays_iff]
  constructor
  · rintro hread ⟨k, v⟩ hmem
    obtain ⟨key, rfl⟩ := mem_fieldKeys_iff.1 (hknown k (List.mem_map_of_mem hmem))
    obtain ⟨x, hx⟩ := hread key
    rw [(Json.lookup_eq_some_iff h).2 hmem] at hx
    obtain ⟨r, hr, -⟩ := exists_ofJson_singleton_iff.2 hx
    exact ⟨r, hr⟩
  · intro halone key
    cases hlook : Json.lookup fields key.name with
    | none => exact ⟨key.get {}, rfl⟩
    | some v =>
        obtain ⟨r, hr⟩ := halone _ ((Json.lookup_eq_some_iff h).1 hlook)
        exact ⟨key.get r, exists_ofJson_singleton_iff.1 ⟨r, hr, rfl⟩⟩

/-! ### Unknown keys -/

theorem mem_unknownKeys_iff {k : String} :
    k ∈ unknownKeys fields ↔ k ∈ fields.map Prod.fst ∧ k ∉ fieldKeys := by
  rw [unknownKeys, (List.mergeSort_perm _ _).mem_iff, List.mem_filter, decide_eq_true_iff]

theorem pairwise_unknownKeys (h : (fields.map Prod.fst).Nodup) :
    (unknownKeys fields).Pairwise (· < ·) := by
  have hnodup : (unknownKeys fields).Nodup :=
    (List.mergeSort_perm _ _).nodup_iff.2 (h.filter _)
  exact ((Names.pairwise_mergeSort_le _).and hnodup).imp fun hlt => Std.lt_of_le_of_ne hlt.1 hlt.2

/-- An object with an unknown key gives its unknown keys, whatever else it has. -/
theorem ofJson_object_eq_unknownFields (h : ∃ k ∈ fields.map Prod.fst, k ∉ fieldKeys) :
    ofJson (.object fields) = .error (.unknownFields (unknownKeys fields)) := by
  obtain ⟨k, hk⟩ := h
  rw [ofJson]
  cases hkeys : unknownKeys fields with
  | nil => exact absurd (hkeys ▸ mem_unknownKeys_iff.2 hk) List.not_mem_nil
  | cons key keys => rfl

/-! ### Settings that were written -/

theorem ofJson_toJson (s : Settings) : ofJson s.toJson = .ok s := by
  rw [toJson, ofJson_object_eq_ok_iff (by simp)]
  refine ⟨by simp [fieldKeys], overlays_iff_forall.2 fun key => ?_⟩
  cases key
  case strategy =>
    obtain ⟨_, _, strategy, _, _, _⟩ := s
    cases strategy <;> rfl
  all_goals rfl

theorem readable_toJson {depth : Nat}
    (hfits : ∀ n ∈ [s.maxChars, s.maxLines, s.contextLines, s.maxMatches], n < Nat.pow 2 64)
    (hratio : (Json.Number.float s.graceRatio).ReadsBack) :
    Json.Readable (depth + 1) s.toJson := by
  simp only [List.forall_mem_cons] at hfits
  obtain ⟨hmaxChars, hmaxLines, hcontextLines, hmaxMatches, -⟩ := hfits
  refine .object (by simp) ?_
  simp only [List.forall_mem_cons]
  exact ⟨.number (Json.readsBack_natural hmaxChars), .number (Json.readsBack_natural hmaxLines),
    .string _, .number hratio, .number (Json.readsBack_natural hcontextLines),
    .number (Json.readsBack_natural hmaxMatches), fun _ h => by cases h⟩

/-- Settings whose numbers are read back are read back from their text in a file. -/
theorem ofBytes_compact_toJson
    (hfits : ∀ n ∈ [s.maxChars, s.maxLines, s.contextLines, s.maxMatches], n < Nat.pow 2 64)
    (hratio : (Json.Number.float s.graceRatio).ReadsBack) :
    ofBytes s.toJson.compact.toUTF8 = .ok s := by
  have hread := Json.read?_compact (readable_toJson hfits hratio)
  exact (holdsObject_toUTF8 _ _ hread).ofBytes_eq.trans (ofJson_toJson s)

/-- The default ratio is read back. -/
theorem readsBack_graceRatio : (Json.Number.float ({} : Settings).graceRatio).ReadsBack := by
  have htext : (Json.Number.float 0.3).text.toList = ['0', '.', '3'] := by decide +kernel
  have hscaled : Json.scaled? 3 (-1) = some 0.3 := by
    rw [Json.scaled?, if_pos (by decide), Json.divideByPower, if_pos (by decide)]
    decide +kernel
  have hnumber : Json.number? ['0', '.', '3'] =
      (Json.scaled? 3 (-1)).bind fun x => some (Json.Number.float x, []) := rfl
  rw [Json.Number.ReadsBack, htext, hnumber, hscaled]
  rfl

/-- Reading settings goes field by field. A value that is no object is refused. An object with
keys that no field has is refused with these keys in increasing order, whatever stands under the
others. Any other object gives settings exactly when each of its keys alone does, and then each
field is what its key alone gives, or the default. Settings with a finite ratio are read back
from the object of their fields; and from its text in a file, if the ratio is a number that is
read back from its text. -/
theorem fieldwise_of_json :
    (∀ v : Json, (∀ fields, v ≠ .object fields) → ofJson v = .error .notTable) ∧
    (∀ fields : List (String × Json), (fields.map Prod.fst).Nodup →
      ((∃ k ∈ fields.map Prod.fst, k ∉ fieldKeys) →
        ∃ keys, ofJson (.object fields) = .error (.unknownFields keys) ∧
          keys.Pairwise (· < ·) ∧ ∀ k, k ∈ keys ↔ k ∈ fields.map Prod.fst ∧ k ∉ fieldKeys) ∧
      ((∀ k ∈ fields.map Prod.fst, k ∈ fieldKeys) →
        ((∃ t, ofJson (.object fields) = .ok t) ↔
          ∀ f ∈ fields, ∃ r, ofJson (.object [f]) = .ok r) ∧
        ∀ t, ofJson (.object fields) = .ok t ↔ TakesEach fields t)) ∧
    ∀ s : Settings, s.graceRatio.isFinite = true →
      ofJson s.toJson = .ok s ∧
      ((∀ n ∈ [s.maxChars, s.maxLines, s.contextLines, s.maxMatches], n < Nat.pow 2 64) →
        (Json.Number.float s.graceRatio).ReadsBack →
        ofBytes s.toJson.compact.toUTF8 = .ok s) := by
  refine ⟨fun v hv => ?_, fun fields hkeys => ⟨fun hunknown => ?_, fun hknown => ⟨?_, fun t => ?_⟩⟩,
    fun s _ => ⟨ofJson_toJson s, ofBytes_compact_toJson⟩⟩
  · cases v
    case object fields => exact absurd rfl (hv fields)
    all_goals rfl
  · exact ⟨unknownKeys fields, ofJson_object_eq_unknownFields hunknown,
      pairwise_unknownKeys hkeys, fun k => mem_unknownKeys_iff⟩
  · exact exists_ofJson_iff hkeys hknown
  · rw [ofJson_object_eq_ok_iff hkeys, and_iff_right hknown, takesEach_iff hkeys]

/-- No object, two unknown keys before a value that does not fit, two known keys, and the
default settings. -/
theorem fieldwise_of_json_known_keys :
    ofJson (.array []) = .error .notTable ∧
    (∃ keys, ofJson (.object
        [("overlap", .null), ("chunk_size", .null), ("max_chars", .string "x")]) =
          .error (.unknownFields keys) ∧
        keys.Pairwise (· < ·) ∧ ∀ k, k ∈ keys ↔ k = "overlap" ∨ k = "chunk_size") ∧
    ofJson (.object [("strategy", .string "B"), ("max_lines", Json.ofNat 40)]) =
      .ok { maxLines := 40, strategy := .hybrid } ∧
    ofBytes ({} : Settings).toJson.compact.toUTF8 = .ok {} := by
  obtain ⟨hother, hobject, hwritten⟩ := fieldwise_of_json
  refine ⟨hother _ (by simp), ?_, ?_, ?_⟩
  · obtain ⟨keys, hkeys, hsorted, hmem⟩ := (hobject
      [("overlap", .null), ("chunk_size", .null), ("max_chars", .string "x")] (by simp)).1
        ⟨"overlap", by simp, by decide⟩
    refine ⟨keys, hkeys, hsorted, fun k => (hmem k).trans ⟨?_, ?_⟩⟩
    · rintro ⟨hk, hunknown⟩
      simp only [List.map_cons, List.map_nil, List.mem_cons, List.not_mem_nil, or_false] at hk
      obtain rfl | rfl | rfl := hk
      exacts [.inl rfl, .inr rfl, absurd (by decide) hunknown]
    · rintro (rfl | rfl)
      exacts [⟨by simp, by decide⟩, ⟨by simp, by decide⟩]
  · have hknown := (hobject [("strategy", .string "B"), ("max_lines", Json.ofNat 40)]
      (by simp)).2 (by simp [fieldKeys])
    refine (hknown.2 _).2 ⟨fun key v hmem => ?_, fun key habsent => ?_⟩
    · refine exists_ofJson_singleton_iff.2 ?_
      cases key <;> simp [Key.name] at hmem <;> subst hmem <;> rfl
    · cases key <;> simp [Key.name] at habsent <;> rfl
  · exact (hwritten {} (by decide +kernel)).2 (by decide) readsBack_graceRatio

end CodeParts.Settings
