import CodeParts.Proofs.Json.Numbers

/-!
# Reading JSON that was written

Reading the text of a value on one line gives the value back (`read?_compact`), if its numbers
are read back, its objects have different keys and it does not nest too deep (`Readable`).
Strings are read back whatever they are (`string?_quoted`). Items between commas are said once,
for the values of an array and the fields of an object alike (`container?_intercalate`).
-/

namespace CodeParts.Json

variable {α : Type} {cs rest : List Char} {c : Char} {n : Number} {v : Json} {fuel depth : Nat}

/-! ### Strings -/

theorem hexValue?_hexDigit : ∀ k < 16, hexValue? (hexDigit k) = some k := by
  decide

/-- A character by its number. -/
theorem unitChar?_hexDigit (h : c.toNat < 0x20) (cs : List Char) :
    unitChar? ('0' :: '0' :: hexDigit (c.toNat / 16) :: hexDigit (c.toNat % 16) :: cs) =
      some (c, cs) := by
  have hunit : unit? ('0' :: '0' :: hexDigit (c.toNat / 16) :: hexDigit (c.toNat % 16) :: cs) =
      some (c.toNat, cs) := by
    have hzero : hexValue? '0' = some 0 := rfl
    simp only [unit?, hzero, hexValue?_hexDigit _ (show c.toNat / 16 < 16 by omega),
      hexValue?_hexDigit _ (show c.toNat % 16 < 16 by omega), Option.bind_eq_bind,
      Option.bind_some, Option.some.injEq, Prod.mk.injEq, and_true]
    omega
  rw [unitChar?, hunit]
  simp only [Option.bind_eq_bind, Option.bind_some]
  rw [if_neg (by omega), if_neg (by omega), Char.ofNat_toNat]

/-- A character is read back as it was written. -/
theorem stringTail?_escaped (done : List Char) (c : Char) (cs : List Char) :
    stringTail? done (fuel + 1) (escaped c ++ cs) = stringTail? (c :: done) fuel cs := by
  rw [escaped]
  split_ifs with hquote hbackslash h h h h h hcontrol
  -- Seven characters have a letter of their own, other control characters their number.
  iterate 7
    · subst c
      rfl
  · have hescape : escape? ('u' :: '0' :: '0' :: hexDigit (c.toNat / 16) ::
        hexDigit (c.toNat % 16) :: cs) = some (c, cs) := unitChar?_hexDigit hcontrol cs
    simp only [List.cons_append, List.nil_append, stringTail?, hescape]
    rfl
  · rw [List.singleton_append, stringTail?, if_neg hquote, if_neg hbackslash, if_neg hcontrol]

theorem stringTail?_eq (done ds : List Char) (h : ds.length < fuel) (rest : List Char) :
    stringTail? done fuel (ds.flatMap escaped ++ '"' :: rest) =
      some (String.ofList (done.reverse ++ ds), rest) := by
  induction ds generalizing done fuel with
  | nil =>
      obtain ⟨fuel, rfl⟩ := Nat.exists_eq_add_one.2 h
      rw [List.flatMap_nil, List.nil_append, List.append_nil, stringTail?, if_pos rfl]
  | cons d ds ih =>
      obtain ⟨fuel, rfl⟩ := Nat.exists_eq_add_one.2 (Nat.zero_lt_of_lt h)
      rw [List.flatMap_cons, List.append_assoc, stringTail?_escaped,
        ih (d :: done) (Nat.lt_of_succ_lt_succ h), List.reverse_cons, List.append_assoc,
        List.singleton_append]

theorem length_le_length_quoted (s : String) : s.length ≤ (quoted s).toList.length := by
  have hescaped : ∀ cs : List Char, cs.length ≤ (cs.flatMap escaped).length := by
    intro cs
    induction cs with
    | nil => exact Nat.le_refl 0
    | cons c cs ih =>
        have hne : 0 < (escaped c).length := by
          rw [escaped]
          split_ifs <;> exact Nat.zero_lt_succ _
        rw [List.flatMap_cons, List.length_append, List.length_cons]
        omega
  have := hescaped s.toList
  simp only [quoted, String.toList_append, String.toList_ofList, List.length_append,
    String.length_toList] at this ⊢
  omega

/-- A string is read back as it was written. -/
theorem string?_quoted (s : String) (h : s.length < fuel) (rest : List Char) :
    string? fuel ((quoted s).toList ++ rest) = some (s, rest) := by
  have hquoted : (quoted s).toList ++ rest = '"' :: (s.toList.flatMap escaped ++ '"' :: rest) := by
    simp [quoted]
  rw [hquoted, string?, stringTail?_eq [] _ h, List.reverse_nil, List.nil_append,
    String.ofList_toList]

/-! ### Where a value begins -/

/-- The text begins with something that is neither white space nor a delimiter. -/
def StartsItem (cs : List Char) : Prop :=
  ∃ c ∈ cs.head?, isSpace c = false ∧ isDelimiter c = false

theorem startsItem_cons (hspace : isSpace c = false) (hdelimiter : isDelimiter c = false) :
    StartsItem (c :: cs) :=
  ⟨c, rfl, hspace, hdelimiter⟩

theorem StartsItem.skipSpace_eq (h : StartsItem cs) : skipSpace cs = cs := by
  obtain ⟨c, hc, hspace, -⟩ := h
  obtain ⟨cs, rfl⟩ := List.head?_eq_some_iff.1 hc
  simp [skipSpace, hspace]

theorem StartsItem.head?_ne (h : StartsItem cs) (hc : isDelimiter c = true) :
    cs.head? ≠ some c := by
  obtain ⟨d, hd, -, hdelimiter⟩ := h
  rw [Option.mem_def.1 hd]
  rintro ⟨⟩
  rw [hc] at hdelimiter
  cases hdelimiter

theorem skipSpace_delimiter (hc : isDelimiter c = true) : skipSpace (c :: cs) = c :: cs := by
  have hspace : isSpace c = false := by
    obtain rfl | rfl | rfl := isDelimiter_iff.1 hc <;> rfl
  simp [skipSpace, hspace]

theorem startsItem_of_number? {r : Number × List Char} (h : number? cs = some r) :
    StartsItem cs := by
  cases cs with
  | nil => cases h
  | cons c cs =>
      have hspace : isSpace c = false := by
        refine Bool.eq_false_iff.2 fun hc => ?_
        simp only [isSpace, Bool.or_eq_true, decide_eq_true_eq] at hc
        rcases hc with ((rfl | rfl) | rfl) | rfl <;>
          rcases head_of_number? h with hc | hc <;> cases hc
      have hdelimiter : isDelimiter c = false := by
        refine Bool.eq_false_iff.2 fun hc => ?_
        obtain rfl | rfl | rfl := isDelimiter_iff.1 hc <;>
          rcases head_of_number? h with hc | hc <;> cases hc
      exact startsItem_cons hspace hdelimiter

theorem startsItem_of_value? {r : Json × List Char} (h : value? fuel depth cs = some r) :
    StartsItem cs := by
  unfold value? at h
  split at h
  case h_7 =>
    obtain ⟨r, h, -⟩ := Option.map_eq_some_iff.1 h
    exact startsItem_of_number? h
  all_goals exact startsItem_cons rfl rfl

theorem startsItem_of_string? {r : String × List Char} (h : string? fuel cs = some r) :
    StartsItem cs := by
  unfold string? at h
  split at h
  · exact startsItem_cons rfl rfl
  · cases h

/-! ### Items between commas -/

section Items

variable {item? : List Char → Option (α × List Char)} {closing : Char} {text : α → List Char}
  {as done : List α}

/-- The text is read as the item, whatever stands behind it. -/
def ItemReads (item? : List Char → Option (α × List Char)) (text : List Char) (a : α) : Prop :=
  ∀ rest, Delimited rest → item? (text ++ rest) = some (a, rest)

theorem items?_cons_closing {a : α} (hstarts : StartsItem cs) (hclosing : isDelimiter closing)
    (hread : item? cs = some (a, closing :: rest)) :
    items? item? closing done (fuel + 1) cs = some (done.reverse ++ [a], rest) := by
  rw [items?, hstarts.skipSpace_eq, hread]
  simp only
  rw [skipSpace_delimiter hclosing]
  simp

theorem items?_cons_comma {a : α} (hstarts : StartsItem cs) (hcomma : closing ≠ ',')
    (hread : item? cs = some (a, ',' :: rest)) :
    items? item? closing done (fuel + 1) cs = items? item? closing (a :: done) fuel rest := by
  rw [items?, hstarts.skipSpace_eq, hread]
  simp only
  rw [skipSpace_delimiter rfl]
  simp [hcomma.symm]

theorem container?_of_startsItem (h : StartsItem cs) (hclosing : isDelimiter closing = true) :
    container? item? closing fuel cs = items? item? closing [] fuel cs := by
  unfold container?
  rw [h.skipSpace_eq]
  split
  · next c cs => rw [if_neg fun hc => h.head?_ne hclosing (congrArg some hc)]
  · obtain ⟨c, hc, -⟩ := h
    cases hc

theorem intercalate_map_cons_cons (a b : α) (as : List α) (rest : List Char) :
    [','].intercalate ((a :: b :: as).map text) ++ rest =
      text a ++ ',' :: ([','].intercalate ((b :: as).map text) ++ rest) := by
  rw [List.map_cons, List.map_cons, List.intercalate_cons_cons, List.append_assoc,
    List.append_assoc, List.singleton_append]

/-- Behind the first item stands a comma or what closes the items. -/
theorem exists_intercalate_cons (hclosing : isDelimiter closing = true) (a : α) (as : List α) :
    ∃ tail, Delimited tail ∧
      [','].intercalate ((a :: as).map text) ++ closing :: rest = text a ++ tail := by
  cases as with
  | nil =>
      refine ⟨closing :: rest, delimited_cons hclosing rest, ?_⟩
      rw [List.map_singleton, List.intercalate_singleton]
  | cons b as => exact ⟨_, delimited_cons rfl _, intercalate_map_cons_cons a b as _⟩

variable (hclosing : isDelimiter closing = true) (hcomma : closing ≠ ',')
  (hstarts : ∀ cs r, item? cs = some r → StartsItem cs)

include hclosing hcomma hstarts

theorem items?_intercalate (hne : as ≠ []) (hreads : ∀ a ∈ as, ItemReads item? (text a) a)
    (hfuel : as.length ≤ fuel) :
    items? item? closing done fuel ([','].intercalate (as.map text) ++ closing :: rest) =
      some (done.reverse ++ as, rest) := by
  induction as generalizing done fuel with
  | nil => exact absurd rfl hne
  | cons a as ih =>
      obtain ⟨fuel, rfl⟩ := Nat.exists_eq_add_one.2 (Nat.lt_of_lt_of_le as.length.succ_pos hfuel)
      rw [List.forall_mem_cons] at hreads
      cases as with
      | nil =>
          have hread := hreads.1 (closing :: rest) (delimited_cons hclosing rest)
          rw [List.map_singleton, List.intercalate_singleton,
            items?_cons_closing (hstarts _ _ hread) hclosing hread]
      | cons b as =>
          have hread := hreads.1 (',' :: ([','].intercalate ((b :: as).map text) ++
            closing :: rest)) (delimited_cons rfl _)
          rw [intercalate_map_cons_cons, items?_cons_comma (hstarts _ _ hread) hcomma hread,
            ih (List.cons_ne_nil _ _) hreads.2 (Nat.le_of_succ_le_succ hfuel),
            List.reverse_cons, List.append_assoc, List.singleton_append]

/-- Items between commas are read up to what closes them. -/
theorem container?_intercalate (hreads : ∀ a ∈ as, ItemReads item? (text a) a)
    (hfuel : as.length ≤ fuel) :
    container? item? closing fuel ([','].intercalate (as.map text) ++ closing :: rest) =
      some (as, rest) := by
  cases as with
  | nil => simp [container?, skipSpace_delimiter hclosing]
  | cons a as =>
      obtain ⟨tail, htail, heq⟩ := exists_intercalate_cons hclosing a as
      have hstart := hstarts _ _ (hreads a List.mem_cons_self tail htail)
      rw [← heq] at hstart
      rw [container?_of_startsItem hstart hclosing,
        items?_intercalate hclosing hcomma hstarts (List.cons_ne_nil a as) hreads hfuel,
        List.reverse_nil, List.nil_append]

end Items

/-! ### Fields -/

theorem lastWins_of_nodup {fields : List (String × Json)} (h : (fields.map Prod.fst).Nodup) :
    lastWins fields = fields := by
  -- What is kept and what is still to come have different keys.
  suffices hkept : ∀ kept : List (String × Json), ((kept ++ fields).map Prod.fst).Nodup →
      fields.foldl
        (fun kept f =>
          if kept.any (·.1 == f.1) then kept.map fun g => if g.1 == f.1 then f else g
          else kept ++ [f])
        kept = kept ++ fields from hkept [] h
  clear h
  induction fields with
  | nil => exact fun kept _ => (List.append_nil kept).symm
  | cons f fields ih =>
      intro kept h
      have hnew : kept.any (·.1 == f.1) = false := by
        rw [List.any_eq_false]
        intro g hg heq
        rw [List.map_append, List.nodup_append] at h
        exact h.2.2 _ (List.mem_map_of_mem hg) _ List.mem_cons_self (beq_iff_eq.1 heq)
      rw [List.foldl_cons, hnew, if_neg Bool.false_ne_true, ih, List.append_assoc,
        List.singleton_append]
      rwa [List.append_assoc, List.singleton_append]

/-- The text of a field. -/
def fieldText (f : String × Json) : List Char := (quoted f.1).toList ++ ':' :: f.2.compact.toList

theorem field?_fieldText {f : String × Json} (hfuel : (fieldText f).length < fuel)
    (h : ItemReads (value? fuel depth) f.2.compact.toList f.2) :
    ItemReads (field? (value? fuel depth) fuel) (fieldText f) f := by
  intro rest hrest
  have hkey : f.1.length < fuel := by
    have := length_le_length_quoted f.1
    rw [fieldText, List.length_append] at hfuel
    omega
  have hvalue := h rest hrest
  rw [fieldText, List.append_assoc, List.cons_append, field?, string?_quoted f.1 hkey]
  have hcolon (cs : List Char) : skipSpace (':' :: cs) = ':' :: cs := rfl
  simp [hcolon, after?, (startsItem_of_value? hvalue).skipSpace_eq, hvalue]

theorem startsItem_of_field? {value? : List Char → Option (Json × List Char)}
    {r : (String × Json) × List Char} (h : field? value? fuel cs = some r) : StartsItem cs := by
  simp only [field?, Option.bind_eq_bind, Option.bind_eq_some_iff] at h
  obtain ⟨_, hkey, -⟩ := h
  exact startsItem_of_string? hkey

/-! ### Values -/

/-- The value is read back from its text: its numbers are, its objects have different keys, and
it does not nest deeper than `depth`. -/
inductive Readable : (depth : Nat) → Json → Prop
  | null {depth : Nat} : Readable depth .null
  | bool {depth : Nat} (b : Bool) : Readable depth (.bool b)
  | number {depth : Nat} {n : Number} (h : n.ReadsBack) : Readable depth (.number n)
  | string {depth : Nat} (s : String) : Readable depth (.string s)
  | array {depth : Nat} {items : List Json} (h : ∀ v ∈ items, Readable depth v) :
      Readable (depth + 1) (.array items)
  | object {depth : Nat} {fields : List (String × Json)} (hkeys : (fields.map Prod.fst).Nodup)
      (h : ∀ f ∈ fields, Readable depth f.2) : Readable (depth + 1) (.object fields)

theorem compactItems_eq (items : List Json) : compactItems items = items.map compact := by
  induction items with
  | nil => rfl
  | cons v items ih => rw [compactItems, ih, List.map_cons]

theorem compactFields_eq (fields : List (String × Json)) :
    compactFields fields = fields.map fun f => quoted f.1 ++ ":" ++ f.2.compact := by
  induction fields with
  | nil => rfl
  | cons f fields ih => rw [compactFields, ih, List.map_cons]

theorem toList_compact_array (items : List Json) :
    (compact (.array items)).toList =
      '[' :: ([','].intercalate (items.map fun v => v.compact.toList) ++ [']']) := by
  simp [compact, compactItems_eq, String.toList_intercalate, Function.comp_def]

theorem toList_compact_object (fields : List (String × Json)) :
    (compact (.object fields)).toList =
      '\x7b' :: ([','].intercalate (fields.map fieldText) ++ ['\x7d']) := by
  simp [compact, compactFields_eq, String.toList_intercalate, Function.comp_def]
  rfl

theorem value?_of_string? {s : String} (h : string? fuel cs = some (s, rest)) :
    value? fuel depth cs = some (.string s, rest) := by
  unfold string? at h
  split at h
  · rw [value?, string?, h]
    rfl
  · cases h

theorem value?_of_number? (h : number? cs = some (n, rest)) :
    value? fuel depth cs = some (.number n, rest) := by
  unfold value?
  split
  case h_7 => rw [h]; rfl
  all_goals rcases head_of_number? h with hc | hc <;> cases hc

/-- No text is longer than what it is a part of. -/
theorem length_le_intercalate {texts : List (List Char)} {text : List Char} (h : text ∈ texts) :
    text.length ≤ ([','].intercalate texts).length := by
  induction texts with
  | nil => cases h
  | cons first texts ih =>
      cases texts with
      | nil => rw [List.mem_singleton.1 h, List.intercalate_singleton]
      | cons second texts =>
          rw [List.intercalate_cons_cons, List.append_assoc, List.length_append, List.length_append]
          rcases List.mem_cons.1 h with rfl | h
          · exact Nat.le_add_right _ _
          · have := ih h
            omega

theorem length_le_length_intercalate (texts : List (List Char)) :
    texts.length ≤ ([','].intercalate texts).length + 1 := by
  induction texts with
  | nil => exact Nat.zero_le _
  | cons first texts ih =>
      cases texts with
      | nil => simp
      | cons second texts =>
          rw [List.intercalate_cons_cons, List.append_assoc, List.length_append, List.length_append,
            List.length_singleton, List.length_cons]
          omega

/-- Fuel for a text in brackets is fuel for the items and for the text of each. -/
theorem lt_fuel_of_bracketed {opening closing : Char} {text : α → List Char} {as : List α}
    (h : (opening :: ([','].intercalate (as.map text) ++ [closing])).length < fuel) :
    as.length ≤ fuel ∧ ∀ a ∈ as, (text a).length < fuel := by
  have hcount := length_le_length_intercalate (as.map text)
  rw [List.length_cons, List.length_append, List.length_singleton] at h
  rw [List.length_map] at hcount
  refine ⟨by omega, fun a ha => ?_⟩
  have := length_le_intercalate (List.mem_map_of_mem (f := text) ha)
  omega

theorem lt_of_fieldText {f : String × Json} (h : (fieldText f).length < fuel) :
    f.2.compact.toList.length < fuel := by
  rw [fieldText, List.length_append, List.length_cons] at h
  omega

/-- A value is read back from its text on one line. -/
theorem value?_compact (h : Readable depth v) (hfuel : v.compact.toList.length < fuel) :
    ItemReads (value? fuel depth) v.compact.toList v := by
  induction h with
  | null => exact fun rest _ => by simp [compact, value?, after?]
  | bool b => exact fun rest _ => by cases b <;> simp [compact, value?, after?]
  | number h =>
      intro rest hrest
      rw [compact]
      exact value?_of_number? (h.number?_eq hrest)
  | string s =>
      intro rest _
      rw [compact] at hfuel ⊢
      have hlength := Nat.lt_of_le_of_lt (length_le_length_quoted s) hfuel
      exact value?_of_string? (string?_quoted s hlength rest)
  | array _ ih =>
      intro rest _
      rw [toList_compact_array] at hfuel ⊢
      obtain ⟨hcount, hlength⟩ := lt_fuel_of_bracketed hfuel
      rw [List.cons_append, List.append_assoc, List.singleton_append, value?,
        container?_intercalate rfl (by decide) (fun _ _ => startsItem_of_value?)
          (fun v hv => ih v hv (hlength v hv)) hcount]
      rfl
  | @object depth fields hkeys _ ih =>
      intro rest _
      rw [toList_compact_object] at hfuel ⊢
      obtain ⟨hcount, hlength⟩ := lt_fuel_of_bracketed hfuel
      have hreads : ∀ f ∈ fields,
          ItemReads (field? (value? fuel depth) fuel) (fieldText f) f := fun f hf =>
        field?_fieldText (hlength f hf) (ih f hf (lt_of_fieldText (hlength f hf)))
      rw [List.cons_append, List.append_assoc, List.singleton_append, value?,
        container?_intercalate rfl (by decide) (fun _ _ => startsItem_of_field?) hreads hcount]
      simp only [Option.map_some, lastWins_of_nodup hkeys]

/-- Reading the text of a value gives the value back. -/
theorem read?_compact (h : Readable maxDepth v) : read? v.compact.toList = some v := by
  have hread := value?_compact h (Nat.lt_succ_self _) [] delimited_nil
  rw [List.append_nil] at hread
  rw [read?, (startsItem_of_value? hread).skipSpace_eq, hread]
  rfl

end CodeParts.Json
