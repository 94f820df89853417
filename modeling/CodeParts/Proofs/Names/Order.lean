import CodeParts.Proofs.Names.Declared
import Mathlib.Data.Prod.Lex
import Mathlib.Order.Bounds.Basic

/-!
# The order of declared names

Declared names are listed form by form and, within a form, from left to right, each where it is
captured first. So a list of things that happen one after the other, each with a name, is the
common picture: of two names the one that happens first comes first
(`pair_sublist_eraseDups_iff`). Here what happens is that a form captures a name at an offset
(`captureEvents`). A limit on the number of names takes the front of the list
(`declared_in_order`), and the names behind it need not be looked for (`keepNew_eq`).
-/

namespace CodeParts.Names

open Pattern

variable {src : Source} {x y : String} {xs kept : List String} {i j a b max : Nat}

/-! ### The first of equal names -/

theorem nodup_eraseDups (xs : List String) : xs.eraseDups.Nodup := by
  induction hn : xs.length using Nat.strongRecOn generalizing xs with
  | ind n ih =>
      cases xs with
      | nil => exact .nil
      | cons x xs =>
          rw [List.eraseDups_cons]
          refine List.nodup_cons.2 ⟨fun hmem => ?_, ih _ ?_ _ rfl⟩
          · have := (List.mem_filter.1 (List.mem_eraseDups.1 hmem)).2
            simp at this
          · have := List.length_filter_le (fun y => !y == x) xs
            rw [List.length_cons] at hn
            omega

theorem length_eraseDups_le (xs : List String) : xs.eraseDups.length ≤ xs.length :=
  (nodup_eraseDups xs).length_le_of_subset fun _ => List.mem_eraseDups.1

section Events

variable {κ : Type} [LinearOrder κ] {events : List (κ × String)} {e : κ × String} {k l : κ}

/-- The first name of a list in order stands first at its beginning, and any other one where it
stands first behind that. -/
theorem isLeast_cons_iff (h : (e :: events).Pairwise fun e f => e.1 < f.1) :
    IsLeast {k | (k, x) ∈ e :: events} k ↔
      if x = e.2 then k = e.1 else IsLeast {k | (k, x) ∈ events} k := by
  obtain ⟨hlt, -⟩ := List.pairwise_cons.1 h
  split
  · next hx =>
    subst hx
    have hleast : IsLeast {k | (k, e.2) ∈ e :: events} e.1 := by
      refine ⟨List.mem_cons_self, fun k hk => ?_⟩
      rcases List.mem_cons.1 hk with heq | hk
      · exact (congrArg Prod.fst heq).ge
      · exact (hlt _ hk).le
    exact ⟨fun hk => hk.unique hleast, fun hk => hk ▸ hleast⟩
  · next hx =>
    have hset : {k | (k, x) ∈ e :: events} = {k | (k, x) ∈ events} := by
      ext k
      refine ⟨fun hk => (List.mem_cons.1 hk).resolve_left fun heq => hx ?_, List.mem_cons_of_mem e⟩
      exact congrArg Prod.snd heq
    rw [hset]

theorem exists_isLeast (h : events.Pairwise fun e f => e.1 < f.1) (hk : (k, x) ∈ events) :
    ∃ l, IsLeast {k | (k, x) ∈ events} l := by
  induction events with
  | nil => cases hk
  | cons e events ih =>
      simp only [isLeast_cons_iff h]
      split
      · exact ⟨_, rfl⟩
      · next hx =>
        refine ih (List.pairwise_cons.1 h).2 ((List.mem_cons.1 hk).resolve_left fun heq => hx ?_)
        exact congrArg Prod.snd heq

omit [LinearOrder κ] in
theorem mem_filter_ne_iff : (k, x) ∈ events.filter (fun f => !f.2 == y) ↔
    (k, x) ∈ events ∧ x ≠ y := by
  simp

/-- Of two names in a list without repetitions the one comes first that stands first in the list
with repetitions. -/
theorem pair_sublist_eraseDups_iff (h : events.Pairwise fun e f => e.1 < f.1) :
    [x, y].Sublist (events.map Prod.snd).eraseDups ↔
      ∃ k l, IsLeast {k | (k, x) ∈ events} k ∧ IsLeast {k | (k, y) ∈ events} l ∧ k < l := by
  induction hn : events.length using Nat.strongRecOn generalizing events with
  | ind n ih =>
      cases events with
      | nil => simp [IsLeast]
      | cons e events =>
          obtain ⟨hlt, hrest⟩ := List.pairwise_cons.1 h
          have hlength := List.length_filter_le (fun f => !f.2 == e.2) events
          have herase : ((e :: events).map Prod.snd).eraseDups =
              e.2 :: ((events.filter fun f => !f.2 == e.2).map Prod.snd).eraseDups := by
            rw [List.map_cons, List.eraseDups_cons, List.filter_map]
            rfl
          rw [herase, List.cons_sublist_cons', List.singleton_sublist,
            ih _ (by rw [← hn, List.length_cons]; omega) (hrest.filter _) rfl]
          simp only [isLeast_cons_iff h, mem_filter_ne_iff, List.mem_eraseDups]
          have hnone (k : κ) : ¬IsLeast {k | (k, e.2) ∈ events ∧ e.2 ≠ e.2} k :=
            fun hk => hk.1.2 rfl
          by_cases hx : x = e.2
          · -- Behind the first name come just those that have another one.
            subst hx
            simp only [hnone, false_and, exists_false, true_and, false_or, if_true, List.mem_map,
              List.mem_filter]
            constructor
            · rintro ⟨f, ⟨hf, hne⟩, rfl⟩
              obtain ⟨l, hl⟩ := exists_isLeast hrest (x := f.2) hf
              exact ⟨e.1, l, rfl, by rw [if_neg (by simpa using hne)]; exact hl, hlt _ hl.1⟩
            · rintro ⟨_, l, rfl, hl, hel⟩
              by_cases hy : y = e.2
              · rw [if_pos hy] at hl
                exact absurd hl hel.ne'
              · rw [if_neg hy] at hl
                exact ⟨(l, y), ⟨hl.1, by simpa using hy⟩, rfl⟩
          · by_cases hy : y = e.2
            · -- Nothing comes before the first name.
              subst hy
              simp only [hnone, hx, false_and, and_false, exists_false, or_false, if_true, if_false,
                false_iff, not_exists, not_and]
              rintro k _ hk rfl
              exact (hlt _ hk.1).not_gt
            · simp [hx, hy]

end Events

/-! ### Captures -/

/-- The form with number `i` in the list of forms captures the name by a match that begins at
offset `a`. -/
def CapturedAt (src : Source) (x : String) (i a : Nat) : Prop :=
  ∃ p m, declarations[i]? = some p ∧ m ∈ p.allMatches src ∧ m.text? src "name" = some x ∧
    m.start = a

/-- The form with number `i` is the first that captures the name, and its first match that does
begins at offset `a`. -/
structure FirstCapturedAt (src : Source) (x : String) (i a : Nat) : Prop where
  captured : CapturedAt src x i a
  form_le : ∀ j b, CapturedAt src x j b → i ≤ j
  start_le : ∀ b, CapturedAt src x i b → a ≤ b

/-- The matches of the forms, form by form and from left to right, with the names that they
capture. -/
def captureEvents (src : Source) : List ((Nat ×ₗ Nat) × String) :=
  declarations.zipIdx.flatMap fun f => (f.1.allMatches src).filterMap fun m =>
    (m.text? src "name").map fun x => (toLex (f.2, m.start), x)

theorem mem_captureEvents : (toLex (i, a), x) ∈ captureEvents src ↔ CapturedAt src x i a := by
  simp only [captureEvents, CapturedAt, List.mem_flatMap, List.mem_filterMap, Prod.exists,
    List.mem_zipIdx_iff_getElem?, Option.map_eq_some_iff, Prod.mk.injEq, toLex_inj]
  constructor
  · rintro ⟨p, _, hp, m, hm, _, hx, ⟨rfl, rfl⟩, rfl⟩
    exact ⟨p, m, hp, hm, hx, rfl⟩
  · rintro ⟨p, m, hp, hm, hx, rfl⟩
    exact ⟨p, i, hp, m, hm, x, hx, ⟨rfl, rfl⟩, rfl⟩

theorem isLeast_captureEvents_iff :
    IsLeast {k | (k, x) ∈ captureEvents src} (toLex (i, a)) ↔ FirstCapturedAt src x i a := by
  constructor
  · rintro ⟨hmem, hleast⟩
    have hle {j b : Nat} (h : CapturedAt src x j b) : i < j ∨ i = j ∧ a ≤ b :=
      Prod.Lex.toLex_le_toLex.1 (hleast (mem_captureEvents.2 h))
    constructor
    case captured => exact mem_captureEvents.1 hmem
    case form_le =>
      intro j b h
      have := hle h
      omega
    case start_le =>
      intro b h
      have := hle h
      omega
  · intro h
    refine ⟨mem_captureEvents.2 h.captured, fun k hk => ?_⟩
    obtain ⟨⟨j, b⟩, rfl⟩ := toLex.surjective k
    have hcaptured := mem_captureEvents.1 hk
    rcases Nat.eq_or_lt_of_le (h.form_le j b hcaptured) with rfl | hlt
    · exact Prod.Lex.toLex_le_toLex.2 (.inr ⟨rfl, h.start_le b hcaptured⟩)
    · exact Prod.Lex.toLex_le_toLex.2 (.inl hlt)

theorem pairwise_captureEvents (src : Source) :
    (captureEvents src).Pairwise fun e f => e.1 < f.1 := by
  have hindex : declarations.zipIdx.Pairwise fun f g => f.2 < g.2 := by
    rw [← List.pairwise_map (f := Prod.snd), List.zipIdx_map_snd]
    exact List.pairwise_lt_range'
  refine List.pairwise_flatMap.2 ⟨fun f _ => List.pairwise_filterMap.2 ?_, hindex.imp ?_⟩
  · refine (pairwise_start_findAll src f.1 0).imp fun hlt e he e' he' => ?_
    obtain ⟨_, -, rfl⟩ := Option.map_eq_some_iff.1 he
    obtain ⟨_, -, rfl⟩ := Option.map_eq_some_iff.1 he'
    exact Prod.Lex.toLex_lt_toLex.2 (.inr ⟨rfl, hlt⟩)
  · intro f g hlt e he e' he'
    obtain ⟨m, -, hm⟩ := List.mem_filterMap.1 he
    obtain ⟨m', -, hm'⟩ := List.mem_filterMap.1 he'
    obtain ⟨_, -, rfl⟩ := Option.map_eq_some_iff.1 hm
    obtain ⟨_, -, rfl⟩ := Option.map_eq_some_iff.1 hm'
    exact Prod.Lex.toLex_lt_toLex.2 (.inl hlt)

theorem map_snd_captureEvents (src : Source) :
    (captureEvents src).map Prod.snd = declarations.flatMap fun p => p.captures src "name" := by
  have hform (f : Pattern × Nat) : ((f.1.allMatches src).filterMap fun m =>
      (m.text? src "name").map fun x => (toLex (f.2, m.start), x)).map Prod.snd =
        f.1.captures src "name" := by
    rw [List.map_filterMap, captures]
    refine List.filterMap_congr fun m _ => ?_
    rw [Option.map_map]
    exact Option.map_id'
  have hforms : declarations = declarations.zipIdx.map Prod.fst :=
    (List.zipIdx_map_fst 0 declarations).symm
  conv_rhs => rw [hforms, List.flatMap_map]
  rw [captureEvents, List.map_flatMap]
  exact List.flatMap_congr fun f _ => hform f

/-! ### Looking for no more than wanted -/

/-- Takes names one after the other, keeps those that are not yet kept, and goes no further once
there are as many as wanted. -/
def keepNew (max : Nat) (kept : List String) : List String → List String
  | [] => kept
  | x :: xs =>
      if max ≤ kept.length then kept
      else if x ∈ kept then keepNew max kept xs
      else keepNew max (kept ++ [x]) xs

theorem keepNew_eq (h : kept.length ≤ max) :
    keepNew max kept xs =
      kept ++ (xs.filter (· ∉ kept)).eraseDups.take (max - kept.length) := by
  induction xs generalizing kept with
  | nil => simp [keepNew]
  | cons x xs ih =>
      rw [keepNew]
      split
      · next hfull => simp [Nat.sub_eq_zero_of_le hfull]
      · next hroom =>
        split
        · next hx => rw [ih h, List.filter_cons_of_neg (by simpa using hx)]
        · next hx =>
          have hfilter : xs.filter (· ∉ kept ++ [x]) =
              (xs.filter (· ∉ kept)).filter (fun y => !y == x) := by
            rw [List.filter_filter]
            refine List.filter_congr fun y _ => ?_
            rw [Bool.eq_iff_iff]
            simp [and_comm]
          have hlength : max - kept.length = (max - (kept ++ [x]).length) + 1 := by
            rw [List.length_append, List.length_singleton]
            omega
          rw [ih (by rw [List.length_append, List.length_singleton]; omega),
            List.filter_cons_of_pos (by simpa using hx), List.eraseDups_cons, hlength, hfilter,
            List.take_succ_cons, List.append_assoc, List.singleton_append]

theorem declaredNames_eq_keepNew (src : Source) (max : Nat) :
    declaredNames src max =
      keepNew max [] (declarations.flatMap fun p => p.captures src "name") := by
  rw [keepNew_eq (Nat.zero_le max), declaredNames]
  simp

/-! ### The declared names of a text -/

/-- The matches of all forms. -/
def declarationMatches (src : Source) : List Match := declarations.flatMap (·.allMatches src)

theorem length_captures_le (src : Source) :
    (declarations.flatMap fun p => p.captures src "name").length ≤
      (declarationMatches src).length := by
  have hcaptures : (declarations.flatMap fun p => p.captures src "name") =
      (declarationMatches src).filterMap fun m => m.text? src "name" :=
    List.filterMap_flatMap.symm
  rw [hcaptures]
  exact List.length_filterMap_le _ _

/-- With room for all matches, all names are listed. -/
theorem declaredNames_of_le (h : (declarationMatches src).length ≤ max) :
    declaredNames src max = (declarations.flatMap fun p => p.captures src "name").eraseDups :=
  List.take_of_length_le
    (Nat.le_trans (length_eraseDups_le _) (Nat.le_trans (length_captures_le src) h))

/-- With room for all matches the declared names of a text are just those that a form captures,
each once, and of two names the one comes first that an earlier form captures first, or the same
form further to the left. Any other limit takes names from the front of that list, and looks for
no more names once it is reached. -/
theorem declared_in_order (text : String) (max : Nat)
    (hmax : (declarationMatches (.ofString text)).length ≤ max) :
    (declaredNames (.ofString text) max).Nodup ∧
      (∀ x, x ∈ declaredNames (.ofString text) max ↔
        ∃ p ∈ declarations, ∃ m ∈ p.allMatches (.ofString text),
          m.text? (.ofString text) "name" = some x) ∧
      (∀ x y, [x, y].Sublist (declaredNames (.ofString text) max) ↔
        ∃ i a j b, FirstCapturedAt (.ofString text) x i a ∧
          FirstCapturedAt (.ofString text) y j b ∧ (i < j ∨ i = j ∧ a < b)) ∧
      ∀ limit, declaredNames (.ofString text) limit =
          (declaredNames (.ofString text) max).take
            (min limit (declaredNames (.ofString text) max).length) ∧
        declaredNames (.ofString text) limit =
          keepNew limit [] (declarations.flatMap fun p => p.captures (.ofString text) "name") := by
  rw [declaredNames_of_le hmax]
  refine ⟨nodup_eraseDups _, fun x => ?_, fun x y => ?_, fun limit =>
    ⟨?_, declaredNames_eq_keepNew _ _⟩⟩
  · simp only [List.mem_eraseDups, List.mem_flatMap, captures, List.mem_filterMap]
  · rw [← map_snd_captureEvents, pair_sublist_eraseDups_iff (pairwise_captureEvents _)]
    simp only [← isLeast_captureEvents_iff]
    constructor
    · rintro ⟨k, l, hk, hl, hlt⟩
      obtain ⟨⟨i, a⟩, rfl⟩ := toLex.surjective k
      obtain ⟨⟨j, b⟩, rfl⟩ := toLex.surjective l
      exact ⟨i, a, j, b, hk, hl, Prod.Lex.toLex_lt_toLex.1 hlt⟩
    · rintro ⟨i, a, j, b, hk, hl, hlt⟩
      exact ⟨_, _, hk, hl, Prod.Lex.toLex_lt_toLex.2 hlt⟩
  · rw [declaredNames, ← List.take_take, List.take_length]

/-- A name that is declared in two forms, furthest to the left in the last one. -/
theorem declared_in_order_two_forms :
    (declarationMatches (.ofString "let b=1\nclass C\nfunction a()\nfunction b()")).length ≤ 5 ∧
      (∃ i a j b,
        FirstCapturedAt (.ofString "let b=1\nclass C\nfunction a()\nfunction b()") "b" i a ∧
        FirstCapturedAt (.ofString "let b=1\nclass C\nfunction a()\nfunction b()") "C" j b ∧
        (i < j ∨ i = j ∧ a < b)) ∧
      declaredNames (.ofString "let b=1\nclass C\nfunction a()\nfunction b()") 2 =
        ["a", "b"] := by
  have hmatches : (declarationMatches
      (.ofString "let b=1\nclass C\nfunction a()\nfunction b()")).length ≤ 5 := by decide +kernel
  have hnames : declaredNames (.ofString "let b=1\nclass C\nfunction a()\nfunction b()") 5 =
      ["a", "b", "C"] := by decide +kernel
  obtain ⟨-, -, hsublist, hlimit⟩ := declared_in_order _ 5 hmatches
  rw [hnames] at hsublist
  refine ⟨hmatches, (hsublist "b" "C").1 (List.sublist_cons_self _ _), ?_⟩
  rw [(hlimit 2).1, hnames]
  rfl

end CodeParts.Names
