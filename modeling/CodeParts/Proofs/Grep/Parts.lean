import CodeParts.Proofs.Grep.Hits
import CodeParts.Proofs.Split.Run

/-!
# Searching the parts of a text

Whoever searches the parts of a text one by one finds what a search of the whole text
finds, if the literal can only have a newline at its end: `search_of_split` compares the
numbers of hits and the lines on which they stand.

A search without overlaps depends on where it begins, because every hit decides where the
next one is looked for. But a literal without an inner newline does not reach across a
line break (`add_length_le_of_lineBreak`), so a search that comes to a line break goes on
as one that begins there (`spacedOffsets_append`).
-/

namespace CodeParts

/-! ### Searches without overlaps -/

variable {p q : Nat → Bool} {width n k a i j : Nat}

/-- A search may begin anew at an offset that no hit before it reaches across. -/
theorem spacedOffsets_append (hik : i ≤ k) (hkn : k ≤ n)
    (h : ∀ j, i ≤ j → j < k → p j = true → j + max 1 width ≤ k) :
    spacedOffsets p width k i ++ spacedOffsets p width n k = spacedOffsets p width n i := by
  fun_induction spacedOffsets p width k i with
  | case1 i hlt hp ih =>
      have hnext := h i (Nat.le_refl _) hlt hp
      have hfirst : spacedOffsets p width n i =
          i :: spacedOffsets p width n (i + max 1 width) := by
        rw [spacedOffsets, if_pos (by omega), if_pos hp]
      rw [hfirst, List.cons_append, ih hnext fun j hj hjk => h j (by omega) hjk]
  | case2 i hlt hp ih =>
      have hfirst : spacedOffsets p width n i = spacedOffsets p width n (i + 1) := by
        rw [spacedOffsets, if_pos (by omega), if_neg hp]
      rw [hfirst, ih hlt fun j hj hjk => h j (by omega) hjk]
  | case3 i hge =>
      have hend : i = k := by omega
      rw [hend, List.nil_append]

theorem spacedOffsets_shift (h : ∀ j, i ≤ j → j < n → p (a + j) = q j) :
    spacedOffsets p width (a + n) (a + i) = (spacedOffsets q width n i).map (a + ·) := by
  fun_induction spacedOffsets q width n i with
  | case1 i hlt hq ih =>
      rw [spacedOffsets, if_pos (by omega), if_pos (by rw [h i (Nat.le_refl _) hlt, hq]),
        List.map_cons, Nat.add_assoc, ih fun j hj hjn => h j (by omega) hjn]
  | case2 i hlt hq ih =>
      rw [spacedOffsets, if_pos (by omega), if_neg (by rw [h i (Nat.le_refl _) hlt]; exact hq),
        Nat.add_assoc, ih fun j hj hjn => h j (by omega) hjn]
  | case3 i hge => rw [spacedOffsets_of_le (by omega), List.map_nil]

namespace Source

variable {src sub : Source} {lit : List Char}

/-! ### Hits and line breaks -/

/-- A literal without a newline but at its end does not reach across a line break. -/
theorem add_length_le_of_lineBreak (hlit : '\n' ∉ lit.dropLast) (h : src.literalAt lit i = true)
    (hik : i < k) (hk : src.LineBreak k) : i + max 1 lit.length ≤ k := by
  refine Nat.le_of_not_lt fun hlt => ?_
  have hlong : k < i + lit.length := by omega
  rcases hk with hline | rfl
  · -- The newline before the break would be one of the characters before the last.
    have hnl := newlineAt_of_lineStartsAt (Nat.zero_lt_of_lt hik) hline
    have hin := literalAt_eq_true.1 h (k - 1 - i) (by omega)
    rw [show i + (k - 1 - i) = k - 1 by omega] at hin
    refine hlit (List.mem_of_getElem? (i := k - 1 - i) ?_)
    rw [List.getElem?_dropLast, if_pos (by omega), ← hin]
    exact newlineAt_eq_true.1 hnl
  · have hne : lit ≠ [] := by
      rintro rfl
      simp only [List.length_nil] at hlong
      omega
    have := add_length_le_size h hne
    omega

/-- In a window that ends at a line break stand the hits of the whole text that begin in it. -/
theorem Window.literalAt_of_lineBreak (w : Window sub src a) (hlit : '\n' ∉ lit.dropLast)
    (hend : src.LineBreak (a + sub.size)) (hi : i < sub.size) :
    src.literalAt lit (a + i) = sub.literalAt lit i := by
  rw [Bool.eq_iff_iff]
  constructor
  · intro h
    have hle := add_length_le_of_lineBreak hlit h (Nat.add_lt_add_left hi a) hend
    rw [← w.literalAt_add (by omega)]
    exact h
  · intro h
    rcases lit with _ | ⟨c, lit⟩
    · rfl
    · exact w.literalAt_of_sub (List.cons_ne_nil c lit) h

theorem Window.hits_add (w : Window sub src a) (hlit : '\n' ∉ lit.dropLast)
    (hend : src.LineBreak (a + sub.size)) :
    spacedOffsets (src.literalAt lit) lit.length (a + sub.size) a =
      (sub.hits lit).map (a + ·) := by
  rw [hits_eq]
  exact spacedOffsets_shift (i := 0) fun j _ hj => w.literalAt_of_lineBreak hlit hend hj

end Source

namespace Grep

open Split

variable {text needle : String} {policy : Policy} {ps : List Part}

/-! ### Hits of the parts -/

/-- The hits in a text are those in its parts, moved by what stands before each part. -/
theorem hits_of_split (h : split text policy = .ok ps) {lit : List Char}
    (hlit : '\n' ∉ lit.dropLast) :
    (Source.ofString text).hits lit =
      ps.flatMap fun p => ((Source.ofString p.text).hits lit).map (p.start + ·) := by
  obtain ⟨-, rfl⟩ := split_eq_ok_iff.1 h
  generalize Source.ofString text = src
  have hparts : (assemble src (boundaries src policy)).flatMap
      (fun p => ((Source.ofString p.text).hits lit).map (p.start + ·)) =
        spacedOffsets (src.literalAt lit) lit.length src.size 0 := by
    refine flatMap_assemble (f := fun a b => spacedOffsets (src.literalAt lit) lit.length b a) ?_
      (spacedOffsets_of_le (Nat.le_refl _)) ?_
    · intro p hp
      have hpart := partOf_of_mem_assemble hp
      have hbreak := hpart.lineBreak_stop
      rw [← hpart.add_size] at hbreak ⊢
      exact (hpart.window.hits_add hlit hbreak).symm
    · intro a b hab hb hbreak
      refine spacedOffsets_append (Nat.le_of_lt hab) hb ?_
      intro j _ hj hp
      exact Source.add_length_le_of_lineBreak hlit hp hj hbreak
  rw [Source.hits_eq, hparts]

/-- The line of a hit in a part, counted in the whole text. -/
theorem lineOf_hit {p : Part} (hp : PartOf (Source.ofString text) p) {lit : List Char} {i : Nat}
    (hi : i ∈ (Source.ofString p.text).hits lit) :
    (Source.ofString text).lineOf (p.start + i) + 1 =
      (Source.ofString p.text).lineOf i + 1 + (p.startLine - 1) := by
  have hlt := Source.lt_size_of_mem_hits hi
  rw [hp.window.lineOf_add (Nat.le_of_lt hlt), hp.startLine_eq]
  omega

/-! ### Searches -/

/-- The lines of the hits, if all of them are shown. -/
theorem hitLines_resultOf {src : Source} {hits : List Nat} {scope : Scope}
    (h : hits.length ≤ scope.maxMatches) :
    (resultOf src hits scope).windows.map Window.hitLine =
      hits.map fun i => src.lineOf i + 1 := by
  rw [map_hitLine_resultOf, List.take_of_length_le h]

theorem length_le_length_flatMap {α β : Type} {f : α → List β} {xs : List α} {x : α}
    (h : x ∈ xs) : (f x).length ≤ (xs.flatMap f).length := by
  rw [List.flatMap_def]
  exact (List.sublist_flatten_of_mem (List.mem_map_of_mem h)).length_le

/-- A search of a text finds as many hits as the searches of its parts together; and if all
of them are shown, they stand on the lines that the searches of the parts give, counted from
the first line of each part. -/
theorem search_of_split (h : split text policy = .ok ps) (hneedle : '\n' ∉ needle.toList.dropLast)
    {scope : Scope} (hscope : 0 < scope.maxMatches) :
    ∃ r rs, search text needle scope = .ok r ∧
      ps.mapM (fun p => search p.text needle scope) = .ok rs ∧
      r.hitCount = (rs.map Result.hitCount).foldr (· + ·) 0 ∧
      (r.hitCount ≤ scope.maxMatches →
        r.windows.map Window.hitLine =
          (ps.zip rs).flatMap fun (p, q) =>
            q.windows.map fun w => w.hitLine + (p.startLine - 1)) := by
  let hits (t : String) := (Source.ofString t).hits needle.toList
  let result (p : Part) := resultOf (Source.ofString p.text) (hits p.text) scope
  have hhits : hits text = ps.flatMap fun p => (hits p.text).map (p.start + ·) :=
    hits_of_split h hneedle
  have hlength (p : Part) (hp : p ∈ ps) : (hits p.text).length ≤ (hits text).length := by
    have := length_le_length_flatMap (f := fun p => (hits p.text).map (p.start + ·)) hp
    rw [← hhits, List.length_map] at this
    exact this
  have hparts : ps.mapM (fun p => search p.text needle scope) = .ok (ps.map result) :=
    (congrArg (List.mapM · ps) (funext fun p => search_of_pos hscope)).trans List.mapM_pure
  refine ⟨_, _, search_of_pos hscope, hparts, ?_, ?_⟩
  · show (hits text).length = _
    rw [hhits, length_flatMap_eq_foldr, List.map_map]
    simp only [List.length_map]
    rfl
  · intro hall
    have hzip : ps.zip (ps.map result) = ps.map fun p => (p, result p) := by
      simpa using List.zip_map' (l := ps) (f := id) (g := result)
    rw [hitLines_resultOf hall, hzip, List.flatMap_map]
    show (hits text).map _ = _
    rw [hhits, List.map_flatMap, List.flatMap_def, List.flatMap_def]
    congr 1
    refine List.map_congr_left fun p hp => ?_
    -- A part has no more hits than the text, so all of its hits are shown as well.
    have hshown : (result p).windows.map Window.hitLine =
        (hits p.text).map fun i => (Source.ofString p.text).lineOf i + 1 :=
      hitLines_resultOf (Nat.le_trans (hlength p hp) hall)
    show _ = (result p).windows.map ((· + (p.startLine - 1)) ∘ Window.hitLine)
    rw [← List.map_map, hshown, List.map_map, List.map_map]
    exact List.map_congr_left fun i hi => lineOf_hit (partOf_of_mem_split h hp) hi

/-- Two hits of a literal that overlaps itself, the second of them on the second line. -/
theorem search_of_split_overlapping :
    ∃ ps r rs, split "aaa\nbaa\n" ⟨⟨80, 1⟩, .hybrid, 0.3⟩ = .ok ps ∧ '\n' ∉ "aa".toList.dropLast ∧
      (0 < 5 ∧ search "aaa\nbaa\n" "aa" ⟨0, 5⟩ = .ok r) ∧
      ps.mapM (fun p => search p.text "aa" ⟨0, 5⟩) = .ok rs ∧
      r.hitCount = 2 ∧ (rs.map Result.hitCount).foldr (· + ·) 0 = 2 ∧
      (ps.zip rs).flatMap (fun (p, q) =>
        q.windows.map fun w => w.hitLine + (p.startLine - 1)) = [1, 2] := by
  have hvalid : Policy.Valid ⟨⟨80, 1⟩, .hybrid, 0.3⟩ :=
    ⟨by decide, by decide, by decide, by decide⟩
  have hps := split_of_valid hvalid "aaa\nbaa\n"
  have hneedle : '\n' ∉ "aa".toList.dropLast := by decide
  obtain ⟨r, rs, hr, hrs, hcount, hlines⟩ :=
    search_of_split hps hneedle (show 0 < (⟨0, 5⟩ : Scope).maxMatches by decide)
  have hsearch : search "aaa\nbaa\n" "aa" ⟨0, 5⟩ =
      .ok ⟨2, [⟨1, 1, 1, "aaa\n"⟩, ⟨2, 2, 2, "baa\n"⟩]⟩ :=
    (search_of_pos (by decide)).trans (congrArg Except.ok (by decide +kernel))
  rw [hsearch, Except.ok.injEq] at hr
  subst hr
  exact ⟨_, _, rs, hps, hneedle, ⟨by decide, hsearch⟩, hrs, rfl, hcount.symm,
    (hlines (by decide)).symm⟩

end Grep

end CodeParts
