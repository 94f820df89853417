import CodeParts.Proofs.Grep.Hits

/-!
# Windows around hits

A hit is shown with the lines around it, as far as the text has them (`Window.ShowsAround`). Lines
are numbered from one here and counted from zero in the table of a text, and the end of a text
after a final newline is no line. Since every hit lies inside the text, its line is one of the
text, so the window has at least that line (`showsAround_windowAt`).

How many hits are shown changes nothing in the windows themselves: a search that shows fewer
shows the first of them (`windows_of_search`).
-/

namespace CodeParts.Grep

variable {src : Source} {scope : Scope} {i : Nat}

/-- The window shows the line of its hit and `context` lines on either side, cut to the lines of
the text, and its text is exactly these lines. -/
structure Window.ShowsAround (src : Source) (context : Nat) (w : Window) : Prop where
  firstLine_eq : (w.firstLine : Int) = max 1 ((w.hitLine : Int) - context)
  lastLine_eq : (w.lastLine : Int) = min (src.lineCount : Int) ((w.hitLine : Int) + context)
  one_le_firstLine : 1 ≤ w.firstLine
  firstLine_le : w.firstLine ≤ w.hitLine
  hitLine_le : w.hitLine ≤ w.lastLine
  lastLine_le : w.lastLine ≤ src.lineCount
  text_eq : w.text =
    String.ofList (((splitLines src.toList).take w.lastLine).drop (w.firstLine - 1)).flatten

theorem showsAround_windowAt (h : i < src.size) (context : Nat) :
    (windowAt src context i).ShowsAround src context := by
  have hline := Source.lineOf_lt_lineCount h
  constructor
  case text_eq =>
    rw [windowAt, Source.linesText_eq src (by omega), Nat.add_sub_cancel]
  all_goals
    simp only [windowAt]
    omega

/-- The lines of hits that are shown in order do not decrease. -/
theorem pairwise_hitLine (src : Source) (lit : List Char) (scope : Scope) :
    ((resultOf src (src.hits lit) scope).windows.map Window.hitLine).Pairwise (· ≤ ·) := by
  rw [map_hitLine_resultOf, List.pairwise_map]
  refine ((src.pairwise_hits lit).sublist (List.take_sublist _ _)).imp fun {i j} hij => ?_
  exact Nat.add_le_add_right (src.lineOf_mono (Nat.le_of_lt hij)) 1

/-- A search that shows more hits begins with the same windows. -/
theorem windows_resultOf_of_le (src : Source) (hits : List Nat) {m : Nat}
    (h : scope.maxMatches ≤ m) :
    (resultOf src hits scope).windows =
      (resultOf src hits ⟨scope.contextLines, m⟩).windows.take
        (min scope.maxMatches hits.length) := by
  have htake : hits.take scope.maxMatches =
      (hits.take m).take (min scope.maxMatches hits.length) := by
    rw [List.take_take, List.take_eq_take_iff]
    omega
  rw [resultOf, resultOf, htake, List.map_take]

/-- A search shows as many windows as it has hits, up to the number that is asked for, in the
order of the lines of the hits. Each window is the range of lines around its hit that the text
has, and showing fewer leaves out the last ones. -/
theorem windows_of_search (text needle : String) {scope : Scope} (h : 0 < scope.maxMatches) :
    ∃ r, search text needle scope = .ok r ∧
      r.windows.length = min r.hitCount scope.maxMatches ∧
      (r.windows.map Window.hitLine).Pairwise (· ≤ ·) ∧
      (∀ w ∈ r.windows, w.ShowsAround (Source.ofString text) scope.contextLines) ∧
      ∀ m, scope.maxMatches ≤ m →
        ∃ r', search text needle ⟨scope.contextLines, m⟩ = .ok r' ∧ r'.hitCount = r.hitCount ∧
          r.windows = r'.windows.take (min scope.maxMatches r.hitCount) := by
  refine ⟨_, search_of_pos h, ?_, pairwise_hitLine _ _ _, ?_, ?_⟩
  · rw [resultOf, List.length_map, List.length_take, Nat.min_comm]
  · intro w hw
    obtain ⟨i, hi, rfl⟩ := List.mem_map.1 hw
    exact showsAround_windowAt (Source.lt_size_of_mem_hits (List.mem_of_mem_take hi)) _
  · intro m hm
    have hpos : 0 < (⟨scope.contextLines, m⟩ : Scope).maxMatches := Nat.lt_of_lt_of_le h hm
    exact ⟨_, search_of_pos hpos, rfl, windows_resultOf_of_le _ _ hm⟩

/-- Two of three hits, the second on a last line that has no newline, with lines asked for above
the first line and below the last. -/
theorem windows_of_search_two :
    ∃ r r', 0 < 2 ∧ search "b\na\n\naa" "a" ⟨2, 2⟩ = .ok r ∧ 2 ≤ 3 ∧
      search "b\na\n\naa" "a" ⟨2, 3⟩ = .ok r' ∧
      r.windows = [⟨2, 1, 4, "b\na\n\naa"⟩, ⟨4, 2, 4, "a\n\naa"⟩] ∧
      (∀ w ∈ r.windows, w.ShowsAround (Source.ofString "b\na\n\naa") 2) ∧
      r.windows = r'.windows.take 2 := by
  obtain ⟨r, hr, -, -, hshows, hfewer⟩ :=
    windows_of_search "b\na\n\naa" "a" (show 0 < (⟨2, 2⟩ : Scope).maxMatches by decide)
  have hsearch : search "b\na\n\naa" "a" ⟨2, 2⟩ =
      .ok ⟨3, [⟨2, 1, 4, "b\na\n\naa"⟩, ⟨4, 2, 4, "a\n\naa"⟩]⟩ :=
    (search_of_pos (by decide)).trans (congrArg Except.ok (by decide +kernel))
  have hresult := hr.symm.trans hsearch
  rw [Except.ok.injEq] at hresult
  subst hresult
  obtain ⟨r', hr', -, hfirst⟩ := hfewer 3 (by decide)
  exact ⟨_, r', by decide, hsearch, by decide, hr', rfl, hshows, hfirst⟩

end CodeParts.Grep
