import CodeParts.Proofs.Pattern.Window
import Mathlib.Data.List.Basic

/-!
# Matches on lines

A pattern that takes no newline does not reach across a line break
(`offset_le_of_newlineAt`). So it agrees through the end of a window of whole lines
(`agrees_lines`), and a search that comes to a line break goes on as one that begins there
(`findAll_add`). What the matches of a text keep is then what those of its lines keep, one
after the other (`captures_append`).
-/

namespace CodeParts

/-! ### Windows at the end of a text -/

namespace Source

variable {src sub : Source} {a : Nat}

namespace Window

theorem charAt_of_end (w : Window sub src a) (hend : a + sub.size = src.size) (i : Nat) :
    src.charAt (a + i) = sub.charAt i := by
  by_cases hi : i < sub.size
  · exact w.charAt_add i hi
  · rw [charAt_eq, charAt_eq, List.getElem?_eq_none (by rw [length_toList]; omega),
      List.getElem?_eq_none (by rw [length_toList]; omega)]

theorem classAt_of_end (w : Window sub src a) (hend : a + sub.size = src.size)
    (cls : Char → Bool) (i : Nat) : src.classAt cls (a + i) = sub.classAt cls i := by
  rw [classAt_eq, classAt_eq, w.charAt_of_end hend]

theorem runEnd_of_end (w : Window sub src a) (hend : a + sub.size = src.size)
    (cls : Char → Bool) {i : Nat} (hi : i ≤ sub.size) :
    src.runEnd cls (a + i) = a + sub.runEnd cls i := by
  have hle : src.runEnd cls (a + i) ≤ src.size := Pattern.runEnd_le (by omega)
  rw [w.runEnd_add cls hi, hend, Nat.min_eq_left hle]

theorem afterClosing_of_end (w : Window sub src a) (hend : a + sub.size = src.size) (i : Nat) :
    src.afterClosing (a + i) = (sub.afterClosing i).map (a + ·) := by
  rcases w.afterClosing_cases i with ⟨k, hsub, hsrc⟩ | ⟨hsub, hsrc⟩
  · rw [hsub, hsrc, Option.map_some]
  · rw [hsub, Option.map_none, Option.eq_none_iff_forall_ne_some]
    intro k hk
    have := hsrc k hk
    have := (Pattern.afterClosing_bounds hk).2
    omega

theorem lineEndsAt_of_end (w : Window sub src a) (hend : a + sub.size = src.size) (i : Nat) :
    src.lineEndsAt (a + i) = sub.lineEndsAt i := by
  have hsize : (a + i == src.size) = (i == sub.size) := by
    rw [← hend, Bool.eq_iff_iff, beq_iff_eq, beq_iff_eq, Nat.add_left_cancel_iff]
  rw [lineEndsAt, lineEndsAt, hsize, newlineAt, newlineAt, charIs_eq, charIs_eq,
    w.charAt_of_end hend]

theorem wordEdgeAt_of_end (w : Window sub src a) (hend : a + sub.size = src.size)
    (ha : src.lineStartsAt a = true) {i : Nat} (hi : i ≤ sub.size) :
    src.wordEdgeAt (a + i) = sub.wordEdgeAt i := by
  rw [wordEdgeAt, wordEdgeAt, w.wordBefore_add ha hi, w.classAt_of_end hend]

end Window

end Source

namespace Pattern

variable {src sub : Source} {a i j k : Nat} {p : Pattern} {c d : Cursor} {m : Match}

/-! ### Agreement on lines -/

theorem agrees_of_run {n : Nat} (h : p.run src (c.shift a) = (p.run sub c).map (Cursor.shift a)) :
    Agrees sub src a n p c := by
  rw [Agrees, h, List.filter_map]
  congr 1
  refine List.filter_congr fun d _ => ?_
  rw [Function.comp_apply, Cursor.shift_offset, decide_eq_decide, Nat.add_lt_add_iff_left]

/-- In a window that reaches to the end of the text every pattern matches as in the whole
text. -/
theorem agrees_of_end (w : Source.Window sub src a) (ha : src.lineStartsAt a = true)
    (hend : a + sub.size = src.size) (p : Pattern) (hc : c.offset ≤ sub.size) :
    Agrees sub src a (sub.size + 1) p c := by
  induction p generalizing c with
  | empty => exact agrees_of_ite (x := true) (y := true) rfl rfl fun _ => rfl
  | one cls => exact agrees_one w cls (Nat.le_refl _)
  | many cls =>
      have hrun : (many cls).run src (c.shift a) = ((many cls).run sub c).map (Cursor.shift a) := by
        simp only [run, Cursor.shift_offset, w.runEnd_of_end hend cls hc]
        rw [show a + sub.runEnd cls c.offset + 1 - (a + c.offset) =
          sub.runEnd cls c.offset + 1 - c.offset by omega, ← List.map_add_range',
          ← List.map_reverse, List.map_map, List.map_map]
        rfl
      exact agrees_of_run hrun
  | all cls =>
      refine agrees_of_run ?_
      rw [run, run, Cursor.shift_offset, w.runEnd_of_end hend cls hc]
      rfl
  | literal cs => exact agrees_literal w cs (Nat.le_refl _)
  | throughClosing =>
      refine agrees_of_run ?_
      rw [run, run, Cursor.shift_offset, w.afterClosing_of_end hend]
      cases sub.afterClosing c.offset <;> rfl
  | seq p q ihp ihq =>
      refine agrees_seq ?_ (ihp hc) fun d hd _ => ihq (offset_le_of_mem_run hd hc)
      intro s k d e he hd
      exact Nat.le_trans hd (le_offset_of_mem_run he)
  | alt p q ihp ihq => exact agrees_alt (ihp hc) (ihq hc)
  | group label p ih => exact agrees_group label (ih hc)
  | lineStart => exact agrees_of_ite rfl rfl fun h => w.lineStartsAt_add ha (Nat.le_of_lt_succ h)
  | lineEnd => exact agrees_of_ite rfl rfl fun _ => w.lineEndsAt_of_end hend _
  | wordEdge => exact agrees_of_ite rfl rfl fun _ => w.wordEdgeAt_of_end hend ha hc

/-- A match of a pattern that takes no newline ends before the next one. -/
theorem offset_le_of_newlineAt (hp : p.Only (· ≠ '\n')) (hnl : src.newlineAt j = true)
    (hc : c.offset ≤ j) (h : d ∈ p.run src c) : d.offset ≤ j := by
  refine Nat.le_of_not_lt fun hlt => ?_
  obtain ⟨ch, hch, hne⟩ := charAt_of_mem_run hp h hc hlt
  rw [Source.newlineAt_eq_true, hch, Option.some.injEq] at hnl
  exact hne hnl

/-- A pattern that takes no newline does not reach across a line break. -/
theorem offset_le_of_lineBreak (hp : p.Only (· ≠ '\n')) (hk : src.LineBreak k)
    (hc : c.offset < k) (h : d ∈ p.run src c) : d.offset ≤ k := by
  rcases hk with hstart | rfl
  · have hnl := Source.newlineAt_of_lineStartsAt (Nat.zero_lt_of_lt hc) hstart
    have := offset_le_of_newlineAt hp hnl (Nat.le_sub_one_of_lt hc) h
    omega
  · exact offset_le_of_mem_run h (Nat.le_of_lt hc)

/-- A pattern that takes no newline matches in a window of whole lines as in the whole text. -/
theorem agrees_lines (w : Source.Window sub src a) (ha : src.lineStartsAt a = true)
    (hbreak : src.LineBreak (a + sub.size)) (hp : p.Only (· ≠ '\n')) (hc : c.offset < sub.size) :
    Agrees sub src a (sub.size + 1) p c := by
  rcases hbreak with hstart | hend
  · have hnl := Source.newlineAt_of_lineStartsAt (by omega) hstart
    have hnl' : sub.newlineAt (sub.size - 1) = true := by
      rw [← w.newlineAt_add (by omega), ← Nat.add_sub_assoc (by omega)]
      exact hnl
    -- No match ends behind the last newline of the window, so none is at the bound.
    have hsrc (d : Cursor) (hd : d ∈ p.run src (c.shift a)) : d.offset < a + sub.size := by
      have := offset_le_of_newlineAt hp hnl (by rw [Cursor.shift_offset]; omega) hd
      omega
    have hsub (d : Cursor) (hd : d ∈ p.run sub c) : d.offset < sub.size := by
      have := offset_le_of_newlineAt hp hnl' (by omega) hd
      omega
    have hagrees := agrees_size w ha p c
    unfold Agrees at hagrees
    refine agrees_of_run ?_
    rwa [List.filter_eq_self.2 fun d hd => decide_eq_true (hsrc d hd),
      List.filter_eq_self.2 fun d hd => decide_eq_true (hsub d hd)] at hagrees
  · exact agrees_of_end w ha hend p (Nat.le_of_lt hc)

/-! ### Searches on lines -/

theorem matchAt_add (w : Source.Window sub src a) (ha : src.lineStartsAt a = true)
    (hbreak : src.LineBreak (a + sub.size)) (hp : p.Only (· ≠ '\n')) (hi : i < sub.size) :
    p.matchAt src (a + i) = (p.matchAt sub i).map (Match.shift a) := by
  have hagrees := agrees_lines (c := ⟨i, []⟩) w ha hbreak hp hi
  cases hsrc : p.matchAt src (a + i) with
  | none => rw [matchAt_eq_none_of_agrees hagrees (Nat.le_of_lt hi) hsrc, Option.map_none]
  | some m =>
      have hstop : m.stop ≤ a + sub.size := by
        obtain ⟨d, hd, rfl⟩ := exists_mem_run_of_matchAt hsrc
        exact offset_le_of_lineBreak hp hbreak (Nat.add_lt_add_left hi a) hd
      obtain ⟨m', hm', rfl⟩ := matchAt_eq_some_of_agrees hagrees (Nat.le_of_lt hi) hsrc hstop
      rw [hm', Option.map_some]

/-- A pattern that takes a character does not match at the end of a text. -/
theorem findAll_size (hp : p.nullable = false) : p.findAll src src.size = [] := by
  have hnone : p.matchAt src src.size = none := by
    rw [Option.eq_none_iff_forall_ne_some]
    intro m hm
    have hlt := start_lt_stop_of_matchAt hp hm
    rw [start_of_matchAt hm] at hlt
    exact Nat.not_lt_of_le (stop_le_of_matchAt (Nat.le_refl _) hm) hlt
  rw [findAll_eq, if_pos (Nat.le_refl _), hnone]
  show p.findAll src (src.size + 1) = []
  rw [findAll_eq, if_neg (by omega)]

/-- A search finds in a window of whole lines what is there, and goes on behind it as one that
begins there. -/
theorem findAll_add (w : Source.Window sub src a) (ha : src.lineStartsAt a = true)
    (hbreak : src.LineBreak (a + sub.size)) (hp : p.Only (· ≠ '\n')) (hnull : p.nullable = false)
    (hi : i ≤ sub.size) :
    p.findAll src (a + i) =
      (p.findAll sub i).map (Match.shift a) ++ p.findAll src (a + sub.size) := by
  have hsize := w.add_size_le
  induction hn : sub.size - i using Nat.strongRecOn generalizing i with
  | ind n ih =>
      rcases Nat.eq_or_lt_of_le hi with rfl | hlt
      · rw [findAll_size hnull, List.map_nil, List.nil_append]
      · rw [findAll_eq, if_pos (by omega), matchAt_add w ha hbreak hp hlt, findAll_eq sub,
          if_pos hi]
        cases hm : p.matchAt sub i with
        | none =>
            rw [Option.map_none]
            exact ih _ (by omega) hlt rfl
        | some m =>
            have hstop := stop_le_of_matchAt hi hm
            have hnext : max (a + i + 1) (m.shift a).stop = a + max (i + 1) m.stop := by
              rw [Match.shift_stop]
              omega
            simp only [Option.map_some, List.map_cons, List.cons_append]
            rw [hnext, ih (sub.size - max (i + 1) m.stop) (by omega) (by omega) rfl]

/-- What a search finds is a match of the pattern. -/
theorem exists_matchAt_of_mem_findAll (h : m ∈ p.findAll src i) :
    ∃ j, j ≤ src.size ∧ p.matchAt src j = some m := by
  induction hn : src.size + 1 - i using Nat.strongRecOn generalizing i with
  | ind n ih =>
      rw [findAll_eq] at h
      split at h
      · next hle =>
          split at h
          · next m' hm =>
              rcases List.mem_cons.1 h with rfl | h
              · exact ⟨i, hle, hm⟩
              · exact ih _ (by omega) h rfl
          · exact ih _ (by omega) h rfl
      · cases h

/-! ### What matches keep -/

/-- The spans that a match keeps lie in the text. -/
theorem groups_le_of_mem_run (h : d ∈ p.run src c) (hc : c.offset ≤ src.size)
    (hgroups : ∀ g ∈ c.groups, g.2.2 ≤ src.size) : ∀ g ∈ d.groups, g.2.2 ≤ src.size := by
  induction p generalizing c d with
  | empty | all cls =>
      rw [run, List.mem_singleton] at h
      rw [h]
      exact hgroups
  | one cls | literal cs =>
      rw [run] at h
      split at h
      · rw [List.mem_singleton] at h
        rw [h]
        exact hgroups
      · cases h
  | many cls =>
      rw [run, List.mem_map] at h
      obtain ⟨i, -, rfl⟩ := h
      exact hgroups
  | throughClosing =>
      rw [run, List.mem_map] at h
      obtain ⟨i, -, rfl⟩ := h
      exact hgroups
  | seq p q ihp ihq =>
      obtain ⟨e, he, hd⟩ := mem_run_seq.1 h
      exact ihq hd (offset_le_of_mem_run he hc) (ihp he hc hgroups)
  | alt p q ihp ihq =>
      rcases mem_run_alt.1 h with h | h
      · exact ihp h hc hgroups
      · exact ihq h hc hgroups
  | group label p ih =>
      rw [run, List.mem_map] at h
      obtain ⟨e, he, rfl⟩ := h
      intro g hg
      rcases List.mem_cons.1 hg with rfl | hg
      · exact offset_le_of_mem_run he hc
      · exact ih he hc hgroups g hg
  | lineStart | lineEnd | wordEdge =>
      rw [run] at h
      split at h
      · rw [List.mem_singleton] at h
        rw [h]
        exact hgroups
      · cases h

/-- A match keeps in a window the texts that it keeps in the whole text. -/
theorem text?_shift (w : Source.Window sub src a) (hgroups : ∀ g ∈ m.groups, g.2.2 ≤ sub.size)
    (label : String) : (m.shift a).text? src label = m.text? sub label := by
  have hspan : (m.shift a).span? label =
      (m.span? label).map fun s => (a + s.1, a + s.2) := by
    rw [Match.span?, Match.span?, Match.shift, List.find?_map, Option.map_map, Option.map_map]
    rfl
  rw [Match.text?, Match.text?, hspan, Option.map_map]
  refine Option.map_congr fun s hs => ?_
  obtain ⟨g, hg, rfl⟩ := Option.map_eq_some_iff.1 hs
  exact congrArg String.ofList (w.slice_add (hgroups g (List.mem_of_find?_eq_some hg)))

theorem groups_le_of_mem_findAll (h : m ∈ p.findAll src i) :
    ∀ g ∈ m.groups, g.2.2 ≤ src.size := by
  obtain ⟨j, hj, hm⟩ := exists_matchAt_of_mem_findAll h
  obtain ⟨d, hd, rfl⟩ := exists_mem_run_of_matchAt hm
  refine groups_le_of_mem_run hd hj ?_
  intro g hg
  cases hg

theorem filterMap_text?_shift (w : Source.Window sub src a) (label : String) :
    ((p.allMatches sub).map (Match.shift a)).filterMap (fun m => m.text? src label) =
      p.captures sub label := by
  rw [List.filterMap_map, captures]
  exact List.filterMap_congr fun m hm => text?_shift w (groups_le_of_mem_findAll hm) label

/-- The matches of whole lines and of what follows them keep, one after the other, what those
of the whole text keep. -/
theorem captures_append (hp : p.Only (· ≠ '\n')) (hnull : p.nullable = false) (label : String)
    {xs : List Char} (h : WholeLines xs) (ys : List Char) :
    p.captures (.ofList (xs ++ ys)) label =
      p.captures (.ofList xs) label ++ p.captures (.ofList ys) label := by
  have wxs := Source.window_append [] xs ys
  have wys := Source.window_append xs ys []
  rw [List.append_nil] at wys
  have hstart := Source.lineStartsAt_append h ys
  have hsize : xs.length + (Source.ofList ys).size = (Source.ofList (xs ++ ys)).size :=
    List.length_append.symm
  have hxs : p.allMatches (.ofList (xs ++ ys)) =
      (p.allMatches (.ofList xs)).map (Match.shift 0) ++
        p.findAll (.ofList (xs ++ ys)) xs.length := by
    have := findAll_add wxs rfl (by rw [List.length_nil, Nat.zero_add]; exact .inl hstart) hp hnull
      (Nat.zero_le _)
    rwa [List.length_nil, Nat.zero_add, Nat.zero_add] at this
  have hys : p.findAll (.ofList (xs ++ ys)) xs.length =
      (p.allMatches (.ofList ys)).map (Match.shift xs.length) := by
    rw [← Nat.add_zero xs.length, findAll_add wys hstart (.inr hsize) hp hnull (Nat.zero_le _),
      hsize, findAll_size hnull, List.append_nil]
    rfl
  rw [captures, hxs, hys, List.filterMap_append]
  exact congrArg₂ _ (filterMap_text?_shift wxs label) (filterMap_text?_shift wys label)

end Pattern

end CodeParts
