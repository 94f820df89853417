import CodeParts.Proofs.Pattern.Match
import CodeParts.Proofs.Source.Lines

/-!
# Matches in a window

A pattern matches in a window that begins at a line start as it matches in the whole text,
as far as its matches end before the end of the window. There the two differ: a run of
characters that the window breaks off goes on in the whole text, and the end of the window
is no end of the text.

`Agrees` compares the matches from a cursor that end before a bound. Every pattern agrees
up to the last offset of the window (`agrees_size`). A pattern whose last part is a literal
or a single character is `Settled`: it agrees up to and including the end of the window,
because a match that ends there has not looked at what follows (`settled_chain`). A pattern
that looks for a line end agrees so far only where the whole text has one
(`agrees_before_lineEnd`). A search for a pattern that agrees finds in the window what it finds
in the whole text, if that lies in the window (`find_eq_some_of_agrees`).
-/

namespace CodeParts

namespace Source

variable {src sub : Source} {a i : Nat}

/-- No word character stands before a line start. -/
theorem wordBefore_of_lineStartsAt (h : src.lineStartsAt i = true) :
    src.wordBefore i = false := by
  rcases Nat.eq_zero_or_pos i with rfl | hi
  · rfl
  · have hnl := newlineAt_of_lineStartsAt hi h
    rw [newlineAt_eq_true] at hnl
    rw [wordBefore, classAt_eq, hnl]
    simp [isWordChar]

namespace Window

theorem classAt_add (w : Window sub src a) (cls : Char → Bool) (hi : i < sub.size) :
    src.classAt cls (a + i) = sub.classAt cls i := by
  rw [classAt_eq, classAt_eq, w.charAt_add i hi]

/-- A run ends in the whole text where it ends in the window, or it goes on past it. -/
theorem runEnd_add (w : Window sub src a) (cls : Char → Bool) (hi : i ≤ sub.size) :
    a + sub.runEnd cls i = min (src.runEnd cls (a + i)) (a + sub.size) := by
  have hsize := w.add_size_le
  have hcls (j : Nat) (hj : j < sub.size) :
      (!src.classAt cls (a + j)) = !sub.classAt cls j := by
    rw [w.classAt_add cls hj]
  unfold runEnd
  rcases w.firstIn_cases (p := fun j => !src.classAt cls j) hcls i with
    ⟨k, hsub, hsrc, -, hk⟩ | ⟨hsub, hsrc⟩
  · rw [hsub, hsrc, Option.getD_some, Option.getD_some]
    omega
  · rw [hsub, Option.getD_none]
    cases hfirst : firstIn (fun j => !src.classAt cls j) (a + i) src.size with
    | none =>
        rw [Option.getD_none]
        omega
    | some k =>
        have := hsrc k hfirst
        rw [Option.getD_some]
        omega

/-- The next closing parenthesis of the window is that of the whole text, or it lies past the
window. -/
theorem afterClosing_cases (w : Window sub src a) (i : Nat) :
    (∃ k, sub.afterClosing i = some k ∧ src.afterClosing (a + i) = some (a + k)) ∨
      (sub.afterClosing i = none ∧
        ∀ k, src.afterClosing (a + i) = some k → a + sub.size < k) := by
  rw [afterClosing_eq, afterClosing_eq]
  rcases w.firstIn_cases (fun j hj => w.charIs_add ')' hj) i with
    ⟨k, hsub, hsrc, -⟩ | ⟨hsub, hsrc⟩
  · rw [hsub, hsrc]
    exact .inl ⟨k + 1, rfl, rfl⟩
  · refine .inr ⟨by rw [hsub]; rfl, ?_⟩
    intro k hk
    obtain ⟨j, hj, rfl⟩ := Option.map_eq_some_iff.1 hk
    exact Nat.lt_succ_of_le (hsrc j hj)

theorem lineEndsAt_add (w : Window sub src a) (hi : i < sub.size) :
    src.lineEndsAt (a + i) = sub.lineEndsAt i := by
  have hsize := w.add_size_le
  have hsrc : (a + i == src.size) = false := by
    rw [beq_eq_false_iff_ne]
    omega
  have hsub : (i == sub.size) = false := by
    rw [beq_eq_false_iff_ne]
    omega
  rw [lineEndsAt, lineEndsAt, hsrc, hsub, w.newlineAt_add hi]

theorem wordBefore_add (w : Window sub src a) (ha : src.lineStartsAt a = true)
    (hi : i ≤ sub.size) : src.wordBefore (a + i) = sub.wordBefore i := by
  cases i with
  | zero => rw [Nat.add_zero, wordBefore_of_lineStartsAt ha, wordBefore_of_lineStartsAt rfl]
  | succ i =>
      have hcls := w.classAt_add isWordChar (i := i) (by omega)
      simp only [wordBefore, Nat.add_sub_cancel, ← Nat.add_assoc, hcls]
      simp

theorem wordEdgeAt_add (w : Window sub src a) (ha : src.lineStartsAt a = true)
    (hi : i < sub.size) : src.wordEdgeAt (a + i) = sub.wordEdgeAt i := by
  rw [wordEdgeAt, wordEdgeAt, w.wordBefore_add ha (Nat.le_of_lt hi), w.classAt_add isWordChar hi]

end Window

end Source

/-! ### Cursors of a window -/

/-- The span at offsets that are greater by `k`. -/
def shiftSpan (k : Nat) (g : String × Nat × Nat) : String × Nat × Nat :=
  (g.1, k + g.2.1, k + g.2.2)

/-- The cursor at an offset that is greater by `k`. -/
def Cursor.shift (k : Nat) (c : Cursor) : Cursor := ⟨k + c.offset, c.groups.map (shiftSpan k)⟩

/-- The match at offsets that are greater by `k`. -/
def Pattern.Match.shift (k : Nat) (m : Match) : Match :=
  ⟨k + m.start, k + m.stop, m.groups.map (shiftSpan k)⟩

@[simp] theorem Cursor.shift_offset (k : Nat) (c : Cursor) : (c.shift k).offset = k + c.offset :=
  rfl

@[simp] theorem Cursor.shift_moveTo (k i : Nat) (c : Cursor) :
    (c.shift k).moveTo (k + i) = (c.moveTo i).shift k := rfl

namespace Pattern

variable {src sub : Source} {a n : Nat} {p q : Pattern} {c d : Cursor} {m : Match}

/-! ### Agreement up to a bound -/

/-- From a cursor of the window, the matches that end before `n` are those of the whole
text that end before `a + n`, in the same order. -/
def Agrees (sub src : Source) (a n : Nat) (p : Pattern) (c : Cursor) : Prop :=
  (p.run src (c.shift a)).filter (·.offset < a + n) =
    ((p.run sub c).filter (·.offset < n)).map (Cursor.shift a)

/-- No match that begins at the bound or behind it ends before it. -/
theorem filter_run_of_le (s : Source) (h : n ≤ c.offset) :
    (p.run s c).filter (·.offset < n) = [] := by
  rw [List.filter_eq_nil_iff]
  intro d hd hlt
  have := le_offset_of_mem_run hd
  simp only [decide_eq_true_eq] at hlt
  omega

theorem agrees_of_le (h : n ≤ c.offset) : Agrees sub src a n p c := by
  have hsrc : (p.run src (c.shift a)).filter (·.offset < a + n) = [] :=
    filter_run_of_le src (Nat.add_le_add_left h a)
  rw [Agrees, hsrc, filter_run_of_le sub h]
  rfl

/-- A pattern that matches in one way at most agrees where it matches in both texts or in
none. -/
theorem agrees_of_ite {x y : Bool} (hsrc : p.run src (c.shift a) = if x then [d.shift a] else [])
    (hsub : p.run sub c = if y then [d] else []) (h : d.offset < n → x = y) :
    Agrees sub src a n p c := by
  rw [Agrees, hsrc, hsub]
  by_cases hd : d.offset < n
  · rw [h hd]
    cases y with
    | true => simp [hd]
    | false => rfl
  · cases x <;> cases y <;> simp [hd]

theorem agrees_alt (hp : Agrees sub src a n p c) (hq : Agrees sub src a n q c) :
    Agrees sub src a n (alt p q) c := by
  unfold Agrees at hp hq ⊢
  rw [run, run, List.filter_append, List.filter_append, List.map_append, hp, hq]

theorem agrees_group (label : String) (hp : Agrees sub src a n p c) :
    Agrees sub src a n (group label p) c := by
  have hrecord (s : Source) (k : Nat) (e : Cursor) :
      ((group label p).run s e).filter (·.offset < k) =
        ((p.run s e).filter (·.offset < k)).map (·.record label e.offset) := by
    rw [run, List.filter_map]
    rfl
  unfold Agrees at hp ⊢
  rw [hrecord, hrecord, hp, List.map_map, List.map_map]
  rfl

/-- Elements that `f` maps to nothing can be left out. -/
theorem flatMap_filter {α β : Type} {f : α → List β} {t : α → Bool} {xs : List α}
    (h : ∀ x, x ∈ xs → t x = false → f x = []) : (xs.filter t).flatMap f = xs.flatMap f := by
  induction xs with
  | nil => rfl
  | cons x xs ih =>
      have ih := ih fun y hy => h y (List.mem_cons_of_mem _ hy)
      rw [List.filter_cons, List.flatMap_cons]
      cases ht : t x with
      | true => rw [if_pos rfl, List.flatMap_cons, ih]
      | false => rw [if_neg Bool.false_ne_true, ih, h x List.mem_cons_self ht, List.nil_append]

/-- A sequence agrees if the second pattern does after the matches of the first that end
before `m`, and leads past the bound from all others. -/
theorem agrees_seq {m : Nat} (hfar : ∀ s k d e, e ∈ q.run s d → k + m ≤ d.offset → k + n ≤ e.offset)
    (hp : Agrees sub src a m p c)
    (hq : ∀ d, d ∈ p.run sub c → d.offset < m → Agrees sub src a n q d) :
    Agrees sub src a n (seq p q) c := by
  have hseq (s : Source) (k : Nat) (e : Cursor) :
      ((seq p q).run s e).filter (·.offset < k + n) =
        ((p.run s e).filter (·.offset < k + m)).flatMap fun d =>
          (q.run s d).filter (·.offset < k + n) := by
    -- What starts from a match that ends at `m` or behind it ends behind the bound.
    rw [run, List.filter_flatMap]
    refine (flatMap_filter ?_).symm
    intro d _ hd
    rw [List.filter_eq_nil_iff]
    intro e he hlt
    have := hfar s k d e he (by simpa using hd)
    simp only [decide_eq_true_eq] at hlt
    omega
  have hsub := hseq sub 0 c
  simp only [Nat.zero_add] at hsub
  unfold Agrees at hp hq ⊢
  rw [hseq, hp, hsub, List.flatMap_map, List.map_flatMap, List.flatMap_def, List.flatMap_def]
  congr 1
  refine List.map_congr_left ?_
  intro d hd
  rw [List.mem_filter] at hd
  exact hq d hd.1 (by simpa using hd.2)

/-! ### Agreement inside a window -/

theorem filter_range' (s k n : Nat) :
    (List.range' s k).filter (· < n) = List.range' s (min k (n - s)) := by
  induction k generalizing s with
  | zero => simp
  | succ k ih =>
      rw [List.range'_succ, List.filter_cons, ih]
      by_cases hs : s < n
      · rw [if_pos (by simpa using hs), show min (k + 1) (n - s) = min k (n - (s + 1)) + 1 by omega,
          List.range'_succ]
      · rw [if_neg (by simpa using hs), show min k (n - (s + 1)) = 0 by omega,
          show min (k + 1) (n - s) = 0 by omega]
        rfl

theorem agrees_many (w : Source.Window sub src a) (cls : Char → Bool) (hc : c.offset < sub.size) :
    Agrees sub src a sub.size (many cls) c := by
  have hend := w.runEnd_add cls (Nat.le_of_lt hc)
  have hrun (s : Source) (k : Nat) (e : Cursor) :
      ((many cls).run s e).filter (·.offset < k) =
        (List.range' e.offset (min (s.runEnd cls e.offset + 1 - e.offset)
          (k - e.offset))).reverse.map e.moveTo := by
    rw [run, List.filter_map, List.filter_reverse, ← filter_range']
    rfl
  -- Both runs are cut off at the last offset of the window, so they are equally long.
  have hcount : min (src.runEnd cls (a + c.offset) + 1 - (a + c.offset))
      (a + sub.size - (a + c.offset)) =
        min (sub.runEnd cls c.offset + 1 - c.offset) (sub.size - c.offset) := by
    omega
  rw [Agrees, hrun, hrun, Cursor.shift_offset, hcount, ← List.map_add_range', ← List.map_reverse,
    List.map_map, List.map_map]
  rfl

theorem agrees_all (w : Source.Window sub src a) (cls : Char → Bool) (hc : c.offset < sub.size) :
    Agrees sub src a sub.size (all cls) c := by
  have hend := w.runEnd_add cls (Nat.le_of_lt hc)
  rw [Agrees, run, run, Cursor.shift_offset]
  by_cases hlt : sub.runEnd cls c.offset < sub.size
  · have heq : src.runEnd cls (a + c.offset) = a + sub.runEnd cls c.offset := by omega
    rw [heq, Cursor.shift_moveTo]
    simp [Cursor.moveTo, hlt]
  · -- The run reaches the end of the window, so neither match counts.
    have hle : a + sub.size ≤ src.runEnd cls (a + c.offset) := by omega
    simp [Cursor.moveTo, hlt, hle]

theorem agrees_throughClosing (w : Source.Window sub src a) :
    Agrees sub src a sub.size throughClosing c := by
  rw [Agrees, run, run, Cursor.shift_offset]
  rcases w.afterClosing_cases c.offset with ⟨k, hsub, hsrc⟩ | ⟨hsub, hsrc⟩
  · rw [hsub, hsrc]
    by_cases hk : k < sub.size <;> simp [Cursor.moveTo, Cursor.shift, hk]
  · rw [hsub]
    cases hfirst : src.afterClosing (a + c.offset) with
    | none => rfl
    | some k =>
        have hle : a + sub.size ≤ k := Nat.le_of_lt (hsrc k hfirst)
        simp [Cursor.moveTo, hle]

/-- A literal looks at nothing behind it, so it agrees through the end of the window. -/
theorem agrees_literal (w : Source.Window sub src a) (cs : List Char) (hn : n ≤ sub.size + 1) :
    Agrees sub src a n (literal cs) c := by
  have hsrc : (literal cs).run src (c.shift a) =
      if src.literalAt cs (a + c.offset) then [(c.moveTo (c.offset + cs.length)).shift a]
      else [] := by
    rw [run, ← Cursor.shift_moveTo, ← Nat.add_assoc]
    rfl
  refine agrees_of_ite hsrc rfl ?_
  intro h
  exact w.literalAt_add (Nat.le_of_lt_succ (Nat.lt_of_lt_of_le h hn))

theorem agrees_one (w : Source.Window sub src a) (cls : Char → Bool) (hn : n ≤ sub.size + 1) :
    Agrees sub src a n (one cls) c := by
  refine agrees_of_ite (d := c.moveTo (c.offset + 1)) rfl rfl ?_
  intro h
  exact w.classAt_add cls (Nat.lt_of_succ_lt_succ (Nat.lt_of_lt_of_le h hn))

/-- Every pattern agrees up to the last offset of a window that begins a line. -/
theorem agrees_size (w : Source.Window sub src a) (ha : src.lineStartsAt a = true)
    (p : Pattern) (c : Cursor) : Agrees sub src a sub.size p c := by
  induction p generalizing c with
  | empty => exact agrees_of_ite (x := true) (y := true) rfl rfl fun _ => rfl
  | one cls => exact agrees_one w cls (Nat.le_succ _)
  | many cls =>
      rcases Nat.lt_or_ge c.offset sub.size with hc | hc
      · exact agrees_many w cls hc
      · exact agrees_of_le hc
  | all cls =>
      rcases Nat.lt_or_ge c.offset sub.size with hc | hc
      · exact agrees_all w cls hc
      · exact agrees_of_le hc
  | literal cs => exact agrees_literal w cs (Nat.le_succ _)
  | throughClosing => exact agrees_throughClosing w
  | seq p q ihp ihq =>
      refine agrees_seq ?_ (ihp c) fun d _ _ => ihq d
      intro s k d e he hd
      exact Nat.le_trans hd (le_offset_of_mem_run he)
  | alt p q ihp ihq => exact agrees_alt (ihp c) (ihq c)
  | group label p ih => exact agrees_group label (ih c)
  | lineStart => exact agrees_of_ite rfl rfl fun h => w.lineStartsAt_add ha (Nat.le_of_lt h)
  | lineEnd => exact agrees_of_ite rfl rfl fun h => w.lineEndsAt_add h
  | wordEdge => exact agrees_of_ite rfl rfl fun h => w.wordEdgeAt_add ha h

/-! ### Agreement through the end of a window -/

/-- A pattern that takes a character and agrees through the end of a window, whatever the
cursor. -/
structure Settled (sub src : Source) (a : Nat) (p : Pattern) : Prop where
  nullable_eq : p.nullable = false
  agrees : ∀ c, Agrees sub src a (sub.size + 1) p c

theorem settled_literal (w : Source.Window sub src a) {cs : List Char} (hne : cs ≠ []) :
    Settled sub src a (literal cs) where
  nullable_eq := by simpa [nullable] using hne
  agrees := fun _ => agrees_literal w cs (Nat.le_refl _)

theorem settled_one (w : Source.Window sub src a) (cls : Char → Bool) :
    Settled sub src a (one cls) where
  nullable_eq := rfl
  agrees := fun _ => agrees_one w cls (Nat.le_refl _)

/-- What is put in front of a settled pattern only has to agree inside the window. -/
theorem settled_seq (w : Source.Window sub src a) (ha : src.lineStartsAt a = true)
    (p : Pattern) (hq : Settled sub src a q) : Settled sub src a (seq p q) where
  nullable_eq := by rw [nullable, hq.nullable_eq, Bool.and_false]
  agrees := by
    intro c
    refine agrees_seq ?_ (agrees_size w ha p c) fun d _ _ => hq.agrees d
    intro s k d e he hd
    exact Nat.lt_of_le_of_lt hd (lt_offset_of_mem_run hq.nullable_eq he)

theorem settled_chain (w : Source.Window sub src a) (ha : src.lineStartsAt a = true)
    (ps : List Pattern) (hq : Settled sub src a q) : Settled sub src a (chain (ps ++ [q])) := by
  induction ps with
  | nil => exact hq
  | cons p ps ih =>
      cases ps with
      | nil => exact settled_seq w ha p ih
      | cons p' ps => exact settled_seq w ha p ih

/-- If a line of the whole text ends at the end of the window, line ends agree there too. -/
theorem agrees_lineEnd (w : Source.Window sub src a)
    (hend : d.offset = sub.size → src.lineEndsAt (a + sub.size) = true) :
    Agrees sub src a (sub.size + 1) lineEnd d := by
  refine agrees_of_ite rfl rfl ?_
  intro hd
  rw [Cursor.shift_offset]
  rcases Nat.eq_or_lt_of_le (Nat.le_of_lt_succ hd) with heq | hlt
  · rw [heq, hend heq, Source.lineEndsAt, beq_self_eq_true, Bool.true_or]
  · exact w.lineEndsAt_add hlt

/-- A literal before a line end agrees through the end of the window, if a line of the whole
text ends wherever the literal ends the window. -/
theorem agrees_before_lineEnd (w : Source.Window sub src a) (cs : List Char) (cls : Char → Bool)
    (hend : sub.literalAt cs c.offset = true → c.offset + cs.length = sub.size →
      src.lineEndsAt (a + sub.size) = true) :
    Agrees sub src a (sub.size + 1) (seq (literal cs) (alt (one cls) lineEnd)) c := by
  refine agrees_seq ?_ (agrees_literal w cs (Nat.le_refl _)) ?_
  · intro s k d e he hd
    exact Nat.le_trans hd (le_offset_of_mem_run he)
  · intro d hd _
    refine agrees_alt (agrees_one w cls (Nat.le_refl _)) (agrees_lineEnd w ?_)
    rw [run] at hd
    split at hd
    · next hlit =>
        rw [List.mem_singleton] at hd
        rw [hd]
        exact hend hlit
    · cases hd

/-! ### Searches in a window -/

@[simp] theorem Match.shift_start (k : Nat) (m : Match) : (m.shift k).start = k + m.start := rfl

@[simp] theorem Match.shift_stop (k : Nat) (m : Match) : (m.shift k).stop = k + m.stop := rfl

/-- The matches of a pattern in the window are those in the whole text that end in the
window. -/
theorem map_run_of_agrees {i : Nat} (hp : Agrees sub src a (sub.size + 1) p ⟨i, []⟩)
    (hi : i ≤ sub.size) :
    (p.run src ⟨a + i, []⟩).filter (·.offset < a + (sub.size + 1)) =
      (p.run sub ⟨i, []⟩).map (Cursor.shift a) := by
  have hall : (p.run sub ⟨i, []⟩).filter (·.offset < sub.size + 1) = p.run sub ⟨i, []⟩ := by
    rw [List.filter_eq_self]
    intro d hd
    have := offset_le_of_mem_run hd hi
    simp only [decide_eq_true_eq]
    omega
  rw [Agrees, hall] at hp
  exact hp

/-- Where a pattern does not match in the whole text, it does not match in the window. -/
theorem matchAt_eq_none_of_agrees {i : Nat} (hp : Agrees sub src a (sub.size + 1) p ⟨i, []⟩)
    (hi : i ≤ sub.size) (h : p.matchAt src (a + i) = none) : p.matchAt sub i = none := by
  have hmap := map_run_of_agrees hp hi
  rw [matchAt_eq, Option.map_eq_none_iff, List.head?_eq_none_iff] at h ⊢
  rw [h, List.filter_nil] at hmap
  exact List.map_eq_nil_iff.1 hmap.symm

/-- If the match of a pattern in the whole text ends in the window, it is the match in the
window. -/
theorem matchAt_eq_some_of_agrees {i : Nat} (hp : Agrees sub src a (sub.size + 1) p ⟨i, []⟩)
    (hi : i ≤ sub.size) (h : p.matchAt src (a + i) = some m) (hstop : m.stop ≤ a + sub.size) :
    ∃ m', p.matchAt sub i = some m' ∧ m = m'.shift a := by
  have hmap := map_run_of_agrees hp hi
  rw [matchAt_eq, Option.map_eq_some_iff] at h
  obtain ⟨e, he, rfl⟩ := h
  obtain ⟨es, hes⟩ := List.head?_eq_some_iff.1 he
  -- The preferred match ends in the window, so it is the first of those that do.
  have hlt : e.offset < a + (sub.size + 1) := Nat.lt_succ_of_le hstop
  rw [hes, List.filter_cons, if_pos (by simpa using hlt)] at hmap
  obtain ⟨e', es', hrun, hshift, -⟩ := List.map_eq_cons_iff.1 hmap.symm
  refine ⟨⟨i, e'.offset, e'.groups⟩, ?_, ?_⟩
  · rw [matchAt_eq, hrun]
    rfl
  · rw [← hshift]
    rfl

theorem Settled.find_eq_none (hp : Settled sub src a p) (w : Source.Window sub src a)
    (h : p.find src 0 = none) : p.find sub 0 = none := by
  have hsize := w.add_size_le
  rw [find_eq_none_iff (Nat.zero_le _)] at h ⊢
  intro j _ hj
  exact matchAt_eq_none_of_agrees (hp.agrees _) hj (h (a + j) (Nat.zero_le _) (by omega))

/-- If what a search of the whole text finds lies in the window, a search of the window finds
it. The pattern need only agree at the offsets that the search comes to. -/
theorem find_eq_some_of_agrees (w : Source.Window sub src a)
    (hp : ∀ i, a + i ≤ m.start → Agrees sub src a (sub.size + 1) p ⟨i, []⟩)
    (h : p.find src 0 = some m) (hstart : a ≤ m.start) (hstop : m.stop ≤ a + sub.size) :
    ∃ m', p.find sub 0 = some m' ∧ m = m'.shift a := by
  have hsize := w.add_size_le
  have hfirst := firstMatch_of_find (Nat.zero_le _) h
  have hle : m.start ≤ m.stop := start_le_stop_of_matchAt hfirst.matchAt_eq
  obtain ⟨i, hi⟩ : ∃ i, m.start = a + i := ⟨m.start - a, by omega⟩
  have hmatch := hfirst.matchAt_eq
  rw [hi] at hmatch hp
  obtain ⟨m', hm', rfl⟩ :=
    matchAt_eq_some_of_agrees (hp i (Nat.le_refl _)) (by omega) hmatch hstop
  have hstart' := start_of_matchAt hm'
  refine ⟨m', (find_eq_some_iff (Nat.zero_le _)).2 ⟨Nat.zero_le _, by omega, ?_, ?_⟩, rfl⟩
  · rw [hstart']
    exact hm'
  · intro j _ hj
    exact matchAt_eq_none_of_agrees (hp j (by omega)) (by omega)
      (hfirst.before_eq (a + j) (Nat.zero_le _) (by omega))

end Pattern

end CodeParts
