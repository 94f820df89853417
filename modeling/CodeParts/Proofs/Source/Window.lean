import CodeParts.Source

/-!
# Windows of a text

A text that stands inside another one is a `Window` of it. Whoever looks only at
characters of the window finds in it what he finds in the whole text, at offsets that
are smaller by the offset of the window: this holds of every search of a `Source`, and
the lemmas of this module say it search by search. A search that may run past the end
of the window agrees up to that end, which is stated with `min`.

A window is a relation and not a construction. So a prefix, a suffix and a span of a
text are all windows, and so is a text inside a longer one.
-/

namespace CodeParts

/-! ### Searches in an interval that is moved -/

variable {p q : Nat → Bool} {k a b c i : Nat}

theorem firstIn_shift (h : ∀ j, a ≤ j → j < b → p (k + j) = q j) :
    firstIn p (k + a) (k + b) = (firstIn q a b).map (k + ·) := by
  cases hq : firstIn q a b with
  | none =>
      rw [firstIn_eq_none_iff] at hq
      rw [Option.map_none, firstIn_eq_none_iff]
      intro j hkj hjb
      obtain ⟨m, rfl⟩ : ∃ m, j = k + m := ⟨j - k, by omega⟩
      rw [h m (by omega) (by omega)]
      exact hq m (by omega) (by omega)
  | some i =>
      obtain ⟨hai, hib, hqi, hmin⟩ := firstIn_eq_some_iff.1 hq
      rw [Option.map_some]
      refine firstIn_eq_some_iff.2 ⟨by omega, by omega, ?_, ?_⟩
      · rw [h i hai hib]
        exact hqi
      · intro j hkj hji
        obtain ⟨m, rfl⟩ : ∃ m, j = k + m := ⟨j - k, by omega⟩
        rw [h m (by omega) (by omega)]
        exact hmin m (by omega) (by omega)

theorem lastIn_shift (h : ∀ j, a ≤ j → j < b → p (k + j) = q j) :
    lastIn p (k + a) (k + b) = (lastIn q a b).map (k + ·) := by
  cases hq : lastIn q a b with
  | none =>
      rw [lastIn_eq_none_iff] at hq
      rw [Option.map_none, lastIn_eq_none_iff]
      intro j hkj hjb
      obtain ⟨m, rfl⟩ : ∃ m, j = k + m := ⟨j - k, by omega⟩
      rw [h m (by omega) (by omega)]
      exact hq m (by omega) (by omega)
  | some i =>
      obtain ⟨hai, hib, hqi, hmax⟩ := lastIn_eq_some_iff.1 hq
      rw [Option.map_some]
      refine lastIn_eq_some_iff.2 ⟨by omega, by omega, ?_, ?_⟩
      · rw [h i hai hib]
        exact hqi
      · intro j hij hjb
        obtain ⟨m, rfl⟩ : ∃ m, j = k + m := ⟨j - k, by omega⟩
        rw [h m (by omega) (by omega)]
        exact hmax m (by omega) (by omega)

theorem lastIn_eq_none_of_le (h : b ≤ a) : lastIn p a b = none := by
  rw [lastIn_eq_none_iff]
  intro j haj hjb
  omega

/-- A longer interval has the same first index, or its first index lies past the
shorter one. -/
theorem firstIn_eq_of_le (hbc : b ≤ c) :
    firstIn p a b = (firstIn p a c).filter (· < b) := by
  cases hc : firstIn p a c with
  | none =>
      rw [firstIn_eq_none_iff] at hc
      rw [Option.filter_none, firstIn_eq_none_iff]
      intro j haj hjb
      exact hc j haj (by omega)
  | some i =>
      obtain ⟨hai, hic, hpi, hmin⟩ := firstIn_eq_some_iff.1 hc
      rw [Option.filter_some]
      by_cases hib : i < b
      · rw [if_pos (by simpa using hib)]
        exact firstIn_eq_some_iff.2 ⟨hai, hib, hpi, hmin⟩
      · rw [if_neg (by simpa using hib), firstIn_eq_none_iff]
        intro j haj hjb
        exact hmin j haj (by omega)

namespace Source

/-! ### Slices -/

variable {src sub : Source}

@[simp] theorem length_slice (src : Source) (a b : Nat) :
    (src.slice a b).length = min b src.size - a := by
  simp only [slice, size, Array.length_toList, Array.size_extract]

theorem slice_eq_nil (h : min b src.size ≤ a) : src.slice a b = [] := by
  rw [← List.length_eq_zero_iff, length_slice]
  omega

theorem getElem?_slice (src : Source) (a b i : Nat) :
    (src.slice a b)[i]? = if i < b - a then src.charAt (a + i) else none := by
  rw [slice_eq, List.getElem?_take, List.getElem?_drop, charAt_eq]

theorem slice_append_slice (src : Source) (hab : a ≤ b) (hbc : b ≤ c) :
    src.slice a b ++ src.slice b c = src.slice a c := by
  simp only [slice_eq]
  rw [show c - a = (b - a) + (c - b) by omega, List.take_add, List.drop_drop]
  congr 3
  omega

@[simp] theorem slice_self (src : Source) (a : Nat) : src.slice a a = [] := by
  simp [slice_eq]

theorem slice_size (src : Source) (a : Nat) : src.slice a src.size = src.toList.drop a := by
  rw [slice_eq, ← length_toList, ← List.length_drop, List.take_length]

theorem slice_zero_size (src : Source) : src.slice 0 src.size = src.toList := src.slice_size 0

/-- The last character of a slice stands just before its end. -/
theorem getLast?_slice (hab : a < b) (hb : b ≤ src.size) :
    (src.slice a b).getLast? = src.charAt (b - 1) := by
  rw [List.getLast?_eq_getElem?, getElem?_slice, length_slice, Nat.min_eq_left hb,
    if_pos (by omega)]
  congr 1
  omega

theorem dropLast_slice (hb : b ≤ src.size) :
    (src.slice a b).dropLast = src.slice a (b - 1) := by
  rw [List.dropLast_eq_take, length_slice, Nat.min_eq_left hb, slice_eq, slice_eq, List.take_take]
  congr 1
  omega

/-- The last character of a literal stands just before its end. -/
theorem charAt_of_literalAt {cs : List Char} {i : Nat} (h : src.literalAt cs i = true)
    (hne : cs ≠ []) : src.charAt (i + cs.length - 1) = cs.getLast? := by
  have hpos : 0 < cs.length := List.length_pos_iff.2 hne
  rw [List.getLast?_eq_getElem?, Nat.add_sub_assoc hpos]
  exact literalAt_eq_true.1 h (cs.length - 1) (Nat.sub_one_lt_of_lt hpos)

/-! ### Strings -/

theorem toList_ofString (text : String) : (ofString text).toList = text.toList := rfl

theorem size_ofString (text : String) : (ofString text).size = text.length :=
  String.length_toList

theorem text_ofString (text : String) : (ofString text).text = text :=
  String.ofList_toList

theorem ofString_ofList (cs : List Char) : ofString (String.ofList cs) = ofList cs := by
  rw [ofString, String.toList_ofList]

/-! ### Windows -/

/-- The text `sub` stands in `src` at offset `a`. -/
structure Window (sub src : Source) (a : Nat) : Prop where
  add_size_le : a + sub.size ≤ src.size
  charAt_add : ∀ i, i < sub.size → src.charAt (a + i) = sub.charAt i

/-- A slice is a window. -/
theorem window_slice (hab : a ≤ b) (hb : b ≤ src.size) :
    Window (ofList (src.slice a b)) src a where
  add_size_le := by
    rw [size_ofList, length_slice]
    omega
  charAt_add := by
    intro i hi
    rw [size_ofList, length_slice] at hi
    rw [charAt_eq (ofList _), toList_ofList, getElem?_slice, if_pos (by omega)]

/-- The beginning of a text is a window. -/
theorem window_take (text : String) {k : Nat} (hk : k ≤ (ofString text).size) :
    Window (ofString (String.ofList (text.toList.take k))) (ofString text) 0 := by
  have hslice : (ofString text).slice 0 k = text.toList.take k := by
    rw [slice_eq, toList_ofString, List.drop_zero, Nat.sub_zero]
  rw [ofString_ofList, ← hslice]
  exact window_slice (Nat.zero_le k) hk

/-- A piece of a text is a window. -/
theorem window_append (xs ys zs : List Char) :
    Window (ofList ys) (ofList (xs ++ (ys ++ zs))) xs.length where
  add_size_le := by
    rw [size_ofList, size_ofList, List.length_append, List.length_append]
    omega
  charAt_add := by
    intro i hi
    rw [charAt_eq, charAt_eq, toList_ofList, toList_ofList,
      List.getElem?_append_right (Nat.le_add_right _ _), Nat.add_sub_cancel_left]
    exact List.getElem?_append_left hi

theorem size_take (text : String) {k : Nat} (hk : k ≤ (ofString text).size) :
    (ofString (String.ofList (text.toList.take k))).size = k := by
  rw [ofString_ofList, size_ofList, List.length_take]
  exact Nat.min_eq_left hk

theorem size_ofList_slice (hb : b ≤ src.size) : (ofList (src.slice a b)).size = b - a := by
  rw [size_ofList, length_slice, Nat.min_eq_left hb]

namespace Window

theorem charIs_add (w : Window sub src a) (ch : Char) (hi : i < sub.size) :
    src.charIs ch (a + i) = sub.charIs ch i := by
  rw [charIs_eq, charIs_eq, w.charAt_add i hi]

theorem newlineAt_add (w : Window sub src a) (hi : i < sub.size) :
    src.newlineAt (a + i) = sub.newlineAt i :=
  w.charIs_add '\n' hi

theorem literalAt_add (w : Window sub src a) {lit : List Char}
    (hi : i + lit.length ≤ sub.size) : src.literalAt lit (a + i) = sub.literalAt lit i := by
  induction lit generalizing i with
  | nil => rfl
  | cons ch lit ih =>
      rw [List.length_cons] at hi
      rw [literalAt, literalAt, w.charIs_add ch (by omega), Nat.add_assoc, ih (by omega)]

/-- A literal that stands in a window stands in the whole text. -/
theorem literalAt_of_sub (w : Window sub src a) {lit : List Char} (hne : lit ≠ [])
    (h : sub.literalAt lit i = true) : src.literalAt lit (a + i) = true := by
  rw [w.literalAt_add (add_length_le_size h hne)]
  exact h

theorem slice_add (w : Window sub src a) (hb : b ≤ sub.size) :
    src.slice (a + i) (a + b) = sub.slice i b := by
  refine List.ext_getElem? fun n => ?_
  rw [getElem?_slice, getElem?_slice, Nat.add_sub_add_left]
  by_cases hn : n < b - i
  · rw [if_pos hn, if_pos hn, Nat.add_assoc, w.charAt_add (i + n) (by omega)]
  · rw [if_neg hn, if_neg hn]

theorem toList_eq (w : Window sub src a) : src.slice a (a + sub.size) = sub.toList := by
  rw [← sub.slice_zero_size]
  exact w.slice_add (i := 0) (Nat.le_refl _)

theorem lastNewline_add (w : Window sub src a) (hb : b ≤ sub.size) :
    src.lastNewline (a + i) (a + b) = (sub.lastNewline i b).map (a + ·) := by
  have := w.add_size_le
  rw [lastNewline, lastNewline, Nat.min_eq_left (by omega), Nat.min_eq_left hb]
  exact lastIn_shift fun j _ hj => w.newlineAt_add (by omega)

theorem lastLiteral_add (w : Window sub src a) {lit : List Char} (hne : lit ≠ [])
    (hb : b ≤ sub.size) :
    src.lastLiteral lit (a + i) (a + b) = (sub.lastLiteral lit i b).map (a + ·) := by
  have := w.add_size_le
  have hbound (s : Source) (e : Nat) (he : e ≤ s.size) :
      s.literalBound lit e = e + 1 - lit.length := by
    rw [literalBound, if_neg (by simpa using hne), Nat.min_eq_left he]
  rw [lastLiteral_eq, lastLiteral_eq, hbound src _ (by omega), hbound sub b hb]
  by_cases hlen : lit.length ≤ b + 1
  · rw [show a + b + 1 - lit.length = a + (b + 1 - lit.length) by omega]
    exact lastIn_shift fun j _ hj => w.literalAt_add (by omega)
  · rw [lastIn_eq_none_of_le (by omega), lastIn_eq_none_of_le (by omega)]
    rfl

end Window

/-! ### Line ends -/

theorem le_lineEndFrom (src : Source) (i : Nat) : min i src.size ≤ src.lineEndFrom i := by
  by_cases hi : i < src.size
  · have := lt_lineEndFrom hi
    omega
  · unfold lineEndFrom
    cases hnl : src.firstNewline i src.size with
    | none => exact Nat.min_le_right _ _
    | some nl =>
        have := (firstIn_eq_some_iff.1 hnl).1
        simp only
        omega

/-- The offset after some newlines lies after the offset from which they are counted. -/
theorem le_afterNewline {src : Source} {i count e : Nat}
    (h : src.afterNewline i count = some e) : min i src.size ≤ e := by
  induction count generalizing i with
  | zero =>
      simp only [afterNewline, Option.some.injEq] at h
      omega
  | succ count ih =>
      simp only [afterNewline, Option.bind_eq_some_iff] at h
      obtain ⟨nl, hnl, he⟩ := h
      have := (firstIn_eq_some_iff.1 hnl).1
      have := (firstIn_eq_some_iff.1 hnl).2.1
      have := ih he
      omega

/-- Behind an offset of the text, what some lines take, or all that is left of the text, is
not empty. -/
theorem lt_afterNewline {src : Source} {i count : Nat} (hcount : 0 < count) (hi : i < src.size) :
    i < (src.afterNewline i count).getD src.size := by
  cases count with
  | zero => exact absurd hcount (Nat.lt_irrefl 0)
  | succ count =>
      rw [afterNewline]
      cases hnl : src.firstNewline i src.size with
      | none => exact hi
      | some nl =>
          obtain ⟨hle, hlt, -⟩ := firstIn_eq_some_iff.1 hnl
          rw [Option.bind_some]
          cases hrest : src.afterNewline (nl + 1) count with
          | none => exact hi
          | some e =>
              have := le_afterNewline hrest
              rw [Option.getD_some]
              omega

namespace Window

/-- What is found first from an offset of the window on is found in the window, or it lies
past it. -/
theorem firstIn_cases (w : Window sub src a) {p q : Nat → Bool}
    (h : ∀ j, j < sub.size → p (a + j) = q j) (i : Nat) :
    (∃ k, firstIn q i sub.size = some k ∧ firstIn p (a + i) src.size = some (a + k) ∧
        i ≤ k ∧ k < sub.size) ∨
      (firstIn q i sub.size = none ∧
        ∀ k, firstIn p (a + i) src.size = some k → a + sub.size ≤ k) := by
  have hle := firstIn_eq_of_le (p := p) (a := a + i) w.add_size_le
  rw [firstIn_shift fun j _ hj => h j hj] at hle
  cases hsub : firstIn q i sub.size with
  | none =>
      refine .inr ⟨rfl, ?_⟩
      intro k hk
      rw [hsub, hk, Option.map_none, Option.filter_some] at hle
      split at hle
      · cases hle
      · next hlt => simpa using hlt
  | some k =>
      obtain ⟨hik, hk, -⟩ := firstIn_eq_some_iff.1 hsub
      rw [hsub, Option.map_some] at hle
      exact .inl ⟨k, rfl, (Option.filter_eq_some_iff.1 hle.symm).1, hik, hk⟩

theorem firstNewline_cases (w : Window sub src a) (i : Nat) :
    (∃ nl, sub.firstNewline i sub.size = some nl ∧
        src.firstNewline (a + i) src.size = some (a + nl) ∧ i ≤ nl ∧ nl < sub.size) ∨
      (sub.firstNewline i sub.size = none ∧
        ∀ nl, src.firstNewline (a + i) src.size = some nl → a + sub.size ≤ nl) := by
  simp only [firstNewline, Nat.min_self]
  exact w.firstIn_cases (fun j hj => w.newlineAt_add hj) i

theorem lineEndFrom_add (w : Window sub src a) (i : Nat) :
    a + sub.lineEndFrom i = min (src.lineEndFrom (a + i)) (a + sub.size) := by
  have := w.add_size_le
  unfold lineEndFrom
  rcases w.firstNewline_cases i with ⟨nl, hsub, hsrc, -, hlt⟩ | ⟨hsub, hsrc⟩
  · simp only [hsub, hsrc]
    omega
  · simp only [hsub]
    cases hnl : src.firstNewline (a + i) src.size with
    | none =>
        simp only
        omega
    | some nl =>
        have := hsrc nl hnl
        simp only
        omega

theorem afterNewline_add (w : Window sub src a) (i count : Nat) :
    a + (sub.afterNewline i count).getD sub.size =
      min ((src.afterNewline (a + i) count).getD src.size) (a + sub.size) := by
  have := w.add_size_le
  induction count generalizing i with
  | zero =>
      simp only [afterNewline, Option.getD_some]
      omega
  | succ count ih =>
      simp only [afterNewline]
      rcases w.firstNewline_cases i with ⟨nl, hsub, hsrc, -, hlt⟩ | ⟨hsub, hsrc⟩
      · rw [hsub, hsrc, Option.bind_some, Option.bind_some, Nat.add_assoc]
        exact ih (nl + 1)
      · -- The window has too few newlines, and the whole text has the next one behind it.
        rw [hsub, Option.bind_none, Option.getD_none]
        cases hnl : src.firstNewline (a + i) src.size with
        | none =>
            rw [Option.bind_none, Option.getD_none]
            omega
        | some nl =>
            have hle := hsrc nl hnl
            have hlt := (firstIn_eq_some_iff.1 hnl).2.1
            rw [Option.bind_some]
            cases he : src.afterNewline (nl + 1) count with
            | none =>
                rw [Option.getD_none]
                omega
            | some e =>
                have := le_afterNewline he
                rw [Option.getD_some]
                omega

end Window

end Source

end CodeParts
