import CodeParts.Proofs.Lexer.Steps
import CodeParts.Proofs.Pattern.Match

/-!
# Patterns over a known text

Where the text is known, so is the match. `Reads` says that a pattern matches from an
offset on in one way and where that ends, `Fails` that it matches in none; neither depends
on the spans kept before. They are put together along the pattern (`Reads.seq`,
`Fails.seq`, `Reads.alt_right`), from what `toList.drop` says of the text ahead.

A pattern that reads from the start of a text on is found there (`find_of_reads`).
-/

namespace CodeParts

namespace Source

variable {src : Source} {i : Nat} {ch : Char} {cs rest : List Char}

/-- What follows behind the beginning of what is ahead. -/
theorem drop_add (h : src.toList.drop i = cs ++ rest) :
    src.toList.drop (i + cs.length) = rest := by
  rw [← List.drop_drop, h, List.drop_left]

theorem drop_succ (h : src.toList.drop i = ch :: rest) : src.toList.drop (i + 1) = rest :=
  drop_add (show src.toList.drop i = [ch] ++ rest from h)

theorem charAt_of_drop (h : src.toList.drop i = ch :: rest) : src.charAt i = some ch := by
  rw [charAt_eq, ← List.head?_drop, h, List.head?_cons]

theorem literalAt_of_drop (h : src.toList.drop i = cs ++ rest) : src.literalAt cs i = true := by
  rw [literalAt_eq_true]
  intro k hk
  have hchar : src.toList[i + k]? = (src.toList.drop i)[k]? := List.getElem?_drop.symm
  rw [h, List.getElem?_append_left hk, ← charAt_eq] at hchar
  exact hchar

end Source

namespace Pattern

variable {src : Source} {p q : Pattern} {i j k : Nat} {ch : Char} {cls : Char → Bool}
  {cs rest : List Char}

/-- From offset `i` on the pattern matches in one way, which ends at offset `j`. -/
def Reads (src : Source) (p : Pattern) (i j : Nat) : Prop :=
  ∀ c : Cursor, c.offset = i → p.run src c = [c.moveTo j]

/-- From offset `i` on the pattern does not match. -/
def Fails (src : Source) (p : Pattern) (i : Nat) : Prop :=
  ∀ c : Cursor, c.offset = i → p.run src c = []

/-! ### Pieces -/

theorem reads_empty (src : Source) (i : Nat) : Reads src empty i i := by
  rintro c rfl
  rfl

theorem reads_lineStart (h : src.lineStartsAt i = true) : Reads src lineStart i i := by
  rintro c rfl
  rw [run, if_pos h]
  rfl

theorem reads_literal (h : src.toList.drop i = cs ++ rest) :
    Reads src (literal cs) i (i + cs.length) := by
  rintro c rfl
  rw [run, if_pos (Source.literalAt_of_drop h)]

theorem reads_one (h : src.charAt i = some ch) (hcls : cls ch = true) :
    Reads src (one cls) i (i + 1) := by
  rintro c rfl
  rw [run, if_pos (by rw [Source.classAt_eq, h, Option.any_some, hcls])]

/-- A run of characters is empty where none of them stands. -/
theorem reads_all (h : src.charAt i = some ch) (hcls : cls ch = false) :
    Reads src (all cls) i i := by
  rintro c rfl
  have hnot : ¬ c.offset < src.runEnd cls c.offset := by
    intro hlt
    have hclass := classAt_of_lt_runEnd hlt
    rw [Source.classAt_eq, h, Option.any_some, hcls] at hclass
    cases hclass
  rw [run, Nat.le_antisymm (Nat.le_of_not_lt hnot) (le_runEnd src cls c.offset)]

/-- A run of characters ends where the class first fails, at the end of the text at last. -/
theorem runEnd_of_classAt (hij : i ≤ j) (hj : j ≤ src.size)
    (hcls : ∀ k, i ≤ k → k < j → src.classAt cls k = true) (hno : src.classAt cls j = false) :
    src.runEnd cls i = j := by
  unfold Source.runEnd
  rcases Nat.eq_or_lt_of_le hj with rfl | hlt
  · rw [firstIn_eq_none_iff.2 fun k hk hkj => by rw [hcls k hk hkj]; rfl, Option.getD_none]
    exact Nat.max_eq_right hij
  · rw [firstIn_eq_some_iff.2 ⟨hij, hlt, by rw [hno]; rfl, fun k hk hkj => ?_⟩, Option.getD_some]
    rw [hcls k hk hkj]
    rfl

/-- A run of characters ends where the first other one stands. -/
theorem runEnd_of_charAt (hij : i ≤ j)
    (hcls : ∀ k, i ≤ k → k < j → src.classAt cls k = true) (hch : src.charAt j = some ch)
    (hno : cls ch = false) : src.runEnd cls i = j := by
  refine runEnd_of_classAt hij (Nat.le_of_lt (Source.lt_size_of_charAt hch)) hcls ?_
  rw [Source.classAt_eq, hch, Option.any_some, hno]

theorem classAt_of_drop (h : src.toList.drop i = cs ++ rest) (hcs : ∀ d ∈ cs, cls d = true)
    (hik : i ≤ k) (hk : k < i + cs.length) : src.classAt cls k = true := by
  obtain ⟨k, rfl⟩ := Nat.exists_eq_add_of_le hik
  have hk : k < cs.length := Nat.lt_of_add_lt_add_left hk
  rw [Source.classAt_eq, Source.charAt_eq, ← List.getElem?_drop, h,
    List.getElem?_append_left hk, List.getElem?_eq_getElem hk, Option.any_some]
  exact hcs _ (List.getElem_mem hk)

/-- What holds at the offsets of a span holds of its characters. -/
theorem forall_mem_slice_of_classAt (h : ∀ k, i ≤ k → k < j → src.classAt cls k = true) :
    ∀ ch ∈ src.slice i j, cls ch = true := by
  intro ch hch
  obtain ⟨k, hk⟩ := List.mem_iff_getElem?.1 hch
  rw [Source.getElem?_slice] at hk
  split at hk
  · have hcls := h (i + k) (Nat.le_add_right i k) (by omega)
    rwa [Source.classAt_eq, hk, Option.any_some] at hcls
  · cases hk

/-- What holds of the characters of a span holds at its offsets. -/
theorem classAt_of_forall_mem_slice (h : ∀ ch ∈ src.slice i j, cls ch = true)
    (hj : j ≤ src.size) (hik : i ≤ k) (hkj : k < j) : src.classAt cls k = true := by
  obtain ⟨ch, hch⟩ : ∃ ch, src.charAt k = some ch := by
    rw [Source.charAt_eq]
    exact ⟨_, List.getElem?_eq_getElem (Nat.lt_of_lt_of_le hkj hj)⟩
  have hmem : (src.slice i j)[k - i]? = some ch := by
    rw [Source.getElem?_slice, if_pos (Nat.sub_lt_sub_right hik hkj), Nat.add_sub_cancel' hik, hch]
  rw [Source.classAt_eq, hch, Option.any_some]
  exact h ch (List.mem_of_getElem? hmem)

/-- A run of characters is taken through its last one. -/
theorem reads_all_run (h : src.toList.drop i = cs ++ ch :: rest)
    (hcs : ∀ d ∈ cs, cls d = true) (hcls : cls ch = false) :
    Reads src (all cls) i (i + cs.length) := by
  rintro c rfl
  rw [run, runEnd_of_charAt (Nat.le_add_right _ _) (fun k hk hlt => classAt_of_drop h hcs hk hlt)
    (Source.charAt_of_drop (Source.drop_add h)) hcls]

/-- What is taken through the next closing parenthesis ends with the first one there is. -/
theorem reads_throughClosing (h : src.toList.drop i = cs ++ ')' :: rest) (hcs : ')' ∉ cs) :
    Reads src throughClosing i (i + cs.length + 1) := by
  rintro c rfl
  have hclosing : src.charAt (c.offset + cs.length) = some ')' :=
    Source.charAt_of_drop (Source.drop_add h)
  rw [run, src.afterClosing_eq, firstIn_eq_some_iff.2 ⟨Nat.le_add_right _ _,
    Source.lt_size_of_charAt hclosing, Source.charIs_eq_true.2 hclosing, fun k hk hlt => ?_⟩]
  · rfl
  · obtain ⟨k, rfl⟩ := Nat.exists_eq_add_of_le hk
    have hk : k < cs.length := Nat.lt_of_add_lt_add_left hlt
    rw [← Bool.not_eq_true, Source.charIs_eq_true, Source.charAt_eq, ← List.getElem?_drop, h,
      List.getElem?_append_left hk]
    exact fun hmem => hcs (List.mem_of_getElem? hmem)

/-- A class fails where a character of another one stands. -/
theorem fails_one (h : src.charAt i = some ch) (hcls : cls ch = false) :
    Fails src (one cls) i := by
  rintro c rfl
  rw [run, if_neg (by simp [Source.classAt_eq, h, hcls])]

/-- A literal fails where another character stands than its first. -/
theorem fails_literal {d : Char} (h : src.charAt i = some ch) (hhead : cs.head? = some d)
    (hne : d ≠ ch) : Fails src (literal cs) i := by
  rintro c rfl
  obtain ⟨cs, rfl⟩ := List.head?_eq_some_iff.1 hhead
  have hchar : src.charIs d c.offset = false := by
    rw [Source.charIs_eq, h]
    simpa using hne.symm
  rw [run, Source.literalAt, hchar, Bool.false_and, if_neg Bool.false_ne_true]

/-! ### Patterns made of others -/

theorem Reads.seq (hp : Reads src p i j) (hq : Reads src q j k) : Reads src (seq p q) i k := by
  intro c hc
  rw [run, hp c hc, List.flatMap_singleton, hq _ rfl]
  rfl

theorem Fails.seq (hp : Fails src p i) (q : Pattern) : Fails src (seq p q) i := by
  intro c hc
  rw [run, hp c hc, List.flatMap_nil]

theorem fails_seq_of_reads (hp : Reads src p i j) (hq : Fails src q j) :
    Fails src (seq p q) i := by
  intro c hc
  rw [run, hp c hc, List.flatMap_singleton, hq _ rfl]

theorem Reads.alt_right (hp : Fails src p i) (hq : Reads src q i j) :
    Reads src (alt p q) i j := by
  intro c hc
  rw [run, hp c hc, hq c hc, List.nil_append]

theorem Fails.optional (hp : Fails src p i) : Reads src (optional p) i i :=
  Reads.alt_right hp (reads_empty src i)

/-! ### Matches -/

theorem matchAt_of_reads (h : Reads src p i j) : p.matchAt src i = some ⟨i, j, []⟩ := by
  rw [matchAt_eq, h ⟨i, []⟩ rfl]
  rfl

theorem find_of_reads (h : Reads src p 0 j) : p.find src 0 = some ⟨0, j, []⟩ := by
  rw [find_eq, matchAt_of_reads h]

end Pattern

end CodeParts
