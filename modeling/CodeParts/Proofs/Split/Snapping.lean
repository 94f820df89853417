import CodeParts.Proofs.Split.Run
import Mathlib.Order.Bounds.Basic

/-!
# Moving an offset to a line end

Whatever a search finds is moved to a line end behind the start of the part. The four cases of
`snapToLineEnd` come to one description: the result is the least line end that reaches the
offset and lies behind the start (`isLeast_snapToLineEnd`). A line end behind the start is
therefore not moved (`snapToLineEnd_eq_self`), and a second move changes nothing.
-/

namespace CodeParts

namespace Source

variable {src : Source} {i : Nat}

/-- The text ends at offset `i`, or a newline stands just before it. -/
def LineEnd (src : Source) (i : Nat) : Prop :=
  i = src.size ∨ ∃ j, i = j + 1 ∧ src.charAt j = some '\n'

theorem LineEnd.le_size (h : src.LineEnd i) : i ≤ src.size := by
  rcases h with rfl | ⟨j, rfl, hj⟩
  · exact Nat.le_refl _
  · exact lt_size_of_newlineAt (newlineAt_eq_true.2 hj)

/-- Line breaks are line ends, but for the one before the first line. -/
theorem lineEnd_iff_lineBreak (hi : 0 < i) : src.LineEnd i ↔ src.LineBreak i := by
  constructor
  · rintro (hend | ⟨j, rfl, hj⟩)
    · exact .inr hend
    · exact lineBreak_succ_of_newlineAt (newlineAt_eq_true.2 hj)
  · rintro (hstart | hend)
    · have hnl := newlineAt_of_lineStartsAt hi hstart
      exact .inr ⟨i - 1, (Nat.sub_add_cancel hi).symm, newlineAt_eq_true.1 hnl⟩
    · exact .inl hend

end Source

namespace Split

variable {src : Source} {start stop e : Nat}

/-- The line ends to which an offset can be moved: those that reach it, as far as the text goes,
and lie behind the start. -/
def LineEndsFrom (src : Source) (start stop : Nat) : Set Nat :=
  {e | src.LineEnd e ∧ min stop src.size ≤ e ∧ start < e}

/-- An offset is moved to the least line end that reaches it and lies behind the start. -/
theorem isLeast_snapToLineEnd (h : start < src.size) (stop : Nat) :
    IsLeast (LineEndsFrom src start stop) (snapToLineEnd src start stop) := by
  have hlt := lt_snapToLineEnd stop h
  constructor
  · have hbreak := lineBreak_snapToLineEnd src start stop
    have hend := (Source.lineEnd_iff_lineBreak (Nat.zero_lt_of_lt hlt)).2 hbreak
    exact ⟨hend, min_le_snapToLineEnd src start stop, hlt⟩
  · rintro e ⟨hend, hstop, hstart⟩
    have hbreak := (Source.lineEnd_iff_lineBreak (Nat.zero_lt_of_lt hstart)).1 hend
    exact snapToLineEnd_le_of_lineBreak hbreak hstart hstop

/-- A line end behind the start is not moved. -/
theorem snapToLineEnd_eq_self (hend : src.LineEnd e) (hstart : start < e) :
    snapToLineEnd src start e = e := by
  have hsize := hend.le_size
  refine (isLeast_snapToLineEnd (Nat.lt_of_lt_of_le hstart hsize) e).unique ⟨?_, ?_⟩
  · exact ⟨hend, Nat.min_le_left e src.size, hstart⟩
  · rintro other ⟨-, hreach, -⟩
    rwa [Nat.min_eq_left hsize] at hreach

/-- Behind the text there is nothing to move to but its end. -/
theorem snapToLineEnd_of_size_le (h : src.size ≤ start) (stop : Nat) :
    snapToLineEnd src start stop = src.size := by
  have hnone {a : Nat} (ha : start ≤ a) : src.lineEndFrom a = src.size := by
    have := src.le_lineEndFrom a
    unfold Source.lineEndFrom Source.firstNewline
    rw [firstIn_eq_none_iff.2 fun j haj hj => by omega]
  unfold snapToLineEnd
  by_cases hle : stop ≤ start
  · rw [if_pos hle, hnone (Nat.le_refl _)]
  · rw [if_neg hle, if_pos (by omega)]

/-- Moving is a closure onto the line ends behind the start of a part: it goes to the least of
them that reaches the offset, keeps the order of offsets and does nothing more a second time,
and it never stays at the start. From behind the text it goes to the end. -/
theorem snapToLineEnd_closes (src : Source) (start : Nat) :
    (start < src.size →
      (∀ stop, IsLeast (LineEndsFrom src start stop) (snapToLineEnd src start stop)) ∧
      Monotone (snapToLineEnd src start) ∧
      (∀ stop, snapToLineEnd src start (snapToLineEnd src start stop) =
        snapToLineEnd src start stop) ∧
      ∀ stop, snapToLineEnd src start stop ≠ start) ∧
    (src.size ≤ start → ∀ stop, snapToLineEnd src start stop = src.size) := by
  refine ⟨fun h => ?_, snapToLineEnd_of_size_le⟩
  have hleast := isLeast_snapToLineEnd h
  refine ⟨hleast, fun i j hij => snapToLineEnd_mono h hij, fun stop => ?_, fun stop => ?_⟩
  · obtain ⟨hend, -, hstart⟩ := (hleast stop).1
    exact snapToLineEnd_eq_self hend hstart
  · exact Nat.ne_of_gt (hleast stop).1.2.2

/-- An offset inside the last line and one before the start, seen from the newline that ends the
first line, which is no line end itself; and a start behind the text. -/
theorem snapToLineEnd_closes_newline :
    2 < (Source.ofString "ab\n\ncd").size ∧
      snapToLineEnd (Source.ofString "ab\n\ncd") 2 5 = 6 ∧
      IsLeast (LineEndsFrom (Source.ofString "ab\n\ncd") 2 5) 6 ∧
      snapToLineEnd (Source.ofString "ab\n\ncd") 2 0 = 3 ∧
      IsLeast (LineEndsFrom (Source.ofString "ab\n\ncd") 2 0) 3 ∧
      (Source.ofString "ab\n\ncd").size ≤ 7 ∧
      snapToLineEnd (Source.ofString "ab\n\ncd") 7 3 = 6 := by
  have hstart : 2 < (Source.ofString "ab\n\ncd").size := by decide
  have hbehind : (Source.ofString "ab\n\ncd").size ≤ 7 := by decide
  have hleast := ((snapToLineEnd_closes _ 2).1 hstart).1
  have hinside : snapToLineEnd (Source.ofString "ab\n\ncd") 2 5 = 6 := by decide +kernel
  have hbefore : snapToLineEnd (Source.ofString "ab\n\ncd") 2 0 = 3 := by decide +kernel
  exact ⟨hstart, hinside, hinside ▸ hleast 5, hbefore, hbefore ▸ hleast 0, hbehind,
    (snapToLineEnd_closes _ 7).2 hbehind 3⟩

end Split

end CodeParts
