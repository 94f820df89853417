import CodeParts.Proofs.Construct.Closing
import Mathlib.Data.List.TakeWhile

/-!
# Blocks as balanced braces

The search for the end of a block keeps a depth and whether it has been above zero. In terms
of the text it looks at the braces of code and at nothing else. It drops those before the
first opening one, and of the others it takes the fewest among which as many close as open:
the last of them closes the block (`matchingBraceEnd_iff_balanced`).

The depth is clamped at zero, and so it is not the difference of the numbers of opening and
closing braces. Inside of a block it is (`closingStep_open_iff`), and before a block only the
opening brace matters (`closingStep_iff`). Both are inductions over the steps of a scan, with
one case for a step that is no brace, for an opening and for a closing one.
-/

namespace CodeParts.Construct

open Lexer

variable {n m k e : Nat} {x : Step} {s : State} {xs : List Step}

/-! ### Balanced braces -/

/-- The number of opening braces. -/
def opened (bs : List Step) : Nat := bs.countP (·.char == '\x7b')

/-- The number of closing braces. -/
def closed (bs : List Step) : Nat := bs.countP (·.char == '\x7d')

/-- Where `n` blocks are open before, the first `k + 1` of the braces `bs`, and no fewer but
none, close all of them. -/
structure BalancesFirstAt (n : Nat) (bs : List Step) (k : Nat) : Prop where
  lt_length : k < bs.length
  balanced : n + opened (bs.take (k + 1)) = closed (bs.take (k + 1))
  first : ∀ j, j < k → n + opened (bs.take (j + 1)) ≠ closed (bs.take (j + 1))

/-- Offset `e` lies just past the last brace of the shortest beginning of the braces `bs`, other
than none, that closes `n` blocks open before and all that it opens itself. -/
def EndsBlockAt (n : Nat) (bs : List Step) (e : Nat) : Prop :=
  ∃ k x, BalancesFirstAt n bs k ∧ bs[k]? = some x ∧ e = x.offset + 1

theorem opened_cons (x : Step) (xs : List Step) : opened (x :: xs) = opened [x] + opened xs := by
  rw [opened, opened, opened, ← List.singleton_append, List.countP_append]

theorem closed_cons (x : Step) (xs : List Step) : closed (x :: xs) = closed [x] + closed xs := by
  rw [closed, closed, closed, ← List.singleton_append, List.countP_append]

theorem of_opening (h : x.char = '\x7b') : opened [x] = 1 ∧ closed [x] = 0 := by
  simp [opened, closed, h]

theorem of_closing (h : x.char = '\x7d') : opened [x] = 0 ∧ closed [x] = 1 := by
  simp [opened, closed, h]

/-- Behind a brace that does not close all blocks, `m` of them are open. -/
theorem balancesFirstAt_cons (hopen : n + opened [x] ≠ closed [x])
    (hm : n + opened [x] = m + closed [x]) :
    BalancesFirstAt n (x :: xs) (k + 1) ↔ BalancesFirstAt m xs k := by
  have hiff (j : Nat) : n + opened ((x :: xs).take (j + 1)) = closed ((x :: xs).take (j + 1)) ↔
      m + opened (xs.take j) = closed (xs.take j) := by
    rw [List.take_succ_cons, opened_cons, closed_cons]
    omega
  constructor
  · intro h
    refine ⟨Nat.lt_of_succ_lt_succ h.lt_length, (hiff (k + 1)).1 h.balanced, fun j hj hbal => ?_⟩
    exact h.first (j + 1) (Nat.succ_lt_succ hj) ((hiff (j + 1)).2 hbal)
  · intro h
    refine ⟨Nat.succ_lt_succ h.lt_length, (hiff (k + 1)).2 h.balanced, fun j hj hbal => ?_⟩
    cases j with
    | zero => exact hopen hbal
    | succ j => exact h.first j (Nat.lt_of_succ_lt_succ hj) ((hiff (j + 1)).1 hbal)

theorem endsBlockAt_cons (hopen : n + opened [x] ≠ closed [x])
    (hm : n + opened [x] = m + closed [x]) (e : Nat) :
    EndsBlockAt n (x :: xs) e ↔ EndsBlockAt m xs e := by
  constructor
  · intro h
    obtain ⟨k, y, hk, hy, he⟩ := h
    cases k with
    | zero => exact absurd hk.balanced hopen
    | succ k => exact ⟨k, y, (balancesFirstAt_cons hopen hm).1 hk, hy, he⟩
  · intro h
    obtain ⟨k, y, hk, hy, he⟩ := h
    exact ⟨k + 1, y, (balancesFirstAt_cons hopen hm).2 hk, hy, he⟩

/-- A brace that closes all blocks ends them. -/
theorem endsBlockAt_cons_of_balanced (h : n + opened [x] = closed [x]) (e : Nat) :
    EndsBlockAt n (x :: xs) e ↔ e = x.offset + 1 := by
  constructor
  · intro hends
    obtain ⟨k, y, hk, hy, he⟩ := hends
    cases k with
    | zero =>
        rw [List.getElem?_cons_zero, Option.some.injEq] at hy
        rw [he, hy]
    | succ k => exact absurd h (hk.first 0 (Nat.succ_pos k))
  · intro he
    exact ⟨0, x, ⟨Nat.succ_pos _, h, fun j hj => absurd hj (Nat.not_lt_zero j)⟩, rfl, he⟩

theorem not_endsBlockAt_nil (n e : Nat) : ¬ EndsBlockAt n [] e := by
  intro h
  obtain ⟨k, y, -, hy, -⟩ := h
  cases hy

/-- If any beginning but none closes all blocks, there is a shortest one. -/
theorem exists_endsBlockAt_iff (n : Nat) (bs : List Step) :
    (∃ e, EndsBlockAt n bs e) ↔
      ∃ k, k < bs.length ∧ n + opened (bs.take (k + 1)) = closed (bs.take (k + 1)) := by
  constructor
  · intro h
    obtain ⟨e, k, y, hk, -⟩ := h
    exact ⟨k, hk.lt_length, hk.balanced⟩
  · intro h
    obtain ⟨k, hk, hbal⟩ := h
    cases hfirst : firstIn
        (fun j => n + opened (bs.take (j + 1)) == closed (bs.take (j + 1))) 0 bs.length with
    | none =>
        have hnone := firstIn_eq_none_iff.1 hfirst k (Nat.zero_le k) hk
        rw [beq_eq_false_iff_ne] at hnone
        exact absurd hbal hnone
    | some j =>
        obtain ⟨-, hj, hbalanced, hmin⟩ := firstIn_eq_some_iff.1 hfirst
        refine ⟨_, j, bs[j], ⟨hj, eq_of_beq hbalanced, fun l hl => ?_⟩,
          List.getElem?_eq_getElem hj, rfl⟩
        exact beq_eq_false_iff_ne.1 (hmin l (Nat.zero_le l) hl)

/-! ### The steps of a scan -/

/-- The braces from the first opening one on. -/
def fromOpening (bs : List Step) : List Step := bs.dropWhile (·.char != '\x7b')

/-- Inside of blocks the depth is their number, and the search ends with the brace that closes
the last of them. -/
theorem closingStep_open_iff (i : Nat) (s : State) (cs : List Char) :
    0 < s.depth → ∀ e, closingStep true (steps i s cs) = some e ↔
      EndsBlockAt s.depth (braceSteps s (steps i s cs)) e := by
  refine steps_induction (P := fun s xs => 0 < s.depth → ∀ e, closingStep true xs = some e ↔
    EndsBlockAt s.depth (braceSteps s xs) e) ?nil ?step i s cs
  case nil =>
    intro s _ e
    exact iff_of_false (by simp [closingStep]) (not_endsBlockAt_nil _ e)
  case step =>
    intro s i c next j cs ih hpos e
    rcases braceSteps_cases s i c next (steps j (s.advance c next).state cs) with
      ⟨hbraces, hdepth⟩ | ⟨hbraces, ⟨hc, hdepth⟩ | ⟨hc, hdepth⟩⟩
    · have hstill : 0 < (s.advance c next).state.depth := by omega
      rw [closingStep_cons_of_pos hstill, hbraces, ih hstill, hdepth]
    · have hstill : 0 < (s.advance c next).state.depth := by omega
      obtain ⟨hopened, hclosed⟩ := of_opening (x := ⟨i, c, (s.advance c next).state⟩) hc
      rw [closingStep_cons_of_pos hstill, hbraces, ih hstill, hdepth,
        endsBlockAt_cons (m := s.depth + 1) (by omega) (by omega)]
    · obtain ⟨hopened, hclosed⟩ := of_closing (x := ⟨i, c, (s.advance c next).state⟩) hc
      by_cases hlast : s.depth = 1
      · have hout : ¬ 0 < (s.advance c next).state.depth := by omega
        rw [hbraces, endsBlockAt_cons_of_balanced (by omega), closingStep, if_neg hout,
          if_pos rfl, Option.some.injEq, eq_comm]
      · have hstill : 0 < (s.advance c next).state.depth := by omega
        rw [closingStep_cons_of_pos hstill, hbraces, ih hstill, hdepth,
          endsBlockAt_cons (m := s.depth - 1) (by omega) (by omega)]

/-- Outside of all blocks the search waits for an opening brace. -/
theorem closingStep_iff (i : Nat) (s : State) (cs : List Char) :
    s.depth = 0 → ∀ e, closingStep false (steps i s cs) = some e ↔
      EndsBlockAt 0 (fromOpening (braceSteps s (steps i s cs))) e := by
  refine steps_induction (P := fun s xs => s.depth = 0 → ∀ e, closingStep false xs = some e ↔
    EndsBlockAt 0 (fromOpening (braceSteps s xs)) e) ?nil ?step i s cs
  case nil =>
    intro s _ e
    exact iff_of_false (by simp [closingStep]) (not_endsBlockAt_nil _ e)
  case step =>
    intro s i c next j cs ih hzero e
    rcases braceSteps_cases s i c next (steps j (s.advance c next).state cs) with
      ⟨hbraces, hdepth⟩ | ⟨hbraces, ⟨hc, hdepth⟩ | ⟨hc, hdepth⟩⟩
    · have hstill : (s.advance c next).state.depth = 0 := by omega
      rw [closingStep_cons_of_zero hstill, hbraces, ih hstill]
    · -- The block opens here, and from here on the search is inside of it.
      have hone : (s.advance c next).state.depth = 1 := by omega
      have hin : 0 < (s.advance c next).state.depth := by omega
      obtain ⟨hopened, hclosed⟩ := of_opening (x := ⟨i, c, (s.advance c next).state⟩) hc
      have hkeep : fromOpening (⟨i, c, (s.advance c next).state⟩ ::
          braceSteps (s.advance c next).state (steps j (s.advance c next).state cs)) =
          ⟨i, c, (s.advance c next).state⟩ ::
            braceSteps (s.advance c next).state (steps j (s.advance c next).state cs) :=
        List.dropWhile_cons_of_neg (by simp [hc])
      rw [closingStep_cons_of_pos hin, hbraces, hkeep, closingStep_open_iff _ _ _ hin, hone,
        endsBlockAt_cons (m := 1) (by omega) (by omega)]
    · have hstill : (s.advance c next).state.depth = 0 := by omega
      have hdrop : fromOpening (⟨i, c, (s.advance c next).state⟩ ::
          braceSteps (s.advance c next).state (steps j (s.advance c next).state cs)) =
          fromOpening (braceSteps (s.advance c next).state
            (steps j (s.advance c next).state cs)) :=
        List.dropWhile_cons_of_pos (by simp [hc])
      rw [closingStep_cons_of_zero hstill, hbraces, hdrop, ih hstill]

/-! ### The end of the first block -/

/-- The braces of code from offset `i` to the end of the text. -/
def codeBraces (src : Source) (i : Nat) : List Step :=
  braceSteps .initial (src.steps i src.size .initial)

/-- The first block behind an offset ends with the last brace of the shortest beginning, other
than none, of the braces from the first opening one on in which as many close as open. It has
no end just if there is no opening brace or no such beginning. -/
theorem matchingBraceEnd_iff_balanced (src : Source) (i : Nat) :
    (∀ e, matchingBraceEnd src i = some e ↔
      ∃ k x, BalancesFirstAt 0 (fromOpening (codeBraces src i)) k ∧
        (fromOpening (codeBraces src i))[k]? = some x ∧ e = x.offset + 1) ∧
    (matchingBraceEnd src i = none ↔
      (∀ x ∈ codeBraces src i, x.char ≠ '\x7b') ∨
        ∀ k, k < (fromOpening (codeBraces src i)).length →
          opened ((fromOpening (codeBraces src i)).take (k + 1)) ≠
            closed ((fromOpening (codeBraces src i)).take (k + 1))) := by
  have hsome (e : Nat) : matchingBraceEnd src i = some e ↔
      EndsBlockAt 0 (fromOpening (codeBraces src i)) e :=
    closingStep_iff i .initial (src.slice i src.size) rfl e
  have hnone : matchingBraceEnd src i = none ↔
      ∀ k, k < (fromOpening (codeBraces src i)).length →
        opened ((fromOpening (codeBraces src i)).take (k + 1)) ≠
          closed ((fromOpening (codeBraces src i)).take (k + 1)) := by
    have hexists := exists_endsBlockAt_iff 0 (fromOpening (codeBraces src i))
    simp only [← hsome, ← Option.isSome_iff_exists, Nat.zero_add] at hexists
    rw [← Option.not_isSome_iff_eq_none, hexists]
    simp
  refine ⟨hsome, hnone.trans ⟨.inr, ?_⟩⟩
  intro h
  rcases h with hclosing | hbalanced
  · -- Without an opening brace all braces are dropped.
    have hnil : fromOpening (codeBraces src i) = [] := by
      rw [fromOpening, List.dropWhile_eq_nil_iff]
      intro x hx
      simpa using hclosing x hx
    intro k hk
    rw [hnil] at hk
    exact absurd hk (Nat.not_lt_zero k)
  · exact hbalanced

example :
    matchingBraceEnd (Source.ofString "\x7d f(\"\x7b\") \x7b /* \x7d */ \x7b\x7d \x7d \x7d") 0 =
      some 23 := by
  decide +kernel

end CodeParts.Construct
