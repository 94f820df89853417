import CodeParts.Proofs.Lexer.Steps
import Mathlib.Order.Bounds.Basic

/-!
# Line ends outside all braces

A newline has a step of its own in every scan, and a scan may stop behind it
(`Source.steps_of_newlineAt`). So what a scan of a whole range says of a line end inside the
range is what the scan that stops there says, and `Source.lastLineEnd` finds the last line end
of the range at which such a scan is in code outside all braces: `Source.lastLineEnd_eq_some`
says that what it finds is one, `Source.le_lastLineEnd` that none comes later. Together they
determine what it finds (`Source.lastLineEnd_eq_some_iff`, `Source.lastLineEnd_eq_none_iff`).
-/

namespace CodeParts.Source

open Lexer

variable {src : Source} {a b o : Nat} {s : State}

/-- A line ends at offset `o`, and a scan from `a` to there leads from the state `s` into code
outside all braces. -/
structure DepthZeroLineEnd (src : Source) (a : Nat) (s : State) (o : Nat) : Prop where
  lt : a < o
  newlineAt : src.newlineAt (o - 1) = true
  mode_eq : (src.scan a o s).mode = .code
  depth_eq : (src.scan a o s).depth = 0

/-- A newline has a step of its own, and that leads to the state behind it. -/
theorem steps_of_newlineAt (hao : a < o) (hob : o ≤ b) (hnl : src.newlineAt (o - 1) = true)
    (s : State) :
    src.steps a b s =
      src.steps a (o - 1) s ++ ⟨o - 1, '\n', src.scan a o s⟩ ::
        src.steps o b (src.scan a o s) := by
  have hsize := lt_size_of_newlineAt hnl
  have hbreak : src.LineBreak o := by
    have := lineBreak_succ_of_newlineAt hnl
    rwa [Nat.sub_add_cancel (Nat.zero_lt_of_lt hao)] at this
  have hslice : src.slice a o = src.slice a (o - 1) ++ ['\n'] := by
    rw [← src.slice_append_slice (show a ≤ o - 1 by omega) (Nat.sub_le o 1),
      slice_of_charAt (show o - 1 < o by omega) (newlineAt_eq_true.1 hnl),
      slice_eq_nil (show min o src.size ≤ o - 1 + 1 by omega)]
  have hlength : a + (src.slice a (o - 1)).length = o - 1 := by
    rw [length_slice]
    omega
  have hline : src.steps a o s =
      src.steps a (o - 1) s ++ [⟨o - 1, '\n', src.scan a o s⟩] := by
    have hstep : src.steps a o s = src.steps a (o - 1) s ++
        [⟨o - 1, '\n', ((src.scan a (o - 1) s).advance '\n' none).state⟩] := by
      rw [steps, hslice, steps_append_cons noMarker_newline, hlength]
      rfl
    have hscan : src.scan a o s = ((src.scan a (o - 1) s).advance '\n' none).state := by
      rw [scan_eq_stateAfter, hstep, stateAfter_append_cons]
      rfl
    rw [hstep, hscan]
  rw [← steps_append_steps (Nat.le_of_lt hao) hob hbreak s, hline, List.append_assoc]
  rfl

/-- What the search finds is such a line end of the range. -/
theorem lastLineEnd_eq_some (h : src.lastLineEnd a b s = some o) :
    o ≤ b ∧ src.DepthZeroLineEnd a s o := by
  rw [lastLineEnd_eq, Option.map_eq_some_iff] at h
  obtain ⟨x, hx, rfl⟩ := h
  obtain ⟨hmem, hline⟩ := List.mem_filter.1 (List.mem_of_getLast? hx)
  obtain ⟨hax, hxb, hchar⟩ := charAt_of_mem_steps hmem
  simp only [Step.endsLineAtDepthZero, State.endsLineAtDepthZero, Bool.and_eq_true,
    beq_iff_eq] at hline
  obtain ⟨⟨hnewline, hcode⟩, hdepth⟩ := hline
  rw [hnewline] at hchar
  have hnl : src.newlineAt (x.offset + 1 - 1) = true := newlineAt_eq_true.2 hchar
  -- The step belongs to the newline, since the steps before and behind lie elsewhere.
  have hstate : x.state = src.scan a (x.offset + 1) s := by
    rw [steps_of_newlineAt (Nat.lt_succ_of_le hax) hxb hnl, List.mem_append, List.mem_cons]
      at hmem
    rcases hmem with hbefore | heq | hbehind
    · have := (charAt_of_mem_steps hbefore).2.1
      omega
    · rw [heq]
      rfl
    · have := (charAt_of_mem_steps hbehind).1
      omega
  rw [hstate] at hcode hdepth
  exact ⟨hxb, Nat.lt_succ_of_le hax, hnl, Mode.isCode_iff.1 hcode, hdepth⟩

/-- No such line end of the range lies behind what the search finds. -/
theorem le_lastLineEnd (h : src.DepthZeroLineEnd a s o) (hob : o ≤ b) :
    ∃ p, src.lastLineEnd a b s = some p ∧ o ≤ p := by
  have hends : Step.endsLineAtDepthZero ⟨o - 1, '\n', src.scan a o s⟩ = true := by
    simp [Step.endsLineAtDepthZero, State.endsLineAtDepthZero, h.mode_eq, h.depth_eq, Mode.isCode]
  rw [lastLineEnd_eq, steps_of_newlineAt h.lt hob h.newlineAt, List.filter_append,
    List.filter_cons_of_pos hends, List.getLast?_append, List.getLast?_cons]
  cases hlast : ((src.steps o b (src.scan a o s)).filter Step.endsLineAtDepthZero).getLast? with
  | none =>
      refine ⟨_, rfl, ?_⟩
      simp only [Option.getD_none]
      omega
  | some x =>
      have hmem := (List.mem_filter.1 (List.mem_of_getLast? hlast)).1
      have hle := (charAt_of_mem_steps hmem).1
      exact ⟨x.offset + 1, rfl, Nat.le_succ_of_le hle⟩

/-- The line ends of `(a, b]` to which a scan from `a` leads from the state `s` into code outside
all braces. -/
def depthZeroLineEnds (src : Source) (a b : Nat) (s : State) : Set Nat :=
  {o | o ≤ b ∧ src.DepthZeroLineEnd a s o}

/-- One scan of the range finds the last of these line ends. -/
theorem lastLineEnd_eq_some_iff :
    src.lastLineEnd a b s = some o ↔ IsGreatest (src.depthZeroLineEnds a b s) o := by
  constructor
  · intro h
    refine ⟨lastLineEnd_eq_some h, fun p hp => ?_⟩
    obtain ⟨q, hq, hle⟩ := le_lastLineEnd hp.2 hp.1
    rw [h, Option.some.injEq] at hq
    rwa [hq]
  · intro h
    obtain ⟨p, hp, hle⟩ := le_lastLineEnd h.1.2 h.1.1
    rw [hp, Nat.le_antisymm (h.2 (lastLineEnd_eq_some hp)) hle]

/-- It finds nothing just if there are none. -/
theorem lastLineEnd_eq_none_iff :
    src.lastLineEnd a b s = none ↔ src.depthZeroLineEnds a b s = ∅ := by
  rw [Set.eq_empty_iff_forall_notMem]
  constructor
  · intro h o ho
    obtain ⟨p, hp, -⟩ := le_lastLineEnd ho.2 ho.1
    rw [h] at hp
    cases hp
  · intro h
    cases hlast : src.lastLineEnd a b s with
    | none => rfl
    | some o => exact absurd (lastLineEnd_eq_some hlast) (h o)

end CodeParts.Source
