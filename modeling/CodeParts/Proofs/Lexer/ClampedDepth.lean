import CodeParts.Proofs.Lexer.Word
import Mathlib.Algebra.BigOperators.Group.List.Basic
import Mathlib.Algebra.Order.Ring.Int
import Mathlib.Order.Bounds.Basic

/-!
# The depth of a scan in closed form

A closing brace that closes nothing leaves the depth at zero, so the depth behind a scan is not
just the depth before it and what the braces of code add. It is the greatest of that sum and of
the sums over the last braces only (`isGreatest_depth`): where the depth has been at zero, what
came before is forgotten.

Which braces a scan reads in code does not depend on the depth, and nothing else in its steps
does (`map_lexical_steps`). So the depth before a scan stands in a single one of these sums, and
scans of one text come no further apart than they began (`Source.depth_of_scan`). All this is
arithmetic of numbers without a bound, so it is said of machine words for scans whose depths fit.
-/

namespace CodeParts.Lexer

variable {s t : State} {d d' : Nat} {b x : Int} {bs : List Int}

/-! ### The braces of a scan -/

/-- What a brace adds to a depth that is not clamped. -/
def braceSign (x : Step) : Int := if x.char = '\x7b' then 1 else -1

/-- What the braces of code add, of steps that begin in the state `s`. -/
def braceSigns (s : State) (xs : List Step) : List Int := (braceSteps s xs).map braceSign

/-- The braces of code do not depend on the depth. -/
theorem braceSigns_of_eq {xs ys : List Step} (hmode : t.mode = s.mode)
    (h : ys.map Step.lexical = xs.map Step.lexical) : braceSigns t ys = braceSigns s xs := by
  induction xs generalizing s t ys with
  | nil =>
      rw [List.map_nil, List.map_eq_nil_iff] at h
      rw [h]
      rfl
  | cons x xs ih =>
      cases ys with
      | nil => cases h
      | cons y ys =>
          rw [List.map_cons, List.map_cons, List.cons.injEq] at h
          obtain ⟨hstep, hrest⟩ := h
          simp only [Step.lexical, Prod.mk.injEq] at hstep
          obtain ⟨-, hchar, hmode', -⟩ := hstep
          have hrest := ih hmode' hrest
          unfold braceSigns at hrest ⊢
          rw [braceSteps, braceSteps, hmode, hchar]
          split
          · rw [List.map_cons, List.map_cons, hrest, braceSign, braceSign, hchar]
          · exact hrest

/-! ### The greatest of some sums -/

/-- The sums of the last of some numbers: of all of them, of all but the first, and so on down
to none. -/
def suffixSums (bs : List Int) : Set Int := {x | ∃ j, j ≤ bs.length ∧ x = (bs.drop j).sum}

theorem mem_suffixSums_cons : x ∈ suffixSums (b :: bs) ↔ x = b + bs.sum ∨ x ∈ suffixSums bs := by
  constructor
  · intro h
    obtain ⟨j, hj, hx⟩ := h
    cases j with
    | zero => exact .inl (by rw [hx, List.drop_zero, List.sum_cons])
    | succ j => exact .inr ⟨j, Nat.le_of_succ_le_succ hj, hx⟩
  · intro h
    rcases h with hall | ⟨j, hj, hx⟩
    · exact ⟨0, Nat.zero_le _, by rw [hall, List.drop_zero, List.sum_cons]⟩
    · exact ⟨j + 1, Nat.succ_le_succ hj, hx⟩

theorem sum_mem_suffixSums (bs : List Int) : bs.sum ∈ suffixSums bs := ⟨0, Nat.zero_le _, rfl⟩

/-- The sums that compete for the depth: the depth before and all of the numbers, and the last of
the numbers alone. -/
def depthSums (d : Nat) (bs : List Int) : Set Int := insert (d + bs.sum) (suffixSums bs)

theorem isGreatest_depthSums_nil (d : Nat) : IsGreatest (depthSums d []) (d : Int) := by
  refine ⟨.inl (by simp), fun y hy => ?_⟩
  rcases hy with hy | ⟨j, -, hy⟩
  · simp [hy]
  · simp [hy]

/-- A number in front of the others is added to the depth, and the depth is clamped at zero. -/
theorem isGreatest_depthSums_cons (hd : (d' : Int) = max 0 (d + b))
    (h : IsGreatest (depthSums d' bs) x) : IsGreatest (depthSums d (b :: bs)) x := by
  obtain ⟨hmem, hupper⟩ := h
  have hall : d' + bs.sum ≤ x := hupper (Set.mem_insert _ _)
  constructor
  · rcases hmem with hx | hx
    · -- Where the depth is clamped, nothing is left of what came before.
      rcases Int.le_total 0 (d + b) with hpos | hneg
      · refine .inl ?_
        rw [hx, List.sum_cons]
        omega
      · refine .inr (mem_suffixSums_cons.2 (.inr ?_))
        have hzero : x = bs.sum := by omega
        rw [hzero]
        exact sum_mem_suffixSums bs
    · exact .inr (mem_suffixSums_cons.2 (.inr hx))
  · intro y hy
    rcases hy with hy | hy
    · rw [List.sum_cons] at hy
      omega
    · rcases mem_suffixSums_cons.1 hy with hsum | hlast
      · omega
      · exact hupper (.inr hlast)

/-- The depth behind a scan is the greatest of what the depth before it and all braces of code add
up to, and of what the last braces do alone. -/
theorem isGreatest_depth (i : Nat) (s : State) (cs : List Char) :
    IsGreatest (depthSums s.depth (braceSigns s (steps i s cs))) (finish s cs).depth := by
  rw [show finish s cs = stateAfter s (steps i s cs) from finish_eq i s cs]
  refine steps_induction (P := fun s xs =>
    IsGreatest (depthSums s.depth (braceSigns s xs)) (stateAfter s xs).depth) ?nil ?step i s cs
  case nil =>
    intro s
    exact isGreatest_depthSums_nil s.depth
  case step =>
    intro s i c next j cs ih
    rw [stateAfter_cons]
    unfold braceSigns at ih ⊢
    rcases braceSteps_cases s i c next (steps j (s.advance c next).state cs) with
      ⟨hbraces, hdepth⟩ | ⟨hbraces, ⟨hc, hdepth⟩ | ⟨hc, hdepth⟩⟩
    · rwa [hbraces, ← hdepth]
    · have hsign : braceSign ⟨i, c, (s.advance c next).state⟩ = 1 := by simp [braceSign, hc]
      rw [hbraces, List.map_cons, hsign]
      exact isGreatest_depthSums_cons (by omega) ih
    · have hsign : braceSign ⟨i, c, (s.advance c next).state⟩ = -1 := by simp [braceSign, hc]
      rw [hbraces, List.map_cons, hsign]
      exact isGreatest_depthSums_cons (by omega) ih

end CodeParts.Lexer

namespace CodeParts.Source

open Lexer

/-- What the braces add that a scan of `[a, b)` reads in code, if it begins in the given mode. -/
def braceSigns (src : Source) (a b : Nat) (mode : Mode) (escaped : Bool) : List Int :=
  Lexer.braceSigns ⟨mode, 0, escaped⟩ (src.steps a b ⟨mode, 0, escaped⟩)

/-- Apart from the depth nothing in the steps of a scan depends on the depth before it, nor on how
the depth is counted. As long as no depth outgrows a machine word (see `depthsFit_of_count`), words
count as numbers do, and the depth behind the scan is the greatest of what the depth before and all
braces of code add up to, and of what the last braces do alone, down to none of them. So a scan that
begins deeper ends no less deep, and deeper by no more than it began. -/
theorem depth_of_scan (src : Source) (a b : Nat) (mode : Mode) (escaped : Bool) :
    (∀ d d', (src.steps a b ⟨mode, d, escaped⟩).map Step.lexical =
        (src.steps a b ⟨mode, d', escaped⟩).map Step.lexical ∧
      (src.wordSteps a b ⟨mode, d, escaped⟩).map Step.lexical =
        (src.steps a b ⟨mode, d', escaped⟩).map Step.lexical) ∧
    (∀ d : Nat, DepthsFit ⟨mode, d, escaped⟩ (src.steps a b ⟨mode, d, escaped⟩) →
      src.wordScan a b ⟨mode, d, escaped⟩ = src.scan a b ⟨mode, d, escaped⟩ ∧
      IsGreatest
        (insert (d + (src.braceSigns a b mode escaped).sum)
          (suffixSums (src.braceSigns a b mode escaped)))
        (src.scan a b ⟨mode, d, escaped⟩).depth) ∧
    ∀ d n, DepthsFit ⟨mode, d + n, escaped⟩ (src.steps a b ⟨mode, d + n, escaped⟩) →
      DepthsFit ⟨mode, d, escaped⟩ (src.steps a b ⟨mode, d, escaped⟩) ∧
      (src.scan a b ⟨mode, d, escaped⟩).depth ≤ (src.scan a b ⟨mode, d + n, escaped⟩).depth ∧
      (src.scan a b ⟨mode, d + n, escaped⟩).depth ≤
        (src.scan a b ⟨mode, d, escaped⟩).depth + n := by
  have hlexical (d d' : Nat) : (src.steps a b ⟨mode, d, escaped⟩).map Step.lexical =
      (src.steps a b ⟨mode, d', escaped⟩).map Step.lexical :=
    map_lexical_steps (s := ⟨mode, d', escaped⟩) (t := ⟨mode, d, escaped⟩) rfl rfl a
      (src.slice a b)
  refine ⟨fun d d' => ⟨hlexical d d', ?_⟩, fun d hfit => ⟨?_, ?_⟩, fun d n hfit => ?_⟩
  · exact map_lexical_wordSteps (s := ⟨mode, d', escaped⟩) (t := ⟨mode, d, escaped⟩) rfl rfl a
      (src.slice a b)
  · exact (wordScan_of_depthsFit hfit).2
  · have hsigns : src.braceSigns a b mode escaped =
        Lexer.braceSigns ⟨mode, d, escaped⟩ (src.steps a b ⟨mode, d, escaped⟩) :=
      braceSigns_of_eq rfl (hlexical 0 d)
    rw [hsigns]
    exact isGreatest_depth a ⟨mode, d, escaped⟩ (src.slice a b)
  · have hdeeper : Deeper n ⟨mode, d, escaped⟩ ⟨mode, d + n, escaped⟩ :=
      ⟨rfl, rfl, Nat.le_add_right d n, Nat.le_refl (d + n)⟩
    have hend := hdeeper.finish (src.slice a b)
    exact ⟨hdeeper.depthsFit hfit, hend.depth_le, hend.depth_le_add⟩

/-- The last brace that a machine word can count. -/
theorem depth_of_scan_wordSize :
    DepthsFit ⟨.code, wordSize - 2, false⟩
        ((ofString "\x7d\x7b\x7b").steps 0 3 ⟨.code, wordSize - 2, false⟩) ∧
      (ofString "\x7d\x7b\x7b").wordScan 0 3 ⟨.code, wordSize - 2, false⟩ =
        (ofString "\x7d\x7b\x7b").scan 0 3 ⟨.code, wordSize - 2, false⟩ ∧
      ((ofString "\x7d\x7b\x7b").scan 0 3 ⟨.code, wordSize - 2, false⟩).depth ≤
        ((ofString "\x7d\x7b\x7b").scan 0 3 ⟨.code, 0, false⟩).depth + (wordSize - 2) := by
  obtain ⟨-, hgreatest, hdeeper⟩ := depth_of_scan (ofString "\x7d\x7b\x7b") 0 3 .code false
  have hfit : DepthsFit ⟨.code, 0 + (wordSize - 2), false⟩
      ((ofString "\x7d\x7b\x7b").steps 0 3 ⟨.code, 0 + (wordSize - 2), false⟩) := by
    decide +kernel
  obtain ⟨-, -, hle⟩ := hdeeper 0 (wordSize - 2) hfit
  rw [Nat.zero_add] at hfit hle
  exact ⟨hfit, (hgreatest _ hfit).1, hle⟩

example : (Source.ofString "\x7d\x7d\x7b'\x7b'").braceSigns 0 6 .code false = [-1, -1, 1] ∧
    ((Source.ofString "\x7d\x7d\x7b'\x7b'").scan 0 6 ⟨.code, 1, false⟩).depth = 1 := by
  decide +kernel

end CodeParts.Source
