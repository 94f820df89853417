import CodeParts.Proofs.Split.Run

/-!
# The depth at a cut

A run scans a text piece by piece, each piece with a lookahead that ends at its cut. This
module says that nothing is lost by that: the state at every cut is that of one scan from
the start of the text (`nthBoundary_after`). So the depths that the parts of a text carry
depend on the text and the offset alone, and not on how it was cut (`depth_of_split`).
-/

namespace CodeParts.Split

open Lexer

variable {src : Source} {policy : Policy}

/-- The state at a cut is that of one scan of everything before it. -/
theorem nthBoundary_after (src : Source) (policy : Policy) (n : Nat) :
    (nthBoundary src policy 0 .initial n).after =
      src.scan 0 (nthBoundary src policy 0 .initial n).cut .initial := by
  induction n with
  | zero => rfl
  | succ n ih =>
      have hcut : (nthBoundary src policy 0 .initial n).cut ≤ src.size := nthBoundary_cut_le n
      show src.scan (nthBoundary src policy 0 .initial n).cut
        (nthBoundary src policy 0 .initial (n + 1)).cut
        (nthBoundary src policy 0 .initial n).after = _
      -- The scan so far may stop at the cut, because it is a line break.
      rw [ih]
      exact Source.scan_scan (Nat.zero_le _) (le_selectBoundary_cut hcut)
        (lineBreak_nthBoundary_cut n) .initial

/-- The state at the start of a piece is that of one scan of everything before it. -/
theorem nthBoundary_before (src : Source) (policy : Policy) (n : Nat) :
    (nthBoundary src policy 0 .initial n).before =
      src.scan 0 (nthBoundary src policy 0 .initial n).start .initial := by
  cases n with
  | zero =>
      show State.initial = src.scan 0 0 .initial
      rw [Source.scan, Source.slice_self]
      rfl
  | succ n => exact nthBoundary_after src policy n

/-- The depths of a part are those of one scan of the text. -/
theorem depth_of_mem_assemble {p : Part} (hp : p ∈ assemble src (boundaries src policy)) :
    p.depthIn = (src.scan 0 p.start .initial).depth ∧
      p.depthOut = (src.scan 0 p.stop .initial).depth := by
  rcases Nat.eq_zero_or_pos src.size with hsize | hsize
  · rw [assemble_of_empty hsize, List.mem_singleton] at hp
    subst hp
    simp [Part.ofSpan, Source.scan, finish, State.initial]
  · obtain ⟨i, b, hb, rfl⟩ := exists_boundary_of_mem hsize hp
    obtain ⟨rfl, -⟩ := getElem?_boundariesFrom hb
    exact ⟨congrArg State.depth (nthBoundary_before src policy i),
      congrArg State.depth (nthBoundary_after src policy i)⟩

/-- The states of a run are those of one uninterrupted scan, and so are the depths of all
parts: a part begins at the depth at which the one before it ends, and any two splits of
a text agree on the depth wherever both cut. -/
theorem depth_of_split (text : String) (policy : Policy) :
    (∀ n, (nthBoundary (Source.ofString text) policy 0 .initial n).after =
      (Source.ofString text).scan 0
        (nthBoundary (Source.ofString text) policy 0 .initial n).cut .initial) ∧
    ∀ ps, split text policy = .ok ps →
      (∀ p ∈ ps, p.depthIn = ((Source.ofString text).scan 0 p.start .initial).depth ∧
        p.depthOut = ((Source.ofString text).scan 0 p.stop .initial).depth) ∧
      (∀ i p q, ps[i]? = some p → ps[i + 1]? = some q → p.depthOut = q.depthIn) ∧
      ∀ (policy' : Policy) (ps' : List Part), split text policy' = .ok ps' →
        ∀ p ∈ ps, ∀ q ∈ ps',
          (p.start = q.start → p.depthIn = q.depthIn) ∧
          (p.stop = q.stop → p.depthOut = q.depthOut) ∧
          (p.stop = q.start → p.depthOut = q.depthIn) := by
  refine ⟨nthBoundary_after _ _, fun ps hps => ?_⟩
  obtain ⟨-, rfl⟩ := split_eq_ok_iff.1 hps
  refine ⟨fun p hp => depth_of_mem_assemble hp, ?_, ?_⟩
  · intro i p q hp hq
    obtain ⟨-, hout⟩ := depth_of_mem_assemble (List.mem_of_getElem? hp)
    obtain ⟨hin, -⟩ := depth_of_mem_assemble (List.mem_of_getElem? hq)
    rw [hout, hin, stop_eq_start_of_next hp hq]
  · intro policy' ps' hps' p hp q hq
    obtain ⟨-, rfl⟩ := split_eq_ok_iff.1 hps'
    obtain ⟨hpin, hpout⟩ := depth_of_mem_assemble hp
    obtain ⟨hqin, hqout⟩ := depth_of_mem_assemble hq
    rw [hpin, hpout, hqin, hqout]
    exact ⟨fun h => by rw [h], fun h => by rw [h], fun h => by rw [h]⟩

/-- Two nested blocks, cut after each line and after every other line: both splits report
the depth between the blocks. -/
theorem depth_of_split_nested :
    ∃ ps ps' p q, split "\x7b\n\x7b\n\x7d\n\x7d\n" ⟨⟨80, 1⟩, .strict, 0.3⟩ = .ok ps ∧
      split "\x7b\n\x7b\n\x7d\n\x7d\n" ⟨⟨80, 2⟩, .constructPriority, 0.5⟩ = .ok ps' ∧
      ps[1]? = some p ∧ ps'[0]? = some q ∧ p.stop = q.stop ∧ p.depthOut = q.depthOut ∧
      p.depthOut = 2 := by
  have hvalid : Policy.Valid ⟨⟨80, 1⟩, .strict, 0.3⟩ :=
    ⟨by decide, by decide, by decide, by decide⟩
  have hvalid' : Policy.Valid ⟨⟨80, 2⟩, .constructPriority, 0.5⟩ :=
    ⟨by decide, by decide, by decide, by decide⟩
  have hb : (boundaries (Source.ofString "\x7b\n\x7b\n\x7d\n\x7d\n") ⟨⟨80, 1⟩, .strict, 0.3⟩)[1]? =
      some ⟨2, ⟨.code, 1, false⟩, 4, ⟨4, .lastNewline⟩, 4, ⟨.code, 2, false⟩⟩ := by
    decide +kernel
  have hb' : (boundaries (Source.ofString "\x7b\n\x7b\n\x7d\n\x7d\n")
      ⟨⟨80, 2⟩, .constructPriority, 0.5⟩)[0]? =
      some ⟨0, ⟨.code, 0, false⟩, 4, ⟨4, .lastNewline⟩, 4, ⟨.code, 2, false⟩⟩ := by
    decide +kernel
  have hps := split_of_valid hvalid "\x7b\n\x7b\n\x7d\n\x7d\n"
  have hps' := split_of_valid hvalid' "\x7b\n\x7b\n\x7d\n\x7d\n"
  have hp := getElem?_assemble_of_boundary hb
  have hq := getElem?_assemble_of_boundary hb'
  obtain ⟨-, -, hagree⟩ := (depth_of_split _ _).2 _ hps
  have hdepth := (hagree _ _ hps' _ (List.mem_of_getElem? hp) _ (List.mem_of_getElem? hq)).2.1 rfl
  exact ⟨_, _, _, _, hps, hps', hp, hq, rfl, hdepth, rfl⟩

end CodeParts.Split
