import CodeParts.Proofs.Split.Run
import CodeParts.Proofs.Split.Window

/-!
# The phases of a run that looks forward

Under the strategy that looks forward to the end of the text, a run goes through phases: it
ends parts at terminators as long as there are any, then at line ends or at the limits, and
the end of the text comes last (`inPhases_run`). It does not come back to an earlier phase.

A search that has failed says nothing about the text before its tentative cut, and the next
part begins before that. What carries the induction is that the tentative cut of a later
part lies no further left (`tentativeCut_mono`), so that the next search covers nothing that
the failed one did not (`Exhausted.mono`).
-/

namespace CodeParts

namespace Source

/-- What some lines take ends inside the text. -/
theorem afterNewline_getD_le (src : Source) (i count : Nat) :
    (src.afterNewline i count).getD src.size ≤ src.size := by
  induction count generalizing i with
  | zero =>
      rw [afterNewline, Option.getD_some]
      exact Nat.min_le_right _ _
  | succ count ih =>
      rw [afterNewline]
      cases src.firstNewline i src.size with
      | none => exact Nat.le_refl _
      | some nl => exact ih (nl + 1)

/-- The next newline from a later offset on comes no earlier. -/
theorem firstNewline_mono {src : Source} {i j b : Nat} (hij : i ≤ j) {nl : Nat}
    (h : src.firstNewline j b = some nl) : ∃ nl', src.firstNewline i b = some nl' ∧ nl' ≤ nl := by
  obtain ⟨hjnl, hnlb, hnl, -⟩ := firstIn_eq_some_iff.1 h
  cases hi : src.firstNewline i b with
  | none =>
      rw [firstNewline, firstIn_eq_none_iff] at hi
      rw [hi nl (Nat.le_trans hij hjnl) hnlb] at hnl
      cases hnl
  | some nl' =>
      refine ⟨nl', rfl, Nat.le_of_not_lt fun hlt => ?_⟩
      rw [(firstIn_eq_some_iff.1 hi).2.2.2 nl (Nat.le_trans hij hjnl) hlt] at hnl
      cases hnl

/-- As many lines from a later offset on end no earlier. -/
theorem afterNewline_mono (src : Source) {i j : Nat} (hij : i ≤ j) (count : Nat) :
    (src.afterNewline i count).getD src.size ≤ (src.afterNewline j count).getD src.size := by
  induction count generalizing i j with
  | zero =>
      simp only [afterNewline, Option.getD_some]
      omega
  | succ count ih =>
      simp only [afterNewline]
      cases hj : src.firstNewline j src.size with
      | none =>
          rw [Option.bind_none, Option.getD_none]
          exact src.afterNewline_getD_le i (count + 1)
      | some nl =>
          obtain ⟨nl', hi, hle⟩ := firstNewline_mono hij hj
          rw [hi, Option.bind_some, Option.bind_some]
          exact ih (Nat.succ_le_succ hle)

end Source

namespace Split

open Lexer

variable {src : Source} {policy : Policy} {limits : Limits} {start stop n : Nat} {before : State}

/-! ### Searches that have failed -/

/-- The tentative cut of a part that begins later lies no further left. -/
theorem tentativeCut_mono (src : Source) (limits : Limits) {i j : Nat} (hij : i ≤ j) :
    tentativeCut src limits i ≤ tentativeCut src limits j := by
  have := src.afterNewline_mono hij limits.maxLines
  unfold tentativeCut
  omega

/-- No terminator is left for a part that begins at `start`. -/
def Exhausted (src : Source) (limits : Limits) (start : Nat) : Prop :=
  firstTerminator src (tentativeCut src limits start) src.size = none

/-- If none is left for a part, none is left for any part that begins later. -/
theorem Exhausted.mono (h : Exhausted src limits start) (hle : start ≤ stop) :
    Exhausted src limits stop := by
  have hcut := tentativeCut_mono src limits hle
  rw [Exhausted, firstTerminator_eq_none_iff] at h ⊢
  intro j hj hlt
  exact h j (Nat.le_trans hcut hj) hlt

/-! ### One boundary -/

theorem newlineCandidate_reason (src : Source) (start tentative : Nat) :
    (newlineCandidate src start tentative).reason = .lastNewline ∨
      (newlineCandidate src start tentative).reason = .hardCut := by
  unfold newlineCandidate
  cases src.lastNewline start tentative with
  | none => exact .inr rfl
  | some nl =>
      dsimp only
      split
      · exact .inl rfl
      · exact .inr rfl

/-- The three outcomes of a search that looks forward: the limits reach the end of the text
and so does the part, or a terminator is found, or none is left. -/
theorem selectBoundary_reason_cases (hp : policy.strategy = .constructPriority) (src : Source)
    (start : Nat) (before : State) :
    ((selectBoundary src policy start before).reason = .endOfText ∧
        src.size ≤ (selectBoundary src policy start before).cut) ∨
      (selectBoundary src policy start before).reason = .iifeTerminator ∧
        ¬ Exhausted src policy.limits start ∨
      ((selectBoundary src policy start before).reason = .lastNewline ∨
        (selectBoundary src policy start before).reason = .hardCut) ∧
        Exhausted src policy.limits start := by
  simp only [Boundary.reason, selectBoundary, candidateAt, Exhausted]
  by_cases hend : src.size ≤ tentativeCut src policy.limits start
  · rw [if_pos hend]
    have hcut := min_le_snapToLineEnd src start src.size
    rw [Nat.min_self] at hcut
    exact .inl ⟨rfl, hcut⟩
  · simp only [if_neg hend, searchCandidate, hp, terminatorCandidate]
    cases firstTerminator src (tentativeCut src policy.limits start) src.size with
    | some o => exact .inr (.inl ⟨rfl, Option.some_ne_none o⟩)
    | none => exact .inr (.inr ⟨newlineCandidate_reason src start _, rfl⟩)

/-! ### The run -/

/-- Reasons of the last phases: line ends or the limits, then at most one end of the text. -/
def FallsBack (rs : List CutReason) : Prop :=
  ∃ fallbacks last, rs = fallbacks ++ last ∧
    (∀ r ∈ fallbacks, r = .lastNewline ∨ r = .hardCut) ∧ (last = [] ∨ last = [.endOfText])

/-- Reasons in the order of the phases: terminators, then line ends or the limits, then at
most one end of the text. -/
def InPhases (rs : List CutReason) : Prop :=
  ∃ terminators rest, rs = terminators ++ rest ∧ (∀ r ∈ terminators, r = .iifeTerminator) ∧
    FallsBack rest

theorem fallsBack_nil : FallsBack [] :=
  ⟨[], [], rfl, List.forall_mem_nil _, .inl rfl⟩

theorem fallsBack_endOfText : FallsBack [.endOfText] :=
  ⟨[], _, rfl, List.forall_mem_nil _, .inr rfl⟩

theorem FallsBack.cons {r : CutReason} {rs : List CutReason}
    (hr : r = .lastNewline ∨ r = .hardCut) (h : FallsBack rs) : FallsBack (r :: rs) := by
  obtain ⟨fallbacks, last, rfl, hfallbacks, hlast⟩ := h
  exact ⟨r :: fallbacks, last, rfl, List.forall_mem_cons.2 ⟨hr, hfallbacks⟩, hlast⟩

theorem FallsBack.inPhases {rs : List CutReason} (h : FallsBack rs) : InPhases rs :=
  ⟨[], rs, rfl, List.forall_mem_nil _, h⟩

theorem InPhases.cons_iifeTerminator {rs : List CutReason} (h : InPhases rs) :
    InPhases (.iifeTerminator :: rs) := by
  obtain ⟨terminators, rest, rfl, hterminators, hrest⟩ := h
  exact ⟨.iifeTerminator :: terminators, rest, rfl,
    List.forall_mem_cons.2 ⟨rfl, hterminators⟩, hrest⟩

/-- The reasons of the first `n` boundaries of a run. -/
def reasons (src : Source) (policy : Policy) (start : Nat) (before : State) (n : Nat) :
    List CutReason :=
  (List.range n).map fun m => (nthBoundary src policy start before m).reason

theorem reasons_succ (src : Source) (policy : Policy) (start : Nat) (before : State) (n : Nat) :
    reasons src policy start before (n + 1) =
      (selectBoundary src policy start before).reason ::
        reasons src policy (selectBoundary src policy start before).cut
          (selectBoundary src policy start before).after n := by
  rw [reasons, List.range_succ_eq_map, List.map_cons, List.map_map]
  exact congrArg (_ :: ·) (List.map_congr_left fun m _ =>
    congrArg Boundary.reason (nthBoundary_succ m))

/-- A run that has not reached the end of the text before its last boundary goes on as such a
run after its first. -/
theorem lt_size_of_next
    (h : ∀ m, m + 1 < n + 1 → (nthBoundary src policy start before m).cut < src.size) (m : Nat)
    (hm : m + 1 < n) :
    (nthBoundary src policy (selectBoundary src policy start before).cut
      (selectBoundary src policy start before).after m).cut < src.size := by
  rw [← nthBoundary_succ]
  exact h (m + 1) (Nat.succ_lt_succ hm)

/-- A boundary at the end of the text is the last one. -/
theorem eq_zero_of_size_le
    (h : ∀ m, m + 1 < n + 1 → (nthBoundary src policy start before m).cut < src.size)
    (hcut : src.size ≤ (selectBoundary src policy start before).cut) : n = 0 := by
  cases n with
  | zero => rfl
  | succ n => exact absurd (h 0 (by omega)) (Nat.not_lt.2 hcut)

/-- Once no terminator is left, a run falls back to line ends and the limits. -/
theorem fallsBack_reasons (hp : policy.strategy = .constructPriority)
    (hexhausted : Exhausted src policy.limits start) (hstart : start ≤ src.size)
    (h : ∀ m, m + 1 < n → (nthBoundary src policy start before m).cut < src.size) :
    FallsBack (reasons src policy start before n) := by
  induction n generalizing start before with
  | zero => exact fallsBack_nil
  | succ n ih =>
      rw [reasons_succ]
      rcases selectBoundary_reason_cases hp src start before with
        ⟨hreason, hcut⟩ | ⟨-, hleft⟩ | ⟨hreason, -⟩
      · rw [hreason, eq_zero_of_size_le h hcut]
        exact fallsBack_endOfText
      · exact absurd hexhausted hleft
      · exact (ih (hexhausted.mono (le_selectBoundary_cut hstart)) selectBoundary_cut_le
          (lt_size_of_next h)).cons hreason

theorem inPhases_reasons (hp : policy.strategy = .constructPriority) (hstart : start ≤ src.size)
    (h : ∀ m, m + 1 < n → (nthBoundary src policy start before m).cut < src.size) :
    InPhases (reasons src policy start before n) := by
  induction n generalizing start before with
  | zero => exact fallsBack_nil.inPhases
  | succ n ih =>
      rcases selectBoundary_reason_cases hp src start before with
        ⟨hreason, hcut⟩ | ⟨hreason, -⟩ | ⟨-, hexhausted⟩
      · rw [reasons_succ, hreason, eq_zero_of_size_le h hcut]
        exact fallsBack_endOfText.inPhases
      · rw [reasons_succ, hreason]
        exact (ih selectBoundary_cut_le (lt_size_of_next h)).cons_iifeTerminator
      · -- The failed search is the first of those that fall back.
        exact (fallsBack_reasons hp hexhausted hstart h).inPhases

/-- The boundaries of a text are the first of its run, and none but the last is its end. -/
theorem map_reason_boundariesFrom (src : Source) (policy : Policy) (start : Nat)
    (before : State) :
    ∃ n, (boundariesFrom src policy start before).map Boundary.reason =
        reasons src policy start before n ∧
      ∀ m, m + 1 < n → (nthBoundary src policy start before m).cut < src.size := by
  refine ⟨(boundariesFrom src policy start before).length, List.ext_getElem? fun i => ?_, ?_⟩
  · rw [reasons, List.getElem?_map, List.getElem?_map]
    by_cases hi : i < (boundariesFrom src policy start before).length
    · have hget := List.getElem?_eq_getElem hi
      rw [List.getElem?_range hi, hget, (getElem?_boundariesFrom hget).1]
      rfl
    · rw [List.getElem?_eq_none (by omega), List.getElem?_eq_none (by simpa using hi)]
      rfl
  · intro m hm
    have hnext := List.getElem?_eq_getElem hm
    have hthis := List.getElem?_eq_getElem (Nat.lt_of_succ_lt hm)
    rw [← (getElem?_boundariesFrom hthis).1, ← (start_of_next hthis hnext).1]
    exact (getElem?_boundariesFrom hnext).2

/-- A run under the strategy that looks forward goes through its phases in order, whatever the
limits: from the first boundary up to the one at the end of the text, and up to any boundary
before that. -/
theorem inPhases_run (text : String) (limits : Limits) (ratio : Float) (before : State) :
    InPhases ((boundariesFrom (Source.ofString text) ⟨limits, .constructPriority, ratio⟩ 0
      before).map Boundary.reason) ∧
    ∀ n, (∀ m, m + 1 < n →
        (nthBoundary (Source.ofString text) ⟨limits, .constructPriority, ratio⟩ 0 before m).cut <
          (Source.ofString text).size) →
      InPhases (reasons (Source.ofString text) ⟨limits, .constructPriority, ratio⟩ 0 before n) := by
  obtain ⟨n, hreasons, hcuts⟩ := map_reason_boundariesFrom (Source.ofString text)
    ⟨limits, .constructPriority, ratio⟩ 0 before
  rw [hreasons]
  exact ⟨inPhases_reasons rfl (Nat.zero_le _) hcuts,
    fun n h => inPhases_reasons rfl (Nat.zero_le _) h⟩

example : (boundaries (Source.ofString "function\n\x7d)();\na\nb\nc\n")
    ⟨⟨4, 9⟩, .constructPriority, 0.3⟩).map Boundary.reason =
      [.iifeTerminator, .lastNewline, .endOfText] := by
  decide +kernel

end Split

end CodeParts
