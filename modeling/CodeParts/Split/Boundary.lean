import CodeParts.Lexer.Scan
import CodeParts.Split.Policy

/-!
# Where a part ends

`selectBoundary` chooses the end of the part that begins at an offset. The limits
give a tentative cut; unless it is the end of the text, the strategy searches for a
better candidate; and the candidate is moved forward to the end of its line. The
state at the cut comes from scanning the part itself, so it is exact whenever the
state at its start is.

Whatever the limits and the strategy, a cut lies after the start of its part
(`lt_selectBoundary_cut`), which is what makes a sequence of cuts end.
-/

namespace CodeParts.Split

open Lexer

/-- How far back from the tentative cut a line end outside all braces is looked for. -/
def depthZeroLookback : Nat := 12000

/-- How far back from the tentative cut the end of a block is looked for. -/
def closingLookback : Nat := 2000

/-- Ends of blocks and calls, in the order in which they are tried. -/
def closingTokens : List (List Char) :=
  [['\n', '}', ')', '(', ')', ';', '\n'], ['\n', '}', ')', ';', '\n'], ['\n', '}', '\n']]

/-- Ends of immediately invoked functions. -/
def terminators : List (List Char) :=
  [['\n', '}', ')', '(', ')', ';', '\n'], ['}', ')', '(', ')', ';', '\n'],
    ['\n', '}', ')', '(', ')', ';'], ['}', ')', '(', ')', ';']]

/-- What the terminators have in common; each begins with it or with a newline before it. -/
def terminatorCore : List Char := ['}', ')', '(', ')', ';']

/-- Which rule produced a cut. -/
inductive CutReason where
  /-- The limits reach the end of the text. -/
  | endOfText
  /-- The last line end outside all braces, as far as the window shows. -/
  | depthZeroNewline
  /-- The end of a block. -/
  | closingToken
  /-- The end of an immediately invoked function. -/
  | iifeTerminator
  /-- The last line end within the limits. -/
  | lastNewline
  /-- Nothing better; the limits themselves. -/
  | hardCut
  deriving DecidableEq, Repr

/-- A place to cut before it is moved to the end of its line. -/
structure Candidate where
  offset : Nat
  reason : CutReason
  deriving DecidableEq, Repr

/-- The end of the part that begins at `start`, and how it was found. -/
structure Boundary where
  start : Nat
  /-- The state at `start`. -/
  before : State
  /-- Where the limits are reached. -/
  tentative : Nat
  /-- What the search found. -/
  candidate : Candidate
  /-- The end of the part. -/
  cut : Nat
  /-- The state at `cut`. -/
  after : State
  deriving DecidableEq, Repr

/-- Which rule produced the cut. -/
def Boundary.reason (b : Boundary) : CutReason := b.candidate.reason

/-! ### Limits and line ends -/

/-- Where the part that begins at `start` reaches its limits, whichever comes first. -/
def tentativeCut (src : Source) (limits : Limits) (start : Nat) : Nat :=
  min (min (start + limits.maxChars) src.size)
    ((src.afterNewline start limits.maxLines).getD src.size)

/-- The offset `stop`, moved forward to the end of its line unless it is one; past
`start` in any case. -/
def snapToLineEnd (src : Source) (start stop : Nat) : Nat :=
  if stop ≤ start then src.lineEndFrom start
  else if src.size ≤ stop then src.size
  else if src.newlineAt (stop - 1) then stop
  else src.lineEndFrom stop

/-! ### Searches -/

/-- The last offset of `(a, b]` just after a newline that a scan of `[a, b)` finds in
code outside all braces. The scan knows nothing of what stands before `a`. -/
def lastDepthZeroLineEnd (src : Source) (a b : Nat) : Option Nat :=
  src.lastLineEnd a b .initial

/-- The last line end within the limits, or the limits themselves. -/
def newlineCandidate (src : Source) (start tentative : Nat) : Candidate :=
  match src.lastNewline start tentative with
  | some nl => if start < nl then ⟨nl + 1, .lastNewline⟩ else ⟨tentative, .hardCut⟩
  | none => ⟨tentative, .hardCut⟩

/-- Just after the last occurrence of the first closing token that occurs at all. -/
def lastClosing (src : Source) (a b : Nat) : Option Nat :=
  closingTokens.findSome? fun token => (src.lastLiteral token a b).map (· + token.length)

/-- The candidate of the strict strategy. -/
def strictCandidate (src : Source) (start tentative : Nat) : Candidate :=
  match (lastDepthZeroLineEnd src (max start (tentative - depthZeroLookback)) tentative).filter
      (start < ·) with
  | some cut => ⟨cut, .depthZeroNewline⟩
  | none =>
      match lastClosing src (max start (tentative - closingLookback)) tentative with
      | some cut => ⟨cut, .closingToken⟩
      | none => newlineCandidate src start tentative

/-- An occurrence of a literal. -/
structure Occurrence where
  start : Nat
  stop : Nat
  deriving DecidableEq, Repr

/-- The terminator that stands at offset `i` and ends at or before `b`; of several, the
first in the list. -/
def terminatorAt (src : Source) (b i : Nat) : Option (List Char) :=
  terminators.find? fun token => src.literalAt token i && decide (i + token.length ≤ b)

/-- The first occurrence of a terminator that begins inside `[lo, hi)` and ends at or before
`b`. -/
def terminatorFrom (src : Source) (b lo hi : Nat) : Option Occurrence :=
  (firstIn (fun i => (terminatorAt src b i).isSome) lo hi).bind fun i =>
    (terminatorAt src b i).map fun token => ⟨i, i + token.length⟩

/-- The first occurrence of a terminator inside `[a, b)`. It begins where their common part
first stands, or with the newline before that. -/
def firstTerminator (src : Source) (a b : Nat) : Option Occurrence :=
  (src.firstLiteral terminatorCore a b).bind fun i =>
    terminatorFrom src b (max a (i - 1)) (i + 1)

theorem lt_literalBound_core {src : Source} {b i : Nat}
    (h : src.literalAt terminatorCore i = true) :
    i < src.literalBound terminatorCore b ↔ i + terminatorCore.length ≤ b := by
  have := Source.add_length_le_size h (by decide)
  simp only [Source.literalBound, terminatorCore, List.isEmpty_cons, List.length_cons,
    List.length_nil] at this ⊢
  simp only [Bool.false_eq_true, if_false]
  omega

/-- A terminator is the common part, with a newline before it or not and with one behind it
or not. -/
theorem exists_newlines_of_mem_terminators {token : List Char} (h : token ∈ terminators) :
    ∃ front back, token = front ++ (terminatorCore ++ back) ∧
      (front = [] ∨ front = ['\n']) ∧ (back = [] ∨ back = ['\n']) := by
  simp only [terminators, List.mem_cons, List.not_mem_nil, or_false] at h
  rcases h with rfl | rfl | rfl | rfl
  · exact ⟨['\n'], ['\n'], rfl, .inr rfl, .inr rfl⟩
  · exact ⟨[], ['\n'], rfl, .inl rfl, .inr rfl⟩
  · exact ⟨['\n'], [], rfl, .inr rfl, .inl rfl⟩
  · exact ⟨[], [], rfl, .inl rfl, .inl rfl⟩

/-- Where a terminator stands, the common part stands at its start or behind a newline there,
and the terminator ends with it or with a newline behind it. -/
theorem core_of_terminatorAt {src : Source} {b i : Nat} {token : List Char}
    (h : terminatorAt src b i = some token) :
    ∃ j, (j = i ∨ j = i + 1 ∧ src.newlineAt i = true) ∧
      src.literalAt terminatorCore j = true ∧ j + terminatorCore.length ≤ b ∧
      (i + token.length = j + terminatorCore.length ∨
        i + token.length = j + terminatorCore.length + 1 ∧
          src.newlineAt (j + terminatorCore.length) = true) := by
  have hat := List.find?_some (p := fun token => _) h
  obtain ⟨hlit, hstop⟩ := Bool.and_eq_true_iff.1 hat
  have hstop := of_decide_eq_true hstop
  obtain ⟨front, back, rfl, hfront, hback⟩ :=
    exists_newlines_of_mem_terminators (List.mem_of_find?_eq_some h)
  rw [Source.literalAt_append, Source.literalAt_append, Bool.and_eq_true, Bool.and_eq_true] at hlit
  obtain ⟨hnewline, hcore, hbehind⟩ := hlit
  simp only [List.length_append] at hstop ⊢
  refine ⟨i + front.length, ?_, hcore, by omega, ?_⟩
  · rcases hfront with rfl | rfl
    · exact .inl rfl
    · rw [Source.literalAt, Bool.and_eq_true] at hnewline
      exact .inr ⟨rfl, hnewline.1⟩
  · rcases hback with rfl | rfl
    · exact .inl rfl
    · rw [Source.literalAt, Bool.and_eq_true] at hbehind
      exact .inr ⟨rfl, hbehind.1⟩

/-- Where a terminator stands, the common part stands there or just after. -/
theorem exists_core_of_terminatorAt {src : Source} {b i : Nat}
    (h : (terminatorAt src b i).isSome = true) :
    ∃ j, i ≤ j ∧ j ≤ i + 1 ∧ src.literalAt terminatorCore j = true ∧
      j + terminatorCore.length ≤ b := by
  obtain ⟨token, htoken⟩ := Option.isSome_iff_exists.1 h
  obtain ⟨j, hj, hcore, hb, -⟩ := core_of_terminatorAt htoken
  exact ⟨j, by omega, by omega, hcore, hb⟩

/-- The common part is a terminator itself. -/
theorem isSome_terminatorAt {src : Source} {b i : Nat}
    (h : src.literalAt terminatorCore i = true) (hb : i + terminatorCore.length ≤ b) :
    (terminatorAt src b i).isSome = true :=
  List.find?_isSome.2
    ⟨terminatorCore, by decide, Bool.and_eq_true_iff.2 ⟨h, decide_eq_true hb⟩⟩

/-- Looking for the common part first leaves nothing out. -/
theorem firstTerminator_eq (src : Source) (a b : Nat) :
    firstTerminator src a b = terminatorFrom src b a b := by
  have hlength : 0 < terminatorCore.length := by decide
  unfold firstTerminator terminatorFrom
  rw [src.firstLiteral_eq]
  cases hcore : firstIn (src.literalAt terminatorCore) a (src.literalBound terminatorCore b) with
  | none =>
      rw [firstIn_eq_none_iff] at hcore
      rw [firstIn_eq_none_iff.2 fun j haj hjb => ?_]
      · rfl
      · rw [← Bool.not_eq_true]
        intro h
        obtain ⟨k, hjk, -, hlit, hk⟩ := exists_core_of_terminatorAt h
        rw [hcore k (by omega) ((lt_literalBound_core hlit).2 hk)] at hlit
        cases hlit
  | some p =>
      obtain ⟨hap, hpb, hlit, hmin⟩ := firstIn_eq_some_iff.1 hcore
      rw [lt_literalBound_core hlit] at hpb
      have hp := isSome_terminatorAt hlit hpb
      rw [Option.bind_some]
      congr 1
      cases hlo : firstIn (fun i => (terminatorAt src b i).isSome) (max a (p - 1)) (p + 1) with
      | none =>
          have := firstIn_eq_none_iff.1 hlo p (by omega) (by omega)
          rw [hp] at this
          cases this
      | some i =>
          obtain ⟨hai, hip, hi, himin⟩ := firstIn_eq_some_iff.1 hlo
          symm
          refine firstIn_eq_some_iff.2 ⟨by omega, by omega, hi, fun j haj hji => ?_⟩
          by_cases hj : max a (p - 1) ≤ j
          · exact himin j hj hji
          · rw [← Bool.not_eq_true]
            intro h
            obtain ⟨k, hjk, hkj, hklit, hk⟩ := exists_core_of_terminatorAt h
            rw [hmin k (by omega) (by omega)] at hklit
            cases hklit

/-- The candidate of the strategies that look forward, as far as `reach`. -/
def terminatorCandidate (src : Source) (start tentative reach : Nat) : Candidate :=
  match firstTerminator src tentative reach with
  | some o => ⟨o.stop, .iifeTerminator⟩
  | none => newlineCandidate src start tentative

/-- What the strategy of a policy finds for a tentative cut before the end of the text. -/
def searchCandidate (src : Source) (policy : Policy) (start tentative : Nat) : Candidate :=
  match policy.strategy with
  | .strict => strictCandidate src start tentative
  | .constructPriority => terminatorCandidate src start tentative src.size
  | .hybrid =>
      terminatorCandidate src start tentative
        (min (tentative + graceDistance tentative policy.graceRatio) src.size)

/-- The candidate: the end of the text if the limits reach it, else what the strategy
finds. -/
def candidateAt (src : Source) (policy : Policy) (start tentative : Nat) : Candidate :=
  if src.size ≤ tentative then ⟨src.size, .endOfText⟩
  else searchCandidate src policy start tentative

/-! ### The boundary -/

/-- The end of the part that begins at `start` in the state `before`. -/
def selectBoundary (src : Source) (policy : Policy) (start : Nat) (before : State) : Boundary :=
  let tentative := tentativeCut src policy.limits start
  let candidate := candidateAt src policy start tentative
  let cut := snapToLineEnd src start candidate.offset
  ⟨start, before, tentative, candidate, cut, src.scan start cut before⟩

theorem snapToLineEnd_le (src : Source) (start stop : Nat) :
    snapToLineEnd src start stop ≤ src.size := by
  unfold snapToLineEnd
  split
  · exact src.lineEndFrom_le start
  · split
    · exact Nat.le_refl _
    · split
      · omega
      · exact src.lineEndFrom_le stop

theorem lt_snapToLineEnd {src : Source} {start : Nat} (stop : Nat) (h : start < src.size) :
    start < snapToLineEnd src start stop := by
  unfold snapToLineEnd
  split
  · exact Source.lt_lineEndFrom h
  · split
    · exact h
    · split
      · omega
      · next hstart hstop _ =>
        have := @Source.lt_lineEndFrom src stop (by omega)
        omega

/-- A cut lies after the start of its part. -/
theorem lt_selectBoundary_cut {src : Source} {start : Nat} (policy : Policy) (before : State)
    (h : start < src.size) : start < (selectBoundary src policy start before).cut :=
  lt_snapToLineEnd _ h

/-- The boundaries of the parts from `start` on, each from the cut and the state of the
one before. -/
def boundariesFrom (src : Source) (policy : Policy) (start : Nat) (before : State) :
    List Boundary :=
  if start < src.size then
    let b := selectBoundary src policy start before
    b :: boundariesFrom src policy b.cut b.after
  else []
termination_by src.size - start
decreasing_by
  have := lt_selectBoundary_cut policy before ‹start < src.size›
  omega

/-- The boundaries of all parts of a text. -/
def boundaries (src : Source) (policy : Policy) : List Boundary :=
  boundariesFrom src policy 0 .initial

end CodeParts.Split
