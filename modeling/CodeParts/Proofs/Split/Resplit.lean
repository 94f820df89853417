import CodeParts.Proofs.Split.Run
import CodeParts.Proofs.Split.Window

/-!
# A part is not cut again

Splitting the text of a part by the policy that cut it out gives one part
(`split_text_of_mem`), for the strategies whose searches do not depend on the offset of the
part in the text. A part may be longer than the limits, so this is not a matter of its
size: the text of the part is a window that begins where the search began and ends at the
cut, and the search in the window finds the same candidate, whichever rule found it.
-/

namespace CodeParts.Split

open Lexer

variable {src sub : Source} {policy : Policy} {start : Nat} {before : State}

/-- A boundary that is selected again, in the text of its part alone, is the end of it. -/
theorem selectBoundary_window (hp : policy.Placeless) (w : Source.Window sub src start)
    (hcut : (selectBoundary src policy start before).cut = start + sub.size) (s : State) :
    (selectBoundary sub policy 0 s).cut = sub.size := by
  have hsize := w.add_size_le
  have htentative := tentativeCut_add w policy.limits 0
  have hle : (selectBoundary sub policy 0 s).cut ≤ sub.size := selectBoundary_cut_le
  rw [Nat.add_zero] at htentative
  simp only [selectBoundary, candidateAt] at hcut hle ⊢
  generalize tentativeCut sub policy.limits 0 = t at htentative hle ⊢
  by_cases ht : sub.size ≤ t
  · -- The part is within the limits.
    rw [if_pos ht] at hle ⊢
    have hend := min_le_snapToLineEnd sub 0 sub.size
    rw [Nat.min_self] at hend
    exact Nat.le_antisymm hle hend
  · have heq : tentativeCut src policy.limits start = start + t := by omega
    rw [heq, if_neg (by omega)] at hcut
    have hoffset :=
      min_le_snapToLineEnd src start (searchCandidate src policy start (start + t)).offset
    rw [hcut] at hoffset
    -- What led to the cut stands before it, so all of it is in the window.
    have hsearch : searchCandidate src policy start (start + t) =
        (searchCandidate sub policy 0 t).shift start :=
      searchCandidate_add (i := 0) hp w (by omega) hoffset
    have hsnap := snapToLineEnd_add w 0 (searchCandidate sub policy 0 t).offset
    rw [hsearch, Candidate.shift_offset] at hcut
    rw [Nat.add_zero, hcut, Nat.min_self] at hsnap
    rw [if_neg ht]
    omega

/-- The only boundary of the text of a part. -/
theorem boundaries_window (hp : policy.Placeless) (w : Source.Window sub src start)
    (hpos : 0 < sub.size)
    (hcut : (selectBoundary src policy start before).cut = start + sub.size) :
    boundaries sub policy = [selectBoundary sub policy 0 .initial] := by
  have hend := selectBoundary_window hp w hcut .initial
  rw [boundaries, boundariesFrom_of_lt hpos, boundariesFrom_of_le (by omega)]

/-- A text with one boundary is one part. -/
theorem assemble_singleton {b : Boundary} (hpos : 0 < src.size) (hstart : b.start = 0)
    (hcut : b.cut = src.size) :
    ∃ q, assemble src [b] = [q] ∧ q.text = src.text := by
  refine ⟨Part.ofBoundary src 1 1 b, assemble_of_pos hpos [b], ?_⟩
  show String.ofList (src.slice b.start b.cut) = src.text
  rw [hstart, hcut, Source.slice_zero_size, Source.text]

/-- The text of a part makes one part. -/
theorem assemble_window (hp : policy.Placeless) (w : Source.Window sub src start)
    (hpos : 0 < sub.size)
    (hcut : (selectBoundary src policy start before).cut = start + sub.size) :
    ∃ q, assemble sub (boundaries sub policy) = [q] ∧ q.text = sub.text := by
  rw [boundaries_window hp w hpos hcut]
  exact assemble_singleton hpos rfl (selectBoundary_window hp w hcut .initial)

/-- The text of a part, split by the policy that cut it out, is one part. -/
theorem split_text_of_mem {text : String} {ps : List Part} {p : Part}
    (hstrategy : policy.strategy = .strict ∨ policy.strategy = .constructPriority)
    (h : split text policy = .ok ps) (hp : p ∈ ps) :
    ∃ q, split p.text policy = .ok [q] ∧ q.text = p.text := by
  obtain ⟨hvalid, rfl⟩ := split_eq_ok_iff.1 h
  have hpart := partOf_of_mem_assemble hp
  have hsize := hpart.add_size
  simp only [split_eq_ok_iff]
  rcases Nat.eq_zero_or_pos (Source.ofString text).size with hzero | hpos
  · have hstop := hpart.stop_le
    have hempty : (Source.ofString p.text).size = 0 := by omega
    refine ⟨_, ⟨hvalid, (assemble_of_empty hempty _).symm⟩, ?_⟩
    show String.ofList ((Source.ofString p.text).slice 0 0) = p.text
    have hnil : p.text.toList = [] := List.eq_nil_of_length_eq_zero hempty
    rw [Source.slice_self, ← hnil, String.ofList_toList]
  · obtain ⟨before, hcut⟩ := exists_cut_of_mem hpos hp
    have hlt := hpart.start_lt hpos
    rw [← hsize] at hcut
    obtain ⟨q, hq, htext⟩ := assemble_window hstrategy hpart.window (by omega) hcut
    rw [Source.text_ofString] at htext
    exact ⟨q, ⟨hvalid, hq.symm⟩, htext⟩

/-- A part that is longer than the limits, because its end was looked for behind them. -/
theorem split_text_of_mem_long :
    ∃ ps p q, split "if (a) \x7b\n\x7d)();\nb\n" ⟨⟨4, 9⟩, .constructPriority, 0.3⟩ = .ok ps ∧
      ps[0]? = some p ∧ p.charCount = 15 ∧
      split p.text ⟨⟨4, 9⟩, .constructPriority, 0.3⟩ = .ok [q] ∧ q.text = p.text := by
  have hvalid : Policy.Valid ⟨⟨4, 9⟩, .constructPriority, 0.3⟩ :=
    ⟨by decide, by decide, by decide, by decide⟩
  have hb : (boundaries (Source.ofString "if (a) \x7b\n\x7d)();\nb\n")
      ⟨⟨4, 9⟩, .constructPriority, 0.3⟩)[0]? =
      some ⟨0, .initial, 4, ⟨15, .iifeTerminator⟩, 15, .initial⟩ := by
    decide +kernel
  have hps := split_of_valid hvalid "if (a) \x7b\n\x7d)();\nb\n"
  have hp := getElem?_assemble_of_boundary hb
  obtain ⟨q, hq, htext⟩ := split_text_of_mem (.inr rfl) hps (List.mem_of_getElem? hp)
  exact ⟨_, _, q, hps, hp, rfl, hq, htext⟩

end CodeParts.Split
