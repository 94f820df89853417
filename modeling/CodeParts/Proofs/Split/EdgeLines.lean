import CodeParts.Proofs.Split.Numbering

/-!
# First and last lines of parts

A part carries its first and its last line without their terminators, cut out of its own text.
The table of the whole text gives the same lines by their numbers. They agree because the lines
of a part are lines of the text (`Source.Window.linesText_add`), and because cutting off the
terminator of a line leaves out that and nothing else (`isChomped_chomp`): a newline with the
carriage return in front of it, a newline alone, or nothing where a text does not end in one
(`edgeLines_of_split`).
-/

namespace CodeParts

/-! ### Lines without their terminators -/

theorem chomp_return_newline (body : List Char) : chomp (body ++ ['\r', '\n']) = body := by
  simp [chomp]

theorem chomp_newline {body : List Char} (h : body.getLast? ≠ some '\r') :
    chomp (body ++ ['\n']) = body := by
  rw [chomp, List.reverse_concat]
  rw [← List.head?_reverse] at h
  cases hrev : body.reverse with
  | nil => simpa using hrev
  | cons c r =>
      rw [hrev] at h
      have hc : c ≠ '\r' := by simpa using h
      have hbody : body = (c :: r).reverse := by rw [← hrev, List.reverse_reverse]
      simp [hc, hbody]

theorem chomp_of_getLast? {line : List Char} (h : line.getLast? ≠ some '\n') :
    chomp line = line := by
  rw [← List.head?_reverse] at h
  rw [chomp]
  cases hrev : line.reverse with
  | nil => rfl
  | cons c r =>
      rw [hrev] at h
      have hc : c ≠ '\n' := by simpa using h
      simp [hc]

/-- What is left of a line without its terminator. A carriage return in front of the newline
belongs to the terminator, one that stands elsewhere does not. -/
structure IsChomped (line body : List Char) : Prop where
  line_eq : line = body ∨ line = body ++ ['\n'] ∨ line = body ++ ['\r', '\n']
  newline_not_mem : '\n' ∉ body
  return_not_last : line = body ++ ['\n'] → body.getLast? ≠ some '\r'

/-- Cutting off its terminator leaves nothing else out of a line. -/
theorem isChomped_chomp {line : List Char} (h : '\n' ∉ line.dropLast) :
    IsChomped line (chomp line) := by
  by_cases hnl : line.getLast? = some '\n'
  · obtain ⟨body, rfl⟩ := List.getLast?_eq_some_iff.1 hnl
    rw [List.dropLast_concat] at h
    by_cases hreturn : body.getLast? = some '\r'
    · obtain ⟨front, rfl⟩ := List.getLast?_eq_some_iff.1 hreturn
      have hline : front ++ ['\r'] ++ ['\n'] = front ++ ['\r', '\n'] := by
        rw [List.append_assoc, List.singleton_append]
      rw [hline, chomp_return_newline]
      refine ⟨.inr (.inr rfl), fun hmem => h (List.mem_append_left _ hmem), fun heq => ?_⟩
      cases List.append_cancel_left heq
    · rw [chomp_newline hreturn]
      exact ⟨.inr (.inl rfl), h, fun _ => hreturn⟩
  · rw [chomp_of_getLast? hnl]
    refine ⟨.inl rfl, fun hmem => ?_, fun heq => ?_⟩
    · have hne := List.ne_nil_of_mem hmem
      rw [← List.dropLast_concat_getLast hne, List.mem_append, List.mem_singleton] at hmem
      rcases hmem with hmem | hlast
      · exact h hmem
      · exact hnl (by rw [List.getLast?_eq_some_getLast hne, hlast])
    · have := congrArg List.length heq
      rw [List.length_append, List.length_singleton] at this
      omega

namespace Split

variable {src : Source} {policy : Policy} {p : Part}

/-! ### The lines of a part -/

theorem edges_of_mem_assemble (hp : p ∈ assemble src (boundaries src policy)) :
    p.firstLine.toList = firstLine p.text.toList ∧
      p.lastLine.toList = lastLine p.text.toList := by
  rcases Nat.eq_zero_or_pos src.size with hsize | hsize
  · rw [assemble_of_empty hsize, List.mem_singleton] at hp
    subst hp
    simp [Part.ofSpan]
  · obtain ⟨i, b, -, rfl⟩ := exists_boundary_of_mem hsize hp
    simp [Part.ofBoundary, Part.ofSpan]

/-- The line with a given number inside a part, counted from zero, is the line of the text that
many behind the first line of the part. -/
theorem linesText_of_mem_assemble {l : Nat} (hp : p ∈ assemble src (boundaries src policy))
    (hl : l < (Source.ofString p.text).lineCount) :
    (splitLines p.text.toList)[l]? =
      some (src.linesText (p.startLine - 1 + l) (p.startLine - 1 + l)) := by
  have hpart := partOf_of_mem_assemble hp
  have hbreak : src.LineBreak (p.start + (Source.ofString p.text).size) := by
    rw [hpart.add_size]
    exact hpart.lineBreak_stop
  rw [hpart.startLine_eq, Nat.add_sub_cancel,
    hpart.window.linesText_add hpart.lineStartsAt hbreak hl, ← Source.getElem?_lines hl,
    Source.lines_eq, Source.toList_ofString]

/-- What a part carries as its first and as its last line are the lines of the text with the
numbers of these, without their terminators. -/
structure EdgeLines (src : Source) (p : Part) : Prop where
  first : IsChomped (src.linesText (p.startLine - 1) (p.startLine - 1)) p.firstLine.toList
  last : IsChomped (src.linesText (p.endLine - 1) (p.endLine - 1)) p.lastLine.toList

theorem edgeLines_of_empty (h : src.size = 0) : EdgeLines src (Part.ofSpan src 1 1 0 0 0 0) := by
  have hline (l : Nat) : src.linesText l l = [] := by
    rw [Source.linesText, Source.slice_eq_nil]
    omega
  have hnil : IsChomped [] (chomp []) := isChomped_chomp List.not_mem_nil
  constructor
  case first =>
    rw [hline]
    simpa [Part.ofSpan, firstLine, splitLines] using hnil
  case last =>
    rw [hline]
    simpa [Part.ofSpan, lastLine, splitLines] using hnil

theorem edgeLines_of_pos (h : 0 < src.size) (hp : p ∈ assemble src (boundaries src policy)) :
    EdgeLines src p := by
  obtain ⟨hfirst, hlast⟩ := edges_of_mem_assemble hp
  have hcount := lineCount_of_mem_assemble h hp
  have hle := startLine_le_endLine h hp
  rw [Part.lineCount] at hcount
  have hlines : (splitLines p.text.toList).length = (Source.ofString p.text).lineCount := by
    rw [Source.lineCount_eq, Source.toList_ofString]
  constructor
  case first =>
    have hline := linesText_of_mem_assemble (l := 0) hp (by omega)
    rw [hfirst, firstLine, List.head?_eq_getElem?, hline, Option.getD_some, Nat.add_zero]
    exact isChomped_chomp (newline_not_mem_dropLast_of_mem_splitLines (List.mem_of_getElem? hline))
  case last =>
    have hline := linesText_of_mem_assemble (l := p.endLine - p.startLine) hp (by omega)
    have hpos : 0 < p.startLine := by
      rw [(partOf_of_mem_assemble hp).startLine_eq]
      exact Nat.succ_pos _
    rw [show p.startLine - 1 + (p.endLine - p.startLine) = p.endLine - 1 by omega] at hline
    rw [hlast, lastLine, List.getLast?_eq_getElem?, hlines, ← hcount, Nat.add_sub_cancel, hline,
      Option.getD_some]
    exact isChomped_chomp (newline_not_mem_dropLast_of_mem_splitLines (List.mem_of_getElem? hline))

/-- A policy that can be used splits every text into parts whose first and last lines agree with
the table of lines of the text. -/
theorem edgeLines_of_split (h : policy.Valid) (text : String) :
    ∃ ps, split text policy = .ok ps ∧ ∀ p ∈ ps, EdgeLines (Source.ofString text) p := by
  refine ⟨_, split_of_valid h text, fun p hp => ?_⟩
  rcases Nat.eq_zero_or_pos (Source.ofString text).size with hsize | hsize
  · rw [assemble_of_empty hsize, List.mem_singleton] at hp
    rw [hp]
    exact edgeLines_of_empty hsize
  · exact edgeLines_of_pos hsize hp

/-- Two lines that end in a carriage return and a newline, with another carriage return inside
the second, and a last one that is nothing but a carriage return. -/
theorem edgeLines_of_split_returns :
    Policy.Valid ⟨⟨80, 2⟩, .strict, 0.3⟩ ∧
      ∃ ps, split "a\r\nb\rc\r\n\r" ⟨⟨80, 2⟩, .strict, 0.3⟩ = .ok ps ∧
        (∀ p ∈ ps, EdgeLines (Source.ofString "a\r\nb\rc\r\n\r") p) ∧
        ps.map (fun p => (p.firstLine, p.lastLine)) = [("a", "b\rc"), ("\r", "\r")] := by
  have hvalid : Policy.Valid ⟨⟨80, 2⟩, .strict, 0.3⟩ :=
    ⟨by decide, by decide, by decide, by decide⟩
  obtain ⟨ps, hps, hedges⟩ := edgeLines_of_split hvalid "a\r\nb\rc\r\n\r"
  obtain ⟨-, rfl⟩ := split_eq_ok_iff.1 hps
  exact ⟨hvalid, _, hps, hedges, by decide +kernel⟩

end Split

end CodeParts
