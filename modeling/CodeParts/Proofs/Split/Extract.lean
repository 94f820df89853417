import CodeParts.Proofs.Construct.Window
import CodeParts.Proofs.Split.Run

/-!
# Extracting from a part

A part is a window of whole lines. So a construct of the text that no cut goes through is
found in its part, and the offsets and the lines of the part tell where it stands in the
text (`extract_text_of_mem`).
-/

namespace CodeParts.Split

variable {text name : String} {dialect : Dialect} {policy : Policy} {ps : List Part} {p : Part}
  {c : Construct}

/-- A construct that lies inside a part is extracted from the text of the part, at offsets
counted from the start of the part and lines counted from its first line. -/
theorem extract_text_of_mem (h : split text policy = .ok ps) (hp : p ∈ ps)
    (hfound : extract text name dialect = .found c) (hstart : p.start ≤ c.start)
    (hstop : c.stop ≤ p.stop) :
    ∃ c', extract p.text name dialect = .found c' ∧ c = c'.shift p.start (p.startLine - 1) := by
  have hpart := partOf_of_mem_split h hp
  have hsize := hpart.add_size
  have hbreak := hpart.lineBreak_stop
  rw [← hsize] at hbreak hstop
  have hline : p.startLine - 1 = (Source.ofString text).lineOf p.start := by
    rw [hpart.startLine_eq, Nat.add_sub_cancel]
  -- A part is a window between two line breaks.
  rw [hline]
  exact Construct.extract_window hpart.window hpart.lineStartsAt hbreak hfound hstart hstop

/-- A function in the second part of two. -/
theorem extract_text_of_mem_second :
    ∃ ps p c', split "a\nfunction f() \x7b\x7d\n" ⟨⟨80, 1⟩, .strict, 0.3⟩ = .ok ps ∧
      ps[1]? = some p ∧ p.start = 2 ∧
      extract "a\nfunction f() \x7b\x7d\n" "f" .braces =
        .found ⟨.function, 2, 17, "function f() \x7b\x7d", 2, 2⟩ ∧
      extract p.text "f" .braces = .found c' ∧
      ⟨.function, 2, 17, "function f() \x7b\x7d", 2, 2⟩ = c'.shift p.start (p.startLine - 1) := by
  have hvalid : Policy.Valid ⟨⟨80, 1⟩, .strict, 0.3⟩ :=
    ⟨by decide, by decide, by decide, by decide⟩
  have hb : (boundaries (Source.ofString "a\nfunction f() \x7b\x7d\n")
      ⟨⟨80, 1⟩, .strict, 0.3⟩)[1]? =
      some ⟨2, .initial, 18, ⟨18, .endOfText⟩, 18, .initial⟩ := by
    decide +kernel
  have hps := split_of_valid hvalid "a\nfunction f() \x7b\x7d\n"
  have hp := getElem?_assemble_of_boundary hb
  have hfound : extract "a\nfunction f() \x7b\x7d\n" "f" .braces =
      .found ⟨.function, 2, 17, "function f() \x7b\x7d", 2, 2⟩ := by
    decide +kernel
  obtain ⟨c', hc', hshift⟩ := extract_text_of_mem hps (List.mem_of_getElem? hp) hfound
    (show 2 ≤ 2 by decide) (show 17 ≤ 18 by decide)
  exact ⟨_, _, c', hps, hp, rfl, hfound, hc', hshift⟩

end CodeParts.Split
