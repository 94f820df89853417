import CodeParts.Proofs.Construct.Window

/-!
# Constructs that are cut off

A text that ends inside of a construct still has its signature, and no brace closes its
block: extraction tells that it is unterminated, and never gives a shorter construct in
its place (`extract_take`).

The end of the text can come anywhere behind the signature, in a word, in a literal or
between the two characters of a marker. It is the end of a window, and that changes neither
what is found of the signature (`findSignature_window`) nor where blocks close
(`matchingBraceEnd_window`).
-/

namespace CodeParts.Construct

open Pattern

variable {src sub : Source} {a stop : Nat} {name : List Char} {s : Signature} {m : Match}

/-- A window that ends inside of a block has the signature of the construct without its end. -/
theorem extractBraced_cut (w : Source.Window sub src a) (ha : src.lineStartsAt a = true)
    (hne : name ≠ []) (hsig : findSignature src name = some (s, m))
    (hclose : matchingBraceEnd src (s.searchFrom m) = some stop) (hstart : a ≤ m.start)
    (hle : m.stop ≤ a + sub.size) (hlt : a + sub.size < stop) :
    extractBraced sub name = .unterminated s.kind := by
  obtain ⟨m', hsig', rfl, hm'⟩ := findSignature_window w ha hne hsig hstart hle
  rw [searchFrom_shift s (Nat.zero_lt_of_lt hm')] at hclose
  refine extractBraced_eq_unterminated hsig' (Option.eq_none_iff_forall_ne_some.2 fun e he => ?_)
  -- A block that closes in the window closes at the same place in the whole text.
  obtain ⟨hclose', hsub⟩ := (matchingBraceEnd_window w).1 he
  rw [hclose, Option.some.injEq] at hclose'
  omega

/-- A text that ends behind the signature of a construct and before the end of the construct has
an unterminated construct of the same kind. -/
theorem extract_take {text name : String} {c : Construct}
    (h : extract text name .braces = .found c) :
    ∃ s m, findSignature (Source.ofString text) (trim name.toList) = some (s, m) ∧
      s.kind = c.kind ∧ m.start = c.start ∧ m.stop ≤ c.stop ∧
      ∀ k, m.stop ≤ k → k < c.stop →
        extract (String.ofList (text.toList.take k)) name .braces = .unterminated c.kind := by
  have hempty := name_ne_nil_of_found h
  rw [extract_braces hempty] at h
  obtain ⟨s, m, hsig, hle, hclose, hc⟩ := of_extractBraced_found h
  have hkind : c.kind = s.kind := congrArg Construct.kind hc
  refine ⟨s, m, hsig, hkind.symm, (congrArg Construct.start hc).symm, hle, ?_⟩
  intro k hmk hk
  have hsize : k ≤ (Source.ofString text).size :=
    Nat.le_trans (Nat.le_of_lt hk) (matchingBraceEnd_le hclose)
  have hsub := Source.size_take text hsize
  rw [extract_braces hempty, hkind]
  exact extractBraced_cut (Source.window_take text hsize) rfl (by simpa using hempty) hsig hclose
    (Nat.zero_le _) (by omega) (by omega)

/-- A class is cut off behind the brace in a comment, inside of the marker that would end the
comment. -/
theorem extract_take_class :
    extract "class A \x7b/*\x7d*/\x7d" "A" .braces =
        .found ⟨.classDeclaration, 0, 15, "class A \x7b/*\x7d*/\x7d", 1, 1⟩ ∧
      extract "class A \x7b/*\x7d*" "A" .braces = .unterminated .classDeclaration := by
  have hfound : extract "class A \x7b/*\x7d*/\x7d" "A" .braces =
      .found ⟨.classDeclaration, 0, 15, "class A \x7b/*\x7d*/\x7d", 1, 1⟩ := by
    decide +kernel
  obtain ⟨s, m, hsig, -, -, -, hcut⟩ := extract_take hfound
  have hstop : (findSignature (Source.ofString "class A \x7b/*\x7d*/\x7d") ['A']).map
      (·.2.stop) = some 8 := by
    decide +kernel
  have htrim : trim "A".toList = ['A'] := by decide
  rw [htrim] at hsig
  rw [hsig] at hstop
  have hm : m.stop = 8 := Option.some.inj hstop
  exact ⟨hfound, hcut 13 (by omega) (by decide)⟩

end CodeParts.Construct
