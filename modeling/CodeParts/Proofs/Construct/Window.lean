import CodeParts.Construct.Extract
import CodeParts.Proofs.Construct.Closing
import CodeParts.Proofs.Construct.Signature

/-!
# Constructs in a window

A construct that is found in a text and lies in a window of whole lines is found in the
window, moved by what stands before it (`extract_window`). What the window leaves out can
hide signatures and headers but never put one before that of the construct, and nothing
that decides where the construct begins or ends stands outside of it.

With braces the window may as well end in the middle of a line: the signature is found in
it (`findSignature_window`), and so is the brace that closes its block
(`matchingBraceEnd_window`). With indentation the lines of the window have to be lines of
the whole text.
-/

namespace CodeParts

/-- The construct behind `chars` more characters and `lines` more lines. -/
def Construct.shift (chars lines : Nat) (c : Construct) : Construct :=
  { c with
    start := chars + c.start
    stop := chars + c.stop
    startLine := lines + c.startLine
    endLine := lines + c.endLine }

namespace Construct

open Pattern

variable {src sub : Source} {a : Nat} {name : List Char}

/-! ### Blocks delimited by braces -/

theorem ofSpan_add (w : Source.Window sub src a) (kind : Kind) {start stop : Nat}
    (hlt : start < stop) (hstop : stop ≤ sub.size) :
    ofSpan src kind (a + start) (a + stop) =
      (ofSpan sub kind start stop).shift a (src.lineOf a) := by
  have hpred : a + stop - 1 = a + (stop - 1) := by omega
  rw [ofSpan, w.slice_add hstop, hpred, w.lineOf_add (by omega), w.lineOf_add (by omega)]
  rfl

theorem le_of_searchFrom_lt {s : Signature} {m : Match} {stop : Nat} (h : s.searchFrom m < stop) :
    m.stop ≤ stop := by
  unfold Signature.searchFrom at h
  split at h <;> omega

theorem searchFrom_shift (s : Signature) {m : Match} (hm : 0 < m.stop) (k : Nat) :
    s.searchFrom (m.shift k) = k + s.searchFrom m := by
  unfold Signature.searchFrom
  rw [Match.shift_stop]
  split
  · exact Nat.add_sub_assoc hm k
  · rfl

theorem extractBraced_eq_found {s : Signature} {m : Match} {stop : Nat}
    (hsig : findSignature src name = some (s, m))
    (hclose : matchingBraceEnd src (s.searchFrom m) = some stop) :
    extractBraced src name = .found (ofSpan src s.kind m.start stop) := by
  unfold extractBraced
  simp only [hsig, hclose]

theorem extractBraced_eq_unterminated {s : Signature} {m : Match}
    (hsig : findSignature src name = some (s, m))
    (hclose : matchingBraceEnd src (s.searchFrom m) = none) :
    extractBraced src name = .unterminated s.kind := by
  unfold extractBraced
  simp only [hsig, hclose]

/-- What is found of a construct: its signature, and where the block behind that closes. -/
theorem of_extractBraced_found {c : Construct} (h : extractBraced src name = .found c) :
    ∃ s m, findSignature src name = some (s, m) ∧ m.stop ≤ c.stop ∧
      matchingBraceEnd src (s.searchFrom m) = some c.stop ∧
      c = ofSpan src s.kind m.start c.stop := by
  unfold extractBraced at h
  cases hsig : findSignature src name with
  | none =>
      rw [hsig] at h
      cases h
  | some found =>
      obtain ⟨s, m⟩ := found
      simp only [hsig] at h
      cases hclose : matchingBraceEnd src (s.searchFrom m) with
      | none =>
          rw [hclose] at h
          cases h
      | some stop =>
          rw [hclose] at h
          cases h
          exact ⟨s, m, rfl, le_of_searchFrom_lt (lt_of_matchingBraceEnd hclose), hclose, rfl⟩

theorem extractBraced_window (w : Source.Window sub src a) (ha : src.lineStartsAt a = true)
    (hne : name ≠ []) {c : Construct} (h : extractBraced src name = .found c)
    (hstart : a ≤ c.start) (hstop : c.stop ≤ a + sub.size) :
    ∃ c', extractBraced sub name = .found c' ∧ c = c'.shift a (src.lineOf a) := by
  obtain ⟨s, m, hsig, hle, hclose, hc⟩ := of_extractBraced_found h
  have hmstart : a ≤ m.start := by
    rw [hc] at hstart
    exact hstart
  -- The signature ends before its block does, so it lies in the window as well.
  obtain ⟨m', hsig', rfl, hm'⟩ :=
    findSignature_window w ha hne hsig hmstart (Nat.le_trans hle hstop)
  have hfrom : s.searchFrom (m'.shift a) = a + s.searchFrom m' :=
    searchFrom_shift s (Nat.zero_lt_of_lt hm') a
  rw [Match.shift_stop] at hle
  obtain ⟨stop', hstop'⟩ : ∃ stop', c.stop = a + stop' :=
    Nat.exists_eq_add_of_le (Nat.le_trans (Nat.le_add_right a _) hle)
  rw [hfrom, hstop'] at hclose
  have hsub : stop' ≤ sub.size := by omega
  have hclose' := (matchingBraceEnd_window w).2 ⟨hclose, hsub⟩
  have hmstop := le_of_searchFrom_lt (lt_of_matchingBraceEnd hclose')
  refine ⟨ofSpan sub s.kind m'.start stop', extractBraced_eq_found hsig' hclose', ?_⟩
  rw [hc, hstop', Match.shift_start]
  exact ofSpan_add w s.kind (Nat.lt_of_lt_of_le hm' hmstop) hsub

/-! ### Blocks delimited by indentation -/

theorem eq_nil_of_flatten_eq_nil {ls : List (List Char)} (hne : ∀ l, l ∈ ls → l ≠ [])
    (h : ls.flatten.length = 0) : ls = [] := by
  cases ls with
  | nil => rfl
  | cons l ls =>
      have hl : 0 < l.length := List.length_pos_iff.2 (hne l List.mem_cons_self)
      rw [List.flatten_cons, List.length_append] at h
      omega

/-- Of two ways to cut a list of lines in two, the one with fewer characters before the cut
has its cut first. -/
theorem append_of_length_le {xs ys us vs : List (List Char)} (h : xs ++ ys = us ++ vs)
    (hne : ∀ l, l ∈ xs → l ≠ []) (hle : xs.flatten.length ≤ us.flatten.length) :
    ∃ ws, us = xs ++ ws ∧ ys = ws ++ vs := by
  rcases List.append_eq_append_iff.1 h with h | ⟨ws, rfl, rfl⟩
  · exact h
  · have hws : ws = [] := by
      refine eq_nil_of_flatten_eq_nil (fun l hl => hne l (List.mem_append_right _ hl)) ?_
      rw [List.flatten_append, List.length_append] at hle
      omega
    subst hws
    exact ⟨[], by simp, rfl⟩

/-- Lines that are taken from the first list alone are taken from it without the second. -/
theorem takeWhile_of_length_le {t : List Char → Bool} {xs ys : List (List Char)}
    (hne : ∀ l, l ∈ ys → l ≠ [])
    (hle : ((xs ++ ys).takeWhile t).flatten.length ≤ xs.flatten.length) :
    (xs ++ ys).takeWhile t = xs.takeWhile t := by
  rw [List.takeWhile_append] at hle ⊢
  split
  · next hall =>
      -- All of `xs` is taken, which leaves no room for a line of `ys`.
      have hxs : xs.takeWhile t = xs := (List.takeWhile_prefix t).eq_of_length hall
      have hys : ys.takeWhile t = [] := by
        refine eq_nil_of_flatten_eq_nil ?_ ?_
        · intro l hl
          exact hne l ((List.takeWhile_sublist t).mem hl)
        · rw [if_pos hall, List.flatten_append, List.length_append] at hle
          omega
      rw [hys, hxs, List.append_nil]
  · rfl

/-- The construct with a header line, between the lines before and those after it. -/
def blockAt (kind : Kind) (before : List (List Char)) (line : List Char)
    (following : List (List Char)) : Construct :=
  let block := line :: following.takeWhile (continues (indentWidth line))
  let start := before.flatten.length
  { kind, start
    stop := start + block.flatten.length
    body := String.ofList block.flatten
    startLine := before.length + 1
    endLine := before.length + block.length }

theorem blockAt_append (kind : Kind) (pre mid : List (List Char)) (line : List Char)
    {rest post : List (List Char)}
    (h : (rest ++ post).takeWhile (continues (indentWidth line)) =
      rest.takeWhile (continues (indentWidth line))) :
    blockAt kind (pre ++ mid) line (rest ++ post) =
      (blockAt kind mid line rest).shift pre.flatten.length pre.length := by
  simp only [blockAt, Construct.shift, h, List.flatten_append, List.length_append, Nat.add_assoc]

/-- The header line is the first that begins a definition of the name. -/
theorem indentedBlock_of_lines {before following : List (List Char)} {line : List Char}
    {kind : Kind} (hlines : src.lines = before ++ line :: following)
    (hbefore : ∀ l, l ∈ before → headerKind (headers name) l = none)
    (hline : headerKind (headers name) line = some kind) :
    indentedBlock src name = .found (blockAt kind before line following) := by
  have htake : src.lines.takeWhile (fun l => (headerKind (headers name) l).isNone) = before := by
    rw [hlines, List.takeWhile_append_of_pos fun l hl => by rw [hbefore l hl]; rfl,
      List.takeWhile_cons_of_neg (by rw [hline]; exact Bool.false_ne_true), List.append_nil]
  simp only [indentedBlock, htake]
  rw [hlines, List.drop_left]
  simp only [hline]
  rfl

theorem lines_of_indentedBlock {c : Construct} (h : indentedBlock src name = .found c) :
    ∃ before line following kind, src.lines = before ++ line :: following ∧
      (∀ l, l ∈ before → headerKind (headers name) l = none) ∧
      headerKind (headers name) line = some kind ∧ c = blockAt kind before line following := by
  let t := fun l => (headerKind (headers name) l).isNone
  have hcut : src.lines.takeWhile t ++ src.lines.drop (src.lines.takeWhile t).length =
      src.lines := by
    have := List.prefix_iff_eq_take.1 (List.takeWhile_prefix t (l := src.lines))
    conv => lhs; lhs; rw [this]
    exact List.take_append_drop _ _
  have hbefore (l : List Char) (hl : l ∈ src.lines.takeWhile t) :
      headerKind (headers name) l = none :=
    Option.isNone_iff_eq_none.1 (List.all_eq_true.1 List.all_takeWhile l hl)
  unfold indentedBlock at h
  cases hdrop : src.lines.drop (src.lines.takeWhile t).length with
  | nil =>
      simp only [t] at hdrop
      simp only [hdrop] at h
      cases h
  | cons line following =>
      rw [hdrop] at hcut
      simp only [t] at hdrop
      simp only [hdrop] at h
      cases hline : headerKind (headers name) line with
      | none =>
          rw [hline] at h
          cases h
      | some kind =>
          rw [hline] at h
          cases h
          exact ⟨_, line, following, kind, hcut.symm, hbefore, hline, rfl⟩

theorem indentedBlock_window (w : Source.Window sub src a) (ha : src.lineStartsAt a = true)
    (hend : src.LineBreak (a + sub.size)) {c : Construct}
    (h : indentedBlock src name = .found c) (hstart : a ≤ c.start)
    (hstop : c.stop ≤ a + sub.size) :
    ∃ c', indentedBlock sub name = .found c' ∧ c = c'.shift a (src.lineOf a) := by
  obtain ⟨before, line, following, kind, hlines, hbefore, hline, rfl⟩ := lines_of_indentedBlock h
  obtain ⟨pre, post, hsrc, hpre, hprelines⟩ := w.lines_append ha hend
  have hne (l : List Char) (hl : l ∈ pre ++ (sub.lines ++ post)) : l ≠ [] :=
    Source.ne_nil_of_mem_lines (hsrc ▸ hl)
  have hsub : sub.lines.flatten.length = sub.size := by
    rw [Source.lines_eq, flatten_splitLines, Source.length_toList]
  simp only [blockAt] at hstart hstop
  rw [hlines] at hsrc
  -- The header line stands behind the lines before the window, and it is one of its lines.
  obtain ⟨mid, rfl, hmid⟩ := append_of_length_le hsrc.symm
    (fun l hl => hne l (List.mem_append_left _ hl)) (by omega)
  simp only [List.flatten_append, List.length_append, List.flatten_cons] at hstop
  have hcut : (mid ++ [line]) ++ following = sub.lines ++ post := by
    rw [hmid, List.append_assoc, List.singleton_append]
  have hle : (mid ++ [line]).flatten.length ≤ sub.lines.flatten.length := by
    rw [List.flatten_append, List.flatten_singleton, List.length_append, hsub]
    omega
  obtain ⟨rest, hrest, rfl⟩ := append_of_length_le hcut
    (fun l hl => hne l (List.mem_append_right _ (hcut ▸ List.mem_append_left _ hl))) hle
  -- The block ends in the window, so it is what the lines of the window alone give.
  have hlen : sub.size = mid.flatten.length + line.length + rest.flatten.length := by
    rw [← hsub, hrest, List.flatten_append, List.flatten_append, List.flatten_singleton,
      List.length_append, List.length_append]
  have hpost (l : List Char) (hl : l ∈ post) : l ≠ [] :=
    hne l (List.mem_append_right _ (List.mem_append_right _ hl))
  have htake : (rest ++ post).takeWhile (continues (indentWidth line)) =
      rest.takeWhile (continues (indentWidth line)) := takeWhile_of_length_le hpost (by omega)
  refine ⟨blockAt kind mid line rest, indentedBlock_of_lines ?_ ?_ hline, ?_⟩
  · rw [hrest, List.append_assoc, List.singleton_append]
  · intro l hl
    exact hbefore l (List.mem_append_right _ hl)
  · rw [← hprelines, ← hpre]
    exact blockAt_append kind pre mid line htake

theorem extractIndented_window (w : Source.Window sub src a) (ha : src.lineStartsAt a = true)
    (hend : src.LineBreak (a + sub.size)) {c : Construct}
    (h : extractIndented src name = .found c) (hstart : a ≤ c.start)
    (hstop : c.stop ≤ a + sub.size) :
    ∃ c', extractIndented sub name = .found c' ∧ c = c'.shift a (src.lineOf a) := by
  unfold extractIndented at h ⊢
  by_cases hroom : hasRoom headerSpace name = true
  · rw [if_pos hroom] at h ⊢
    exact indentedBlock_window w ha hend h hstart hstop
  · rw [if_neg hroom] at h
    cases h

/-! ### Either dialect -/

theorem name_ne_nil_of_found {text name : String} {dialect : Dialect} {c : Construct}
    (h : extract text name dialect = .found c) : ¬ (trim name.toList).isEmpty = true := by
  intro hempty
  have hnone : extract text name dialect = .notFound := if_pos hempty
  rw [hnone] at h
  cases h

theorem extract_braces {name : String} (h : ¬ (trim name.toList).isEmpty = true)
    (text : String) :
    extract text name .braces = extractBraced (Source.ofString text) (trim name.toList) :=
  if_neg h

theorem extract_indentation {name : String} (h : ¬ (trim name.toList).isEmpty = true)
    (text : String) :
    extract text name .indentation = extractIndented (Source.ofString text) (trim name.toList) :=
  if_neg h

/-- A construct of a text that lies in a window of whole lines is extracted from the window. -/
theorem extract_window {text part name : String} {dialect : Dialect} {c : Construct}
    (w : Source.Window (Source.ofString part) (Source.ofString text) a)
    (ha : (Source.ofString text).lineStartsAt a = true)
    (hend : (Source.ofString text).LineBreak (a + (Source.ofString part).size))
    (h : extract text name dialect = .found c) (hstart : a ≤ c.start)
    (hstop : c.stop ≤ a + (Source.ofString part).size) :
    ∃ c', extract part name dialect = .found c' ∧
      c = c'.shift a ((Source.ofString text).lineOf a) := by
  have hempty := name_ne_nil_of_found h
  cases dialect with
  | braces =>
      rw [extract_braces hempty] at h ⊢
      exact extractBraced_window w ha (by simpa using hempty) h hstart hstop
  | indentation =>
      rw [extract_indentation hempty] at h ⊢
      exact extractIndented_window w ha hend h hstart hstop

end Construct

end CodeParts
