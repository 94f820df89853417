import CodeParts.Search.Interval
import CodeParts.Search.PrefixTable
import CodeParts.Search.Sorted

/-!
# Source text addressed by character

A `Source` is a text together with the tables of its line starts and of its closing
parentheses. Every offset of this library counts characters (Unicode scalar values),
never bytes, so that a span stays meaningful to whoever cuts the same text by code
point.

The characters are kept in an array, so that a window costs its own length; the
view for reasoning is `toList`, through `slice_eq` and `charAt_eq`. All searches
are instances of `firstIn` and `lastIn`: the least or greatest offset of an
interval at which a character or a literal stands. A long literal is looked for with
the help of a prefix table, which changes the cost alone (`stands_probe`).
-/

namespace CodeParts

/-- How many numbers a machine word of 64 bits holds. Offsets, line numbers and depths are
natural numbers in this library; on a machine they are words, which is the same as long
as they stay below this. -/
def wordSize : Nat := Nat.pow 2 64

/-- The offsets just after each `c` of `cs`, where `cs` begins at offset `i`. -/
def offsetsAfter (c : Char) (i : Nat) : List Char → List Nat
  | [] => []
  | d :: cs =>
      if d = c then (i + 1) :: offsetsAfter c (i + 1) cs else offsetsAfter c (i + 1) cs

/-- Where each line begins: at the start of the text and after every newline. After
a final newline this counts one more, empty line. -/
def lineStartsOf (chars : Array Char) : Array Nat :=
  (0 :: offsetsAfter '\n' 0 chars.toList).toArray

theorem mem_offsetsAfter {c : Char} {i j : Nat} {cs : List Char} :
    j ∈ offsetsAfter c i cs ↔ ∃ k, j = i + k + 1 ∧ cs[k]? = some c := by
  induction cs generalizing i with
  | nil => simp [offsetsAfter]
  | cons d cs ih =>
      have hcons : (∃ k, j = i + k + 1 ∧ (d :: cs)[k]? = some c) ↔
          (j = i + 1 ∧ d = c) ∨ ∃ k, j = i + 1 + k + 1 ∧ cs[k]? = some c := by
        constructor
        · rintro ⟨k, hj, hk⟩
          cases k with
          | zero => exact .inl ⟨hj, by simpa using hk⟩
          | succ k => exact .inr ⟨k, by omega, by simpa using hk⟩
        · rintro (⟨hj, rfl⟩ | ⟨k, hj, hk⟩)
          · exact ⟨0, hj, by simp⟩
          · exact ⟨k + 1, by omega, by simpa using hk⟩
      rw [offsetsAfter, hcons]
      split
      · next h => simp [ih, h]
      · next h => simp [ih, h]

theorem pairwise_offsetsAfter (c : Char) (i : Nat) (cs : List Char) :
    (offsetsAfter c i cs).Pairwise (· < ·) := by
  induction cs generalizing i with
  | nil => exact .nil
  | cons d cs ih =>
      rw [offsetsAfter]
      split
      · refine .cons (fun j hj => ?_) (ih _)
        obtain ⟨k, rfl, -⟩ := mem_offsetsAfter.1 hj
        omega
      · exact ih _

/-- The offset just after each closing parenthesis. -/
def closingsOf (chars : Array Char) : Array Nat := (offsetsAfter ')' 0 chars.toList).toArray

/-- A text with the tables of its line starts and of its closing parentheses. -/
structure Source where
  /-- The characters of the text. -/
  chars : Array Char
  /-- The offset at which each line begins. -/
  lineStarts : Array Nat := lineStartsOf chars
  /-- The offset just after each closing parenthesis. -/
  closings : Array Nat := closingsOf chars
  /-- The first table belongs to the text. -/
  lineStarts_eq : lineStarts = lineStartsOf chars := by rfl
  /-- The second table belongs to the text. -/
  closings_eq : closings = closingsOf chars := by rfl

namespace Source

/-- The source with the given characters. -/
def ofList (cs : List Char) : Source := { chars := cs.toArray }

/-- The source with the given text. -/
def ofString (text : String) : Source := ofList text.toList

/-- The characters of the text in order. -/
def toList (src : Source) : List Char := src.chars.toList

/-- The text as a string. -/
def text (src : Source) : String := String.ofList src.toList

/-- Number of characters. -/
def size (src : Source) : Nat := src.chars.size

/-- The empty text has no characters. -/
def isEmpty (src : Source) : Bool := src.size == 0

/-- The character at an offset, if the text reaches that far. -/
def charAt (src : Source) (i : Nat) : Option Char := src.chars[i]?

/-- The characters of `[a, b)`, clamped to the text. -/
def slice (src : Source) (a b : Nat) : List Char := (src.chars.extract a b).toList

@[simp] theorem toList_ofList (cs : List Char) : (ofList cs).toList = cs := rfl

@[simp] theorem size_ofList (cs : List Char) : (ofList cs).size = cs.length := rfl

theorem length_toList (src : Source) : src.toList.length = src.size := rfl

theorem charAt_eq (src : Source) (i : Nat) : src.charAt i = src.toList[i]? := by
  simp [charAt, toList]

theorem slice_eq (src : Source) (a b : Nat) :
    src.slice a b = (src.toList.drop a).take (b - a) := by
  simp [slice, toList, List.extract_eq_take_drop]

theorem charAt_eq_none {src : Source} {i : Nat} (h : src.size ≤ i) : src.charAt i = none :=
  Array.getElem?_eq_none h

/-! ### Searches -/

/-- The character `c` stands at offset `i`. -/
@[inline] def charIs (src : Source) (c : Char) (i : Nat) : Bool :=
  if h : i < src.chars.size then src.chars[i] == c else false

/-- A newline stands at offset `i`. -/
@[inline] def newlineAt (src : Source) (i : Nat) : Bool := src.charIs '\n' i

/-- The literal `lit` stands at offset `i`. -/
def literalAt (src : Source) : (lit : List Char) → (i : Nat) → Bool
  | [], _ => true
  | c :: lit, i => src.charIs c i && src.literalAt lit (i + 1)

theorem charIs_eq (src : Source) (c : Char) (i : Nat) :
    src.charIs c i = (src.charAt i == some c) := by
  unfold charIs charAt
  split
  · next h => simp [h]
  · next h => simp [Array.getElem?_eq_none (Nat.le_of_not_lt h)]

theorem charIs_eq_true {src : Source} {c : Char} {i : Nat} :
    src.charIs c i = true ↔ src.charAt i = some c := by
  simp [charIs_eq]

theorem literalAt_eq_true {src : Source} {lit : List Char} {i : Nat} :
    src.literalAt lit i = true ↔ ∀ k, k < lit.length → src.chars[i + k]? = lit[k]? := by
  induction lit generalizing i with
  | nil => simp [literalAt]
  | cons c lit ih =>
      simp only [literalAt, Bool.and_eq_true, charIs_eq_true, ih, charAt]
      constructor
      · rintro ⟨hc, hlit⟩ k hk
        cases k with
        | zero => simpa using hc
        | succ k =>
            have := hlit k (by simpa using hk)
            rwa [Nat.add_assoc, Nat.add_comm 1 k] at this
      · intro h
        refine ⟨by simpa using h 0 (by simp), fun k hk => ?_⟩
        have := h (k + 1) (by simpa using hk)
        rwa [Nat.add_assoc, Nat.add_comm 1 k]

theorem literalAt_append (src : Source) (xs ys : List Char) (i : Nat) :
    src.literalAt (xs ++ ys) i = (src.literalAt xs i && src.literalAt ys (i + xs.length)) := by
  induction xs generalizing i with
  | nil => rfl
  | cons x xs ih =>
      rw [List.cons_append, literalAt, literalAt, ih, List.length_cons, Bool.and_assoc,
        Nat.add_assoc, Nat.add_comm 1]

/-- A literal that stands in a text does not reach past its end. -/
theorem add_length_le_size {src : Source} {lit : List Char} {i : Nat}
    (h : src.literalAt lit i = true) (hne : lit ≠ []) : i + lit.length ≤ src.size := by
  have hpos : 0 < lit.length := List.length_pos_iff.2 hne
  have hlast := literalAt_eq_true.1 h (lit.length - 1) (by omega)
  rw [List.getElem?_eq_getElem (by omega)] at hlast
  have hlt : i + (lit.length - 1) < src.size := (Array.getElem?_eq_some_iff.1 hlast).1
  omega

/-- The first newline in `[a, b)`. -/
def firstNewline (src : Source) (a b : Nat) : Option Nat :=
  firstIn src.newlineAt a (min b src.size)

/-- The last newline in `[a, b)`. -/
def lastNewline (src : Source) (a b : Nat) : Option Nat :=
  lastIn src.newlineAt a (min b src.size)

/-- The offsets from `a` on at which `lit` could begin and still end at or before
`b` are those below this bound; an empty literal is nowhere. -/
def literalBound (src : Source) (lit : List Char) (b : Nat) : Nat :=
  if lit.isEmpty then 0 else min b src.size + 1 - lit.length

/-- Up to this length a literal is compared with the text at each offset. -/
def shortLength : Nat := 16

/-- How a literal is looked for in a text. -/
inductive Probe where
  /-- The literal is compared with the text at each offset. -/
  | compare (lit : List Char)
  /-- The number of characters is looked up that repeat the beginning of the literal,
  followed by the text; `length` is that of the literal. -/
  | lookUp (table : Array Nat) (length : Nat)

/-- The probe for a literal. -/
def probe (src : Source) (lit : List Char) : Probe :=
  if lit.length ≤ shortLength then .compare lit
  else .lookUp (PrefixTable.build (lit.toArray ++ src.chars)) lit.length

/-- The literal of a probe stands at offset `i`. -/
@[inline] def Probe.stands (p : Probe) (src : Source) (i : Nat) : Bool :=
  match p with
  | .compare [] => true
  | .compare (c :: lit) => src.charIs c i && src.literalAt lit (i + 1)
  | .lookUp table length => decide (length ≤ table[length + i]?.getD 0)

/-- The first offset at which `lit` stands entirely inside `[a, b)`. -/
def firstLiteral (src : Source) (lit : List Char) (a b : Nat) : Option Nat :=
  let p := src.probe lit
  firstIn (p.stands src) a (src.literalBound lit b)

/-- The last offset at which `lit` stands entirely inside `[a, b)`. -/
def lastLiteral (src : Source) (lit : List Char) (a b : Nat) : Option Nat :=
  let p := src.probe lit
  lastIn (p.stands src) a (src.literalBound lit b)

/-- The entry for offset `i` reaches the length of the literal just where the literal
stands. -/
theorem le_prefixTable_iff (src : Source) {lit : List Char} (h : lit ≠ []) (i : Nat) :
    lit.length ≤ (PrefixTable.build (lit.toArray ++ src.chars))[lit.length + i]?.getD 0 ↔
      src.literalAt lit i = true := by
  have hpos : 0 < lit.length := List.length_pos_iff.2 h
  rw [literalAt_eq_true]
  by_cases hlt : lit.length + i < (lit.toArray ++ src.chars).size
  · obtain ⟨n, hn, hentry⟩ := PrefixTable.build_spec hlt
    rw [hn, Option.getD_some]
    have hrep {k : Nat} (hk : k < lit.length) :
        PrefixTable.Repeats (lit.toArray ++ src.chars) (lit.length + i) k ↔
          src.chars[i + k]? = lit[k]? := by
      have hadd : lit.length + i + k - lit.length = i + k := by omega
      simp only [PrefixTable.Repeats, Array.getElem?_append, List.size_toArray, hadd,
        if_neg (show ¬lit.length + i + k < lit.length by omega), if_pos hk,
        List.getElem?_toArray, and_iff_right_iff_imp, Array.size_append]
      intro heq
      rw [List.getElem?_eq_getElem hk] at heq
      have := (Array.getElem?_eq_some_iff.1 heq).1
      omega
    constructor
    · intro hle k hk
      exact (hrep hk).1 (hentry.1 k (by omega))
    · intro hlit
      exact Nat.le_of_not_lt fun hnm => hentry.2 ((hrep hnm).2 (hlit n hnm))
  · have hnone : (PrefixTable.build (lit.toArray ++ src.chars))[lit.length + i]? = none := by
      refine Array.getElem?_eq_none ?_
      rw [PrefixTable.size_build]
      omega
    rw [hnone, Option.getD_none]
    constructor
    · omega
    · intro hlit
      have := hlit 0 hpos
      rw [List.getElem?_eq_getElem hpos] at this
      have hi := (Array.getElem?_eq_some_iff.1 this).1
      simp only [Array.size_append, List.size_toArray] at hlt
      omega

/-- A probe finds its literal and nothing else. -/
@[simp] theorem stands_probe (src : Source) (lit : List Char) :
    (src.probe lit).stands src = src.literalAt lit := by
  funext i
  unfold probe
  split
  · cases lit <;> rfl
  · next h =>
    have hne : lit ≠ [] := by
      rintro rfl
      exact h (Nat.zero_le _)
    rw [Probe.stands, Bool.eq_iff_iff, decide_eq_true_iff, src.le_prefixTable_iff hne]

theorem firstLiteral_eq (src : Source) (lit : List Char) (a b : Nat) :
    src.firstLiteral lit a b = firstIn (src.literalAt lit) a (src.literalBound lit b) := by
  simp [firstLiteral]

theorem lastLiteral_eq (src : Source) (lit : List Char) (a b : Nat) :
    src.lastLiteral lit a b = lastIn (src.literalAt lit) a (src.literalBound lit b) := by
  simp [lastLiteral]

/-- The offset just past the `count`-th newline at or after `i`, if there are that
many; for no newlines, `i` itself, clamped to the text. -/
def afterNewline (src : Source) (i : Nat) : (count : Nat) → Option Nat
  | 0 => some (min i src.size)
  | count + 1 => (src.firstNewline i src.size).bind fun nl => src.afterNewline (nl + 1) count

/-- Just past the next newline at or after `i`, or the end of the text. -/
def lineEndFrom (src : Source) (i : Nat) : Nat :=
  match src.firstNewline i src.size with
  | some nl => nl + 1
  | none => src.size

theorem newlineAt_eq_true {src : Source} {i : Nat} :
    src.newlineAt i = true ↔ src.charAt i = some '\n' := by
  simp [newlineAt, charIs_eq]

theorem lt_size_of_newlineAt {src : Source} {i : Nat} (h : src.newlineAt i = true) :
    i < src.size := by
  refine Nat.lt_of_not_le fun hle => ?_
  rw [newlineAt_eq_true, charAt_eq_none hle] at h
  cases h

theorem lineEndFrom_le (src : Source) (i : Nat) : src.lineEndFrom i ≤ src.size := by
  unfold lineEndFrom
  split
  · next nl h =>
    have := (firstIn_eq_some_iff.1 h).2.1
    omega
  · exact Nat.le_refl _

theorem lt_lineEndFrom {src : Source} {i : Nat} (h : i < src.size) : i < src.lineEndFrom i := by
  unfold lineEndFrom
  split
  · next nl hnl =>
    have := (firstIn_eq_some_iff.1 hnl).1
    omega
  · exact h

/-- The offset just after the next closing parenthesis at or after `i`. -/
def afterClosing (src : Source) (i : Nat) : Option Nat :=
  src.closings[partitionPoint (fun stop => decide (stop ≤ i)) src.closings]?

theorem mem_closings {src : Source} {j : Nat} :
    j ∈ src.closings ↔ ∃ k, j = k + 1 ∧ src.charAt k = some ')' := by
  rw [src.closings_eq, closingsOf, List.mem_toArray, mem_offsetsAfter]
  simp [charAt]

theorem partitioned_closings (src : Source) (i : Nat) :
    Partitioned (fun stop => decide (stop ≤ i)) src.closings := by
  intro a b x y hx hy hab hle
  rw [src.closings_eq, closingsOf, List.getElem?_toArray] at hx hy
  simp only [decide_eq_true_eq] at hle ⊢
  rcases Nat.eq_or_lt_of_le hab with rfl | hlt
  · rw [hx] at hy
    cases hy
    exact hle
  · obtain ⟨ha, rfl⟩ := List.getElem?_eq_some_iff.1 hx
    obtain ⟨hb, rfl⟩ := List.getElem?_eq_some_iff.1 hy
    have := List.pairwise_iff_getElem.1 (pairwise_offsetsAfter ')' 0 src.chars.toList) a b ha hb hlt
    omega

/-- The table leads to the next closing parenthesis of the text. -/
theorem afterClosing_eq (src : Source) (i : Nat) :
    src.afterClosing i = (firstIn (src.charIs ')') i src.size).map (· + 1) := by
  obtain ⟨-, hlow, hhigh⟩ := partitionPoint_spec (src.partitioned_closings i)
  unfold afterClosing
  generalize partitionPoint (fun stop => decide (stop ≤ i)) src.closings = t at hlow hhigh ⊢
  cases ht : src.closings[t]? with
  | some j =>
      obtain ⟨k, rfl, hk⟩ := mem_closings.1 (Array.mem_of_getElem? ht)
      have hik := hhigh t _ (Nat.le_refl t) ht
      simp only [decide_eq_false_iff_not] at hik
      symm
      rw [Option.map_eq_some_iff]
      refine ⟨k, firstIn_eq_some_iff.2
        ⟨by omega, ?_, charIs_eq_true.2 hk, fun m him hmk => ?_⟩, rfl⟩
      · refine Nat.lt_of_not_le fun hle => ?_
        rw [charAt_eq_none hle] at hk
        cases hk
      · rw [← Bool.not_eq_true, charIs_eq_true]
        intro hm
        obtain ⟨u, hu⟩ := Array.getElem?_of_mem (mem_closings.2 ⟨m, rfl, hm⟩)
        have htu : t ≤ u := Nat.le_of_not_lt fun hut => by
          have := hlow u _ hut hu
          simp only [decide_eq_true_eq] at this
          omega
        have := src.partitioned_closings (m + 1) t u _ _ ht hu htu (by simp)
        simp only [decide_eq_true_eq] at this
        omega
  | none =>
      symm
      rw [Option.map_eq_none_iff, firstIn_eq_none_iff]
      intro m him _
      rw [← Bool.not_eq_true, charIs_eq_true]
      intro hm
      obtain ⟨u, hu⟩ := Array.getElem?_of_mem (mem_closings.2 ⟨m, rfl, hm⟩)
      have hut : u < t := by
        have h1 := Array.getElem?_eq_none_iff.1 ht
        have h2 := (Array.getElem?_eq_some_iff.1 hu).1
        omega
      have := hlow u _ hut hu
      simp only [decide_eq_true_eq] at this
      omega

/-! ### Lines -/

/-- The index of the line that contains `offset`, counted from zero; an offset past
the last line start belongs to the last line. -/
def lineOf (src : Source) (offset : Nat) : Nat :=
  partitionPoint (fun start => decide (start ≤ offset)) src.lineStarts - 1

/-- Where line `l` begins, or the end of the text past the last line. -/
def lineStart (src : Source) (l : Nat) : Nat := src.lineStarts[l]?.getD src.size

/-- The number of lines; nothing after a final newline is no line. -/
def lineCount (src : Source) : Nat :=
  if src.isEmpty then 0
  else if src.newlineAt (src.size - 1) then src.lineStarts.size - 1
  else src.lineStarts.size

/-- The lines `first` to `last`, both included, with their newlines. A machine counts
`last + 1` in a word, which comes to the same for every `last` but the greatest word, the
number of no line (`wordLinesText_of_lt`). -/
def linesText (src : Source) (first last : Nat) : List Char :=
  src.slice (src.lineStart first) (src.lineStart (last + 1))

/-- The lines in order, each with its newline. -/
def lines (src : Source) : List (List Char) :=
  (List.range src.lineCount).map fun l => src.linesText l l

/-! ### Byte offsets -/

/-- The number of characters whose UTF-8 forms fill exactly the first `bytes` bytes
of `cs`, if there is such a number. -/
def charsInBytes : (cs : List Char) → (bytes : Nat) → Option Nat
  | _, 0 => some 0
  | [], _ + 1 => none
  | c :: cs, bytes + 1 =>
      if bytes + 1 < c.utf8Size then none
      else (charsInBytes cs (bytes + 1 - c.utf8Size)).map (· + 1)

/-- The character offset at a byte offset; a byte offset inside a character or past
the end is taken to the end of the text. -/
def offsetOfByte (src : Source) (bytes : Nat) : Nat :=
  (charsInBytes src.toList bytes).getD src.size

end Source

end CodeParts
