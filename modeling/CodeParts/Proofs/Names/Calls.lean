import CodeParts.Names.Index
import CodeParts.Proofs.Pattern.Takes

/-!
# Calls with a quoted argument

A call is a function, a parenthesis, white space, a string between quotes, white space and the
character that ends the argument (`CallAt`). Where the argument stands follows from where the
call begins: the first quote opens it, and the next one closes it (`CallAt.unique`).

A search that goes from left to right without overlap misses a call only behind a match that
reaches into it. A call cannot begin inside another one's function, white space or quotes, if
no function ends with another one's name. It can begin in the argument, but then the quote that
closes the argument opens its own, and so that begins with white space and the character that
ends the outer argument (`CallAt.lt_of_lt`).
-/

namespace CodeParts.Names

open Pattern Construct

variable {src : Source} {cls other : Char → Bool} {f g v : String} {x y : Char}
  {calls : List (String × Char)} {i j k o o' b b' e e' : Nat}

/-! ### Classes of characters -/

/-- A character that ends the argument of a call. -/
def isCloser (ch : Char) : Bool := ch == ')' || ch == ','

/-- A character that can only stand in the name of a function, as far as calls go. -/
def isFunctionChar (ch : Char) : Bool :=
  !isBlank ch && !isQuote ch && !isCloser ch && ch != '('

theorem isQuote_iff {ch : Char} : isQuote ch = true ↔ ch = '\'' ∨ ch = '"' := by
  rw [isQuote, Bool.or_eq_true, beq_iff_eq, beq_iff_eq]

theorem isQuote_of_isBlank {ch : Char} (h : isBlank ch = true) : isQuote ch = false := by
  rw [← Bool.not_eq_true, isQuote_iff]
  rintro (rfl | rfl) <;> revert h <;> decide

theorem isQuote_of_isCloser {ch : Char} (h : isCloser ch = true) : isQuote ch = false := by
  rw [isCloser, Bool.or_eq_true, beq_iff_eq, beq_iff_eq] at h
  rcases h with rfl | rfl <;> rfl

theorem isBlank_of_isCloser {ch : Char} (h : isCloser ch = true) : isBlank ch = false := by
  rw [isCloser, Bool.or_eq_true, beq_iff_eq, beq_iff_eq] at h
  rcases h with rfl | rfl <;> rfl

theorem of_isFunctionChar {ch : Char} (h : isFunctionChar ch = true) :
    isBlank ch = false ∧ isQuote ch = false ∧ isCloser ch = false ∧ ch ≠ '(' := by
  simpa [isFunctionChar, and_assoc] using h

/-- Two classes without a common character do not meet at an offset. -/
theorem classAt_eq_false (h : src.classAt cls k = true)
    (hno : ∀ ch, cls ch = true → other ch = false) : src.classAt other k = false := by
  obtain ⟨ch, hch, hother⟩ := exists_charAt_of_classAt hno h
  rw [Source.classAt_eq, hch, Option.any_some, hother]

/-- The first character of a class from an offset on stands at one place. -/
theorem eq_of_first (hi : ∀ k, i ≤ k → k < o → src.classAt cls k = false) (hio : i ≤ o)
    (ho : src.classAt cls o = true) (hi' : ∀ k, i ≤ k → k < o' → src.classAt cls k = false)
    (hio' : i ≤ o') (ho' : src.classAt cls o' = true) : o = o' := by
  rcases Nat.lt_trichotomy o o' with hlt | heq | hlt
  · rw [hi' o hio hlt] at ho
    cases ho
  · exact heq
  · rw [hi o' hio' hlt] at ho'
    cases ho'

/-! ### Calls at an offset -/

/-- A parenthesis at offset `i`, a string between quotes at `o` and `b`, and nothing but white
space between them and from there to `e`. -/
structure ArgumentAt (src : Source) (i o b e : Nat) : Prop where
  paren : src.charAt i = some '('
  lt_opening : i < o
  before : ∀ k, i + 1 ≤ k → k < o → src.classAt isBlank k = true
  opening : src.classAt isQuote o = true
  lt_closing : o + 1 < b
  argument : ∀ k, o + 1 ≤ k → k < b → src.classAt (fun ch => !isQuote ch) k = true
  closing : src.classAt isQuote b = true
  lt_end : b < e
  behind : ∀ k, b + 1 ≤ k → k < e → src.classAt isBlank k = true

theorem ArgumentAt.not_isQuote (h : ArgumentAt src i o b e) (hok : o + 1 ≤ k) (hkb : k < b) :
    src.classAt isQuote k = false :=
  classAt_eq_false (h.argument k hok hkb) fun ch => by simp

/-- A call of `f` at offset `i`, with its argument between the quotes at `o` and `b` and with
`x` behind it at offset `e`. -/
structure CallAt (src : Source) (f : String) (x : Char) (i o b e : Nat) : Prop where
  function : src.literalAt f.toList i = true
  argumentAt : ArgumentAt src (i + f.toList.length) o b e
  closer : src.charAt e = some x

/-- A function that is called through an object. -/
theorem callAt_append : CallAt src (v ++ f) x i o b e ↔
    src.literalAt v.toList i = true ∧ CallAt src f x (i + v.toList.length) o b e := by
  have hlit : src.literalAt (v ++ f).toList i =
      (src.literalAt v.toList i && src.literalAt f.toList (i + v.toList.length)) := by
    rw [String.toList_append, Source.literalAt_append]
  have hlength : i + (v ++ f).toList.length = i + v.toList.length + f.toList.length := by
    rw [String.toList_append, List.length_append, Nat.add_assoc]
  constructor
  · intro h
    have hfunction := h.function
    have hargument := h.argumentAt
    rw [hlit, Bool.and_eq_true] at hfunction
    rw [hlength] at hargument
    exact ⟨hfunction.1, hfunction.2, hargument, h.closer⟩
  · intro h
    obtain ⟨hv, h⟩ := h
    refine ⟨?_, ?_, h.closer⟩
    · rw [hlit, hv, h.function]
      rfl
    · rw [hlength]
      exact h.argumentAt

/-! ### Functions whose calls are told apart -/

/-- Functions that do not end with each other's names, and whose names and closing characters
do not mix with the other pieces of a call. -/
structure Separable (calls : List (String × Char)) : Prop where
  ne_nil : ∀ c ∈ calls, c.1.toList ≠ []
  chars : ∀ c ∈ calls, c.1.toList.all isFunctionChar = true
  closer : ∀ c ∈ calls, isCloser c.2 = true
  not_suffix : ∀ c ∈ calls, ∀ d ∈ calls, ∀ k < d.1.toList.length, 0 < k →
    c.1.toList ≠ d.1.toList.drop k

/-- A function does not end with its own name before its beginning. -/
theorem separable_singleton (hne : f.toList ≠ []) (hchars : f.toList.all isFunctionChar = true)
    (hx : isCloser x = true) : Separable [(f, x)] := by
  constructor
  case ne_nil => exact List.forall_mem_singleton.2 hne
  case chars => exact List.forall_mem_singleton.2 hchars
  case closer => exact List.forall_mem_singleton.2 hx
  case not_suffix =>
    refine List.forall_mem_singleton.2 (List.forall_mem_singleton.2 fun k hk hpos heq => ?_)
    have hlength := congrArg List.length heq
    rw [List.length_drop] at hlength
    omega

theorem Separable.classAt_function (hs : Separable calls) (hf : (f, x) ∈ calls)
    (h : CallAt src f x i o b e) (hik : i ≤ k) (hk : k < i + f.toList.length) :
    src.classAt isFunctionChar k = true := by
  obtain ⟨n, rfl⟩ := Nat.exists_eq_add_of_le hik
  have hn : n < f.toList.length := Nat.lt_of_add_lt_add_left hk
  have hchar := Source.literalAt_eq_true.1 h.function n hn
  rw [Source.classAt_eq, Source.charAt, hchar, List.getElem?_eq_getElem hn, Option.any_some]
  exact List.all_eq_true.1 (hs.chars _ hf) _ (List.getElem_mem hn)

/-- There is no quote in front of the one that opens the argument. -/
theorem Separable.not_isQuote (hs : Separable calls) (hf : (f, x) ∈ calls)
    (h : CallAt src f x i o b e) (hik : i ≤ k) (hk : k < o) : src.classAt isQuote k = false := by
  have hargument := h.argumentAt
  rcases Nat.lt_trichotomy k (i + f.toList.length) with hlt | rfl | hlt
  · exact classAt_eq_false (hs.classAt_function hf h hik hlt) fun ch hch =>
      (of_isFunctionChar hch).2.1
  · rw [Source.classAt_eq, hargument.paren]
    rfl
  · exact classAt_eq_false (hargument.before k hlt hk) fun ch => isQuote_of_isBlank

/-- Where the argument stands follows from where the call begins. -/
theorem Separable.unique (hs : Separable calls) (hf : (f, x) ∈ calls) (hg : (g, y) ∈ calls)
    (h : CallAt src f x i o b e) (h' : CallAt src g y i o' b' e') : o = o' ∧ b = b' := by
  have hargument := h.argumentAt
  have hargument' := h'.argumentAt
  have hlt := hargument.lt_opening
  have hlt' := hargument'.lt_opening
  obtain rfl : o = o' :=
    eq_of_first (fun k => hs.not_isQuote hf h) (by omega) hargument.opening
      (fun k => hs.not_isQuote hg h') (by omega) hargument'.opening
  exact ⟨rfl, eq_of_first (fun k => hargument.not_isQuote) (Nat.le_of_lt hargument.lt_closing)
    hargument.closing (fun k => hargument'.not_isQuote) (Nat.le_of_lt hargument'.lt_closing)
    hargument'.closing⟩

/-! ### Calls do not overlap -/

/-- The characters of functions stand in a call only in its function and in its argument. -/
theorem CallAt.inside_argument (h : CallAt src f x i o b e) (hx : isCloser x = true)
    (hk : src.classAt isFunctionChar k = true) (hle : i + f.toList.length ≤ k) (hke : k ≤ e) :
    o < k ∧ k < b := by
  have hargument := h.argumentAt
  have hblank (hcls : src.classAt isBlank k = true) : False := by
    rw [classAt_eq_false hk fun ch hch => (of_isFunctionChar hch).1] at hcls
    cases hcls
  have hquote (hcls : src.classAt isQuote k = true) : False := by
    rw [classAt_eq_false hk fun ch hch => (of_isFunctionChar hch).2.1] at hcls
    cases hcls
  constructor
  · by_contra hko
    rcases Nat.eq_or_lt_of_le hle with rfl | hlt
    · rw [Source.classAt_eq, hargument.paren] at hk
      cases hk
    · rcases Nat.eq_or_lt_of_le (Nat.le_of_not_lt hko) with rfl | hko
      · exact hquote hargument.opening
      · exact hblank (hargument.before k hlt hko)
  · by_contra hkb
    rcases Nat.eq_or_lt_of_le (Nat.le_of_not_lt hkb) with rfl | hkb
    · exact hquote hargument.closing
    · rcases Nat.eq_or_lt_of_le hke with rfl | hke
      · rw [Source.classAt_eq, h.closer, Option.any_some] at hk
        rw [(of_isFunctionChar hk).2.2.1] at hx
        cases hx
      · exact hblank (hargument.behind k hkb hke)

/-- A call does not begin inside the function of another one. -/
theorem Separable.le_of_lt (hs : Separable calls) (hf : (f, x) ∈ calls) (hg : (g, y) ∈ calls)
    (h : CallAt src f x i o b e) (h' : CallAt src g y j o' b' e') (hij : i < j) :
    i + f.toList.length ≤ j := by
  by_contra hlt
  have hparen {k : Nat} (hk : src.classAt isFunctionChar k = true)
      (hch : src.charAt k = some '(') : False := by
    rw [Source.classAt_eq, hch] at hk
    cases hk
  -- Both functions end at the same parenthesis.
  have hend : j + g.toList.length = i + f.toList.length := by
    rcases Nat.lt_trichotomy (j + g.toList.length) (i + f.toList.length) with hk | hk | hk
    · exact (hparen (hs.classAt_function hf h (by omega) hk) h'.argumentAt.paren).elim
    · exact hk
    · exact (hparen (hs.classAt_function hg h' (by omega) hk) h.argumentAt.paren).elim
  have hsuffix : src.literalAt (f.toList.drop (j - i)) j = true := by
    have hlit := h.function
    rw [← List.take_append_drop (j - i) f.toList, Source.literalAt_append, List.length_take,
      Nat.min_eq_left (by omega), Nat.add_sub_cancel' (Nat.le_of_lt hij), Bool.and_eq_true] at hlit
    exact hlit.2
  refine hs.not_suffix _ hg _ hf (j - i) (by show j - i < f.toList.length; omega) (by omega) ?_
  show g.toList = f.toList.drop (j - i)
  rw [← Source.slice_of_literalAt h'.function, ← Source.slice_of_literalAt hsuffix,
    List.length_drop]
  congr 1
  omega

/-- The first character of an argument that is not white space. -/
def firstMark (cs : List Char) : Option Char := cs.find? fun ch => !isBlank ch

/-- Behind a closing quote the first character that is not white space ends the argument. -/
theorem CallAt.firstMark_eq (h : CallAt src f x i o b e) (hx : isCloser x = true) (hk : e < k) :
    firstMark (src.slice (b + 1) k) = some x := by
  have hargument := h.argumentAt
  have hblank := forall_mem_slice_of_classAt hargument.behind
  rw [firstMark, ← src.slice_append_slice hargument.lt_end (Nat.le_of_lt hk),
    Source.slice_of_charAt hk h.closer, List.find?_append, List.find?_eq_none.2 ?_, Option.none_or,
    List.find?_cons_of_pos]
  · rw [isBlank_of_isCloser hx]
    rfl
  · intro ch hch
    rw [hblank ch hch]
    exact Bool.false_ne_true

/-- A call that begins inside the argument of another one has as its own argument what follows
the other one's closing quote. -/
theorem Separable.opening_eq (hs : Separable calls) (hg : (g, y) ∈ calls)
    (h : CallAt src f x i o b e) (h' : CallAt src g y j o' b' e') (hoj : o < j) (hjb : j < b) :
    o' = b := by
  have hlt := h'.argumentAt.lt_opening
  refine eq_of_first (i := j) (fun k => hs.not_isQuote hg h') (by omega) h'.argumentAt.opening
    (fun k hjk => h.argumentAt.not_isQuote (by omega)) (Nat.le_of_lt hjb) h.argumentAt.closing

/-- A call whose argument does not begin with the end of an argument lies behind any other call
that begins before it. -/
theorem Separable.lt_of_lt (hs : Separable calls) (hf : (f, x) ∈ calls) (hg : (g, y) ∈ calls)
    (h : CallAt src f x i o b e) (h' : CallAt src g y j o' b' e')
    (hmark : ∀ ch, firstMark (src.slice (o' + 1) b') = some ch → isCloser ch = false)
    (hij : i < j) : e < j := by
  by_contra hle
  have hx := hs.closer _ hf
  have hlength := List.length_pos_iff.2 (hs.ne_nil _ hg)
  have hfunction := hs.classAt_function hg h' (Nat.le_refl j) (Nat.lt_add_of_pos_right hlength)
  obtain ⟨hoj, hjb⟩ := h.inside_argument hx hfunction (hs.le_of_lt hf hg h h' hij)
    (Nat.le_of_not_lt hle)
  obtain rfl := hs.opening_eq hg h h' hoj hjb
  -- The argument reaches past the character that ends the other one.
  have hclosing := h'.argumentAt.closing
  have hlt := h'.argumentAt.lt_closing
  have hend : e < b' := by
    rcases Nat.lt_trichotomy b' e with hb | rfl | hb
    · rw [classAt_eq_false (h.argumentAt.behind b' (Nat.le_of_lt hlt) hb)
        fun ch => isQuote_of_isBlank] at hclosing
      cases hclosing
    · rw [Source.classAt_eq, h.closer, Option.any_some, isQuote_of_isCloser hx] at hclosing
      cases hclosing
    · exact hb
  rw [hmark x (h.firstMark_eq hx hend)] at hx
  cases hx

/-! ### Calls as text -/

/-- A call of one of these functions with `key` between quotes as its first argument. -/
inductive QuotedCall (calls : List (String × Char)) (key : List Char) : List Char → Prop
  | call {f : String} {x opening closing : Char} {before behind : List Char}
      (hcall : (f, x) ∈ calls)
      (hbefore : ∀ ch ∈ before, isBlank ch = true) (hopening : isQuote opening = true)
      (hclosing : isQuote closing = true) (hbehind : ∀ ch ∈ behind, isBlank ch = true) :
      QuotedCall calls key
        (f.toList ++ '(' :: (before ++ opening :: (key ++ closing :: (behind ++ [x]))))

theorem CallAt.quotedCall (h : CallAt src f x i o b e) (hf : (f, x) ∈ calls) :
    QuotedCall calls (src.slice (o + 1) b) (src.slice i (e + 1)) := by
  have hargument := h.argumentAt
  have hopen := hargument.lt_opening
  have hclosing := hargument.lt_closing
  have hend := hargument.lt_end
  obtain ⟨q, hq, hquote⟩ := exists_charAt_of_classAt (fun _ => id) hargument.opening
  obtain ⟨q', hq', hquote'⟩ := exists_charAt_of_classAt (fun _ => id) hargument.closing
  have htext : src.slice i (e + 1) = f.toList ++ '(' :: (src.slice (i + f.toList.length + 1) o ++
      q :: (src.slice (o + 1) b ++ q' :: (src.slice (b + 1) e ++ [x]))) := by
    rw [← src.slice_append_slice (Nat.le_add_right i f.toList.length) (by omega),
      Source.slice_of_literalAt h.function, Source.slice_of_charAt (by omega) hargument.paren,
      ← src.slice_append_slice (a := i + f.toList.length + 1) (b := o) hopen (by omega),
      Source.slice_of_charAt (by omega) hq,
      ← src.slice_append_slice (Nat.le_of_lt hclosing) (by omega),
      Source.slice_of_charAt (by omega) hq',
      ← src.slice_append_slice (a := b + 1) (b := e) hend (by omega),
      Source.slice_of_charAt (by omega) h.closer, Source.slice_self]
  rw [htext]
  exact .call hf (forall_mem_slice_of_classAt hargument.before) hquote hquote'
    (forall_mem_slice_of_classAt hargument.behind)

theorem exists_callAt_of_quotedCall {key call rest : List Char} (h : QuotedCall calls key call)
    (hne : key ≠ []) (hkey : ∀ ch ∈ key, isQuote ch = false)
    (hdrop : src.toList.drop i = call ++ rest) :
    ∃ f x o b e, (f, x) ∈ calls ∧ CallAt src f x i o b e ∧ src.slice (o + 1) b = key := by
  obtain @⟨f, x, q, q', before, behind, hf, hbefore, hq, hq', hbehind⟩ := h
  simp only [List.append_assoc, List.cons_append, List.nil_append] at hdrop
  have hparen := Source.drop_add hdrop
  have hblank := Source.drop_succ hparen
  have hopening := Source.drop_add hblank
  have hargument := Source.drop_succ hopening
  have hclosing := Source.drop_add hargument
  have hblank' := Source.drop_succ hclosing
  have hcloser := Source.drop_add hblank'
  have hquote {k : Nat} {ch : Char} {cs : List Char} (hk : src.toList.drop k = ch :: cs) :
      src.classAt isQuote k = isQuote ch := by
    rw [Source.classAt_eq, Source.charAt_of_drop hk, Option.any_some]
  have hlength : 0 < key.length := List.length_pos_iff.2 hne
  refine ⟨f, x, i + f.toList.length + 1 + before.length, _, _, hf,
    ⟨Source.literalAt_of_drop hdrop, ?_, Source.charAt_of_drop hcloser⟩,
    Source.slice_of_literalAt (Source.literalAt_of_drop hargument)⟩
  constructor
  case paren => exact Source.charAt_of_drop hparen
  case before => exact fun k => classAt_of_drop hblank hbefore
  case opening => exact (hquote hopening).trans hq
  case argument =>
    exact fun k => classAt_of_drop hargument fun ch hch => by rw [hkey ch hch]; rfl
  case closing => exact (hquote hclosing).trans hq'
  case behind => exact fun k => classAt_of_drop hblank' hbehind
  all_goals omega

end CodeParts.Names
