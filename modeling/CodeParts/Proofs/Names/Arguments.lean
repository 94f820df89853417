import CodeParts.Proofs.Names.Calls
import CodeParts.Proofs.Names.Tally

/-!
# The arguments in an index

The patterns of the index match where calls of their functions stand (`MatchesCalls`). So what
a search finds is an argument of such a call, and since calls whose arguments do not begin with
a closing character never overlap, it finds the arguments of all of these
(`exists_match_of_callAt`). The six lists of the index are therefore exactly the arguments of
their calls (`arguments_of_text`).
-/

namespace CodeParts.Names

open Pattern Construct

variable {src : Source} {p q : Pattern} {c d : Cursor} {m : Match} {ws vs : List String}
  {table table' : List (String × Char)} {f key w : String} {x ch : Char} {i o b e : Nat}

/-! ### Patterns of words -/

/-- The pattern takes exactly these words. -/
def TakesWords (q : Pattern) (ws : List String) : Prop :=
  ∀ src c d, d ∈ q.run src c ↔ ∃ w ∈ ws, src.literalAt w.toList c.offset = true ∧
    d = c.moveTo (c.offset + w.toList.length)

theorem takesWords_keyword (w : String) : TakesWords (keyword w) [w] := by
  intro src c d
  rw [keyword, mem_run_literal]
  simp

theorem takesWords_empty : TakesWords empty [""] := by
  intro src c d
  simp [run, Source.literalAt, Cursor.moveTo]

theorem TakesWords.alt (hp : TakesWords p ws) (hq : TakesWords q vs) :
    TakesWords (alt p q) (ws ++ vs) := by
  intro src c d
  simp only [mem_run_alt, hp src c d, hq src c d, List.mem_append, or_and_right, exists_or]

/-- A word in front of one of several. -/
theorem TakesWords.keyword_seq (hq : TakesWords q vs) (w : String) :
    TakesWords (seq (keyword w) q) (vs.map (w ++ ·)) := by
  intro src c d
  have hlit (v : String) : src.literalAt (w ++ v).toList c.offset =
      (src.literalAt w.toList c.offset &&
        src.literalAt v.toList (c.offset + w.toList.length)) := by
    rw [String.toList_append, Source.literalAt_append]
  have hmove (v : String) : c.moveTo (c.offset + (w ++ v).toList.length) =
      c.moveTo (c.offset + w.toList.length + v.toList.length) := by
    rw [String.toList_append, List.length_append, Nat.add_assoc]
  simp only [mem_run_seq, keyword, mem_run_literal, List.mem_map, exists_exists_and_eq_and, hlit,
    hmove, Bool.and_eq_true]
  constructor
  · intro h
    obtain ⟨_, ⟨hw, rfl⟩, hd⟩ := h
    obtain ⟨v, hv, hlit', rfl⟩ := (hq src _ d).1 hd
    exact ⟨v, hv, ⟨hw, hlit'⟩, rfl⟩
  · intro h
    obtain ⟨v, hv, ⟨hw, hlit'⟩, rfl⟩ := h
    exact ⟨_, ⟨hw, rfl⟩, (hq src _ _).2 ⟨v, hv, hlit', rfl⟩⟩

/-! ### The pattern of a quoted argument -/

/-- The pieces of a quoted argument have each one place where they can stand. -/
theorem mem_run_quotedArgument : d ∈ quotedArgument.run src c ↔
    ∃ o b, o = src.runEnd isBlank (c.offset + 1) ∧ b = src.runEnd (fun ch => !isQuote ch) (o + 2) ∧
      src.charAt c.offset = some '(' ∧ src.classAt isQuote o = true ∧
      src.classAt (fun ch => !isQuote ch) (o + 1) = true ∧ src.classAt isQuote b = true ∧
      d = ⟨src.runEnd isBlank (b + 1), ("argument", o + 1, b) :: c.groups⟩ := by
  have hparen : src.literalAt "(".toList c.offset = true ↔ src.charAt c.offset = some '(' := by
    rw [show "(".toList = ['('] by decide, Source.literalAt, Source.literalAt, Bool.and_true,
      Source.charIs_eq_true]
  simp only [quotedArgument, chain, several, blanks, keyword, mem_run_seq, mem_run_literal,
    mem_run_all, mem_run_one, mem_run_group, hparen]
  constructor
  · intro h
    obtain ⟨_, ⟨hopen, rfl⟩, _, rfl, _, ⟨hopening, rfl⟩, _, ⟨_, ⟨_, ⟨hfirst, rfl⟩, rfl⟩, rfl⟩, _,
      ⟨hclosing, rfl⟩, rfl⟩ := h
    exact ⟨_, _, rfl, rfl, hopen, hopening, hfirst, hclosing, rfl⟩
  · intro h
    obtain ⟨_, _, rfl, rfl, hopen, hopening, hfirst, hclosing, rfl⟩ := h
    exact ⟨_, ⟨hopen, rfl⟩, _, rfl, _, ⟨hopening, rfl⟩, _, ⟨_, ⟨_, ⟨hfirst, rfl⟩, rfl⟩, rfl⟩, _,
      ⟨hclosing, rfl⟩, rfl⟩

/-- What the pattern of a quoted argument takes is one. -/
theorem argumentAt_of_mem_run (h : d ∈ quotedArgument.run src c) :
    ∃ o b, ArgumentAt src c.offset o b d.offset ∧
      d.groups = ("argument", o + 1, b) :: c.groups := by
  obtain ⟨o, b, ho, hb, hopen, hopening, hfirst, hclosing, rfl⟩ := mem_run_quotedArgument.1 h
  have hlt := le_runEnd src isBlank (c.offset + 1)
  have hlt' := le_runEnd src (fun ch => !isQuote ch) (o + 2)
  refine ⟨o, b, ?_, rfl⟩
  constructor
  case paren => exact hopen
  case opening => exact hopening
  case closing => exact hclosing
  case before => exact fun k hk hko => classAt_of_le_of_lt_runEnd hk (by omega)
  case behind => exact fun k hk hke => classAt_of_le_of_lt_runEnd hk hke
  case lt_end => exact le_runEnd src isBlank (b + 1)
  case argument =>
    intro k hk hkb
    rcases Nat.eq_or_lt_of_le hk with rfl | hk
    · exact hfirst
    · exact classAt_of_le_of_lt_runEnd (show o + 2 ≤ k from hk) (by omega)
  all_goals omega

/-- The pattern of a quoted argument takes any, if it is followed by something visible. -/
theorem mem_run_of_argumentAt (h : ArgumentAt src c.offset o b e) (hx : src.charAt e = some x)
    (hblank : isBlank x = false) :
    ⟨e, ("argument", o + 1, b) :: c.groups⟩ ∈ quotedArgument.run src c := by
  obtain ⟨q, hq, hquote⟩ := exists_charAt_of_classAt (fun _ => id) h.opening
  obtain ⟨q', hq', hquote'⟩ := exists_charAt_of_classAt (fun _ => id) h.closing
  have hno : isBlank q = false := by
    rw [← Bool.not_eq_true]
    intro hblank
    rw [isQuote_of_isBlank hblank] at hquote
    cases hquote
  have ho : src.runEnd isBlank (c.offset + 1) = o := runEnd_of_charAt h.lt_opening h.before hq hno
  have hb : src.runEnd (fun ch => !isQuote ch) (o + 2) = b :=
    runEnd_of_charAt h.lt_closing (fun k hk => h.argument k (by omega)) hq' (by rw [hquote']; rfl)
  have he : src.runEnd isBlank (b + 1) = e := runEnd_of_charAt h.lt_end h.behind hx hblank
  exact mem_run_quotedArgument.2 ⟨o, b, ho.symm, hb.symm, h.paren, h.opening,
    h.argument (o + 1) (Nat.le_refl _) h.lt_closing, h.closing, by rw [he]⟩

/-! ### Patterns of calls -/

/-- The pattern takes exactly these calls, through the character behind the argument, and keeps
the argument. -/
structure TakesCalls (p : Pattern) (table : List (String × Char)) : Prop where
  of_mem_run : ∀ {src c d}, d ∈ p.run src c → ∃ f x o b e, (f, x) ∈ table ∧
    CallAt src f x c.offset o b e ∧ d = ⟨e + 1, ("argument", o + 1, b) :: c.groups⟩
  run_ne_nil : ∀ {src c f x o b e}, (f, x) ∈ table → CallAt src f x c.offset o b e →
    p.run src c ≠ []

theorem TakesWords.call (hq : TakesWords q ws) (hw : w.toList = [x]) (hx : isBlank x = false) :
    TakesCalls (chain [q, quotedArgument, keyword w]) (ws.map fun f => (f, x)) := by
  have hcloser {src : Source} {e : Nat} : src.literalAt w.toList e = true ↔
      src.charAt e = some x := by
    rw [hw, Source.literalAt, Source.literalAt, Bool.and_true, Source.charIs_eq_true]
  constructor
  · intro src c d h
    obtain ⟨_, hf, hrest⟩ := mem_run_seq.1 h
    obtain ⟨a, ha, hd⟩ := mem_run_seq.1 hrest
    obtain ⟨f, hmem, hlit, rfl⟩ := (hq src c _).1 hf
    obtain ⟨o, b, hargument, hgroups⟩ := argumentAt_of_mem_run ha
    obtain ⟨hend, rfl⟩ := mem_run_literal.1 hd
    refine ⟨f, x, o, b, a.offset, List.mem_map_of_mem hmem, ⟨hlit, hargument, hcloser.1 hend⟩, ?_⟩
    rw [hw, Cursor.moveTo, hgroups]
    rfl
  · intro src c f y o b e hmem h
    obtain ⟨f, hf, heq⟩ := List.mem_map.1 hmem
    cases heq
    have hrun := mem_run_of_argumentAt (c := c.moveTo (c.offset + f.toList.length)) h.argumentAt
      h.closer hx
    exact List.ne_nil_of_mem (mem_run_seq.2 ⟨_, (hq src c _).2 ⟨f, hf, h.function, rfl⟩,
      mem_run_seq.2 ⟨_, hrun, mem_run_literal.2 ⟨hcloser.2 h.closer, rfl⟩⟩⟩)

theorem TakesCalls.alt (hp : TakesCalls p table) (hq : TakesCalls q table') :
    TakesCalls (alt p q) (table ++ table') := by
  constructor
  · intro src c d h
    rcases mem_run_alt.1 h with h | h
    · obtain ⟨f, x, o, b, e, hf, h⟩ := hp.of_mem_run h
      exact ⟨f, x, o, b, e, List.mem_append_left _ hf, h⟩
    · obtain ⟨f, x, o, b, e, hf, h⟩ := hq.of_mem_run h
      exact ⟨f, x, o, b, e, List.mem_append_right _ hf, h⟩
  · intro src c f x o b e hf h hnil
    obtain ⟨hp', hq'⟩ := List.append_eq_nil_iff.1 hnil
    rcases List.mem_append.1 hf with hf | hf
    · exact hp.run_ne_nil hf h hp'
    · exact hq.run_ne_nil hf h hq'

/-! ### Searches for calls -/

/-- The pattern matches where one of these calls stands, and nowhere else, and keeps the
argument. -/
structure MatchesCalls (p : Pattern) (table : List (String × Char)) : Prop where
  of_matchAt : ∀ {src i m}, p.matchAt src i = some m → ∃ f x o b e, (f, x) ∈ table ∧
    CallAt src f x i o b e ∧ m.stop = e + 1 ∧ m.span? "argument" = some (o + 1, b)
  exists_matchAt : ∀ {src f x i o b e}, (f, x) ∈ table → CallAt src f x i o b e →
    ∃ m, p.matchAt src i = some m

theorem TakesCalls.matchesCalls (hp : TakesCalls p table) : MatchesCalls p table := by
  constructor
  · intro src i m h
    obtain ⟨d, hd, rfl⟩ := exists_mem_run_of_matchAt h
    obtain ⟨f, x, o, b, e, hf, hcall, rfl⟩ := hp.of_mem_run hd
    exact ⟨f, x, o, b, e, hf, hcall, rfl, rfl⟩
  · intro src f x i o b e hf h
    obtain ⟨d, hd⟩ := List.exists_mem_of_ne_nil _ (hp.run_ne_nil (c := ⟨i, []⟩) hf h)
    exact exists_matchAt_of_mem_run hd

/-- A search finds every call whose argument does not begin with a closing character. -/
theorem exists_match_of_callAt (hp : MatchesCalls p table) (hs : Separable table)
    (hf : (f, x) ∈ table) (h : CallAt src f x i o b e)
    (hmark : firstMark (src.slice (o + 1) b) = some ch) (hch : isCloser ch = false) :
    ∃ m ∈ p.allMatches src, p.matchAt src i = some m ∧ m.span? "argument" = some (o + 1, b) := by
  obtain ⟨m, hm⟩ := hp.exists_matchAt hf h
  obtain ⟨g, y, o', b', e', hg, h', -, hspan⟩ := hp.of_matchAt hm
  obtain ⟨rfl, rfl⟩ := hs.unique hf hg h h'
  have hsize := Source.lt_size_of_charAt h.argumentAt.paren
  refine ⟨m, mem_findAll_of_matchAt (Nat.zero_le i) (by omega) hm ?_, hm, hspan⟩
  intro k n _ hki hn
  obtain ⟨g, y, o', b', e', hg, h', hstop, -⟩ := hp.of_matchAt hn
  rw [hstop]
  refine hs.lt_of_lt hg hf h' h (fun other hother => ?_) hki
  rw [hmark, Option.some.injEq] at hother
  rwa [← hother]

/-- The names are arguments of these calls in a text, and all of them but for some that begin with
a closing character. -/
structure ListsArguments (names : List String) (src : Source) (table : List (String × Char)) :
    Prop where
  sound : ∀ {key}, key ∈ names → allBlank key.toList = false ∧ ∃ f x i o b e, (f, x) ∈ table ∧
    CallAt src f x i o b e ∧ key = String.ofList (src.slice (o + 1) b)
  complete : ∀ {f x i o b e ch}, (f, x) ∈ table → CallAt src f x i o b e →
    firstMark (src.slice (o + 1) b) = some ch → isCloser ch = false →
    String.ofList (src.slice (o + 1) b) ∈ names

theorem allBlank_of_firstMark {cs : List Char} (h : firstMark cs = some ch) :
    allBlank cs = false := by
  rw [allBlank, List.all_eq_false]
  exact ⟨ch, List.mem_of_find?_eq_some h, by simpa using List.find?_some h⟩

/-- The arguments of the matches that are kept are those of the calls in a second table, if just
the matches of these calls are kept. -/
theorem listsArguments_of_matches {names : List String} (keep : Match → Prop)
    (hp : MatchesCalls p table) (hs : Separable table) (hsub : table' ⊆ table)
    (hkeep : ∀ {i m f x o b e}, p.matchAt src i = some m → (f, x) ∈ table →
      CallAt src f x i o b e → (keep m ↔ (f, x) ∈ table'))
    (hnames : ∀ key, key ∈ names ↔ allBlank key.toList = false ∧
      ∃ m ∈ p.allMatches src, keep m ∧ m.text? src "argument" = some key) :
    ListsArguments names src table' := by
  constructor
  · intro key hkey
    obtain ⟨hblank, m, hm, hkept, htext⟩ := (hnames key).1 hkey
    obtain ⟨i, -, hmatch⟩ := exists_matchAt_of_mem_findAll hm
    obtain ⟨f, x, o, b, e, hf, hcall, -, hspan⟩ := hp.of_matchAt hmatch
    rw [Match.text?, hspan, Option.map_some, Option.some.injEq] at htext
    exact ⟨hblank, f, x, i, o, b, e, (hkeep hmatch hf hcall).1 hkept, hcall, htext.symm⟩
  · intro f x i o b e ch hf hcall hmark hch
    obtain ⟨m, hm, hmatch, hspan⟩ := exists_match_of_callAt hp hs (hsub hf) hcall hmark hch
    have hblank : allBlank (src.slice (o + 1) b) = false := allBlank_of_firstMark hmark
    refine (hnames _).2 ⟨by rw [String.toList_ofList, hblank], m, hm,
      (hkeep hmatch (hsub hf) hcall).2 hf, ?_⟩
    rw [Match.text?, hspan]
    rfl

theorem listsArguments_arguments (hp : MatchesCalls p table) (hs : Separable table) :
    ListsArguments (arguments src p) src table := by
  refine listsArguments_of_matches (fun _ => True) hp hs (List.Subset.refl table)
    (fun _ hf _ => iff_of_true trivial hf) fun key => ?_
  rw [arguments, captures, List.mem_filter, List.mem_filterMap, and_comm, Bool.not_eq_true']
  simp only [true_and]

/-! ### Calls of the storage areas -/

/-- The methods of a storage area, with what stands behind the key. -/
def storageMethods : List (String × Char) :=
  [("getItem", ')'), ("removeItem", ')'), ("setItem", ',')]

/-- The calls that name a key of a storage area. -/
def StorageArea.calls (area : StorageArea) : List (String × Char) :=
  storageMethods.map fun c => (area.objectName ++ ("." ++ c.1), c.2)

/-- What stands behind the object of a storage access. -/
def storageMethod : Pattern :=
  alt (callOf (alt (keyword "getItem") (keyword "removeItem")))
    (chain [keyword "setItem", quotedArgument, keyword ","])

theorem takesCalls_storageMethod : TakesCalls storageMethod storageMethods :=
  (((takesWords_keyword _).alt (takesWords_keyword _)).call (by decide) (by decide)).alt
    ((takesWords_keyword _).call (by decide) (by decide))

/-- A storage access keeps the object, and behind the dot it is a call of a method. -/
theorem mem_run_storageAccess : d ∈ storageAccess.run src ⟨i, []⟩ ↔
    ∃ area : StorageArea, src.literalAt area.objectName.toList i = true ∧
      src.literalAt ".".toList (i + area.objectName.toList.length) = true ∧
      d ∈ storageMethod.run src ⟨i + area.objectName.toList.length + ".".toList.length,
        [("object", i, i + area.objectName.toList.length)]⟩ := by
  show d ∈ (chain [group "object" (alt (keyword StorageArea.localArea.objectName)
    (keyword StorageArea.sessionArea.objectName)), keyword ".", storageMethod]).run src ⟨i, []⟩ ↔ _
  simp only [chain, keyword, mem_run_seq, mem_run_group, mem_run_alt, mem_run_literal]
  constructor
  · intro h
    obtain ⟨_, ⟨_, ⟨hlit, rfl⟩ | ⟨hlit, rfl⟩, rfl⟩, _, ⟨hdot, rfl⟩, hd⟩ := h
    · exact ⟨.localArea, hlit, hdot, hd⟩
    · exact ⟨.sessionArea, hlit, hdot, hd⟩
  · intro h
    obtain ⟨area, hlit, hdot, hd⟩ := h
    cases area
    · exact ⟨_, ⟨_, .inl ⟨hlit, rfl⟩, rfl⟩, _, ⟨hdot, rfl⟩, hd⟩
    · exact ⟨_, ⟨_, .inr ⟨hlit, rfl⟩, rfl⟩, _, ⟨hdot, rfl⟩, hd⟩

/-- The object decides the storage area. -/
theorem StorageArea.eq_of_literalAt {area area' : StorageArea}
    (h : src.literalAt area.objectName.toList i = true)
    (h' : src.literalAt area'.objectName.toList i = true) : area = area' := by
  have hfirst := Source.literalAt_eq_true.1 h 0 (by cases area <;> decide)
  have hfirst' := Source.literalAt_eq_true.1 h' 0 (by cases area' <;> decide)
  have heq : area.objectName.toList[0]? = area'.objectName.toList[0]? := hfirst.symm.trans hfirst'
  revert heq
  cases area <;> cases area' <;> decide

theorem StorageArea.literalAt_objectName {area : StorageArea} (hf : (f, x) ∈ area.calls)
    (h : CallAt src f x i o b e) : src.literalAt area.objectName.toList i = true := by
  obtain ⟨c, -, heq⟩ := List.mem_map.1 hf
  cases heq
  exact (callAt_append.1 h).1

/-- A match of a storage access keeps the object of the area. -/
theorem of_matchAt_storageAccess (h : storageAccess.matchAt src i = some m) :
    ∃ area f x o b e, (f, x) ∈ StorageArea.calls area ∧ CallAt src f x i o b e ∧
      m.stop = e + 1 ∧ m.span? "argument" = some (o + 1, b) ∧
      m.text? src "object" = some area.objectName := by
  obtain ⟨d, hd, rfl⟩ := exists_mem_run_of_matchAt h
  obtain ⟨area, hlit, hdot, hmethod⟩ := mem_run_storageAccess.1 hd
  obtain ⟨f, x, o, b, e, hf, hcall, rfl⟩ := takesCalls_storageMethod.of_mem_run hmethod
  refine ⟨area, _, x, o, b, e, List.mem_map_of_mem hf,
    callAt_append.2 ⟨hlit, callAt_append.2 ⟨hdot, hcall⟩⟩, rfl, rfl, ?_⟩
  show some (String.ofList (src.slice i (i + area.objectName.toList.length))) = _
  rw [Source.slice_of_literalAt hlit, String.ofList_toList]

theorem mem_storageCalls {c : String × Char} :
    c ∈ StorageArea.localArea.calls ++ StorageArea.sessionArea.calls ↔
      ∃ area : StorageArea, c ∈ area.calls := by
  rw [List.mem_append]
  constructor
  · intro h
    rcases h with h | h
    · exact ⟨_, h⟩
    · exact ⟨_, h⟩
  · intro h
    obtain ⟨area, h⟩ := h
    cases area
    · exact .inl h
    · exact .inr h

/-- The calls of both storage areas. -/
theorem matchesCalls_storageAccess :
    MatchesCalls storageAccess (StorageArea.localArea.calls ++ StorageArea.sessionArea.calls) := by
  constructor
  · intro src i m h
    obtain ⟨area, f, x, o, b, e, hf, hcall, hstop, hspan, -⟩ := of_matchAt_storageAccess h
    exact ⟨f, x, o, b, e, mem_storageCalls.2 ⟨area, hf⟩, hcall, hstop, hspan⟩
  · intro src f x i o b e hf h
    obtain ⟨area, hf⟩ := mem_storageCalls.1 hf
    obtain ⟨c, hc, heq⟩ := List.mem_map.1 hf
    cases heq
    obtain ⟨hlit, hrest⟩ := callAt_append.1 h
    obtain ⟨hdot, hmethod⟩ := callAt_append.1 hrest
    obtain ⟨d, hd⟩ := List.exists_mem_of_ne_nil _ (takesCalls_storageMethod.run_ne_nil
      (c := ⟨_, [("object", i, i + area.objectName.toList.length)]⟩) hc hmethod)
    exact exists_matchAt_of_mem_run (mem_run_storageAccess.2 ⟨area, hlit, hdot, hd⟩)

theorem separable_storageCalls :
    Separable (StorageArea.localArea.calls ++ StorageArea.sessionArea.calls) :=
  ⟨by decide +kernel, by decide +kernel, by decide +kernel, by decide +kernel⟩

/-- The keys of a storage area are told from those of the other one by the object. -/
theorem listsArguments_storageKeys (area : StorageArea) :
    ListsArguments (storageKeys src area) src area.calls := by
  refine listsArguments_of_matches (fun m => m.text? src "object" = some area.objectName)
    matchesCalls_storageAccess separable_storageCalls
    (fun c hc => mem_storageCalls.2 ⟨area, hc⟩) ?_ fun key => ?_
  · intro i m f x o b e hmatch hf hcall
    obtain ⟨other, g, y, o', b', e', hg, hcall', -, -, hobject⟩ := of_matchAt_storageAccess hmatch
    have hother {a : StorageArea} (ha : (f, x) ∈ a.calls) : a = other :=
      StorageArea.eq_of_literalAt (StorageArea.literalAt_objectName ha hcall)
        (StorageArea.literalAt_objectName hg hcall')
    obtain ⟨a, ha⟩ := mem_storageCalls.1 hf
    rw [hobject, Option.some.injEq]
    constructor
    · intro heq
      obtain rfl : area = other := by
        revert heq
        cases area <;> cases other <;> decide
      rwa [← hother ha]
    · intro harea
      rw [hother harea]
  · simp only [storageKeys, List.mem_filterMap, List.mem_filter, beq_iff_eq,
      Option.filter_eq_some_iff, Bool.not_eq_true']
    constructor
    · intro h
      obtain ⟨m, ⟨hm, hobject⟩, htext, hblank⟩ := h
      exact ⟨hblank, m, hm, hobject, htext⟩
    · intro h
      obtain ⟨hblank, m, hm, hobject, htext⟩ := h
      exact ⟨m, ⟨hm, hobject⟩, htext, hblank⟩

/-! ### The lists of the index -/

/-- The lists of an index whose names are arguments of calls. -/
inductive ArgumentList where
  | ids
  | classes
  | names
  | selectors
  | keys (area : StorageArea)
  deriving DecidableEq, Repr

namespace ArgumentList

/-- The functions whose first arguments a list has, with what stands behind the argument. -/
def calls : ArgumentList → List (String × Char)
  | ids => [("getElementById", ')')]
  | classes => [("getElementsByClassName", ')')]
  | names => [("getElementsByName", ')')]
  | selectors => [("querySelectorAll", ')'), ("querySelector", ')')]
  | keys area => area.calls

/-- The names of a list as a search finds them. -/
def found (src : Source) : ArgumentList → List String
  | ids => arguments src (callOf (keyword "getElementById"))
  | classes => arguments src (callOf (keyword "getElementsByClassName"))
  | names => arguments src (callOf (keyword "getElementsByName"))
  | selectors => arguments src (callOf (seq (keyword "querySelector") (optional (keyword "All"))))
  | keys area => storageKeys src area

/-- The entries of a list before it is cut. -/
def entries (text : String) (l : ArgumentList) : List String := distinct (l.found (.ofString text))

/-- How many entries a list can have. -/
def cap : ArgumentList → Nat
  | ids | classes | names | selectors => 1500
  | keys _ => 2000

/-- The list in an index. -/
def ofIndex (index : Index) : ArgumentList → NameList
  | ids => index.domIds
  | classes => index.domClasses
  | names => index.domNames
  | selectors => index.selectors
  | keys .localArea => index.localKeys
  | keys .sessionArea => index.sessionKeys

theorem ofIndex_ofSource (text : String) (l : ArgumentList) :
    l.ofIndex (.ofSource (.ofString text)) =
      ⟨(l.entries text).length, ((l.entries text).take l.cap).toArray⟩ := by
  cases l with
  | ids | classes | names | selectors => rfl
  | keys area => cases area <;> rfl

theorem listsArguments (src : Source) (l : ArgumentList) :
    ListsArguments (l.found src) src l.calls := by
  have hsingle (f : String) (hne : f.toList ≠ []) (hchars : f.toList.all isFunctionChar = true) :
      ListsArguments (arguments src (callOf (keyword f))) src [(f, ')')] :=
    listsArguments_arguments (((takesWords_keyword f).call (by decide) (by decide)).matchesCalls)
      (separable_singleton hne hchars rfl)
  cases l with
  | ids => exact hsingle _ (by decide) (by decide +kernel)
  | classes => exact hsingle _ (by decide) (by decide +kernel)
  | names => exact hsingle _ (by decide) (by decide +kernel)
  | selectors =>
      have hwords : TakesWords (seq (keyword "querySelector") (optional (keyword "All")))
          ["querySelectorAll", "querySelector"] :=
        ((takesWords_keyword "All").alt takesWords_empty).keyword_seq "querySelector"
      exact listsArguments_arguments ((hwords.call (by decide) (by decide)).matchesCalls)
        ⟨by decide, by decide +kernel, by decide, by decide +kernel⟩
  | keys area => exact listsArguments_storageKeys area

end ArgumentList

/-! ### The arguments of a text -/

/-- The entries of each list, from which the index takes the first, are arguments of calls of
the list: none is blank, and none has a quote. They are all such arguments but for those that
begin, behind white space, with a closing character. -/
theorem arguments_of_text (text : String) (l : ArgumentList) :
    l.ofIndex (.ofSource (.ofString text)) =
        ⟨(l.entries text).length, ((l.entries text).take l.cap).toArray⟩ ∧
      (∀ key ∈ l.entries text, allBlank key.toList = false ∧
        (∀ ch ∈ key.toList, isQuote ch = false) ∧
        ∃ call, QuotedCall l.calls key.toList call ∧ call <:+: text.toList) ∧
      ∀ (key : String) call first, QuotedCall l.calls key.toList call → call <:+: text.toList →
        (∀ ch ∈ key.toList, isQuote ch = false) → firstMark key.toList = some first →
        first ≠ ')' → first ≠ ',' → key ∈ l.entries text := by
  have hlists := l.listsArguments (.ofString text)
  refine ⟨l.ofIndex_ofSource text, fun key hkey => ?_, ?_⟩
  · obtain ⟨hblank, f, x, i, o, b, e, hf, hcall, rfl⟩ := hlists.sound (mem_distinct.1 hkey)
    have hquoted := forall_mem_slice_of_classAt hcall.argumentAt.argument
    rw [String.toList_ofList] at hblank ⊢
    exact ⟨hblank, fun ch hch => by simpa using hquoted ch hch, _, hcall.quotedCall hf,
      Source.slice_isInfix _ _ _⟩
  · intro key call first hquoted hinfix hkey hfirst hparen hcomma
    obtain ⟨before, after, htext⟩ := hinfix
    have hdrop : (Source.ofString text).toList.drop before.length = call ++ after := by
      rw [Source.toList_ofString, ← htext, List.append_assoc, List.drop_left]
    have hne : key.toList ≠ [] := by
      intro hnil
      rw [hnil] at hfirst
      cases hfirst
    obtain ⟨f, x, o, b, e, hf, hcall, hslice⟩ := exists_callAt_of_quotedCall hquoted hne hkey hdrop
    have hcloser : isCloser first = false := by
      rw [isCloser, Bool.or_eq_false_iff, beq_eq_false_iff_ne, beq_eq_false_iff_ne]
      exact ⟨hparen, hcomma⟩
    have hmem := hlists.complete hf hcall (by rw [hslice]; exact hfirst) hcloser
    rw [hslice, String.ofList_toList] at hmem
    exact mem_distinct.2 hmem

/-- A call whose opening quote could close the argument of what looks like one before it. -/
theorem arguments_of_text_reopened :
    (QuotedCall ArgumentList.ids.calls " b".toList "getElementById(' b')".toList ∧
      "getElementById(' b')".toList <:+: "getElementById('getElementById(' b')".toList ∧
      firstMark " b".toList = some 'b') ∧
    " b" ∈ ArgumentList.ids.entries "getElementById('getElementById(' b')" ∧
    ∃ call, QuotedCall ArgumentList.ids.calls " b".toList call ∧
      call <:+: "getElementById('getElementById(' b')".toList := by
  have hpieces : "getElementById(' b')".toList = "getElementById".toList ++
      '(' :: ([] ++ '\'' :: (" b".toList ++ '\'' :: ([] ++ [')']))) := by decide
  have hquoted : QuotedCall ArgumentList.ids.calls " b".toList "getElementById(' b')".toList := by
    rw [hpieces]
    exact .call (by decide) (List.forall_mem_nil _) rfl rfl (List.forall_mem_nil _)
  have hinfix : "getElementById(' b')".toList <:+: "getElementById('getElementById(' b')".toList :=
    ⟨"getElementById('".toList, [], by decide⟩
  have hkey : ∀ ch ∈ " b".toList, isQuote ch = false := fun ch hch => by
    have hall : (" b".toList.all fun ch => !isQuote ch) = true := by decide
    simpa using List.all_eq_true.1 hall ch hch
  have hmark : firstMark " b".toList = some 'b' := by decide
  have hentry := (arguments_of_text "getElementById('getElementById(' b')" .ids).2.2 _ _ _ hquoted
    hinfix hkey hmark (by decide) (by decide)
  exact ⟨⟨hquoted, hinfix, hmark⟩, hentry,
    ((arguments_of_text "getElementById('getElementById(' b')" .ids).2.1 _ hentry).2.2⟩

/-- An argument that begins with a closing character can be missed. -/
example : ArgumentList.ids.entries "getElementById('getElementById(')')" = ["getElementById("] := by
  decide +kernel

end CodeParts.Names
