import CodeParts.Proofs.Names.Lookup
import CodeParts.Proofs.Names.Ranking
import CodeParts.Proofs.Text.Lines
import CodeParts.Report

/-!
# The lines of the report on an index

The report on an index is a header, a line with the most frequent identifiers and, for each list
that is not empty, its label, its items and how many names do not fit (`reportLines`). Its text
is made of these lines and is then trimmed at its end. That is meant for the last newline, but a
blank before it goes as well: the lines of the text are those of the report except that the last
one is trimmed. All lines but those of items end in something visible, so nothing is lost just if
the report does not end in an item with a blank at its end (`lines_of_index`).
-/

namespace CodeParts

open Construct Names

namespace Report

variable {file name line text : String} {index : Index}

/-! ### The lines of a report -/

/-- The lists of an index in the order in which they are shown. -/
def shownLists : List IndexList :=
  [.identifiers, .arguments .ids, .arguments .classes, .arguments .names, .arguments .selectors,
    .arguments (.keys .localArea), .arguments (.keys .sessionArea)]

/-- What stands above the items of a list. -/
def listLabel : IndexList → String
  | .identifiers => "identifiers"
  | .arguments .ids => "dom ids"
  | .arguments .classes => "dom classes"
  | .arguments .names => "dom names"
  | .arguments .selectors => "selectors"
  | .arguments (.keys .localArea) => "localStorage keys"
  | .arguments (.keys .sessionArea) => "sessionStorage keys"

/-- What the header says about a list with so many names. -/
def totalText (total : Nat) : IndexList → String
  | .identifiers => toString total ++ " identifiers"
  | .arguments .ids => "DOM ids: " ++ toString total
  | .arguments .classes => "DOM classes: " ++ toString total
  | .arguments .names => "DOM names: " ++ toString total
  | .arguments .selectors => "Selectors: " ++ toString total
  | .arguments (.keys .localArea) => "localStorage keys: " ++ toString total
  | .arguments (.keys .sessionArea) => "sessionStorage keys: " ++ toString total

/-- The header: the file and the totals of all lists. -/
def headerLine (file : String) (index : Index) : String :=
  file ++ ": " ++ " | ".intercalate (shownLists.map fun l => totalText (l.ofIndex index).total l)

/-- The line with the most frequent identifiers, if there are any. -/
def rankingLines (top : List (String × Nat)) : List String :=
  if top = [] then [] else ["top: " ++ rankedText top]

/-- The line of an item. -/
def itemLine (name : String) : String := "  - " ++ name

/-- The lines of a list that is not empty: its label, its items and how many do not fit. -/
def sectionLines (label : String) (l : NameList) : List String :=
  if l.items = #[] then []
  else
    (label ++ ":") :: (l.items.toList.map itemLine ++
      if l.isTruncated then ["  (" ++ toString (l.total - l.items.size) ++ " more not shown)"]
      else [])

/-- The lines of the report on an index. -/
def reportLines (file : String) (index : Index) : List String :=
  headerLine file index :: (rankingLines index.top ++
    shownLists.flatMap fun l => sectionLines (listLabel l) (l.ofIndex index))

theorem mem_shownLists (l : IndexList) : l ∈ shownLists := by
  rcases l with _ | (_ | _ | _ | _ | _ | _) <;> decide

theorem toString_eq_self (s : String) : toString s = s := rfl

theorem indexHeader_eq (file : String) (index : Index) :
    indexHeader file index = headerLine file index ++ "\n" := by
  have hids : " identifiers | DOM ids: " = " identifiers" ++ (" | " ++ "DOM ids: ") := by
    decide +kernel
  have hnames : " | DOM names: " = " | " ++ "DOM names: " := by decide +kernel
  have hkeys : " | localStorage keys: " = " | " ++ "localStorage keys: " := by decide +kernel
  unfold indexHeader headerLine shownLists totalText
  rw [hids, hnames, hkeys]
  simp only [List.map_cons, List.map_nil, String.intercalate_cons_cons,
    String.intercalate_singleton, toString_eq_self, String.append_assoc]
  rfl

theorem topLines_eq (top : List (String × Nat)) :
    topLines top = (rankingLines top).map (· ++ "\n") := by
  cases top <;> rfl

theorem nameListLines_eq (label : String) (l : NameList) :
    nameListLines label l = (sectionLines label l).map (· ++ "\n") := by
  have hcolon : ":\n" = ":" ++ "\n" := by decide +kernel
  have hnote : " more not shown)\n" = " more not shown)" ++ "\n" := by decide +kernel
  rw [nameListLines, sectionLines, hcolon, hnote]
  by_cases hempty : l.items = #[]
  · rw [if_pos hempty, if_pos (Array.isEmpty_iff.2 hempty), List.map_nil]
  · rw [if_neg hempty, if_neg (mt Array.isEmpty_iff.1 hempty)]
    cases l.isTruncated <;> simp [itemLine, toString_eq_self, String.append_assoc]

theorem indexLines_eq (file : String) (index : Index) :
    indexLines file index = (reportLines file index).map (· ++ "\n") := by
  simp only [indexLines, reportLines, indexHeader_eq, topLines_eq, nameListLines_eq, shownLists,
    List.flatMap_cons, List.flatMap_nil, List.map_cons, List.map_append, List.append_assoc,
    List.cons_append, List.nil_append, List.append_nil]
  rfl

/-! ### Lines have no newline -/

theorem oneLine_totalText (total : Nat) (l : IndexList) : OneLine (totalText total l) := by
  have hnumber : OneLine (toString total) := oneLine_toString total
  cases l with
  | identifiers => exact oneLine_append.2 ⟨hnumber, by decide⟩
  | arguments list =>
      rcases list with _ | _ | _ | _ | _ | _ <;> exact oneLine_append.2 ⟨by decide, hnumber⟩

theorem oneLine_listLabel (l : IndexList) : OneLine (listLabel l) := by
  rcases l with _ | (_ | _ | _ | _ | _ | _) <;> decide

theorem oneLine_headerLine (h : OneLine file) : OneLine (headerLine file index) := by
  refine oneLine_append.2 ⟨oneLine_append.2 ⟨h, by decide⟩, oneLine_intercalate (by decide) ?_⟩
  intro s hs
  obtain ⟨l, -, rfl⟩ := List.mem_map.1 hs
  exact oneLine_totalText _ l

theorem oneLine_of_mem_rankingLines {top : List (String × Nat)} (h : ∀ e ∈ top, OneLine e.1)
    (hline : line ∈ rankingLines top) : OneLine line := by
  rw [rankingLines] at hline
  split at hline
  · cases hline
  · cases List.mem_singleton.1 hline
    refine oneLine_append.2 ⟨by decide, oneLine_intercalate (by decide) fun s hs => ?_⟩
    obtain ⟨e, he, rfl⟩ := List.mem_map.1 hs
    simp only [oneLine_append]
    exact ⟨⟨⟨h e he, by decide⟩, oneLine_toString e.2⟩, by decide⟩

theorem oneLine_of_mem_sectionLines {label : String} {l : NameList} (hlabel : OneLine label)
    (hitems : ∀ name ∈ l.items, OneLine name) (h : line ∈ sectionLines label l) : OneLine line := by
  rw [sectionLines] at h
  split at h
  · cases h
  · rw [List.mem_cons, List.mem_append] at h
    rcases h with rfl | hitem | hnote
    · exact oneLine_append.2 ⟨hlabel, by decide⟩
    · obtain ⟨name, hname, rfl⟩ := List.mem_map.1 hitem
      exact oneLine_append.2 ⟨by decide, hitems name (Array.mem_toList_iff.1 hname)⟩
    · split at hnote
      · cases List.mem_singleton.1 hnote
        simp only [oneLine_append]
        exact ⟨⟨by decide, oneLine_toString _⟩, by decide⟩
      · cases hnote

/-- No line of a report has a newline if neither the file nor a name has one. -/
theorem oneLine_of_mem_reportLines (hfile : OneLine file) (htop : ∀ e ∈ index.top, OneLine e.1)
    (hitems : ∀ l : IndexList, ∀ name ∈ (l.ofIndex index).items, OneLine name)
    (h : line ∈ reportLines file index) : OneLine line := by
  rw [reportLines, List.mem_cons, List.mem_append, List.mem_flatMap] at h
  rcases h with rfl | hranking | ⟨l, -, hsection⟩
  · exact oneLine_headerLine hfile
  · exact oneLine_of_mem_rankingLines htop hranking
  · exact oneLine_of_mem_sectionLines (oneLine_listLabel l) (hitems l) hsection

theorem oneLine_of_mem_identifiers {src : Source} (h : name ∈ identifiers src) : OneLine name := by
  obtain ⟨a, b, -, hb, -, hslice⟩ := of_mem_captures_identifierPattern (List.mem_of_mem_filter h)
  rw [OneLine, hslice]
  exact fun hmem => absurd (isNameChar_of_isName (isName_of_mem_ends hb) hmem) (by decide)

theorem oneLine_of_mem_reportLines_ofSource (hfile : OneLine file)
    (hnames : ∀ l : IndexList, ∀ name ∈ (l.indexed text).items, OneLine name) :
    ∀ line ∈ reportLines file (.ofSource (.ofString text)), OneLine line := by
  have htop : ∀ e ∈ (Index.ofSource (.ofString text)).top, OneLine e.1 := fun e he =>
    oneLine_of_mem_identifiers (((listsCounts_tally _).listsTop 80).counted e he).1
  exact fun line => oneLine_of_mem_reportLines hfile htop hnames

/-! ### The last line -/

/-- The report on an index ends in an item: it is the last one of a list that fits, and all lists
behind this one are empty. -/
def EndsWithItem (index : Index) (name : String) : Prop :=
  ∃ before l after, shownLists = before ++ l :: after ∧
    (∀ k ∈ after, (k.ofIndex index).items = #[]) ∧
    (l.ofIndex index).isTruncated = false ∧ (l.ofIndex index).items.back? = some name

theorem sectionLines_eq_nil_iff {label : String} {l : NameList} :
    sectionLines label l = [] ↔ l.items = #[] := by
  rw [sectionLines]
  split
  · next h => exact iff_of_true rfl h
  · next h => exact iff_of_false (List.cons_ne_nil _ _) h

theorem getLast?_sectionLines_of_fits {label : String} {l : NameList} (h : l.isTruncated = false) :
    (sectionLines label l).getLast? = l.items.back?.map itemLine := by
  rw [sectionLines, h]
  split
  · next hempty => rw [hempty]; rfl
  · next hempty =>
    obtain ⟨name, hname⟩ := Option.ne_none_iff_exists'.1 (mt Array.back?_eq_none_iff.1 hempty)
    rw [if_neg Bool.false_ne_true, List.append_nil, List.getLast?_cons, List.getLast?_map,
      Array.getLast?_toList, hname]
    rfl

theorem getLast?_of_endsWithItem (h : EndsWithItem index name) :
    (reportLines file index).getLast? = some (itemLine name) := by
  obtain ⟨before, l, after, hlists, hafter, hfits, hback⟩ := h
  have hnil : (after.flatMap fun k => sectionLines (listLabel k) (k.ofIndex index)) = [] :=
    List.flatMap_eq_nil_iff.2 fun k hk => sectionLines_eq_nil_iff.2 (hafter k hk)
  rw [reportLines, hlists, List.flatMap_append, List.flatMap_cons, hnil, List.append_nil,
    List.getLast?_cons, List.getLast?_append, List.getLast?_append,
    getLast?_sectionLines_of_fits hfits, hback]
  rfl

theorem endsVisibly_headerLine (file : String) (index : Index) :
    EndsVisibly (headerLine file index) := by
  have hlists : shownLists = shownLists.dropLast ++ [.arguments (.keys .sessionArea)] := rfl
  have hlast (total : Nat) : EndsVisibly (totalText total (.arguments (.keys .sessionArea))) :=
    (endsVisibly_toString total).append "sessionStorage keys: "
  rw [headerLine, hlists, List.map_append, List.map_singleton]
  exact ((hlast _).intercalate " | ").append _

theorem endsVisibly_of_mem_rankingLines {top : List (String × Nat)} (h : line ∈ rankingLines top) :
    EndsVisibly line := by
  have hparen (s : String) : EndsVisibly (s ++ ")") := EndsVisibly.append ⟨')', rfl, rfl⟩ s
  rw [rankingLines] at h
  split at h
  · cases h
  · next hne =>
    obtain ⟨before, e, rfl⟩ := (List.eq_nil_or_concat' top).resolve_left hne
    cases List.mem_singleton.1 h
    rw [rankedText, List.map_append]
    exact ((hparen _).intercalate " ").append "top: "

theorem endsVisibly_getLast?_sectionLines {label : String} {l : NameList}
    (hfits : l.isTruncated = true) (h : (sectionLines label l).getLast? = some line) :
    EndsVisibly line := by
  rw [sectionLines, hfits, if_pos rfl] at h
  split at h
  · cases h
  · rw [← List.cons_append, List.getLast?_concat, Option.some.injEq] at h
    rw [← h]
    exact EndsVisibly.append (t := " more not shown)") ⟨')', rfl, rfl⟩ _

/-- The last line of a report is that of an item or ends visibly. -/
theorem endsWithItem_or_endsVisibly (h : (reportLines file index).getLast? = some line) :
    (∃ name, EndsWithItem index name ∧ line = itemLine name) ∨ EndsVisibly line := by
  rw [reportLines, List.getLast?_cons, List.getLast?_append, List.getLast?_flatMap] at h
  cases hsections : shownLists.reverse.findSome? fun l =>
      (sectionLines (listLabel l) (l.ofIndex index)).getLast? with
  | some line' =>
      obtain rfl : line' = line := by rw [hsections] at h; exact Option.some.inj h
      obtain ⟨after, l, before, hlists, hline, hafter⟩ := List.findSome?_eq_some_iff.1 hsections
      cases hfits : (l.ofIndex index).isTruncated with
      | true => exact .inr (endsVisibly_getLast?_sectionLines hfits hline)
      | false =>
          rw [getLast?_sectionLines_of_fits hfits, Option.map_eq_some_iff] at hline
          obtain ⟨name, hback, rfl⟩ := hline
          refine .inl ⟨name, ⟨before.reverse, l, after.reverse, ?_, fun k hk => ?_, hfits, hback⟩,
            rfl⟩
          · rw [← List.reverse_reverse shownLists, hlists]
            simp
          · exact sectionLines_eq_nil_iff.1
              (List.getLast?_eq_none_iff.1 (hafter k (List.mem_reverse.1 hk)))
  | none =>
      rw [hsections, Option.none_or, Option.some.injEq] at h
      cases hranking : (rankingLines index.top).getLast? with
      | some line' =>
          rw [hranking] at h
          exact .inr (h ▸ endsVisibly_of_mem_rankingLines (List.mem_of_getLast? hranking))
      | none =>
          rw [hranking] at h
          exact .inr (h ▸ endsVisibly_headerLine file index)

/-! ### The lines of the text -/

theorem not_allBlank_itemLine (name : String) : allBlank (itemLine name).toList = false := by
  have hdash : '-' ∈ (itemLine name).toList := by
    rw [itemLine, String.toList_append]
    exact List.mem_append_left _ (by decide)
  exact List.all_eq_false.2 ⟨'-', hdash, by decide⟩

theorem endsVisibly_itemLine : EndsVisibly (itemLine name) ↔ EndsVisibly name := by
  refine ⟨?_, fun h => h.append _⟩
  rintro ⟨c, hc, hblank⟩
  rw [itemLine, String.toList_append, List.getLast?_append] at hc
  cases hname : name.toList.getLast? with
  | some d =>
      rw [hname, Option.some_or] at hc
      exact ⟨c, hname.trans hc, hblank⟩
  | none =>
      -- Behind the dash there is a blank.
      rw [hname, Option.none_or] at hc
      cases hc
      cases hblank

/-- The lines of the text are those of the report, but for the last one, which is trimmed. -/
theorem exists_linesOf_text (hone : ∀ line ∈ reportLines file index, OneLine line) :
    ∃ before last, reportLines file index = before ++ [last] ∧
      linesOf (OfIndex.text ⟨file, index⟩) = before ++ [trimmedEnd last] ∧
      (trimmedEnd last = last ↔ ∀ name, EndsWithItem index name → EndsVisibly name) := by
  obtain ⟨before, last, hlines⟩ := (List.eq_nil_or_concat' (reportLines file index)).resolve_left
    (List.cons_ne_nil _ _)
  have hlast : (reportLines file index).getLast? = some last := by
    rw [hlines, List.getLast?_concat]
  have hcases := endsWithItem_or_endsVisibly hlast
  have hvisible : allBlank last.toList = false := by
    rcases hcases with ⟨name, -, rfl⟩ | hends
    · exact not_allBlank_itemLine name
    · exact hends.not_allBlank
  refine ⟨before, last, hlines, ?_, ?_⟩
  · rw [OfIndex.text, indexLines_eq, hlines]
    exact linesOf_trimEnd (fun line hline => hone line (hlines ▸ hline)) hvisible
  · rw [trimmedEnd_eq_self_iff hvisible]
    constructor
    · intro hends name hname
      rw [getLast?_of_endsWithItem hname, Option.some.injEq] at hlast
      exact endsVisibly_itemLine.1 (hlast ▸ hends)
    · intro hnames
      rcases hcases with ⟨name, hname, rfl⟩ | hends
      · exact endsVisibly_itemLine.2 (hnames name hname)
      · exact hends

theorem linesOf_text_eq_iff (hone : ∀ line ∈ reportLines file index, OneLine line) :
    linesOf (OfIndex.text ⟨file, index⟩) = reportLines file index ↔
      ∀ name, EndsWithItem index name → EndsVisibly name := by
  obtain ⟨before, last, hlines, htext, hiff⟩ := exists_linesOf_text hone
  rw [htext, hlines, List.append_cancel_left_eq, List.cons.injEq, and_iff_left rfl, hiff]

/-- The report on the index of a text has as lines, if neither the file nor a name of the index has
a newline, its header, the most frequent identifiers and, for each list that is not empty, its
label, its items and how many do not fit, but the last of them all without the blanks at its end.
So the lines are exactly these just if the report does not end in an item that ends in a blank. -/
theorem lines_of_index (hfile : OneLine file)
    (hnames : ∀ l : IndexList, ∀ name ∈ (l.indexed text).items, OneLine name) :
    (∃ before last, reportLines file (.ofSource (.ofString text)) = before ++ [last] ∧
        linesOf (OfIndex.text ⟨file, .ofSource (.ofString text)⟩) = before ++ [trimmedEnd last]) ∧
      (linesOf (OfIndex.text ⟨file, .ofSource (.ofString text)⟩) =
          reportLines file (.ofSource (.ofString text)) ↔
        ∀ name, EndsWithItem (.ofSource (.ofString text)) name → EndsVisibly name) := by
  have hone := oneLine_of_mem_reportLines_ofSource hfile hnames
  obtain ⟨before, last, hlines, htext, -⟩ := exists_linesOf_text hone
  exact ⟨⟨before, last, hlines, htext⟩, linesOf_text_eq_iff hone⟩

/-- A name with a blank inside, and a visible end. -/
theorem lines_of_index_inner_blank :
    (OneLine "a.js" ∧ ∀ l : IndexList,
      ∀ name ∈ (l.indexed "getElementById('a b')+sessionStorage.getItem('k')").items,
        OneLine name) ∧
      linesOf (OfIndex.text ⟨"a.js",
          .ofSource (.ofString "getElementById('a b')+sessionStorage.getItem('k')")⟩) =
        reportLines "a.js"
          (.ofSource (.ofString "getElementById('a b')+sessionStorage.getItem('k')")) := by
  have hfound : ∀ l ∈ shownLists, ∀ name ∈
      l.found (.ofString "getElementById('a b')+sessionStorage.getItem('k')"),
        OneLine name ∧ EndsVisibly name := by decide +kernel
  have hitems (l : IndexList) (name : String)
      (h : name ∈ (l.indexed "getElementById('a b')+sessionStorage.getItem('k')").items) :
      OneLine name ∧ EndsVisibly name :=
    hfound l (mem_shownLists l) name ((l.keepsFirst _).subset name h)
  have hnames (l : IndexList) (name : String)
      (h : name ∈ (l.indexed "getElementById('a b')+sessionStorage.getItem('k')").items) :
      OneLine name := (hitems l name h).1
  refine ⟨⟨by decide, hnames⟩, (lines_of_index (by decide) hnames).2.2 fun name h => ?_⟩
  obtain ⟨_, l, _, -, -, -, hback⟩ := h
  exact (hitems l name (Array.mem_of_back? hback)).2

/-- A key that ends in a blank loses it at the end of the report. -/
theorem linesOf_text_final_blank :
    OneLine "a.js" ∧ (∀ l : IndexList, ∀ name ∈ (l.indexed "sessionStorage.getItem('k ')").items,
        OneLine name) ∧
      linesOf (OfIndex.text ⟨"a.js", .ofSource (.ofString "sessionStorage.getItem('k ')")⟩) ≠
        reportLines "a.js" (.ofSource (.ofString "sessionStorage.getItem('k ')")) := by
  have hfound : ∀ l ∈ shownLists, ∀ name ∈ l.found (.ofString "sessionStorage.getItem('k ')"),
      OneLine name := by decide +kernel
  have hnames (l : IndexList) (name : String)
      (h : name ∈ (l.indexed "sessionStorage.getItem('k ')").items) : OneLine name :=
    hfound l (mem_shownLists l) name ((l.keepsFirst _).subset name h)
  have hkeys : (IndexList.arguments (.keys .sessionArea)).ofIndex
      (.ofSource (.ofString "sessionStorage.getItem('k ')")) = ⟨1, #["k "]⟩ := by
    have hkeys : storageKeys (.ofString "sessionStorage.getItem('k ')") .sessionArea = ["k "] := by
      decide +kernel
    change NameList.ofNames (storageKeys _ _) 2000 = _
    rw [hkeys, NameList.ofNames, distinct, tally, List.mergeSort_singleton]
    rfl
  have hends : EndsWithItem (.ofSource (.ofString "sessionStorage.getItem('k ')")) "k " :=
    ⟨shownLists.dropLast, .arguments (.keys .sessionArea), [], rfl,
      fun _ hk => absurd hk List.not_mem_nil, by rw [hkeys]; rfl, by rw [hkeys]; rfl⟩
  have hone := oneLine_of_mem_reportLines_ofSource (show OneLine "a.js" by decide) hnames
  refine ⟨by decide, hnames, fun heq => ?_⟩
  exact absurd ((linesOf_text_eq_iff hone).1 heq "k " hends) (by decide)

end Report

end CodeParts
