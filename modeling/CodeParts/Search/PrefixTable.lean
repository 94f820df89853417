/-!
# How far a text agrees with its own beginning

The entry of a prefix table at index `i` is the number of characters from `i` on that
repeat the beginning of the text. Where a literal is put in front of a text, the entries
tell at which offsets of the text the literal stands.

`build` makes the table in a number of comparisons proportional to the length. It keeps
the stretch `[start, stop)` with the greatest end that is known to repeat the beginning:
inside it an entry found earlier can be taken over, and only past its end are characters
compared. `build_spec` says that every entry is the exact number.
-/

namespace CodeParts.PrefixTable

/-- The number of characters in which `xs` agrees from `j` on and from `i` on, added to
`j`. -/
def extend (xs : Array Char) (j i : Nat) : Nat :=
  if h : i < xs.size ∧ j < i then
    if xs[j] == xs[i] then extend xs (j + 1) (i + 1) else j
  else j
termination_by xs.size - i

/-- The table from index `i` on, after the entries already found. -/
def buildFrom (xs : Array Char) (start stop : Nat) (entries : Array Nat) (i : Nat) : Array Nat :=
  if i < xs.size then
    let known := min (entries[i - start]?.getD 0) (stop - i)
    if known < stop - i then buildFrom xs start stop (entries.push known) (i + 1)
    else
      let length := extend xs known (i + known)
      buildFrom xs i (i + length) (entries.push length) (i + 1)
  else entries
termination_by xs.size - i

/-- The prefix table of a text; the whole text repeats itself at index zero. -/
def build (xs : Array Char) : Array Nat := buildFrom xs 0 0 #[xs.size] 1

/-! ### What the entries say -/

/-- The character at `k` past `i` is the character at `k`. -/
def Repeats (xs : Array Char) (i k : Nat) : Prop := i + k < xs.size ∧ xs[i + k]? = xs[k]?

/-- Exactly `n` characters from `i` on repeat the beginning. -/
def IsEntry (xs : Array Char) (i n : Nat) : Prop :=
  (∀ k, k < n → Repeats xs i k) ∧ ¬Repeats xs i n

/-- All indices below a bound have their entry. -/
def Complete (xs : Array Char) (entries : Array Nat) (bound : Nat) : Prop :=
  ∀ j, j < bound → ∃ n, entries[j]? = some n ∧ IsEntry xs j n

variable {xs : Array Char} {entries : Array Nat} {start stop i j n : Nat}

theorem isEntry_extend (hi : 0 < i) (hj : j = i + n) (h : ∀ k, k < n → Repeats xs i k) :
    IsEntry xs i (extend xs n j) := by
  fun_induction extend xs n j with
  | case1 n j hlt heq ih =>
      subst hj
      refine ih rfl fun k hk => ?_
      rcases Nat.lt_succ_iff_lt_or_eq.1 hk with hk | rfl
      · exact h k hk
      · have hk' := beq_iff_eq.1 heq
        refine ⟨hlt.1, ?_⟩
        rw [Array.getElem?_eq_getElem hlt.1, Array.getElem?_eq_getElem (by omega), hk']
  | case2 n j hlt hne =>
      subst hj
      refine ⟨h, fun hn => hne ?_⟩
      have := hn.2
      rw [Array.getElem?_eq_getElem hlt.1, Array.getElem?_eq_getElem (by omega)] at this
      exact beq_iff_eq.2 (Option.some.inj this).symm
  | case3 n j hge =>
      subst hj
      exact ⟨h, fun hn => hge ⟨hn.1, by omega⟩⟩

/-- Inside a stretch that repeats the beginning, what is so at an offset is so at the
offset that far from the beginning. -/
theorem repeats_iff_of_stretch (hstart : start ≤ i)
    (hstretch : ∀ k, start + k < stop → Repeats xs start k) {k : Nat} (hk : i + k < stop) :
    Repeats xs i k ↔ Repeats xs (i - start) k := by
  obtain ⟨hlt, heq⟩ := hstretch (i - start + k) (by omega)
  have hadd : start + (i - start + k) = i + k := by omega
  rw [hadd] at hlt heq
  constructor
  · rintro ⟨-, h⟩
    exact ⟨by omega, heq.symm.trans h⟩
  · rintro ⟨-, h⟩
    exact ⟨hlt, heq.trans h⟩

theorem complete_push (hsize : entries.size = i) (hentries : Complete xs entries i)
    (hn : IsEntry xs i n) : Complete xs (entries.push n) (i + 1) := by
  intro j hj
  rcases Nat.lt_succ_iff_lt_or_eq.1 hj with hj | rfl
  · obtain ⟨m, hm, hentry⟩ := hentries j hj
    refine ⟨m, ?_, hentry⟩
    rw [Array.getElem?_push, if_neg (by omega), hm]
  · exact ⟨n, by simp [← hsize], hn⟩

theorem complete_buildFrom (hi : 0 < i) (hsize : entries.size = i)
    (hentries : Complete xs entries i)
    (hstretch : i < stop →
      0 < start ∧ start < i ∧ ∀ k, start + k < stop → Repeats xs start k) :
    Complete xs (buildFrom xs start stop entries i) xs.size := by
  fun_induction buildFrom xs start stop entries i with
  | case1 start stop entries i hlt known hknown ih =>
      refine ih (by omega) (by simp [hsize]) (complete_push hsize hentries ?_) fun h => ?_
      · obtain ⟨hpos, hstart, hrep⟩ := hstretch (by omega)
        obtain ⟨m, hm, hentry⟩ := hentries (i - start) (by omega)
        have hkm : known = m := by
          simp only [known, hm, Option.getD_some] at hknown ⊢
          omega
        rw [hkm] at hknown ⊢
        refine ⟨fun k hk => ?_, fun hn => ?_⟩
        · exact (repeats_iff_of_stretch (by omega) hrep (by omega)).2 (hentry.1 k hk)
        · exact hentry.2 ((repeats_iff_of_stretch (by omega) hrep (by omega)).1 hn)
      · obtain ⟨hpos, hstart, hrep⟩ := hstretch (by omega)
        exact ⟨hpos, by omega, hrep⟩
  | case2 start stop entries i hlt known hknown length ih =>
      have hentry : IsEntry xs i length := by
        refine isEntry_extend hi rfl fun k hk => ?_
        obtain ⟨hpos, hstart, hrep⟩ := hstretch (by omega)
        obtain ⟨m, hm, hentry⟩ := hentries (i - start) (by omega)
        simp only [known, hm, Option.getD_some] at hk
        exact (repeats_iff_of_stretch (by omega) hrep (by omega)).2 (hentry.1 k (by omega))
      refine ih (by omega) (by simp [hsize]) (complete_push hsize hentries hentry) fun h => ?_
      exact ⟨hi, by omega, fun k hk => hentry.1 k (by omega)⟩
  | case3 start stop entries i hge =>
      intro j hj
      exact hentries j (by omega)

theorem size_buildFrom (hsize : entries.size = i) :
    (buildFrom xs start stop entries i).size = max i xs.size := by
  fun_induction buildFrom xs start stop entries i with
  | case1 start stop entries i hlt known hknown ih =>
      rw [ih (by simp [hsize])]
      omega
  | case2 start stop entries i hlt known hknown length ih =>
      rw [ih (by simp [hsize])]
      omega
  | case3 start stop entries i hge => omega

theorem size_build (xs : Array Char) : (build xs).size = max 1 xs.size := size_buildFrom rfl

/-- The table of a text has the entry of each of its indices. -/
theorem build_spec (h : i < xs.size) : ∃ n, (build xs)[i]? = some n ∧ IsEntry xs i n := by
  have hzero : Complete xs #[xs.size] 1 := by
    intro j hj
    obtain rfl : j = 0 := by omega
    exact ⟨xs.size, rfl, fun k hk => ⟨by omega, by simp⟩, fun hn => by have := hn.1; omega⟩
  exact complete_buildFrom Nat.one_pos rfl hzero (fun hlt => absurd hlt (by omega)) i h

end CodeParts.PrefixTable
