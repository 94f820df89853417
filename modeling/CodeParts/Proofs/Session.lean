import CodeParts.Proofs.Grep.Hits
import CodeParts.Proofs.Split.Run
import CodeParts.Session

/-!
# What a session promises

The limits of splitting and of searching are checked when a session starts, all of them and in
one order, and each operation checks its own again. The two agree (`check_of_start`). A session
that starts answers every call, however many came before, as its settings say and without
changing them; and settings for which none starts make one of the operations fail on every
text, for the very reason that is given at the start.
-/

namespace CodeParts

open Split

/-! ### The first reason -/

namespace Settings

variable {s : Settings} {e : SettingsError}

/-- Settings can be used just if texts can be cut by them and some hits are shown. -/
theorem check_eq_ok_iff (s : Settings) :
    s.check = .ok () ↔ s.policy.Valid ∧ 1 ≤ s.maxMatches := by
  rw [← Policy.check_eq_ok_iff, check, Policy.check, policy]
  by_cases hchars : s.maxChars = 0
  · simp [hchars]
  · by_cases hlines : s.maxLines = 0
    · simp [hchars, hlines]
    · by_cases hmatches : s.maxMatches = 0
      · simp [hchars, hlines, hmatches]
      · simp [hchars, hlines, hmatches, Nat.one_le_iff_ne_zero]

/-- The first reason against settings is the first one against cutting texts by them, or that
they show no hits. -/
theorem of_check_eq_error (h : s.check = .error e) :
    s.policy.check = .error e ∨ s.maxMatches = 0 ∧ e = .zeroMaxMatches := by
  rw [check] at h
  rw [Policy.check, policy]
  split at h
  · next hchars => exact .inl (by rw [if_pos hchars]; exact h)
  · next hchars =>
    rw [if_neg hchars]
    split at h
    · next hlines => exact .inl (by rw [if_pos hlines]; exact h)
    · next hlines =>
      rw [if_neg hlines]
      split at h
      · next hmatches =>
        cases h
        exact .inr ⟨hmatches, rfl⟩
      · exact .inl h

/-- All presets can be used. -/
theorem check_preset (p : Preset) : p.settings.check = .ok () := by
  rw [check_eq_ok_iff]
  cases p <;> exact ⟨⟨by decide, by decide, by decide, by decide⟩, by decide⟩

end Settings

/-! ### Calls -/

/-- What a session can be asked for. -/
inductive Call where
  /-- The settings in use. -/
  | settings
  | split (text : String)
  | search (text needle : String)

/-- What a session answers. -/
inductive Answer where
  | settings (settings : Settings)
  | parts (parts : List Part)
  | hits (result : Grep.Result)

/-- The answer belongs to the call if the operation itself, with these settings, gives it. -/
inductive Answer.Fits (settings : Settings) : Call → Answer → Prop
  | settings : Fits settings .settings (.settings settings)
  | parts {text : String} {ps : List Part} : Split.split text settings.policy = .ok ps →
      Fits settings (.split text) (.parts ps)
  | hits {text needle : String} {r : Grep.Result} :
      Grep.search text needle settings.scope = .ok r →
      Fits settings (.search text needle) (.hits r)

namespace Session

/-- One call: its answer, and the session for the calls behind it. -/
def call (s : Session) : Call → Except SettingsError (Answer × Session)
  | .settings => .ok (.settings s.settings, s)
  | .split text => do return (.parts (← s.split text), s)
  | .search text needle => do return (.hits (← s.search text needle), s)

/-- Several calls, one after the other, up to the first one that fails. -/
def run (s : Session) : List Call → Except SettingsError (List Answer × Session)
  | [] => .ok ([], s)
  | c :: cs => do
      let (answer, s) ← s.call c
      let (answers, s) ← s.run cs
      return (answer :: answers, s)

theorem start_eq_ok_iff {settings : Settings} {s : Session} :
    start settings = .ok s ↔ s.settings = settings ∧ settings.check = .ok () := by
  unfold start
  split
  · next h =>
    rw [Except.ok.injEq]
    constructor
    · rintro rfl
      exact ⟨rfl, h⟩
    · rintro ⟨rfl, -⟩
      rfl
  · next e h => simp [h]

theorem start_eq_error_iff {settings : Settings} {e : SettingsError} :
    start settings = .error e ↔ settings.check = .error e := by
  unfold start
  split
  · next h => simp [h]
  · next e' h => rw [h, Except.error.injEq, Except.error.injEq]

/-- A session shows some hits of every search. -/
theorem maxMatches_pos (s : Session) : 0 < s.settings.scope.maxMatches :=
  ((Settings.check_eq_ok_iff s.settings).1 s.check_eq).2

/-- A call is answered, and leaves the session as it was. -/
theorem exists_call_eq_ok (s : Session) (c : Call) :
    ∃ answer, s.call c = .ok (answer, s) ∧ answer.Fits s.settings c := by
  cases c with
  | settings => exact ⟨_, rfl, .settings⟩
  | split text =>
      have hsplit := s.split_eq text
      exact ⟨_, by rw [call, hsplit]; rfl, .parts hsplit⟩
  | search text needle =>
      have hsearch : Grep.search text needle s.settings.scope = _ :=
        Grep.search_of_pos s.maxMatches_pos
      exact ⟨_, by rw [call, search, hsearch]; rfl, .hits hsearch⟩

/-- So is every call of a run, whatever calls came before it. -/
theorem exists_run_eq_ok (s : Session) (calls : List Call) :
    ∃ answers, s.run calls = .ok (answers, s) ∧
      List.Forall₂ (fun c answer => answer.Fits s.settings c) calls answers := by
  induction calls with
  | nil => exact ⟨[], rfl, .nil⟩
  | cons c cs ih =>
      obtain ⟨answer, hcall, hfits⟩ := s.exists_call_eq_ok c
      obtain ⟨answers, hrun, hrest⟩ := ih
      refine ⟨answer :: answers, ?_, .cons hfits hrest⟩
      rw [run, hcall]
      show (do
        let (answers, s) ← s.run cs
        return (answer :: answers, s)) = _
      rw [hrun]
      rfl

/-- With settings for which a session starts, every call of every run is answered as the
operation answers it with these settings, and they stay what they are. With settings for which
none starts, no text can be cut by any strategy within their limits or no search of any text
shows anything, and the reason is the one given at the start. -/
theorem check_of_start (settings : Settings) :
    (∀ s, start settings = .ok s →
      s.settings = settings ∧ ∀ calls, ∃ answers, s.run calls = .ok (answers, s) ∧
        List.Forall₂ (fun c answer => answer.Fits settings c) calls answers) ∧
    ∀ e, start settings = .error e →
      (∀ strategy text, Split.split text
        ⟨⟨settings.maxChars, settings.maxLines⟩, strategy, settings.graceRatio⟩ = .error e) ∨
      ∀ contextLines text needle,
        Grep.search text needle ⟨contextLines, settings.maxMatches⟩ = .error e := by
  constructor
  · intro s h
    obtain ⟨rfl, -⟩ := start_eq_ok_iff.1 h
    exact ⟨rfl, s.exists_run_eq_ok⟩
  · intro e h
    rcases Settings.of_check_eq_error (start_eq_error_iff.1 h) with hpolicy | ⟨hmatches, rfl⟩
    · -- The check of a policy does not look at the strategy.
      refine .inl fun strategy text => ?_
      have hcheck : Policy.check
          ⟨⟨settings.maxChars, settings.maxLines⟩, strategy, settings.graceRatio⟩ = .error e :=
        hpolicy
      rw [Split.split, hcheck]
    · refine .inr fun contextLines text needle => ?_
      rw [Grep.search, if_pos hmatches]

/-- Minus zero is a ratio that is not negative, so a session starts and answers all calls; what
is no number is none, and no text is split by it. -/
theorem check_of_start_ratios :
    (∃ s, start { graceRatio := -0.0 } = .ok s ∧
      ∃ answers, s.run [.split "a", .settings, .search "a" ""] = .ok (answers, s) ∧
        answers.length = 3) ∧
    start { graceRatio := 0.0 / 0.0 } = .error (.graceRatio (0.0 / 0.0)) ∧
      (∀ strategy text, Split.split text ⟨⟨60000, 1200⟩, strategy, 0.0 / 0.0⟩ =
        .error (.graceRatio (0.0 / 0.0))) ∧
      SettingsError.message (.graceRatio (0.0 / 0.0)) =
        "Invalid configuration: grace_ratio must be a finite number >= 0 (got NaN)" := by
  have hcheck : Settings.check { graceRatio := -0.0 } = .ok () :=
    (Settings.check_eq_ok_iff _).2 ⟨⟨by decide, by decide, by decide, by decide⟩, by decide⟩
  have hstart : start { graceRatio := -0.0 } = .ok ⟨_, hcheck⟩ := start_eq_ok_iff.2 ⟨rfl, hcheck⟩
  obtain ⟨answers, hrun, hfits⟩ :=
    ((check_of_start { graceRatio := -0.0 }).1 _ hstart).2 [.split "a", .settings, .search "a" ""]
  have hrefused : start { graceRatio := 0.0 / 0.0 } = .error (.graceRatio (0.0 / 0.0)) :=
    start_eq_error_iff.2 rfl
  refine ⟨⟨_, hstart, answers, hrun, hfits.length_eq.symm⟩, hrefused, ?_, by decide +kernel⟩
  rcases (check_of_start { graceRatio := 0.0 / 0.0 }).2 _ hrefused with hsplit | hsearch
  · exact hsplit
  · cases hsearch 0 "" ""

end Session

end CodeParts
