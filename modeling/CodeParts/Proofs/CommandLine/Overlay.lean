import CodeParts.CommandLine.Run
import CodeParts.Proofs.CommandLine.ValueFlag

/-!
# Flags and the fields of a file

A value that a flag lays over the settings of a file has the same effect as the field of that
file that holds it: both ways the same settings reach the check, and the run after it. A preset
next to a file has no effect (`ReadsAlike.ofWords_eq`).
-/

namespace CodeParts.CommandLine

variable {words : List String} {flags : List ValueFlag} {inv : Invocation}
  {path path' : String}

/-! ### Settings -/

section Settings

open Settings

variable {bytes bytes' : ByteArray} {fields fields' : List (String × Json)} {settings : Settings}

/-- A file that differs in the fields that hold the values of flags gives the settings over which
these values are laid. -/
theorem ofBytes_flags (hfile : HoldsObject bytes fields) (hok : ofBytes bytes = .ok settings)
    (hfile' : HoldsObject bytes' fields')
    (hsame : ∀ key, Json.lookup fields' key =
      Json.lookup (fields ++ flags.map ValueFlag.entry) key) :
    ofBytes bytes' = .ok ((({} : Overrides).putAll flags).apply settings) := by
  obtain ⟨hknown, hoverlays⟩ := hfile.ofBytes_eq_ok_iff.1 hok
  have hlook : Json.lookup fields' = Json.lookup (fields ++ flags.map ValueFlag.entry) :=
    funext hsame
  refine hfile'.ofBytes_eq_ok_iff.2 ⟨fun key hkey => ?_, ?_⟩
  · have hmem : key ∈ (fields ++ flags.map ValueFlag.entry).map Prod.fst := by
      by_contra hnot
      rw [← Json.lookup_eq_none_iff, ← hsame, Json.lookup_eq_none_iff] at hnot
      exact hnot hkey
    rw [List.map_append, List.mem_append, List.map_map] at hmem
    obtain hmem | hmem := hmem
    · exact hknown key hmem
    · obtain ⟨f, -, rfl⟩ := List.mem_map.1 hmem
      exact mem_fieldKeys_entry f
  · rw [hlook]
    exact overlays_putAll (o := {}) hoverlays

end Settings

/-! ### Command lines -/

/-- The name of a command. -/
def Command.verb : Command → Verb
  | .split _ => .split
  | .extract _ _ => .extract
  | .search _ => .grep
  | .index => .scope

/-- Flags that can be given to what a command line asks for: options of its command, each at most
once and none that it has. -/
structure Fits (flags : List ValueFlag) (inv : Invocation) : Prop where
  verb : ∀ f ∈ flags, f.verb = inv.command.verb
  free : ∀ f ∈ flags, inv.overrides.has f.option = false
  distinct : (flags.map ValueFlag.option).Nodup

namespace Invocation

/-- The same with the values of flags. -/
def withFlags (inv : Invocation) (flags : List ValueFlag) : Invocation :=
  { inv with overrides := inv.overrides.putAll flags }

/-- The same with settings from another file. -/
def withFile (inv : Invocation) (path : String) : Invocation := { inv with base := .file path }

theorem verb_of_command? {verb : Verb} {g : Given} {command : Command}
    (h : command? verb g = some command) : command.verb = verb := by
  cases verb <;> simp [command?] at h
  · exact h ▸ rfl
  · obtain ⟨_, _, rfl⟩ := h
    rfl
  · obtain ⟨_, _, rfl⟩ := h
    rfl
  · exact h ▸ rfl

/-- Flags at the end of a command line add their values to what it asks for. -/
theorem ofWords_flags (h : ofWords words = .ok inv) (hsep : "--" ∉ words) (hfits : Fits flags inv) :
    ofWords (words ++ flags.flatMap ValueFlag.words) = .ok (inv.withFlags flags) := by
  obtain ⟨before, verb, after, file, command, hreads, hfile, hcommand, rfl⟩ :=
    ofWords_eq_ok_iff.1 h
  have hverb : ∀ f ∈ flags, f.verb = verb := fun f hf =>
    (hfits.verb f hf).trans (verb_of_command? hcommand)
  have hmore := ValueFlag.readOptions_flags hverb hfits.free hfits.distinct
  refine ofWords_eq_ok_iff.2 ⟨before, verb, _, file, command, hreads.append hsep hmore, hfile, ?_,
    rfl⟩
  rw [← hcommand]
  cases verb <;> rfl

theorem isOperand_of_preset {v : String} {p : Preset} (hv : Preset.ofName? v = some p) :
    (Word.ofString v).isOperand = true := by
  unfold Preset.ofName? at hv
  split_ifs at hv with h₁ h₂ h₃
  · exact h₁ ▸ by decide
  · exact h₂ ▸ by decide
  · exact h₃ ▸ by decide

theorem readOptions_preset_word (verb : Verb) {g : Given} {v : String} {p : Preset}
    (hv : Preset.ofName? v = some p) (hfree : g.preset = none) :
    readOptions verb.specs g ["--preset", v] = .ok ({ g with preset := some p }, []) := by
  have hword : Word.ofString "--preset" = .long "preset" none := by decide
  have haction : actionOfName? verb.specs "preset" = some (.set .preset) := by
    cases verb <;> decide
  simp [readOptions, readOption?, hword, readLong, haction, isOperand_of_preset hv, Given.set, hv,
    hfree, once, Except.map]

/-- Other words are read as these are, but for presets. -/
def ReadsAlike (words words' : List String) : Prop :=
  ∃ before verb after file p q, Reads words before verb after file ∧
    Reads words' { before with preset := p } verb { after with preset := q } file

/-- Presets have no effect on where settings come from if a file is named. -/
theorem baseOf_preset {before after : Given} (h : baseOf before after = .file path)
    (p q : Option Preset) :
    baseOf { before with preset := p } { after with preset := q } = .file path := by
  unfold baseOf at h ⊢
  cases hconfig : after.config.or before.config with
  | some path =>
      rw [hconfig] at h
      exact h
  | none =>
      rw [hconfig] at h
      cases hpreset : after.preset.or before.preset <;> simp [hpreset] at h

/-- Presets have no effect on what a command line asks for that names a file. -/
theorem ReadsAlike.ofWords_eq {words' : List String} (halike : ReadsAlike words words')
    (h : ofWords words = .ok inv) (hbase : inv.base = .file path) :
    ofWords words' = .ok inv := by
  obtain ⟨before, verb, after, file, p, q, hreads, hreads'⟩ := halike
  obtain ⟨before₁, verb₁, after₁, file₁, command, hreads₁, hfile, hcommand, rfl⟩ :=
    ofWords_eq_ok_iff.1 h
  obtain ⟨rfl, rfl, rfl, rfl⟩ := hreads.unique hreads₁
  refine ofWords_eq_ok_iff.2 ⟨_, verb, _, file, command, hreads', hfile, ?_, ?_⟩
  · rw [← hcommand]
    cases verb <;> rfl
  · simp only [assemble] at hbase
    simp only [assemble, baseOf_preset hbase]

/-- A preset at the end of words that have none is read beside all that they give. -/
theorem readsAlike_append_preset {v : String} {p : Preset} (h : ofWords words = .ok inv)
    (hv : Preset.ofName? v = some p) (hsep : "--" ∉ words)
    (hwords : ∀ w ∈ words, ∀ value, Word.ofString w ≠ .long "preset" value) :
    ReadsAlike words (words ++ ["--preset", v]) := by
  obtain ⟨before, verb, after, file, command, hreads, -⟩ := ofWords_eq_ok_iff.1 h
  have hmore := readOptions_preset_word verb hv (hreads.preset_eq_none hsep hwords)
  exact ⟨before, verb, after, file, before.preset, some p, hreads, hreads.append hsep hmore⟩

/-! ### Runs -/

theorem runCommand_withFlags (path' : String) (base base' : Settings) (r r' : Readings)
    (hsettings : (inv.withFlags flags).overrides.apply base = inv.overrides.apply base')
    (hsource : r.source = r'.source) :
    (inv.withFlags flags).runCommand base r = (inv.withFile path').runCommand base' r' := by
  have hsession : (inv.withFlags flags).session base = (inv.withFile path').session base' := by
    simp only [session, hsettings, withFile]
    rfl
  have htext : (inv.withFlags flags).source r = (inv.withFile path').source r' := by
    simp only [source, hsource]
    rfl
  simp only [runCommand, hsession, htext]
  rfl

theorem run_file (inv : Invocation) {bytes : ByteArray} {settings : Settings} {r : Readings}
    (hbase : inv.base = .file path) (hread : r.settings = .ok bytes)
    (hok : Settings.ofBytes bytes = .ok settings) :
    inv.run r = inv.outcome inv.baseRecords (inv.runCommand settings r) := by
  have hbaseSettings : inv.baseSettings r = .ok settings := by
    simp only [baseSettings, hbase, hread, hok]
    rfl
  simp only [run, hbaseSettings]

/-- The file of the settings is named in the log only where debugging messages are shown. -/
theorem logText_baseRecords (h : inv.verbose = false) (records : List Record) :
    logText inv.threshold (inv.baseRecords ++ records) = logText inv.threshold records := by
  have hthreshold : ¬ inv.threshold.rank ≤ Level.debug.rank := by
    simp only [threshold, h]
    split <;> simp [Level.rank]
  have hnone : inv.baseRecords.filter (fun r => inv.threshold.rank ≤ r.level.rank) = [] := by
    unfold baseRecords
    split
    · simp [hthreshold]
    · rfl
  simp only [logText, List.filter_append, hnone, List.nil_append]

theorem outcome_log (inv : Invocation) (h : inv.verbose = false) (result : Except Failure Logged) :
    (inv.outcome inv.baseRecords result).log = (inv.outcome [] result).log := by
  cases result with
  | ok logged => exact logText_baseRecords h logged.records
  | error e =>
      have hempty := logText_baseRecords h []
      rw [List.append_nil] at hempty
      simp only [outcome, hempty]

/-- If flags over one file and another file by itself give the same settings, and the same source
is read, then the runs are the same but for the record that names the file. -/
theorem run_withFlags {bytes bytes' : ByteArray} {settings settings' : Settings} {r r' : Readings}
    (hbase : inv.base = .file path) (hread : r.settings = .ok bytes)
    (hread' : r'.settings = .ok bytes') (hsource : r.source = r'.source)
    (hok : Settings.ofBytes bytes = .ok settings) (hok' : Settings.ofBytes bytes' = .ok settings')
    (hsettings : (inv.withFlags flags).overrides.apply settings =
      inv.overrides.apply settings') :
    ((inv.withFlags flags).run r).code = ((inv.withFile path').run r').code ∧
      ((inv.withFlags flags).run r).output = ((inv.withFile path').run r').output ∧
      (inv.verbose = false →
        ((inv.withFlags flags).run r).log = ((inv.withFile path').run r').log) := by
  have hrun : (inv.withFlags flags).run r =
      inv.outcome inv.baseRecords ((inv.withFlags flags).runCommand settings r) :=
    (inv.withFlags flags).run_file hbase hread hok
  have hrun' : (inv.withFile path').run r' =
      (inv.withFile path').outcome (inv.withFile path').baseRecords
        ((inv.withFlags flags).runCommand settings r) := by
    rw [runCommand_withFlags path' settings settings' r r' hsettings hsource]
    exact (inv.withFile path').run_file rfl hread' hok'
  rw [hrun, hrun']
  -- Both runs lay the same result out; only the record of the file tells them apart.
  generalize (inv.withFlags flags).runCommand settings r = result
  refine ⟨by cases result <;> rfl, by cases result <;> rfl, fun hverbose => ?_⟩
  rw [inv.outcome_log hverbose, (inv.withFile path').outcome_log hverbose]
  rfl

end Invocation

/-! ### Both ways -/

/-- Values for fields of a file of settings have the same effect as flags and in the file: the run
has the same exit code, the same output, and the same log unless debugging messages are asked for.
Where a file is named, a preset beside it has no effect at all. -/
theorem runIn_flags_eq {words' : List String} {s s' : FileSet}
    {input input' bytes bytes' : ByteArray} {source : Except FileError ByteArray}
    {fields fields' : List (String × Json)} {settings : Settings}
    (hwords : Invocation.ofWords words = .ok inv) (hsep : "--" ∉ words)
    (hbase : inv.base = .file path)
    (hwords' : Invocation.ofWords words' = .ok (inv.withFile path'))
    (hread : s.readings input inv = ⟨.ok bytes, source⟩)
    (hread' : s'.readings input' (inv.withFile path') = ⟨.ok bytes', source⟩)
    (hfile : Settings.HoldsObject bytes fields) (hok : Settings.ofBytes bytes = .ok settings)
    (hfile' : Settings.HoldsObject bytes' fields')
    (hsame : ∀ key, Json.lookup fields' key =
      Json.lookup (fields ++ flags.map ValueFlag.entry) key)
    (hfits : Fits flags inv) :
    Invocation.ofWords (words ++ flags.flatMap ValueFlag.words) = .ok (inv.withFlags flags) ∧
      (∀ flagged, Invocation.ofWords flagged = .ok (inv.withFlags flags) →
        (runIn s input flagged).code = (runIn s' input' words').code ∧
        (runIn s input flagged).output = (runIn s' input' words').output ∧
        (inv.verbose = false →
          (runIn s input flagged).log = (runIn s' input' words').log)) ∧
      ∀ ws inv₀ path₀, Invocation.ofWords ws = .ok inv₀ → inv₀.base = .file path₀ →
        (∀ ws', Invocation.ReadsAlike ws ws' → runIn s input ws' = runIn s input ws) ∧
        ∀ v p, Preset.ofName? v = some p → "--" ∉ ws →
          (∀ w ∈ ws, ∀ value, Word.ofString w ≠ .long "preset" value) →
          Invocation.ReadsAlike ws (ws ++ ["--preset", v]) := by
  refine ⟨Invocation.ofWords_flags hwords hsep hfits, fun flagged hflagged => ?_,
    fun ws inv₀ path₀ hws hbase₀ => ⟨fun ws' halike => ?_, fun v p hv hsep' hfree => ?_⟩⟩
  · have hok' := ofBytes_flags hfile hok hfile' hsame
    -- What the flags put over the settings of one file, the other has put under them.
    have hsettings := Overrides.apply_putAll (s := settings) hfits.free hfits.distinct
    have hsource : (s.readings input inv).source =
        (s'.readings input' (inv.withFile path')).source := by
      rw [hread, hread']
    simp only [runIn, hflagged, hwords']
    exact Invocation.run_withFlags hbase (congrArg Readings.settings hread)
      (congrArg Readings.settings hread') hsource hok hok' hsettings
  · simp only [runIn, hws, halike.ofWords_eq hws hbase₀]
  · exact Invocation.readsAlike_append_preset hws hv hsep' hfree

/-! The file of a one-letter name is found, and a dash is the standard input; what splits a path
is followed by hand here, as it does not evaluate. -/

theorem find_letter (content : ByteArray) :
    (FileSet.mk [("c", content)]).find "c" = .ok (.bytes content) := by
  have hsplit : "c".splitOn "/" = ["c"] := by
    rw [String.splitOn, if_neg (by decide), String.splitOnAux, if_neg (by decide),
      if_neg (by decide), String.splitOnAux, if_pos (by decide)]
    decide +kernel
  have hcomponents : Path.components "c" = ["c"] := by
    rw [Path.components, hsplit]
    decide
  have hpath : ¬ FileSet.maxPathBytes < "c".utf8ByteSize := by decide
  have hname : ¬ FileSet.maxNameBytes < "c".utf8ByteSize := by decide
  simp [FileSet.find, FileSet.resolve, hsplit, FileSet.step, FileSet.child, FileSet.entry,
    FileSet.entries, hcomponents, hpath, hname]

theorem isInput_dash : isInput "-" = true := by
  have hsplit : "-".splitOn "/" = ["-"] := by
    rw [String.splitOn, if_neg (by decide), String.splitOnAux, if_neg (by decide),
      if_neg (by decide), String.splitOnAux, if_pos (by decide)]
    decide +kernel
  rw [isInput, Path.components, hsplit]
  simp

/-- Two flags after a file that sets a third field. -/
theorem runIn_flags_eq_two :
    let s := FileSet.mk [("c", "\x7b\"max_lines\": 2\x7d".toUTF8)]
    let s' := FileSet.mk
      [("c", "\x7b\"max_lines\": 2, \"max_chars\": 3, \"strategy\": \"hybrid\"\x7d".toUTF8)]
    let words := ["split", "-", "--config", "c"]
    let flagged := words ++ ["--max-chars", "3", "--strategy", "hybrid"]
    let input := "let a = 1;\n".toUTF8
    (runIn s input flagged).code = (runIn s' input words).code ∧
      (runIn s input flagged).output = (runIn s' input words).output ∧
      (runIn s input flagged).log = (runIn s' input words).log := by
  intro s s' words flagged input
  let inv : Invocation := ⟨false, false, false, .file "c", {}, "-", .split false⟩
  have hwords : Invocation.ofWords words = .ok inv := by rfl
  have hread (content : ByteArray) :
      (FileSet.mk [("c", content)]).readings input inv = ⟨.ok content, .ok input⟩ := by
    simp [FileSet.readings, inv, FileSet.take, find_letter, isInput_dash]
  have hfile := Settings.holdsObject_toUTF8 "\x7b\"max_lines\": 2\x7d"
    [("max_lines", Json.ofNat 2)] rfl
  have hfile' := Settings.holdsObject_toUTF8
    "\x7b\"max_lines\": 2, \"max_chars\": 3, \"strategy\": \"hybrid\"\x7d"
    [("max_lines", Json.ofNat 2), ("max_chars", Json.ofNat 3), ("strategy", .string "hybrid")] rfl
  have hok : Settings.ofBytes "\x7b\"max_lines\": 2\x7d".toUTF8 = .ok { maxLines := 2 } :=
    hfile.ofBytes_eq_ok_iff.2 ⟨by simp [Settings.fieldKeys],
      by simp [Settings.overlays_iff, Json.lookup, Settings.natural, Json.ofNat]⟩
  have hfits : Fits [.maxChars 3, .strategy .hybrid] inv :=
    ⟨by simp [inv, ValueFlag.verb, Command.verb], by simp [inv, Overrides.has, ValueFlag.option],
      by decide⟩
  have hwords' : Invocation.ofWords words = .ok (inv.withFile "c") := hwords
  obtain ⟨hflagged, hrun, -⟩ := runIn_flags_eq hwords (by decide) rfl hwords'
    (hread _) (hread _) hfile hok hfile' (fun _ => rfl) hfits
  obtain ⟨hcode, houtput, hlog⟩ := hrun flagged hflagged
  exact ⟨hcode, houtput, hlog rfl⟩

end CodeParts.CommandLine
