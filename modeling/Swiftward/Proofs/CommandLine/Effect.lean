import Swiftward.Proofs.CommandLine.Write
import Swiftward.Proofs.File.Clash

/-!
# What a run changes

A run changes files only with the option `--write`, and then only the targets of sources that were
selected by its arguments, each of which comes to hold the translation of such a source. Since
targets are no sources, no source ever changes. A run that ends for one of the reasons that are
found before a source is read changes nothing and prints nothing on standard output
(`runProgram_effect`).
-/

namespace Swiftward

/-! ### Changes -/

/-- The location was no directory, is the target of a source of the run, and now holds the
translation of that source. -/
def Options.Translates (options : Options) (d d' : Directory) (place : Location) : Prop :=
  d.find? place ≠ some .directory ∧
    ∃ f ∈ options.sourcesIn d, d.resolve (swiftPath f) = .ok place ∧
      ∃ content, d.textAt f = .ok content ∧
        d'.find? place = some (.file (encodeText (convertText options.dedentWidth content)))

variable {options : Options} {input : Input (StateM Directory)} {d d' : Directory}

/-- Of the files that could be converted, a run writes the first ones. -/
lemma exists_written {format : ReportFormat} {kept : List Text} {outcome : Outcome}
    (hwrite : options.write = true)
    (hrun : (runSources format options kept : StateM Directory Outcome).run d = (outcome, d')) :
    ∃ front, front <+: (partitionResults (kept.map (d.convert options.dedentWidth))).1 ∧
      d.writeAll (front.map ConvertedFile.written) = .ok d' := by
  rw [runSources_of_write hwrite] at hrun
  dsimp only at hrun
  generalize (partitionResults (kept.map (d.convert options.dedentWidth))).1 = files at hrun ⊢
  obtain ⟨after, hresult, hall⟩ | ⟨error, front, file, back, fault, after, rfl, hresult, hall, -⟩ :=
    writeTargets_cases files d
  · rw [hresult] at hrun
    obtain rfl : after = d' := congrArg Prod.snd hrun
    exact ⟨files, List.prefix_rfl, hall⟩
  · rw [hresult] at hrun
    obtain rfl : after = d' := congrArg Prod.snd hrun
    exact ⟨front, List.prefix_append _ _, hall⟩

lemma translates_of_runSources {format : ReportFormat} {kept : List Text} {outcome : Outcome}
    (hwrite : options.write = true) (hkept : ∀ f ∈ kept, f ∈ options.sourcesIn d)
    (hrun : (runSources format options kept : StateM Directory Outcome).run d = (outcome, d'))
    (place : Location) : d'.find? place = d.find? place ∨ options.Translates d d' place := by
  obtain ⟨front, hfront, hall⟩ := exists_written hwrite hrun
  refine (Directory.find?_writeAll hall place).imp_right ?_
  rintro ⟨written, hwritten, hpath, hfound⟩
  obtain ⟨file, hfile, rfl⟩ := List.mem_map.mp hwritten
  obtain ⟨f, hf, hconvert⟩ := List.mem_map.mp (mem_partitionResults (hfront.subset hfile))
  obtain ⟨content, hcontent, rfl⟩ := Directory.eq_of_convert hconvert
  refine ⟨?_, f, hkept f hf, hpath, content, hcontent, hfound⟩
  -- Writes keep the directories, and now there is a file.
  rw [ne_eq, ← (Directory.writeAll_spec hall).1 place, hfound]
  nofun

lemma lookingOnly_runSources (format : ReportFormat) (hwrite : options.write = false)
    (sources : List Text) : LookingOnly (runSources format options sources) := by
  refine (LookingOnly.mapM (LookingOnly.convertFile _) sources).bind fun results => ?_
  dsimp only
  rw [hwrite]
  exact .pure _

lemma lookingOnly_run (hinput : LookingOnly input.read) (hwrite : options.write = false) :
    LookingOnly (run options input) := by
  intro d
  rw [run_stages, hwrite, if_neg Bool.false_ne_true]
  cases ReportFormat.parse? options.output with
  | none => rfl
  | some format =>
    dsimp only
    rw [if_neg Bool.false_ne_true]
    split_ifs
    · rfl
    · exact (hinput.bind fun bytes => .pure _) d
    · rfl
    · exact lookingOnly_runSources format hwrite _ d

/-- A run leaves a location as it was, or has the option `--write` and puts a translation there. -/
lemma translates_of_run (hinput : LookingOnly input.read) (place : Location) :
    ((run options input).run d).2.find? place = d.find? place ∨
      options.write = true ∧ options.Translates d ((run options input).run d).2 place := by
  by_cases hwrite : options.write = true
  · rw [run_of_write hwrite]
    split
    · exact .inl rfl
    · exact .inl rfl
    · next format kept hformat hkept =>
      split_ifs
      · exact .inl rfl
      · exact .inl rfl
      · exact .inl rfl
      · exact (translates_of_runSources hwrite (fun f hf => mem_of_resolveTargets hkept hf)
          rfl place).imp_right fun h => ⟨hwrite, h⟩
  · rw [Bool.not_eq_true] at hwrite
    rw [lookingOnly_run hinput hwrite d]
    exact .inl rfl

/-- No translation is put where a source is. -/
lemma Options.Translates.ne_source {place : Location} (h : options.Translates d d' place)
    (folder : Location) (stem : Text) {ext : String} (hext : ext ∈ sourceExtensions) :
    place ≠ folder ++ [stem ++ '.' :: ext.toList] := by
  obtain ⟨hfree, f, hf, hpath, -⟩ := h
  obtain hdirectory | ⟨folder', stem', rfl⟩ :=
    Directory.resolve_swiftPath (List.mem_filter.mp hf).2 hpath
  · exact absurd hdirectory hfree
  · intro heq
    exact swift_ne_source hext stem' stem (List.append_singleton_inj.mp heq).2

/-! ### Reasons to end -/

/-- A run with the given options ends in a directory tree for a reason that is found before a source
is read. -/
inductive Options.EndsFor (options : Options) (isTerminal : Bool) (d : Directory) :
    RunError → Prop where
  | unknownFormat (h : ReportFormat.parse? options.output = none) :
      EndsFor options isTerminal d (.unknownFormat options.output)
  | clash {format : ReportFormat} {group : TargetGroup}
      (hformat : ReportFormat.parse? options.output = some format) (hwrite : options.write = true)
      (h : resolveTargets (options.sourcesIn d) = .error group) :
      EndsFor options isTerminal d (.clash group)
  | noInput {format : ReportFormat} (hformat : ReportFormat.parse? options.output = some format)
      (hfiles : options.files = []) (h : isTerminal = true) : EndsFor options isTerminal d .noInput
  | nothingToWrite {format : ReportFormat}
      (hformat : ReportFormat.parse? options.output = some format) (hfiles : options.files = [])
      (hterminal : isTerminal = false) (h : options.write = true) :
      EndsFor options isTerminal d .nothingToWrite
  | noSources {format : ReportFormat} (hformat : ReportFormat.parse? options.output = some format)
      (hfiles : options.files ≠ []) (h : options.sourcesIn d = []) :
      EndsFor options isTerminal d .noSources

/-- Without sources no targets clash. -/
lemma resolve_of_sourcesIn_eq_nil (h : options.sourcesIn d = []) :
    (if options.write then resolveTargets (options.sourcesIn d) else .ok (options.sourcesIn d)) =
      .ok [] := by
  rw [h]
  split_ifs <;> rfl

lemma run_of_endsFor {reason : RunError} (h : options.EndsFor input.isTerminal d reason) :
    (run options input).run d = (.failed reason, d) := by
  rw [run_stages]
  cases h with
  | unknownFormat h =>
    rw [h]
    rfl
  | clash hformat hwrite h =>
    rw [hformat, hwrite, if_pos rfl, h]
    rfl
  | noInput hformat hfiles h =>
    rw [hformat, resolve_of_sourcesIn_eq_nil (sourcesIn_of_no_files hfiles)]
    dsimp only
    rw [if_pos hfiles, if_pos h]
    rfl
  | nothingToWrite hformat hfiles hterminal h =>
    rw [hformat, resolve_of_sourcesIn_eq_nil (sourcesIn_of_no_files hfiles)]
    dsimp only
    rw [if_pos hfiles, if_neg (by simp [hterminal]), if_pos h]
    rfl
  | noSources hformat hfiles h =>
    rw [hformat, resolve_of_sourcesIn_eq_nil h]
    dsimp only
    rw [if_neg hfiles, if_pos rfl]
    rfl

/-! ### Runs with arguments -/

lemma translates_of_runProgram (arguments : List Text) (hinput : LookingOnly input.read)
    (place : Location) :
    ((runProgram arguments input).run d).2.find? place = d.find? place ∨
      ∃ options, Invocation.ofArguments arguments = .run options ∧ options.write = true ∧
        options.Translates d ((runProgram arguments input).run d).2 place := by
  rw [runProgram]
  cases Invocation.ofArguments arguments with
  | run options => exact (translates_of_run hinput place).imp_right fun h => ⟨options, rfl, h⟩
  | version => exact .inl rfl
  | help => exact .inl rfl
  | misuse error => exact .inl rfl

/-- Where a run has changed something, it had the option `--write`, and there is now a file with the
translation of a source that was selected by the arguments, at the location of that source's target.
So nothing with the name of a source has changed. A run that ends since the format is unknown,
targets clash, there are no files, or no source is among them, changes nothing and prints nothing on
standard output; the reason is its only error, and the exit code is 1. -/
theorem runProgram_effect (arguments : List Text) (isTerminal : Bool) (bytes : ByteArray)
    (d : Directory) :
    let after := (runProgram arguments ⟨isTerminal, pure bytes⟩ : StateM Directory Outcome).run d
    (∀ place, after.2.find? place ≠ d.find? place →
      ∃ options, Invocation.ofArguments arguments = .run options ∧ options.write = true ∧
        options.Translates d after.2 place) ∧
    (∀ (folder : Location) (stem : Text), ∀ ext ∈ sourceExtensions,
      after.2.find? (folder ++ [stem ++ '.' :: ext.toList]) =
        d.find? (folder ++ [stem ++ '.' :: ext.toList])) ∧
    ∀ options reason, Invocation.ofArguments arguments = .run options →
      options.EndsFor isTerminal d reason → after = (⟨1, [], [reason.message]⟩, d) := by
  intro after
  have hplaces := @translates_of_runProgram ⟨isTerminal, pure bytes⟩ d arguments
    (LookingOnly.pure bytes)
  refine ⟨?_, ?_, ?_⟩
  · intro place hplace
    exact (hplaces place).resolve_left hplace
  · intro folder stem ext hext
    obtain hsame | ⟨options, -, -, htranslates⟩ := hplaces (folder ++ [stem ++ '.' :: ext.toList])
    · exact hsame
    · exact absurd rfl (htranslates.ne_source folder stem hext)
  · intro options reason harguments hreason
    show (runProgram arguments ⟨isTerminal, pure bytes⟩ : StateM Directory Outcome).run d = _
    rw [runProgram, harguments]
    exact run_of_endsFor hreason

end Swiftward
