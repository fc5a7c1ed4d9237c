import Swiftward.Proofs.CommandLine.Input
import Swiftward.Proofs.Conversion.Stream
import Swiftward.Proofs.File.Search

/-!
# Agreement of all ways to convert

A text may be converted as a whole, line by line, unit by unit, as a file, or in a run of the
program that reads it from standard input or from a file. The Swift text is the same whichever way
it takes (`convertText_ways`).
-/

namespace Swiftward

/-- The options of a run that prints Swift text. -/
structure Options.PrintsSwift (options : Options) (width : Nat) : Prop where
  format : ReportFormat.parse? options.output = some .swift
  not_write : options.write = false
  dedentWidth : options.dedentWidth = width

/-! ### Conversion in memory -/

/-- A converter that has handed out nothing has all lines before it. -/
lemma Converter.output_ofLines (width : Nat) (source : List Text) :
    (Converter.ofLines width source).output = convertLines width source := rfl

lemma outputText_collect (width : Nat) (source : Text) :
    outputText (Converter.ofLines width (lines source)).collect = convertText width source := by
  rw [Converter.collect_eq, Converter.output_ofLines, convertText]

lemma outputText_drain (width : Nat) (source : Text) :
    outputText (Converter.ofLines width (lines source)).drain = convertText width source := by
  rw [Converter.drain_eq]
  rfl

/-! ### Runs of the program -/

/-- A report on one file has no comment with its name. -/
lemma swiftReport_singleton (file : ConvertedFile) : swiftReport [file] = file.text := by
  simp [swiftReport]

lemma reportInput_encodeText (width : Nat) (source : Text) :
    reportInput .swift width (encodeText source) = convertText width source := by
  rw [reportInput, readableLines_encodeText, report, swiftReport_singleton]
  rfl

/-- An action goes on with the result and the state that another leaves. -/
lemma run_bind_of {σ α β : Type} {x : StateM σ α} {a : α} {s s' : σ} (h : x.run s = (a, s'))
    (f : α → StateM σ β) : (x >>= f).run s = (f a).run s' := by
  rw [StateT.run_bind, h]
  rfl

variable {width : Nat} {source : Text} {options : Options} {input : Input (StateM Directory)}
  {d : Directory}

/-- The sources among the files of a run, in a directory tree. -/
def Options.sourcesIn (options : Options) (d : Directory) : List Text :=
  ((expandPatterns options.files : StateM Directory (List Text)).run d).1.filter isSource

lemma sourcesIn_of_no_files (hfiles : options.files = []) : options.sourcesIn d = [] := by
  rw [Options.sourcesIn, hfiles]
  rfl

/-- Paths without wildcards stand for themselves. -/
lemma sourcesIn_of_literals (h : ∀ path ∈ options.files, '*' ∉ path ∧ '?' ∉ path) :
    options.sourcesIn d = options.files.filter isSource := by
  have hexpand (files : List Text) (hfiles : ∀ path ∈ files, '*' ∉ path ∧ '?' ∉ path) :
      (files.mapM fun path => if '*' ∈ path ∨ '?' ∈ path then do
          (← search path).filterM FileSystem.isFile
        else return [path] : StateM Directory (List (List Text))).run d =
          (files.map fun path => [path], d) := by
    induction files with
    | nil => rfl
    | cons path files ih =>
      obtain ⟨⟨hstar, hmark⟩, hrest⟩ := List.forall_mem_cons.mp hfiles
      rw [List.mapM_cons, if_neg (by simp [hstar, hmark]), pure_bind, run_bind_of (ih hrest)]
      rfl
  have hflatten : (options.files.map fun path => [path]).flatten = options.files := by
    rw [← List.flatMap_def]
    exact List.flatMap_singleton' options.files
  rw [Options.sourcesIn, expandPatterns, run_bind_of (hexpand options.files h), hflatten]
  rfl

lemma sourcesIn_of_literal {path : Text} (hfiles : options.files = [path]) (hstar : '*' ∉ path)
    (hmark : '?' ∉ path) (hpath : isSource path = true) : options.sourcesIn d = [path] := by
  have hliteral : ∀ path ∈ options.files, '*' ∉ path ∧ '?' ∉ path := by
    simp [hfiles, hstar, hmark]
  rw [sourcesIn_of_literals hliteral, hfiles, List.filter_cons_of_pos hpath, List.filter_nil]

/-- A run starts with a search for its sources, which changes nothing. -/
lemma run_stages :
    (run options input).run d =
      (match ReportFormat.parse? options.output,
          (if options.write then resolveTargets (options.sourcesIn d)
            else .ok (options.sourcesIn d)) with
      | none, _ => pure (.failed (.unknownFormat options.output))
      | some _, .error group => pure (.failed (.clash group))
      | some format, .ok sources =>
        if options.files = [] then
          if input.isTerminal then pure (.failed .noInput)
          else if options.write then pure (.failed .nothingToWrite)
          else return ⟨0, reportInput format options.dedentWidth (← input.read), []⟩
        else if sources = [] then pure (.failed .noSources)
        else runSources format options sources : StateM Directory Outcome).run d := by
  have hsearch : (expandPatterns options.files : StateM Directory (List Text)).run d =
      (((expandPatterns options.files : StateM Directory (List Text)).run d).1, d) :=
    Prod.ext rfl (lookingOnly_expandPatterns options.files d)
  rw [run]
  cases ReportFormat.parse? options.output with
  | none => rfl
  | some format =>
    dsimp only
    rw [run_bind_of hsearch, ← Options.sourcesIn]
    cases if options.write then resolveTargets (options.sourcesIn d)
      else .ok (options.sourcesIn d) <;> rfl

lemma run_of_printsSwift (hoptions : options.PrintsSwift width) :
    (run options input).run d =
      (if options.files = [] then
        if input.isTerminal then return .failed .noInput
        else return ⟨0, reportInput .swift width (← input.read), []⟩
      else if options.sourcesIn d = [] then return .failed .noSources
      else runSources .swift options (options.sourcesIn d) : StateM Directory Outcome).run d := by
  rw [run_stages, hoptions.format, hoptions.not_write, hoptions.dedentWidth]
  rfl

/-- A run without files converts standard input. -/
lemma run_input (hoptions : options.PrintsSwift width) (hfiles : options.files = [])
    (hinput : input.isTerminal = false) {d' : Directory}
    (hread : input.read.run d = (encodeText source, d')) :
    (run options input).run d = (⟨0, convertText width source, []⟩, d') := by
  rw [run_of_printsSwift hoptions, if_pos hfiles, if_neg (by simp [hinput]), run_bind_of hread,
    reportInput_encodeText]
  rfl

lemma readText_run {path : Text} (hread : d.read path = .ok (encodeText source)) :
    (readText path : StateM Directory (Except Fault Text)).run d = (.ok source, d) := by
  have hbytes : (FileSystem.read path : StateM Directory (Except Fault ByteArray)).run d =
      (.ok (encodeText source), d) :=
    Prod.ext hread rfl
  rw [readText, run_bind_of hbytes]
  dsimp only
  rw [decodeText?_encodeText]
  rfl

/-- A source that can be read is converted. -/
lemma convertFile_run {path : Text} (hpath : isSource path = true)
    (hread : d.read path = .ok (encodeText source)) :
    (convertFile width path : StateM Directory (Except FileError ConvertedFile)).run d =
      (.ok (.ofText width path source), d) := by
  rw [convertFile, if_neg (by simp [hpath]), run_bind_of (readText_run hread)]
  rfl

/-- A run on one source converts it. -/
lemma run_file (hoptions : options.PrintsSwift width) {path : Text}
    (hsources : options.sourcesIn d = [path]) (hread : d.read path = .ok (encodeText source)) :
    (run options input).run d = (⟨0, convertText width source, []⟩, d) := by
  have hfiles : options.files ≠ [] := by
    intro hnil
    rw [sourcesIn_of_no_files hnil] at hsources
    exact List.cons_ne_nil _ _ hsources.symm
  have hpath : isSource path = true := by
    have hmem : path ∈ options.sourcesIn d := hsources ▸ List.mem_singleton_self path
    exact (List.mem_filter.mp hmem).2
  have hresults : ([path].mapM (convertFile width) :
      StateM Directory (List (Except FileError ConvertedFile))).run d =
        ([.ok (.ofText width path source)], d) := by
    rw [List.mapM_cons, run_bind_of (convertFile_run hpath hread)]
    rfl
  rw [run_of_printsSwift hoptions, if_neg hfiles, hsources, if_neg (List.cons_ne_nil _ _),
    runSources, hoptions.dedentWidth, run_bind_of hresults]
  have hparts : partitionResults [.ok (.ofText width path source)] =
      ([.ofText width path source], []) := rfl
  dsimp only
  rw [hoptions.not_write, hparts, if_neg Bool.false_ne_true, report, swiftReport_singleton]
  rfl

/-! ### Agreement -/

/-- White space at the end of a line does not change what the text is converted to. -/
lemma convertText_append_blank (width : Nat) {front pad back : Text} (hpad : Blank pad)
    (hback : AtLineEnd front back) :
    convertText width (front ++ pad ++ back) = convertText width (front ++ back) := by
  rw [convertText, convertText, convertLines_congr (map_trimEnd_lines hpad hback)]

/-- The Swift text does not depend on the way the source takes: line by line, unit by unit, as a
file, through standard input, or from the only source among the files of a run. Nor does it depend
on white space at the end of a line of the source. -/
theorem convertText_ways (width : Nat) (source : Text) :
    outputText (Converter.ofLines width (lines source)).collect = convertText width source ∧
    outputText (Converter.ofLines width (lines source)).drain = convertText width source ∧
    (∀ path, (ConvertedFile.ofText width path source).text = convertText width source) ∧
    (∀ (arguments : List Text) (options : Options) (input : Input (StateM Directory))
        (d d' : Directory),
      Invocation.ofArguments arguments = .run options → options.PrintsSwift width →
      options.files = [] → input.isTerminal = false → input.read.run d = (encodeText source, d') →
      (runProgram arguments input).run d = (⟨0, convertText width source, []⟩, d')) ∧
    (∀ (arguments : List Text) (options : Options) (input : Input (StateM Directory))
        (d : Directory) (path : Text),
      Invocation.ofArguments arguments = .run options → options.PrintsSwift width →
      options.sourcesIn d = [path] → d.read path = .ok (encodeText source) →
      (runProgram arguments input).run d = (⟨0, convertText width source, []⟩, d)) ∧
    ∀ front pad back, source = front ++ back → Blank pad → AtLineEnd front back →
      convertText width (front ++ pad ++ back) = convertText width source := by
  refine ⟨outputText_collect width source, outputText_drain width source, fun path => rfl,
    ?_, ?_, ?_⟩
  · intro arguments options input d d' harguments hoptions hfiles hinput hread
    rw [runProgram, harguments]
    exact run_input hoptions hfiles hinput hread
  · intro arguments options input d path harguments hoptions hsources hread
    rw [runProgram, harguments]
    exact run_file hoptions hsources hread
  · rintro front pad back rfl hpad hback
    exact convertText_append_blank width hpad hback

theorem convertText_ways_assignment :
    (runProgram ["a.m".toList] ⟨true, pure .empty⟩ : StateM Directory Outcome).run
        (Directory.empty.add "a.m".toList (encodeText "x = 1;\n".toList)) =
      (⟨0, convertText 4 "x = 1;\n".toList, []⟩,
        Directory.empty.add "a.m".toList (encodeText "x = 1;\n".toList)) ∧
    (runProgram [] ⟨false, pure (encodeText "x = 1;\n".toList)⟩ : StateM Directory Outcome).run
        Directory.empty =
      (⟨0, convertText 4 "x = 1;\n".toList, []⟩, Directory.empty) ∧
    convertText 4 "x = 1; \r\n".toList = convertText 4 "x = 1;\n".toList := by
  obtain ⟨_, _, _, hinput, hfile, hblank⟩ := convertText_ways 4 "x = 1;\n".toList
  refine ⟨?_, ?_, ?_⟩
  · apply hfile ["a.m".toList] ⟨"swift".toList, false, 4, none, false, ["a.m".toList]⟩ _ _
      "a.m".toList
    · rfl
    · exact ⟨rfl, rfl, rfl⟩
    · exact sourcesIn_of_literal rfl (by decide) (by decide) rfl
    · rfl
  · apply hinput [] ⟨"swift".toList, false, 4, none, false, []⟩
    · rfl
    · exact ⟨rfl, rfl, rfl⟩
    · rfl
    · rfl
    · rfl
  · apply hblank "x = 1;".toList [' ', '\r'] ['\n']
    · rfl
    · intro c hc
      rcases List.mem_pair.mp hc with rfl | rfl
      · decide
      · decide
    · exact .beforeFeed blank_nil []

end Swiftward
