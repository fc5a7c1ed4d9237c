import Swiftward.Proofs.CommandLine.Run
import Swiftward.Proofs.File.Directory

/-!
# Runs that write

A run with the option `--write` that succeeds has read and converted every source that it went on
with, and has written each translation to the target of its source, one after the other. Targets
are told apart by the parts of their paths, not by the locations that these lead to: all
translations are in place in the end if and only if those that went to one location are the same
(`translations_in_place_iff`).
-/

namespace Swiftward

/-! ### Reading the sources -/

namespace LookingOnly

lemma read (path : Text) : LookingOnly (FileSystem.read path) := fun _ => rfl

lemma readText (path : Text) : LookingOnly (Swiftward.readText path) := by
  refine (LookingOnly.read path).bind fun bytes => ?_
  cases bytes with
  | error fault => exact .pure _
  | ok bytes =>
    dsimp only
    cases decodeText? bytes <;> exact .pure _

lemma convertFile (width : Nat) (path : Text) : LookingOnly (Swiftward.convertFile width path) := by
  refine .ite (.pure _) ((LookingOnly.readText path).bind fun text => ?_)
  cases text <;> exact .pure _

/-- Actions that leave the tree as it is all find the same tree. -/
lemma run_mapM {α β : Type} {f : α → StateM Directory β} (hf : ∀ a, LookingOnly (f a))
    (as : List α) (d : Directory) :
    (as.mapM f).run d = (as.map fun a => ((f a).run d).1, d) := by
  induction as with
  | nil => rfl
  | cons a as ih =>
    have hfirst : (f a).run d = (((f a).run d).1, d) := Prod.ext rfl (hf a d)
    rw [List.mapM_cons, run_bind_of hfirst, run_bind_of ih]
    rfl

end LookingOnly

/-- The text of the file at a path. -/
def Directory.textAt (d : Directory) (path : Text) : Except Fault Text :=
  ((readText path : StateM Directory (Except Fault Text)).run d).1

/-- What a source is converted to in a directory tree. -/
def Directory.convert (d : Directory) (width : Nat) (path : Text) : Except FileError ConvertedFile :=
  ((convertFile width path : StateM Directory (Except FileError ConvertedFile)).run d).1

lemma Directory.eq_of_convert {d : Directory} {width : Nat} {path : Text} {file : ConvertedFile}
    (h : d.convert width path = .ok file) :
    ∃ content, d.textAt path = .ok content ∧ file = .ofText width path content := by
  have htext : (readText path : StateM Directory (Except Fault Text)).run d = (d.textAt path, d) :=
    Prod.ext rfl (LookingOnly.readText path d)
  unfold Directory.convert Swiftward.convertFile at h
  split_ifs at h
  · cases h
  · rw [run_bind_of htext] at h
    cases hcontent : d.textAt path with
    | error fault =>
      rw [hcontent] at h
      cases h
    | ok content =>
      rw [hcontent] at h
      exact ⟨content, rfl, (Except.ok.inj h).symm⟩

/-! ### Writing the targets -/

/-- The path and the bytes that a converted file is written with. -/
def ConvertedFile.written (file : ConvertedFile) : Text × ByteArray :=
  (swiftPath file.path, encodeText file.text)

lemma writeTarget_run (file : ConvertedFile) (d : Directory) :
    (writeTarget file : StateM Directory (Except FileError Text)).run d =
      match d.write (swiftPath file.path) (encodeText file.text) with
      | .ok d' => (.ok (swiftPath file.path), d')
      | .error fault => (.error (.unwritable (swiftPath file.path) fault), d) := by
  have hwrite : (FileSystem.write (swiftPath file.path) (encodeText file.text) :
      StateM Directory (Except Fault Unit)).run d =
        match d.write (swiftPath file.path) (encodeText file.text) with
        | .ok d' => (.ok (), d')
        | .error fault => (.error fault, d) := by
    change (match d.write (swiftPath file.path) (encodeText file.text) with
      | .ok d' => do set d'; return .ok ()
      | .error fault => return .error fault : StateM Directory (Except Fault Unit)).run d = _
    cases d.write (swiftPath file.path) (encodeText file.text) <;> rfl
  rw [writeTarget]
  cases hcase : d.write (swiftPath file.path) (encodeText file.text) with
  | error fault =>
    rw [hcase] at hwrite
    rw [run_bind_of hwrite]
    rfl
  | ok d' =>
    rw [hcase] at hwrite
    rw [run_bind_of hwrite]
    rfl

/-- Files are written in their order, all of them or those before the first that cannot be. -/
lemma writeTargets_cases (files : List ConvertedFile) (d : Directory) :
    (∃ d', (writeTargets files : StateM Directory (Option FileError)).run d = (none, d') ∧
        d.writeAll (files.map ConvertedFile.written) = .ok d') ∨
      ∃ error front file back fault d', files = front ++ file :: back ∧
        (writeTargets files : StateM Directory (Option FileError)).run d = (some error, d') ∧
        d.writeAll (front.map ConvertedFile.written) = .ok d' ∧
        d'.write file.written.1 file.written.2 = .error fault := by
  induction files generalizing d with
  | nil => exact .inl ⟨d, rfl, rfl⟩
  | cons file files ih =>
    have htarget := writeTarget_run file d
    rw [writeTargets]
    cases hwrite : d.write (swiftPath file.path) (encodeText file.text) with
    | error fault =>
      rw [hwrite] at htarget
      rw [run_bind_of htarget]
      exact .inr ⟨_, [], file, files, fault, d, rfl, rfl, rfl, hwrite⟩
    | ok mid =>
      rw [hwrite] at htarget
      rw [run_bind_of htarget]
      refine (ih mid).imp ?_ ?_
      · rintro ⟨d', hrun, hall⟩
        exact ⟨d', hrun, Directory.writeAll_cons.mpr ⟨mid, hwrite, hall⟩⟩
      · rintro ⟨error, front, failed, back, fault, d', rfl, hrun, hfront, hfault⟩
        exact ⟨error, file :: front, failed, back, fault, d', rfl, hrun,
          Directory.writeAll_cons.mpr ⟨mid, hwrite, hfront⟩, hfault⟩

/-- Files are all written if each of them can be. -/
lemma writeTargets_run_iff {files : List ConvertedFile} {d d' : Directory} :
    (writeTargets files : StateM Directory (Option FileError)).run d = (none, d') ↔
      d.writeAll (files.map ConvertedFile.written) = .ok d' := by
  obtain ⟨after, hrun, hall⟩ |
    ⟨error, front, file, back, fault, after, rfl, hrun, hfront, hfault⟩ :=
      writeTargets_cases files d
  · rw [hrun, hall, Prod.mk.injEq, Except.ok.injEq]
    exact and_iff_right rfl
  · rw [hrun, List.map_append, List.map_cons, Directory.writeAll_append]
    constructor
    · intro h
      cases congrArg Prod.fst h
    · rintro ⟨mid, hmid, hrest⟩
      obtain rfl := Except.ok.inj (hfront.symm.trans hmid)
      obtain ⟨next, hnext, -⟩ := Directory.writeAll_cons.mp hrest
      cases hfault.symm.trans hnext

/-! ### Runs -/

/-- If no source fails, all of them are converted. -/
lemma eq_map_ok_of_partitionResults {results : List (Except FileError ConvertedFile)}
    (h : (partitionResults results).2 = []) : results = (partitionResults results).1.map .ok := by
  induction results with
  | nil => rfl
  | cons result results ih =>
    cases result with
    | error error => cases h
    | ok file => exact congrArg (Except.ok file :: ·) (ih h)

lemma mem_partitionResults {results : List (Except FileError ConvertedFile)} {file : ConvertedFile}
    (h : file ∈ (partitionResults results).1) : .ok file ∈ results := by
  obtain ⟨result, hresult, hfile⟩ := List.mem_filterMap.mp h
  cases result with
  | error error => cases hfile
  | ok converted =>
    obtain rfl := Option.some.inj hfile
    exact hresult

variable {options : Options} {input : Input (StateM Directory)} {d d' : Directory}
  {outcome : Outcome}

/-- A run that writes starts with a search for its sources, and ends if their targets clash. -/
lemma run_of_write (hwrite : options.write = true) :
    (run options input).run d =
      (match ReportFormat.parse? options.output, resolveTargets (options.sourcesIn d) with
      | none, _ => pure (.failed (.unknownFormat options.output))
      | some _, .error group => pure (.failed (.clash group))
      | some format, .ok kept =>
        if options.files = [] then
          if input.isTerminal then pure (.failed .noInput) else pure (.failed .nothingToWrite)
        else if kept = [] then pure (.failed .noSources)
        else runSources format options kept : StateM Directory Outcome).run d := by
  rw [run_stages, if_pos hwrite]
  cases ReportFormat.parse? options.output with
  | none => rfl
  | some format =>
    cases resolveTargets (options.sourcesIn d) with
    | error group => rfl
    | ok kept =>
      dsimp only
      rw [if_pos hwrite]

/-- A run that writes and succeeds has sources whose targets do not clash. -/
lemma exists_runSources (hwrite : options.write = true)
    (hrun : (run options input).run d = (outcome, d')) (hexit : outcome.exitCode = 0) :
    ∃ format kept, resolveTargets (options.sourcesIn d) = .ok kept ∧
      (runSources format options kept : StateM Directory Outcome).run d = (outcome, d') := by
  have hfailed (error : RunError) : (pure (.failed error) : StateM Directory Outcome).run d ≠
      (outcome, d') := by
    intro heq
    obtain rfl : Outcome.failed error = outcome := congrArg Prod.fst heq
    cases hexit
  rw [run_of_write hwrite] at hrun
  split at hrun
  · exact absurd hrun (hfailed _)
  · exact absurd hrun (hfailed _)
  · next format kept hformat hkept =>
    split_ifs at hrun
    · exact absurd hrun (hfailed _)
    · exact absurd hrun (hfailed _)
    · exact absurd hrun (hfailed _)
    · exact ⟨format, kept, hkept, hrun⟩

/-- Converting sources is a look at each of them. -/
lemma mapM_convertFile_run (d : Directory) (width : Nat) (sources : List Text) :
    (sources.mapM (convertFile width) :
      StateM Directory (List (Except FileError ConvertedFile))).run d =
        (sources.map (d.convert width), d) :=
  LookingOnly.run_mapM (LookingOnly.convertFile width) sources d

/-- What a run that writes comes to, once its sources are known. -/
lemma runSources_of_write {format : ReportFormat} {kept : List Text} (hwrite : options.write = true) :
    (runSources format options kept : StateM Directory Outcome).run d =
      let parts := partitionResults (kept.map (d.convert options.dedentWidth))
      let errors := parts.2.map FileError.message
      match (writeTargets parts.1 : StateM Directory (Option FileError)).run d with
      | (some error, d') => (⟨1, [], errors ++ [error.messageWithCause]⟩, d')
      | (none, d') => (⟨if parts.2 = [] then 0 else 1, [],
          errors ++ failureSummary parts.2.length kept.length⟩, d') := by
  rw [runSources, run_bind_of (mapM_convertFile_run d options.dedentWidth kept)]
  dsimp only
  rw [if_pos hwrite]
  cases hwritten : (writeTargets (partitionResults (kept.map (d.convert options.dedentWidth))).1 :
      StateM Directory (Option FileError)).run d with
  | mk result after =>
    rw [run_bind_of hwritten]
    cases result <;> rfl

/-- The sources of a run that succeeds are all converted and written. -/
lemma exists_writeAll {format : ReportFormat} {kept : List Text} (hwrite : options.write = true)
    (hrun : (runSources format options kept : StateM Directory Outcome).run d = (outcome, d'))
    (hexit : outcome.exitCode = 0) :
    ∃ files : List ConvertedFile, kept.map (d.convert options.dedentWidth) = files.map .ok ∧
      d.writeAll (files.map ConvertedFile.written) = .ok d' := by
  rw [runSources_of_write hwrite] at hrun
  generalize hparts : partitionResults (kept.map (d.convert options.dedentWidth)) = parts at hrun
  obtain ⟨files, failures⟩ := parts
  dsimp only at hrun
  split at hrun
  · obtain rfl := congrArg Prod.fst hrun
    cases hexit
  · next after hwritten =>
    obtain ⟨rfl, rfl⟩ := Prod.mk.inj hrun
    have hnone : failures = [] := by
      by_contra hsome
      simp [hsome] at hexit
    have hall := eq_map_ok_of_partitionResults (congrArg Prod.snd hparts |>.trans hnone)
    rw [hparts] at hall
    exact ⟨files, hall, writeTargets_run_iff.mp hwritten⟩

/-- A run whose sources can all be converted and written succeeds. -/
lemma runSources_of_writeAll {format : ReportFormat} {kept : List Text}
    {files : List ConvertedFile} (hwrite : options.write = true)
    (hconverted : kept.map (d.convert options.dedentWidth) = files.map .ok)
    (hall : d.writeAll (files.map ConvertedFile.written) = .ok d') :
    (runSources format options kept : StateM Directory Outcome).run d = (⟨0, [], []⟩, d') := by
  have hparts : partitionResults (files.map .ok) = (files, []) := by
    simp [partitionResults, List.filterMap_map]
  rw [runSources_of_write hwrite, hconverted, hparts]
  dsimp only
  rw [writeTargets_run_iff.mpr hall]
  rfl

/-- A run that writes succeeds if its sources can all be converted and written. -/
lemma run_of_writeAll {format : ReportFormat} {kept : List Text} {files : List ConvertedFile}
    (hformat : ReportFormat.parse? options.output = some format) (hwrite : options.write = true)
    (hkept : resolveTargets (options.sourcesIn d) = .ok kept) (hne : kept ≠ [])
    (hconverted : kept.map (d.convert options.dedentWidth) = files.map .ok)
    (hall : d.writeAll (files.map ConvertedFile.written) = .ok d') :
    (run options input).run d = (⟨0, [], []⟩, d') := by
  have hfiles : options.files ≠ [] := by
    intro hnil
    rw [sourcesIn_of_no_files hnil] at hkept
    exact hne (Except.ok.inj hkept).symm
  rw [run_of_write hwrite, hformat, hkept]
  dsimp only
  rw [if_neg hfiles, if_neg hne]
  exact runSources_of_writeAll hwrite hconverted hall

/-! ### Translations in place -/

lemma encodeText_injective {s t : Text} (h : encodeText s = encodeText t) : s = t := by
  have htext := congrArg decodeText? h
  rw [decodeText?_encodeText, decodeText?_encodeText] at htext
  exact Option.some.inj htext

/-- What the sources of a run are converted to, each with its text. -/
lemma exists_content {width : Nat} {kept : List Text} {files : List ConvertedFile}
    (h : kept.map (d.convert width) = files.map .ok) :
    ∃ content : Text → Text, (∀ f ∈ kept, d.textAt f = .ok (content f)) ∧
      files.map ConvertedFile.written =
        kept.map fun f => (swiftPath f, encodeText (convertText width (content f))) := by
  refine ⟨fun f => (d.textAt f).toOption.getD [], ?_⟩
  induction kept generalizing files with
  | nil =>
    obtain rfl : files = [] := List.map_eq_nil_iff.mp h.symm
    simp
  | cons f kept ih =>
    obtain ⟨file, rest, rfl, hfile, hrest⟩ := List.map_eq_cons_iff.mp h.symm
    obtain ⟨htexts, hwritten⟩ := ih hrest.symm
    obtain ⟨content, hcontent, rfl⟩ := Directory.eq_of_convert hfile.symm
    constructor
    · refine List.forall_mem_cons.mpr ⟨?_, htexts⟩
      simp [hcontent, Except.toOption]
    · rw [List.map_cons, List.map_cons, hwritten]
      simp [hcontent, Except.toOption, ConvertedFile.written, ConvertedFile.ofText,
        ConvertedFile.text, convertText]

/-- A run that writes and succeeds has read a text from each of the sources it went on with. In the
end a path to a target reads the translation of the last source whose target is at that location,
so all translations are in place if and only if those that went to one location are the same. -/
theorem translations_in_place_iff {arguments : List Text}
    (harguments : Invocation.ofArguments arguments = .run options) (hwrite : options.write = true)
    (hrun : (runProgram arguments input : StateM Directory Outcome).run d = (outcome, d'))
    (hexit : outcome.exitCode = 0) :
    ∃ (kept : List Text) (content : Text → Text),
      resolveTargets (options.sourcesIn d) = .ok kept ∧
      (∀ f ∈ kept, d.textAt f = .ok (content f)) ∧
      (∀ front f back path, kept = front ++ f :: back → d.resolve path = d.resolve (swiftPath f) →
        (∀ g ∈ back, d.resolve (swiftPath g) ≠ d.resolve (swiftPath f)) →
          d'.read path = .ok (encodeText (convertText options.dedentWidth (content f)))) ∧
      ((∀ f ∈ kept,
          d'.read (swiftPath f) = .ok (encodeText (convertText options.dedentWidth (content f)))) ↔
        ∀ f ∈ kept, ∀ g ∈ kept, d.resolve (swiftPath f) = d.resolve (swiftPath g) →
          convertText options.dedentWidth (content f) =
            convertText options.dedentWidth (content g)) := by
  rw [runProgram, harguments] at hrun
  obtain ⟨format, kept, hkept, hsources⟩ := exists_runSources hwrite hrun hexit
  obtain ⟨files, hconverted, hall⟩ := exists_writeAll hwrite hsources hexit
  obtain ⟨content, hcontent, hfiles⟩ := exists_content hconverted
  rw [hfiles] at hall
  refine ⟨kept, content, hkept, hcontent, ?_, ?_⟩
  · rintro front f back path rfl hpath hlast
    rw [List.map_append, List.map_cons] at hall
    apply Directory.read_writeAll_last hall hpath
    simpa using hlast
  · have hiff := Directory.forall_read_writeAll_iff hall
    simp only [List.forall_mem_map] at hiff
    rw [hiff]
    refine forall₂_congr fun f _ => forall₂_congr fun g _ => imp_congr_right fun _ => ?_
    exact ⟨encodeText_injective, fun heq => by rw [heq]⟩

/-- A directory with a source and its header. -/
def pairedSources : Directory :=
  (Directory.empty.add "W.m".toList (encodeText "x = 1;\n".toList)).add "W.h".toList
    (encodeText "@interface W\n@end\n".toList)

/-- The empty translation of a header that is spelled in another way replaces the one of its
source. -/
theorem translations_in_place_iff_respelled :
    ∃ d', (runProgram ["-w".toList, "W.m".toList, "./W.h".toList] ⟨true, pure .empty⟩ :
        StateM Directory Outcome).run pairedSources = (⟨0, [], []⟩, d') ∧
      d'.read "W.swift".toList = .ok (encodeText []) ∧
      convertText 4 "x = 1;\n".toList = "x = 1\n".toList := by
  generalize hoptions : (⟨"swift".toList, true, 4, none, false, ["W.m".toList, "./W.h".toList]⟩ :
    Options) = options
  have harguments : Invocation.ofArguments ["-w".toList, "W.m".toList, "./W.h".toList] =
      .run options := by
    rw [← hoptions]
    rfl
  have hwrite : options.write = true := by rw [← hoptions]
  have hwidth : options.dedentWidth = 4 := by rw [← hoptions]
  have hsources : options.sourcesIn pairedSources = ["W.m".toList, "./W.h".toList] := by
    rw [sourcesIn_of_literals (by rw [← hoptions]; decide), ← hoptions]
    rfl
  have htargets : resolveTargets (options.sourcesIn pairedSources) =
      .ok ["W.m".toList, "./W.h".toList] := by
    rw [hsources]
    rfl
  have hfirst : pairedSources.read "W.m".toList = .ok (encodeText "x = 1;\n".toList) := by rfl
  have hsecond : pairedSources.read "./W.h".toList =
      .ok (encodeText "@interface W\n@end\n".toList) := by rfl
  have hconverted : ["W.m".toList, "./W.h".toList].map (pairedSources.convert 4) =
      [ConvertedFile.ofText 4 "W.m".toList "x = 1;\n".toList,
        ConvertedFile.ofText 4 "./W.h".toList "@interface W\n@end\n".toList].map .ok := by
    simp only [List.map_cons, List.map_nil, Directory.convert]
    rw [convertFile_run (by rfl) hfirst, convertFile_run (by rfl) hsecond]
  have hwritten (source header : ByteArray) : ∃ d', pairedSources.writeAll
      [("W.swift".toList, source), ("./W.swift".toList, header)] = .ok d' := ⟨_, rfl⟩
  obtain ⟨d', hall⟩ := hwritten
    (encodeText (ConvertedFile.ofText 4 "W.m".toList "x = 1;\n".toList).text)
    (encodeText (ConvertedFile.ofText 4 "./W.h".toList "@interface W\n@end\n".toList).text)
  have hrun : (runProgram ["-w".toList, "W.m".toList, "./W.h".toList] ⟨true, pure .empty⟩ :
      StateM Directory Outcome).run pairedSources = (⟨0, [], []⟩, d') := by
    have hformat : ReportFormat.parse? options.output = some .swift := by
      rw [← hoptions]
      rfl
    rw [← hwidth] at hconverted hall
    rw [runProgram, harguments]
    exact run_of_writeAll hformat hwrite htargets (List.cons_ne_nil _ _) hconverted hall
  obtain ⟨kept, content, hkept, hcontent, hlast, -⟩ :=
    translations_in_place_iff harguments hwrite hrun rfl
  rw [htargets] at hkept
  obtain rfl := Except.ok.inj hkept
  have hheader : content "./W.h".toList = "@interface W\n@end\n".toList := by
    have htext := hcontent "./W.h".toList (by simp)
    rw [Directory.textAt, readText_run hsecond] at htext
    exact (Except.ok.inj htext).symm
  have hread := hlast ["W.m".toList] "./W.h".toList [] "W.swift".toList rfl (by rfl) (by simp)
  have hempty : convertText 4 "@interface W\n@end\n".toList = [] := by decide +kernel
  rw [hheader, hwidth, hempty] at hread
  exact ⟨d', hrun, hread, by decide +kernel⟩

end Swiftward
