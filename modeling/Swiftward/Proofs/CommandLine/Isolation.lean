import Swiftward.Proofs.CommandLine.Write

/-!
# Sources that cannot be read

A source from which no text can be read costs a run that prints one line of errors and its exit
code. What is printed is what a run on the other sources prints (`unreadable_isolated`).
-/

namespace Swiftward

/-! ### Files behind other arguments -/

namespace Reading

lemma addAll_file (r : Reading) {file : Text} (h : file.head? ≠ some '-') (rest : List Text) :
    r.addAll none (file :: rest) = (r.addFile file).addAll none rest := by
  rw [addAll]
  · rintro rfl
    exact h rfl
  · rintro long rfl
    exact h rfl
  · rintro c letters rfl
    exact h rfl

lemma addAll_files (r : Reading) {files : List Text} (h : ∀ file ∈ files, file.head? ≠ some '-') :
    r.addAll none files = .ok (files.foldl addFile r) := by
  induction files generalizing r with
  | nil => rfl
  | cons file files ih =>
    obtain ⟨hfile, hfiles⟩ := List.forall_mem_cons.mp h
    rw [addAll_file r hfile, ih _ hfiles, List.foldl_cons]

/-- Arguments that begin with no dash may stand behind all others, and are files. -/
lemma addAll_append {r r' : Reading} {waiting : Option OptionName} {front files : List Text}
    (hfront : r.addAll waiting front = .ok r') (h : ∀ file ∈ files, file.head? ≠ some '-') :
    r.addAll waiting (front ++ files) = .ok (files.foldl addFile r') := by
  fun_induction addAll r waiting front with
  | case1 r name => cases hfront
  | case2 r =>
    obtain rfl := Except.ok.inj hfront
    exact addAll_files r h
  | case3 r argument rest name hoption => cases hfront
  | case4 r argument rest name hoption ih =>
    obtain ⟨r₁, hvalue, hrest⟩ := Except.bind_eq_ok_iff.mp hfront
    rw [List.cons_append, addAll, if_neg hoption, hvalue]
    exact ih r₁ hrest
  | case5 r rest =>
    obtain rfl := Except.ok.inj hfront
    rw [List.cons_append, addAll, List.foldl_append]
  | case6 r rest long hlong ih =>
    obtain ⟨⟨r₁, waiting⟩, hoption, hrest⟩ := Except.bind_eq_ok_iff.mp hfront
    rw [List.cons_append, addAll, hoption]
    · exact ih r₁ waiting hrest
    · exact hlong
  | case7 r rest c letters hdashes hdash ih =>
    obtain ⟨⟨r₁, waiting⟩, hoption, hrest⟩ := Except.bind_eq_ok_iff.mp hfront
    rw [List.cons_append, addAll, hoption]
    · exact ih r₁ waiting hrest
    · exact hdashes
    · exact hdash
  | case8 r rest file hdashes hlong hshort ih =>
    rw [List.cons_append, addAll]
    · exact ih hfront
    · exact hdashes
    · exact hlong
    · exact hshort

lemma options_foldl_addFile (r : Reading) (files : List Text) :
    (files.foldl addFile r).options = { r.options with files := r.files ++ files } := by
  induction files generalizing r with
  | nil => simp [options]
  | cons file files ih =>
    rw [List.foldl_cons, ih]
    simp [options, addFile, value?]
end Reading

/-- A reading that ends before all arguments are read does not end in a run. -/
def EndsWithoutRun {α : Type} (x : Except Invocation α) : Prop :=
  ∀ options, x ≠ .error (.run options)

namespace EndsWithoutRun

variable {α β : Type}

lemma ok (a : α) : EndsWithoutRun (.ok a) := by
  intro options h
  cases h

lemma bind {x : Except Invocation α} {f : α → Except Invocation β} (hx : EndsWithoutRun x)
    (hf : ∀ a, EndsWithoutRun (f a)) : EndsWithoutRun (x >>= f) := by
  cases x with
  | error invocation => 
    intro options h
    obtain rfl : invocation = .run options := Except.error.inj h
    exact hx options rfl
  | ok a => exact hf a

lemma map {x : Except Invocation α} (hx : EndsWithoutRun x) (f : α → β) :
    EndsWithoutRun (x.map f) := by
  cases x with
  | error invocation => 
    intro options h
    obtain rfl : invocation = .run options := Except.error.inj h
    exact hx options rfl
  | ok a => exact .ok _

lemma misuse (error : UsageError) : EndsWithoutRun (.error (.misuse error) : Except Invocation α) :=
  nofun

lemma addValue (r : Reading) (name : OptionName) (value : Text) :
    EndsWithoutRun (r.addValue name value) := by
  unfold Reading.addValue
  split_ifs
  · exact .misuse _
  · exact .misuse _
  · exact .ok _

lemma addFlag (r : Reading) (name : OptionName) : EndsWithoutRun (r.addFlag name) := by
  unfold Reading.addFlag
  split_ifs
  · nofun
  · nofun
  · exact .misuse _
  · exact .ok _

lemma addShort (r : Reading) (letters : Text) : EndsWithoutRun (r.addShort letters) := by
  fun_induction Reading.addShort r letters with
  | case1 r => exact .ok _
  | case2 r c rest hname => exact .misuse _
  | case3 r c name hname hvalue => exact .ok _
  | case4 r c name hname hvalue value => exact (addValue r name value).map _
  | case5 r c name hname hvalue value => exact (addValue r name value).map _
  | case6 r c rest name hname hvalue ih => exact (addFlag r name).bind ih

lemma addLong (r : Reading) (argument : Text) : EndsWithoutRun (r.addLong argument) := by
  unfold Reading.addLong
  dsimp only
  split
  · exact .misuse _
  · split_ifs
    · exact .ok _
    · exact (addFlag r _).map _
  · split_ifs
    · exact (addValue r _ _).map _
    · exact .misuse _

lemma addAll (r : Reading) (waiting : Option OptionName) (arguments : List Text) :
    EndsWithoutRun (r.addAll waiting arguments) := by
  fun_induction Reading.addAll r waiting arguments with
  | case1 r name => exact .misuse _
  | case2 r => exact .ok _
  | case3 r argument rest name hoption => exact .misuse _
  | case4 r argument rest name hoption ih => exact (addValue r _ _).bind ih
  | case5 r rest => exact .ok _
  | case6 r rest long hlong ih => exact (addLong r long).bind fun read => ih read.1 read.2
  | case7 r rest c letters hdashes hdash ih =>
    exact (addShort r (c :: letters)).bind fun read => ih read.1 read.2
  | case8 r rest file hdashes hlong hshort ih => exact ih

end EndsWithoutRun

lemma Invocation.ofArguments_append {front files : List Text} {options : Options}
    (hfront : ofArguments front = .run options) (h : ∀ file ∈ files, file.head? ≠ some '-') :
    ofArguments (front ++ files) = .run { options with files := options.files ++ files } := by
  unfold ofArguments at hfront ⊢
  split at hfront
  · next r hr =>
    obtain rfl := Invocation.run.inj hfront
    rw [Reading.addAll_append hr h]
    exact congrArg run (r.options_foldl_addFile files)
  · next invocation herror =>
    rw [hfront] at herror
    exact absurd herror (EndsWithoutRun.addAll .empty none front options)

/-! ### Texts of files -/

namespace Directory

variable {d : Directory} {path : Text}

/-- Whether a file that holds a text in UTF-8 is found at a path. -/
def isReadable (d : Directory) (path : Text) : Bool := (d.textAt path).isOk

/-- What goes wrong when a source is read, if anything does. -/
def failure? (d : Directory) (path : Text) : Option FileError :=
  match d.textAt path with
  | .error fault => some (.unreadable path fault)
  | .ok _ => none

lemma isReadable_eq (d : Directory) (path : Text) : d.isReadable path = (d.failure? path).isNone := by
  rw [isReadable, failure?]
  cases d.textAt path <;> rfl

lemma convert_of_isSource (width : Nat) (hpath : isSource path = true) :
    d.convert width path =
      match d.textAt path with
      | .error fault => .error (.unreadable path fault)
      | .ok text => .ok (.ofText width path text) := by
  have htext : (readText path : StateM Directory (Except Fault Text)).run d = (d.textAt path, d) :=
    Prod.ext rfl (LookingOnly.readText path d)
  rw [convert, convertFile, if_neg (by simp [hpath]), run_bind_of htext]
  cases d.textAt path <;> rfl

/-- Sources that cannot be read are no more than failures beside the others. -/
lemma partitionResults_convert (d : Directory) (width : Nat) {paths : List Text}
    (hpaths : ∀ path ∈ paths, isSource path = true) :
    partitionResults (paths.map (d.convert width)) =
      ((partitionResults ((paths.filter d.isReadable).map (d.convert width))).1,
        paths.filterMap d.failure?) := by
  induction paths with
  | nil => rfl
  | cons path paths ih =>
    obtain ⟨hpath, hrest⟩ := List.forall_mem_cons.mp hpaths
    have hlater := ih hrest
    have hconvert := d.convert_of_isSource width hpath
    have hreadable := d.isReadable_eq path
    rw [partitionResults, Prod.mk.injEq] at hlater ⊢
    cases htext : d.textAt path with
    | error fault =>
      rw [htext] at hconvert
      have hfailure : d.failure? path = some (.unreadable path fault) := by rw [failure?, htext]
      rw [hfailure] at hreadable
      rw [List.map_cons, hconvert, List.filter_cons_of_neg (by simp [hreadable]),
        List.filterMap_cons_some hfailure]
      exact ⟨hlater.1, congrArg (_ :: ·) hlater.2⟩
    | ok text =>
      rw [htext] at hconvert
      have hfailure : d.failure? path = none := by rw [failure?, htext]
      rw [hfailure] at hreadable
      rw [List.map_cons, hconvert, List.filter_cons_of_pos (by simp [hreadable]),
        List.filterMap_cons_none hfailure, List.map_cons, hconvert]
      exact ⟨congrArg (_ :: ·) hlater.1, hlater.2⟩

lemma filterMap_failure?_eq_nil_iff {paths : List Text} :
    paths.filterMap d.failure? = [] ↔ ∀ path ∈ paths, d.isReadable path = true := by
  simp only [List.filterMap_eq_nil_iff, isReadable_eq, Option.isNone_iff_eq_none]

end Directory

variable {options : Options} {format : ReportFormat} {input : Input (StateM Directory)}
  {d : Directory}

/-- What a run that prints comes to, once its sources are known. -/
lemma runSources_of_print (hwrite : options.write = false) (sources : List Text) :
    (runSources format options sources : StateM Directory Outcome).run d =
      let parts := partitionResults (sources.map (d.convert options.dedentWidth))
      (⟨if parts.2 = [] then 0 else 1, report format parts.1, parts.2.map FileError.message ++
        failureSummary parts.2.length sources.length⟩, d) := by
  rw [runSources, run_bind_of (mapM_convertFile_run d options.dedentWidth sources)]
  dsimp only
  rw [if_neg (by simp [hwrite])]
  rfl

/-- The path of a source that an argument gives as it stands: it is no option and no pattern. -/
structure IsLiteralSource (path : Text) : Prop where
  no_dash : path.head? ≠ some '-'
  no_pattern : '*' ∉ path ∧ '?' ∉ path
  isSource : isSource path = true

/-- A run that prints reports on the sources that can be read. -/
lemma run_of_print (hwrite : options.write = false)
    (hformat : ReportFormat.parse? options.output = some format) (hne : options.files ≠ [])
    (hpaths : ∀ path ∈ options.files, IsLiteralSource path) :
    (run options input).run d =
      (⟨if ∀ path ∈ options.files, d.isReadable path = true then 0 else 1,
        report format (partitionResults
          ((options.files.filter d.isReadable).map (d.convert options.dedentWidth))).1,
        (options.files.filterMap d.failure?).map FileError.message ++
          failureSummary (options.files.filterMap d.failure?).length options.files.length⟩, d) := by
  have hsources : options.sourcesIn d = options.files := by
    rw [sourcesIn_of_literals fun path hpath => (hpaths path hpath).no_pattern,
      List.filter_eq_self]
    exact fun path hpath => (hpaths path hpath).isSource
  rw [run_stages, hformat, hwrite, if_neg Bool.false_ne_true, hsources]
  dsimp only
  rw [if_neg hne, if_neg hne, runSources_of_print hwrite,
    d.partitionResults_convert options.dedentWidth fun path hpath => (hpaths path hpath).isSource]
  simp only [Directory.filterMap_failure?_eq_nil_iff]

/-- The same when the sources stand behind all other arguments. -/
lemma runProgram_of_print {front paths : List Text}
    (hfront : Invocation.ofArguments front = .run options) (hfiles : options.files = [])
    (hwrite : options.write = false) (hformat : ReportFormat.parse? options.output = some format)
    (hne : paths ≠ []) (hpaths : ∀ path ∈ paths, IsLiteralSource path) :
    (runProgram (front ++ paths) input : StateM Directory Outcome).run d =
      (⟨if ∀ path ∈ paths, d.isReadable path = true then 0 else 1,
        report format (partitionResults
          ((paths.filter d.isReadable).map (d.convert options.dedentWidth))).1,
        (paths.filterMap d.failure?).map FileError.message ++
          failureSummary (paths.filterMap d.failure?).length paths.length⟩, d) := by
  have harguments := Invocation.ofArguments_append hfront fun path hpath => (hpaths path hpath).no_dash
  rw [hfiles, List.nil_append] at harguments
  rw [runProgram, harguments]
  exact run_of_print hwrite hformat hne hpaths

/-- Of the sources that follow the options of a run that prints, some can be read. Then it prints what
a run on these alone prints. Its errors are one for each of the others, in their order, with a
summary behind them, and the exit code tells whether there are any. -/
theorem unreadable_isolated {front paths : List Text}
    (hfront : Invocation.ofArguments front = .run options) (hfiles : options.files = [])
    (hwrite : options.write = false) (hformat : ReportFormat.parse? options.output = some format)
    (hpaths : ∀ path ∈ paths, IsLiteralSource path)
    (hreadable : ∃ path ∈ paths, d.isReadable path = true) :
    ∃ output,
      (runProgram (front ++ paths.filter d.isReadable) input : StateM Directory Outcome).run d =
        (⟨0, output, []⟩, d) ∧
      (runProgram (front ++ paths) input : StateM Directory Outcome).run d =
        (⟨if ∀ path ∈ paths, d.isReadable path = true then 0 else 1, output,
          (paths.filterMap d.failure?).map FileError.message ++
            failureSummary (paths.filterMap d.failure?).length paths.length⟩, d) := by
  obtain ⟨path, hpath, hread⟩ := hreadable
  have hfiltered : paths.filter d.isReadable ≠ [] :=
    List.ne_nil_of_mem (List.mem_filter.mpr ⟨hpath, hread⟩)
  have hall : ∀ path ∈ paths.filter d.isReadable, d.isReadable path = true :=
    fun path hpath => (List.mem_filter.mp hpath).2
  have hgood := @runProgram_of_print _ _ input d _ _ hfront hfiles hwrite hformat hfiltered
    fun path hpath => hpaths path (List.mem_filter.mp hpath).1
  rw [if_pos hall, Directory.filterMap_failure?_eq_nil_iff.mpr hall,
    List.filter_eq_self.mpr hall] at hgood
  exact ⟨_, hgood, runProgram_of_print hfront hfiles hwrite hformat (List.ne_nil_of_mem hpath) hpaths⟩

/-- A directory with two sources, one that holds no text and one that is a directory itself. -/
def damagedSources : Directory :=
  (((Directory.empty.add "a.m".toList (encodeText "x = 1;\n".toList)).add "b.m".toList
    ⟨#[0xff]⟩).add "c.h/".toList .empty).add "d.mm".toList (encodeText "y = 2;\n".toList)

theorem unreadable_isolated_damaged :
    ∃ output,
      (runProgram ["-o".toList, "count".toList, "a.m".toList, "d.mm".toList] ⟨true, pure .empty⟩ :
        StateM Directory Outcome).run damagedSources = (⟨0, output, []⟩, damagedSources) ∧
      (runProgram ["-o".toList, "count".toList, "b.m".toList, "a.m".toList, "c.h".toList,
        "e.m".toList, "d.mm".toList] ⟨true, pure .empty⟩ : StateM Directory Outcome).run
          damagedSources =
        (⟨1, output, ["Failed to read b.m: stream did not contain valid UTF-8".toList,
          "Failed to read c.h: Is a directory (os error 21)".toList,
          "Failed to read e.m: No such file or directory (os error 2)".toList,
          "3 of 5 files could not be translated".toList]⟩, damagedSources) := by
  have ha : damagedSources.failure? "a.m".toList = none := by decide +kernel
  have hb : damagedSources.failure? "b.m".toList = some (.unreadable "b.m".toList .notText) := by
    decide +kernel
  have hc : damagedSources.failure? "c.h".toList = some (.unreadable "c.h".toList .isDirectory) := by
    decide +kernel
  have hd : damagedSources.failure? "d.mm".toList = none := by decide +kernel
  have he : damagedSources.failure? "e.m".toList = some (.unreadable "e.m".toList .notFound) := by
    decide +kernel
  have hfront : Invocation.ofArguments ["-o".toList, "count".toList] =
      .run ⟨"count".toList, false, 4, none, false, []⟩ := rfl
  have hpaths : ∀ path ∈ ["b.m".toList, "a.m".toList, "c.h".toList, "e.m".toList, "d.mm".toList],
      IsLiteralSource path := by
    simp only [List.forall_mem_cons, List.not_mem_nil, false_implies, implies_true, and_true]
    exact ⟨⟨by decide, by decide, rfl⟩, ⟨by decide, by decide, rfl⟩, ⟨by decide, by decide, rfl⟩,
      ⟨by decide, by decide, rfl⟩, ⟨by decide, by decide, rfl⟩⟩
  have hreadable : ∃ path ∈ ["b.m".toList, "a.m".toList, "c.h".toList, "e.m".toList, "d.mm".toList],
      damagedSources.isReadable path = true :=
    ⟨"a.m".toList, .tail _ (.head _), by rw [Directory.isReadable_eq, ha]; rfl⟩
  obtain ⟨output, hgood, hall⟩ := @unreadable_isolated _ .count ⟨true, pure .empty⟩ damagedSources _ _
    hfront rfl rfl rfl hpaths hreadable
  simp only [List.filter_cons, List.filter_nil, List.filterMap_cons, List.filterMap_nil,
    List.forall_mem_cons, Directory.isReadable_eq, ha, hb, hc, hd, he] at hgood hall
  exact ⟨output, hgood, hall⟩

end Swiftward
