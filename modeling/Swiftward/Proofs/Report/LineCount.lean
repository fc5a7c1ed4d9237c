import Swiftward.Proofs.Conversion.LineFeed
import Swiftward.Proofs.Report.Reading

/-!
# Counting lines in reports

Since no line of output has a line feed, each of them is one line of the Swift text. So all forms of
a report agree on how many lines there are (`report_line_counts`): the count, the records in JSON,
and the lines of the Swift text without those that name a file.
-/

namespace Swiftward

namespace ConvertedFile

/-- No line of the file has a line feed. -/
def IsUnbroken (file : ConvertedFile) : Prop := UnbrokenOutput file.lines

lemma isUnbroken_ofText (width : Nat) (path content : Text) : (ofText width path content).IsUnbroken :=
  unbroken_convertLines width fun _ hline => unbroken_of_mem_lines hline

lemma IsUnbroken.count_text {file : ConvertedFile} (h : file.IsUnbroken) :
    file.text.count '\n' = file.lines.length := by
  have htexts : ∀ text ∈ file.lines.map (·.text), Unbroken text := by
    intro text htext
    obtain ⟨line, hline, rfl⟩ := List.mem_map.mp htext
    exact h line hline
  rw [text, outputText, count_unlines htexts, List.length_map]

end ConvertedFile

/-- The comment that names a file is a line of its own. -/
lemma count_fileComment {path : Text} (h : Unbroken path) :
    ("// ".toList ++ path ++ ['\n']).count '\n' = 1 := by
  have hlead : Unbroken "// ".toList := by decide
  rw [List.count_append, List.count_eq_zero_of_not_mem (hlead.append h)]
  rfl

lemma count_withComments (commented : Bool) {files : List ConvertedFile}
    (hfiles : ∀ file ∈ files, Unbroken file.path ∧ file.IsUnbroken) :
    (files.flatMap fun file =>
      (if commented then "// ".toList ++ file.path ++ ['\n'] else []) ++ file.text).count '\n' =
        (files.flatMap (·.lines)).length + if commented then files.length else 0 := by
  induction files with
  | nil => cases commented <;> rfl
  | cons file files ih =>
    obtain ⟨⟨hpath, hfile⟩, hrest⟩ := List.forall_mem_cons.mp hfiles
    rw [List.flatMap_cons, List.count_append, List.count_append, ih hrest, hfile.count_text,
      List.flatMap_cons, List.length_append, List.length_cons]
    cases commented with
    | false => simp
    | true =>
      rw [if_pos rfl, count_fileComment hpath]
      simp only [if_true]
      omega

/-- The Swift text has a line for each line of output, and one for each file if there are several. -/
lemma count_swiftReport {files : List ConvertedFile}
    (hfiles : ∀ file ∈ files, Unbroken file.path ∧ file.IsUnbroken) :
    (swiftReport files).count '\n' =
      (files.flatMap (·.lines)).length + if 1 < files.length then files.length else 0 := by
  have hcount := count_withComments (decide (1 < files.length)) hfiles
  simpa only [swiftReport, gt_iff_lt, decide_eq_true_eq] using hcount

/-- No line that sources are converted to has a line feed. Where the paths have none either, the
number that is reported is the number of records in JSON, and the number of lines in Swift, of which
one names each file if there are several. -/
theorem report_line_counts (width : Nat) {sources : List (Text × Text)}
    (hpaths : ∀ source ∈ sources, '\n' ∉ source.1) :
    let files := sources.map fun source => ConvertedFile.ofText width source.1 source.2
    (∀ file ∈ files, ∀ line ∈ file.lines, '\n' ∉ line.text) ∧
      ∃ n records, report .count files = Nat.toDigits 10 n ++ ['\n'] ∧
        Json.read? (report .json files) = some (.array records) ∧ records.length = n ∧
        (report .swift files).count '\n' = n + if 1 < files.length then files.length else 0 := by
  intro files
  have hfiles : ∀ file ∈ files, Unbroken file.path ∧ file.IsUnbroken := by
    intro file hfile
    obtain ⟨source, hsource, rfl⟩ := List.mem_map.mp hfile
    exact ⟨hpaths source hsource, ConvertedFile.isUnbroken_ofText width source.1 source.2⟩
  refine ⟨fun file hfile => (hfiles file hfile).2, (files.flatMap ConvertedFile.lines).length, _,
    rfl, Json.read?_jsonReport files, ?_, count_swiftReport hfiles⟩
  simp [List.length_flatMap]

/-- Two sources, the first of which has a comment, a carriage return in front of its line feed, and a
header whose body follows. -/
def twoSources : List (Text × Text) :=
  [("a.m".toList, "if (x)\r\n    [a b:@\"\t\"]; // c\r\n".toList),
    ("b.m".toList, "\n- (void)run;".toList)]

theorem report_line_counts_twoSources :
    (∀ source ∈ twoSources, '\n' ∉ source.1) ∧
      ∃ n records,
        report .count (twoSources.map fun source => .ofText 4 source.1 source.2) =
          Nat.toDigits 10 n ++ ['\n'] ∧
        Json.read? (report .json (twoSources.map fun source => .ofText 4 source.1 source.2)) =
          some (.array records) ∧ records.length = n ∧
        (report .swift (twoSources.map fun source => .ofText 4 source.1 source.2)).count '\n' =
          n + 2 := by
  have hpaths : ∀ source ∈ twoSources, '\n' ∉ source.1 := by decide
  exact ⟨hpaths, (report_line_counts 4 hpaths).2⟩

end Swiftward
