import Swiftward.Proofs.Conversion.Account
import Swiftward.Proofs.Conversion.Interface
import Swiftward.Proofs.Declaration.Field

/-!
# Lists of instance variables

The list of an implementation is opened on its own line or by a brace on the line behind it, and
goes on to the first line whose code is a closing brace, or to the end. One step takes exactly these
lines, and makes of them the header, an empty line, and a line for each of them that declares an
instance variable (`Converter.step_implementation`).
-/

namespace Swiftward

namespace LineSource

variable {s : LineSource} {line : Text} {lines body closing rest : List Text} {p stop : Text → Bool}

/-! ### Reading on by lines -/

/-- The source with the next `n` lines fetched and consumed. -/
def advance (s : LineSource) (n : Nat) : LineSource :=
  { s with pending := s.pending.drop n, fetched := s.fetched + n }

@[simp] lemma lookahead_advance (n : Nat) : (s.advance n).lookahead = s.lookahead := rfl

@[simp] lemma fetched_advance (n : Nat) : (s.advance n).fetched = s.fetched + n := rfl

@[simp] lemma advance_zero : s.advance 0 = s := rfl

@[simp] lemma advance_advance (m n : Nat) : (s.advance m).advance n = s.advance (m + n) := by
  simp [advance, Nat.add_assoc, Nat.add_comm m n]

lemma lineNumber_advance (hnone : s.lookahead = none) (n : Nat) :
    (s.advance n).lineNumber = s.fetched + n := by
  simp [lineNumber, hnone]

lemma texts_of_lookahead (hnone : s.lookahead = none) :
    s.texts = s.pending.map s.asFetched := by
  simp only [texts, upcoming, hnone, Option.toList_none, List.map_nil, List.nil_append,
    List.map_map]
  exact List.map_congr_left fun line _ => (s.asFetched_eq line).symm

lemma texts_advance (hnone : s.lookahead = none) (n : Nat) :
    (s.advance n).texts = s.texts.drop n := by
  rw [texts_of_lookahead hnone, texts_of_lookahead (s := s.advance n) hnone, ← List.map_drop]
  rfl

lemma next?_of_texts (hnone : s.lookahead = none) (h : s.texts = line :: lines) :
    s.next? = some (line, s.advance 1) := by
  rw [texts_of_lookahead hnone] at h
  obtain ⟨first, pending, hpending, rfl, -⟩ := List.map_eq_cons_iff.mp h
  simp [next?, hnone, fetch?, hpending, advance]

lemma next?_of_texts_nil (h : s.texts = []) : s.next? = none := by
  rw [Option.eq_none_iff_forall_ne_some]
  rintro ⟨line, t⟩ hnext
  rw [texts_of_next? hnext] at h
  cases h

/-- A line that passes the test is consumed. -/
lemma skipIf_eq_advance (hnone : s.lookahead = none) (h : s.texts = line :: lines)
    (hp : p line = true) : s.skipIf p = (true, s.advance 1) := by
  have hfetch : s.fetch? = some (line, s.advance 1) := by
    simpa only [next?, hnone] using next?_of_texts hnone h
  have hpeek : s.peek = (some line, { s.advance 1 with lookahead := some line }) := by
    rw [peek, hnone, hfetch]
  have hconsume : ({ s.advance 1 with lookahead := some line } : LineSource).consume =
      s.advance 1 := by
    simp [consume, advance, hnone]
  rw [skipIf, nextWhere, hpeek]
  simp only [hp, if_true, hconsume]
  rfl

/-- The list of lines is closed by one that stops the scan, or by the end of all lines. -/
inductive Closes (stop : Text → Bool) : List Text → List Text → Prop where
  | line {last : Text} (hlast : stop last = true) (rest : List Text) : Closes stop [last] rest
  | endOfLines : Closes stop [] []

/-- A scan takes the lines up to the one that stops it, and gives all before that with their
numbers. -/
lemma readUntil_of_texts (hnone : s.lookahead = none) (h : s.texts = body ++ (closing ++ rest))
    (hbody : ∀ line ∈ body, stop line = false) (hclosing : Closes stop closing rest) :
    s.readUntil stop = ((body.zipIdx (s.fetched + 1)).map Prod.swap,
      s.advance (body ++ closing).length) := by
  induction body generalizing s with
  | nil =>
    cases hclosing with
    | line hlast =>
      rw [readUntil_of_next? (next?_of_texts hnone h), if_pos hlast]
      rfl
    | endOfLines =>
      rw [readUntil_of_none (next?_of_texts_nil h)]
      rfl
  | cons line body ih =>
    rw [List.forall_mem_cons] at hbody
    have hrest : (s.advance 1).texts = body ++ (closing ++ rest) := by
      simp [texts_advance hnone, h]
    rw [readUntil_of_next? (next?_of_texts hnone h), if_neg (by simp [hbody.1]),
      ih (s := s.advance 1) hnone hrest hbody.2, advance_advance, lineNumber_advance hnone,
      List.zipIdx_cons, List.map_cons, List.cons_append, List.length_cons,
      Nat.add_comm 1]
    rfl

end LineSource

/-! ### The lines of a list -/

/-- A line of Swift for each line that declares an instance variable, with its comment. The first
line has the given number. -/
def fieldLines (first : Nat) (lines : List Text) : List OutputLine :=
  (lines.zipIdx first).filterMap fun (line, number) =>
    (Field.parse? (splitComment line).1).map fun field =>
      ⟨number, field.render ++ (splitComment line).2⟩

/-- The lines behind a header that open its list: none if the header does that itself, and
otherwise a single brace. -/
inductive OpensFields (header : ImplementationHeader) : List Text → Prop where
  | header (h : header.opensFields = true) : OpensFields header []
  | brace (h : header.opensFields = false) {line : Text} (hline : trim line = ['\x7b']) :
    OpensFields header [line]

section Fields

open LineSource

variable {s : LineSource} {header : ImplementationHeader} {brace fields closing rest : List Text}

lemma convertFields_of_texts (hnone : s.lookahead = none)
    (h : s.texts = fields ++ (closing ++ rest)) (hfields : ∀ line ∈ fields, isClosing line = false)
    (hclosing : LineSource.Closes isClosing closing rest) :
    (convertFields s).lines = fieldLines (s.fetched + 1) fields ∧
      (convertFields s).source = s.advance (fields ++ closing).length := by
  have hread : s.readUntil isClosing = _ := s.readUntil_of_texts hnone h hfields hclosing
  constructor
  · show (s.readUntil isClosing).1.filterMap _ = _
    rw [hread, List.filterMap_map]
    rfl
  · show (s.readUntil isClosing).2 = _
    rw [hread]

/-- The header, an empty line and the instance variables, and the source behind the list. -/
lemma convertImplementation_of_texts (comment : Text) (hnone : s.lookahead = none)
    (h : s.texts = brace ++ (fields ++ (closing ++ rest))) (hbrace : OpensFields header brace)
    (hfields : ∀ line ∈ fields, isClosing line = false)
    (hclosing : LineSource.Closes isClosing closing rest) :
    (convertImplementation header comment s).lines =
        ⟨s.fetched, header.render ++ comment⟩ :: ⟨s.fetched + brace.length, []⟩ ::
          fieldLines (s.fetched + brace.length + 1) fields ∧
      (convertImplementation header comment s).source =
        s.advance (brace ++ (fields ++ closing)).length := by
  have hstart : s.lineNumber = s.fetched := lineNumber_advance hnone 0
  cases hbrace with
  | header hopens =>
    have htexts : s.texts = fields ++ (closing ++ rest) := h
    obtain ⟨hlines, hsource⟩ := convertFields_of_texts hnone htexts hfields hclosing
    simp only [convertImplementation, hopens, if_true, Conversion.lines_prepend,
      Conversion.source_prepend, LineSource.emit, hstart, hlines, hsource]
    exact ⟨rfl, rfl⟩
  | brace hopens hline =>
    have hskip := skipIf_eq_advance hnone h (p := isLoneBrace) (by simpa [isLoneBrace] using hline)
    have hpassed : (s.skipIf isLoneBrace).1 = true := by rw [hskip]
    have hbehind : (s.skipIf isLoneBrace).2 = s.advance 1 := by rw [hskip]
    obtain ⟨hlines, hsource⟩ := convertFields_of_texts (s := (s.skipIf isLoneBrace).2)
      (by rw [hbehind]; exact hnone) (by simp [hbehind, texts_advance hnone, h]) hfields hclosing
    simp only [convertImplementation, hopens, Bool.false_eq_true, if_false, hpassed, if_true,
      Conversion.lines_weaken, Conversion.source_weaken, Conversion.lines_prepend,
      Conversion.source_prepend, hlines, hsource]
    rw [hbehind]
    simp only [LineSource.emit, hstart, lineNumber_advance hnone, advance_advance]
    exact ⟨rfl, by simp [Nat.add_comm]⟩

end Fields

/-- What is read as the header of an implementation is nothing else. -/
lemma ImplementationHeader.isConstruct {line : Text} {header : ImplementationHeader}
    (h : ImplementationHeader.parse? (splitComment line).1 = some header) :
    IsConstruct line (.implementation header) (splitComment line).2 := by
  obtain ⟨behind, hlead, -⟩ := Option.bind_eq_some_iff.mp h
  have hcode := after?_eq_some_iff.mp hlead
  refine ⟨by simp [hcode], ?_, rfl⟩
  have himport : Import.parse? (splitComment line).1 = none := by
    rw [hcode]
    rfl
  rw [Construct.ofCode, himport, h]

namespace Converter

/-- The step at the header of an implementation with a list of instance variables takes the header,
the brace that opens the list, if it is not on the line of the header, and all lines up to the one
that closes the list, or all lines that there are. It hands out the header, an empty line, and a line
for each line of the list that declares an instance variable. These are the lines that spell one. -/
theorem step_implementation {c : Converter} {line : Text} {t : LineSource}
    {header : ImplementationHeader} {brace fields closing rest : List Text}
    (hnext : c.source.next? = some (line, t))
    (hheader : ImplementationHeader.parse? (splitComment line).1 = some header)
    (hlines : t.texts = brace ++ (fields ++ (closing ++ rest))) (hbrace : OpensFields header brace)
    (hfields : ∀ line ∈ fields, isClosing line = false)
    (hclosing : LineSource.Closes isClosing closing rest) :
    c.step = (.emitted (⟨t.fetched, header.render ++ (splitComment line).2⟩ ::
          ⟨t.fetched + brace.length, []⟩ :: fieldLines (t.fetched + brace.length + 1) fields),
        { c with source := t.advance (brace ++ (fields ++ closing)).length }) ∧
      (t.advance (brace ++ (fields ++ closing)).length).texts = rest ∧
      ∀ code field, Field.parse? code = some field ↔ field.SpelledBy code := by
  have hnone := LineSource.lookahead_next? hnext
  obtain ⟨hout, hsource⟩ :=
    convertImplementation_of_texts (splitComment line).2 hnone hlines hbrace hfields hclosing
  have hunit : Converts (.unit line) t _ _ :=
    .alone (.implementation (ImplementationHeader.isConstruct hheader))
  obtain ⟨unit, hconvert, hunitLines, hunitSource⟩ := hunit.exists_convertNext hnext
  refine ⟨?_, ?_, fun _ _ => Field.parse?_eq_some_iff⟩
  · refine Prod.ext ?_ ?_
    · rw [step_eq_ofLines hconvert, hunitLines, hout]
      rfl
    · rw [(step_of_some hconvert).2.2, hunitSource, hsource]
  · have hall : brace ++ (fields ++ (closing ++ rest)) = brace ++ (fields ++ closing) ++ rest := by
      simp
    rw [LineSource.texts_advance hnone, hlines, hall, List.drop_left]

/-- An implementation whose list of instance variables a brace of its own opens, and one of whose
lines declares no variable. -/
def bracedImplementation : List Text :=
  ["@implementation Foo (Bar) // a".toList, "\x7b".toList, "    NSString * name ; // b".toList,
    "    int *".toList, "\x7d // c".toList, "@end".toList]

theorem step_implementation_braced :
    (ofLines 4 bracedImplementation).step.1 =
      .emitted [⟨1, "extension Foo \x7b // a".toList⟩, ⟨2, []⟩,
        ⟨3, "private var name: String? // b".toList⟩] := by
  have hheader : ImplementationHeader.parse? (splitComment "@implementation Foo (Bar) // a".toList).1 =
      some ⟨"Foo".toList, some "Bar".toList, false⟩ := by decide +kernel
  have hbrace : OpensFields ⟨"Foo".toList, some "Bar".toList, false⟩ ["\x7b".toList] :=
    .brace rfl (by decide)
  have hfields : ∀ line ∈ ["    NSString * name ; // b".toList, "    int *".toList],
      isClosing line = false := by decide +kernel
  have hclosing : LineSource.Closes isClosing ["\x7d // c".toList] ["@end".toList] :=
    .line (by decide +kernel) _
  have hstep := step_implementation (c := ofLines 4 bracedImplementation) rfl hheader
    (by decide +kernel) hbrace hfields hclosing
  rw [hstep.1]
  decide +kernel

end Converter

end Swiftward
