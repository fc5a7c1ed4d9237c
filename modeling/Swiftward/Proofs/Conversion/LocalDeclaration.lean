import Swiftward.Proofs.Conversion.Derivation
import Swiftward.Proofs.Statement.LocalDeclaration

/-!
# Statements that are declarations

A statement that is claimed by no earlier rule is a declaration if it is written like one, and
otherwise it stays as it is (`LocalDeclaration.reads_declaration_lines`).
-/

namespace Swiftward

/-! ### Statements that no other rule claims -/

/-- The code is claimed neither by the rules for declarations outside methods nor by those for
conditionals and delegation, and the line is what its substitutions and sends make of it. -/
structure IsUnclaimed (code line : Text) : Prop where
  code_ne_nil : code ≠ []
  not_import : Import.parse? code = none
  not_implementation : ImplementationHeader.parse? code = none
  not_interface : InterfaceHeader.parse? code = none
  not_blockEnd : isBlockEnd code = false
  not_synthesize : isSynthesize code = false
  not_method : MethodHeader.sigil? code = none
  collapsed : collapseSends (substitute code) = line
  not_conditional : Conditional.parse? line = none
  not_delegation : isSelfDelegation (substitute code) = false

lemma IsUnclaimed.statement_eq {code line : Text} (h : IsUnclaimed code line) :
    Statement.ofCode code =
      .done ((LocalDeclaration.parse? line).elim line LocalDeclaration.render) := by
  dsimp only [Statement.ofCode]
  rw [h.collapsed, h.not_conditional, h.not_delegation]
  cases LocalDeclaration.parse? line <;> rfl

lemma IsUnclaimed.construct_eq {code line : Text} (h : IsUnclaimed code line) :
    Construct.ofCode code =
      .statement (.done ((LocalDeclaration.parse? line).elim line LocalDeclaration.render)) := by
  rw [← h.statement_eq, Construct.ofCode, h.not_import, h.not_implementation, h.not_interface,
    h.not_blockEnd, h.not_synthesize, h.not_method]
  rfl

/-- An unclaimed line becomes the declaration that it is read as, or else it stays. -/
lemma IsUnclaimed.convertUnit_eq {source line : Text}
    (h : IsUnclaimed (splitComment source).1 line) (s : LineSource) :
    (convertUnit source s).lines =
        [s.emit ((LocalDeclaration.parse? line).elim line LocalDeclaration.render ++
          (splitComment source).2)] ∧
      (convertUnit source s).source = s :=
  (Alone.done ⟨h.code_ne_nil, h.construct_eq, rfl⟩).unit_eq

namespace LocalDeclaration

/-- A line is read as a declaration exactly if it is put together from the parts of one, and then it
is read as what these declare. The parts are told by the line, up to white space at the start of the
value. Of the statements that no other rule claims, these lines become declarations, and the others
stay as they are. -/
theorem reads_declaration_lines (line : Text) :
    (∀ d, parse? line = some d ↔ ∃ l : DeclarationLine, l.text = line ∧ l.declaration = d) ∧
      ((parse? line).isSome = true ↔ ∃! l : DeclarationLine, l.text = line ∧ l.IsTight) ∧
      (∀ l l' : DeclarationLine, l.text = line → l'.text = line →
        l.indent = l'.indent ∧ l.type = l'.type ∧ l.name = l'.name ∧ l.behindName = l'.behindName ∧
          l.assignment = l'.assignment) ∧
      ∀ (source : Text) (s : LineSource), IsUnclaimed (splitComment source).1 line →
        (∀ l : DeclarationLine, l.text = line → (convertUnit source s).lines =
          [s.emit (l.declaration.render ++ (splitComment source).2)]) ∧
        ((∀ l : DeclarationLine, l.text ≠ line) → (convertUnit source s).lines =
          [s.emit (line ++ (splitComment source).2)]) ∧
        (convertUnit source s).source = s := by
  have hreads (d : LocalDeclaration) :
      parse? line = some d ↔ ∃ l : DeclarationLine, l.text = line ∧ l.declaration = d := by
    constructor
    · intro h
      obtain ⟨l, htext, -, hdeclaration⟩ := exists_of_parse? h
      exact ⟨l, htext, hdeclaration⟩
    · rintro ⟨l, rfl, rfl⟩
      exact parse?_declarationLine l
  refine ⟨hreads, ⟨fun h => ?_, ?_⟩, ?_, fun source s hunclaimed => ?_⟩
  · obtain ⟨d, hd⟩ := Option.isSome_iff_exists.mp h
    obtain ⟨l, htext, htight, -⟩ := exists_of_parse? hd
    refine ⟨l, ⟨htext, htight⟩, fun l' ⟨htext', htight'⟩ => ?_⟩
    exact DeclarationLine.eq_of_text_eq htight' htight (htext'.trans htext.symm)
  · rintro ⟨l, ⟨rfl, -⟩, -⟩
    rw [parse?_declarationLine, Option.isSome_some]
  · intro l l' hl hl'
    exact DeclarationLine.parts_of_text_eq (hl.trans hl'.symm)
  · obtain ⟨hlines, hsource⟩ := hunclaimed.convertUnit_eq s
    refine ⟨?_, fun hnone => ?_, hsource⟩
    · rintro l rfl
      rw [hlines, parse?_declarationLine, Option.elim_some]
    · have hunread : parse? line = none := by
        rw [Option.eq_none_iff_forall_ne_some]
        intro d hd
        obtain ⟨l, htext, -⟩ := (hreads d).mp hd
        exact hnone l htext
      rw [hlines, hunread, Option.elim_none]

/-- A line with a value that is sent for, in its parts. -/
def titleLine : DeclarationLine where
  indent := ⟨"  ".toList, List.all_eq_true.mp (by decide)⟩
  type := ⟨"NSString".toList, " *".toList, by decide, by decide, by decide,
    List.all_eq_true.mp (by decide)⟩
  name := "title".toList
  behindName := .space
  assigned? := some ⟨.space, "self.title()".toList, by decide⟩
  isIdentifier_name := by decide

/-- A declaration with the message that is sent for its value, and a statement that begins with a
word that is no type. -/
theorem reads_declaration_lines_sent :
    IsUnclaimed (splitComment "  NSString *title = [self title]; // shown".toList).1
        titleLine.text ∧
      (convertUnit "  NSString *title = [self title]; // shown".toList (.ofLines 4 [])).lines =
        [⟨0, "  let title = self.title() // shown".toList⟩] ∧
      IsUnclaimed (splitComment "return title;".toList).1 "return title".toList ∧
      (convertUnit "return title;".toList (.ofLines 4 [])).lines =
        [⟨0, "return title".toList⟩] := by
  have hsent : IsUnclaimed (splitComment "  NSString *title = [self title]; // shown".toList).1
      titleLine.text := by
    constructor <;> decide +kernel
  have hreturn : IsUnclaimed (splitComment "return title;".toList).1 "return title".toList := by
    constructor <;> decide +kernel
  refine ⟨hsent, ?_, hreturn, ?_⟩
  · obtain ⟨hdeclared, -⟩ := (reads_declaration_lines _).2.2.2 _ (.ofLines 4 []) hsent
    rw [hdeclared titleLine rfl]
    decide +kernel
  · obtain ⟨hread, -, -, hconverted⟩ := reads_declaration_lines "return title".toList
    obtain ⟨-, hstays, -⟩ := hconverted _ (.ofLines 4 []) hreturn
    have hnone : ∀ l : DeclarationLine, l.text ≠ "return title".toList := by
      intro l htext
      have hsome := (hread _).mpr ⟨l, htext, rfl⟩
      rw [show parse? "return title".toList = none by decide +kernel] at hsome
      cases hsome
    rw [hstays hnone]
    decide +kernel

end LocalDeclaration

end Swiftward
