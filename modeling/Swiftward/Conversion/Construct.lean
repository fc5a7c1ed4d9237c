import Swiftward.Declaration.ClassHeader
import Swiftward.Declaration.Import
import Swiftward.Declaration.Method
import Swiftward.MessageSend.Collapse
import Swiftward.Statement.Conditional
import Swiftward.Statement.Delegation
import Swiftward.Statement.LocalDeclaration
import Swiftward.Statement.Terminator

/-!
# Constructs

What the code of a line is, as far as the line itself tells. A line that is no declaration is a
statement: after the substitutions its message sends are converted, and it is then the header of a
conditional or is done.
-/

namespace Swiftward

/-- A statement after everything that its own line decides. -/
inductive Statement where
  | conditional (header : Conditional)
  | done (text : Text)
  deriving DecidableEq, Repr

/-- The statement that a line of code is. -/
def Statement.ofCode (code : Text) : Statement :=
  let substituted := substitute code
  let converted := collapseSends substituted
  match Conditional.parse? converted with
  | some header => conditional header
  | none =>
    if isSelfDelegation substituted then done ((dropSelfAssignment? converted).getD converted)
    else match LocalDeclaration.parse? converted with
      | some declaration => done declaration.render
      | none => done converted

/-- What a line of code is. -/
inductive Construct where
  | imported (what : Import)
  | implementation (header : ImplementationHeader)
  | interface (header : InterfaceHeader)
  | blockEnd
  | synthesize
  | method (header : MethodHeader)
  | statement (what : Statement)
  deriving DecidableEq, Repr

/-- The construct that a line of code is. A line with the sigil of a method that is no method
header is a statement that is done as it stands. -/
def Construct.ofCode (code : Text) : Construct :=
  match Import.parse? code, ImplementationHeader.parse? code, InterfaceHeader.parse? code with
  | some what, _, _ => imported what
  | none, some header, _ => implementation header
  | none, none, some header => interface header
  | none, none, none =>
    if isBlockEnd code then blockEnd
    else if isSynthesize code then synthesize
    else if (MethodHeader.sigil? code).isSome then
      match MethodHeader.parse? code with
      | some header => method header
      | none => statement (.done code)
    else statement (.ofCode code)

end Swiftward
