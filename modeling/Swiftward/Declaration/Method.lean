import Swiftward.SwiftType
import Swiftward.Text.Comment
import Swiftward.Text.Label
import Swiftward.Text.Offset

/-!
# Method headers

A method header `- (T)name:(T1)p1 label:(T2)p2` may go on over several lines, each with one more
parameter. A method whose name begins with `init` becomes an initializer, and what follows
`initWith` labels its first parameter.

In Swift the continued parameters stay on lines of their own, each with its comment.
-/

namespace Swiftward

/-- The text before the first closing parenthesis, of which there has to be some, and the rest. -/
def upToClose? (s : Text) : Option (Text × Text) :=
  match s.takeWhile (· ≠ ')') with
  | [] => none
  | front => (after? ")" (s.dropWhile (· ≠ ')'))).map fun rest => (front, rest)

/-- Reads `(Type)name`: the type, the name and the rest. -/
def typedName? (s : Text) : Option (Text × Text × Text) := do
  let s ← after? "(" (trimStart s)
  let (type, s) ← upToClose? s
  let (name, s) ← nextWord? (trimStart s)
  some (trim type, name, s)

/-- A text without the brace that it ends with, and whether there was one. -/
def stripBrace (s : Text) : Text × Bool :=
  match before? '\x7b' s with
  | some front => (trimEnd front, true)
  | none => (s, false)

/-! ### Parameters -/

/-- A parameter `keyword:(Type)name`. -/
structure Param where
  keyword : Text
  type : Text
  name : Text
  deriving DecidableEq, Repr

namespace Param

/-- Reads a parameter on the line of the header; its keyword may be empty. -/
def next? (s : Text) : Option (Param × Text) := do
  let s := trimStart s
  let rest ← after? ":" (trimStart (s.dropWhile isWord))
  let (type, name, rest) ← typedName? rest
  some (⟨s.takeWhile isWord, type, name⟩, rest)

/-- The parameter in Swift, with a label where that differs from the name. -/
def render (param : Param) : Text :=
  let declared := param.name ++ ": ".toList ++ swiftType param.type
  if param.keyword = [] ∨ param.keyword = param.name then declared
  else param.keyword ++ ' ' :: declared

end Param

theorem length_upToClose?_lt {s front rest : Text} (h : upToClose? s = some (front, rest)) :
    rest.length < s.length := by
  unfold upToClose? at h
  split at h
  · simp at h
  · obtain ⟨t, ht, he⟩ := Option.map_eq_some_iff.mp h
    simp only [Prod.mk.injEq] at he
    obtain ⟨-, rfl⟩ := he
    have := length_after?_le ht
    have := length_dropWhile_le (· ≠ ')') s
    simp at *
    omega

theorem length_typedName?_lt {s type name rest : Text} (h : typedName? s = some (type, name, rest)) :
    rest.length < s.length := by
  simp only [typedName?, Option.bind_eq_bind, Option.bind_eq_some_iff, Prod.exists] at h
  obtain ⟨s₁, h₁, spelling, s₂, h₂, word, s₃, h₃, he⟩ := h
  simp only [Option.some.injEq, Prod.mk.injEq] at he
  obtain ⟨-, -, rfl⟩ := he
  have := length_after?_le h₁
  have := length_upToClose?_lt h₂
  have := length_nextWord?_lt h₃
  have := length_trimStart_le s
  have := length_trimStart_le s₂
  omega

theorem Param.length_next?_lt {s rest : Text} {param : Param} (h : next? s = some (param, rest)) :
    rest.length < s.length := by
  simp only [next?, Option.bind_eq_bind, Option.bind_eq_some_iff, Prod.exists] at h
  obtain ⟨s₁, h₁, type, name, s₂, h₂, he⟩ := h
  simp only [Option.some.injEq, Prod.mk.injEq] at he
  obtain ⟨-, rfl⟩ := he
  have := length_after?_le h₁
  have := length_typedName?_lt h₂
  have := length_trimStart_le s
  have := length_trimStart_le ((trimStart s).dropWhile isWord)
  have := length_dropWhile_le isWord (trimStart s)
  omega

/-- All parameters at the start of a text. -/
def paramsOf (s : Text) : List Param :=
  match _h : Param.next? s with
  | none => []
  | some (param, rest) => param :: paramsOf rest
termination_by s.length
decreasing_by exact Param.length_next?_lt _h

/-- A parameter on a line of its own, and the comment of that line. -/
structure Continuation where
  param : Param
  /-- Whether the line ends with the brace of the method body. -/
  opensBody : Bool
  comment : Text
  deriving DecidableEq, Repr

/-- Reads a line that continues a method header. -/
def Continuation.parse? (line : Text) : Option Continuation := do
  let (code, comment) := splitComment line
  let (code, opensBody) := stripBrace code
  let s ← afterSpace? code
  let (keyword, s) ← nextWord? s
  let s ← after? ":" s
  let (type, name, _) ← typedName? s
  some ⟨⟨keyword, type, name⟩, opensBody, comment⟩

/-! ### Headers -/

/-- A method header. -/
structure MethodHeader where
  isClassMethod : Bool
  returnType : Text
  name : Text
  /-- The parameters on the first line. The keyword of the first is empty, as the method name
  stands in its place. -/
  params : List Param
  /-- The parameters on later lines. -/
  continued : List Continuation
  hasBrace : Bool
  deriving DecidableEq, Repr

namespace MethodHeader

/-- Whether a `+` or a `-` begins a line, and the rest. -/
def sigil? : Text → Option (Bool × Text)
  | '+' :: s => some (true, s)
  | '-' :: s => some (false, s)
  | _ => none

/-- Reads the first line of a method header. -/
def parse? (line : Text) : Option MethodHeader := do
  let (body, hasBrace) := stripBrace (trimEnd line)
  let (isClassMethod, s) ← sigil? body
  let (returnType, name, s) ← typedName? s
  let params := match paramsOf s with
    | [] => []
    | first :: more => { first with keyword := [] } :: more
  some ⟨isClassMethod, returnType, name, params, [], hasBrace⟩

/-- Whether the method is an initializer. -/
def isInitializer (header : MethodHeader) : Bool :=
  (after? "init" header.name).isSome || (after? "_init" header.name).isSome

/-- Whether the next line may continue the header. -/
def acceptsContinuation (header : MethodHeader) : Bool :=
  !header.hasBrace && !header.params.isEmpty

/-- The header with the parameter of one more line. -/
def continueWith (header : MethodHeader) (continuation : Continuation) : MethodHeader :=
  { header with
    continued := header.continued ++ [continuation]
    hasBrace := header.hasBrace || continuation.opensBody }

/-- The part of an initializer's name that labels its first parameter. -/
def initializerLabel? (name : Text) : Option Text := do
  let label ← after? "initWith" ((after? "_" name).getD name)
  if label = [] then none else some (downcaseFirst label)

/-- The parameters of the first line, as labelled in Swift. -/
def labelledParams (header : MethodHeader) : List Param :=
  match header.isInitializer, header.params, initializerLabel? header.name with
  | true, first :: more, some label => { first with keyword := label } :: more
  | _, params, _ => params

/-- The brace of the body, where the header has one. -/
def brace (header : MethodHeader) : Text := if header.hasBrace then " \x7b".toList else []

/-- The arrow and the result type, unless the method returns nothing. -/
def returnClause (header : MethodHeader) : Text :=
  if header.returnType = "void".toList then []
  else " -> ".toList ++ swiftType header.returnType

/-- The words before the name of a function. -/
def declarator (header : MethodHeader) : Text :=
  (if header.isClassMethod then "class func " else "func ").toList

/-- Everything up to and with the opening parenthesis, for a method with parameters. -/
def opening (header : MethodHeader) : Text :=
  if header.isInitializer then "init(".toList else header.declarator ++ header.name ++ ['(']

/-- The column at which continued parameters begin. -/
def indentation (header : MethodHeader) : Nat :=
  if header.isInitializer then 5 else byteSize header.name + 6

/-- Everything behind the last parameter. -/
def closing (header : MethodHeader) : Text :=
  ')' :: (if header.isInitializer then [] else header.returnClause) ++ header.brace

/-- The lines of a header from the one that begins with `current` and ends with `comment`. -/
def linesFrom (header : MethodHeader) (current comment : Text) : List Continuation → List Text
  | [] => [current ++ header.closing ++ comment]
  | continuation :: more =>
    (current ++ ',' :: comment) ::
      header.linesFrom (List.replicate header.indentation ' ' ++ continuation.param.render)
        continuation.comment more

/-- The header in Swift, on as many lines as it was read from. -/
def render (header : MethodHeader) : List Text :=
  if header.params = [] then
    if header.name = "init".toList then ["init()".toList ++ header.brace]
    else [header.declarator ++ header.name ++ "()".toList ++ header.returnClause ++ header.brace]
  else
    let params := header.labelledParams.map Param.render
    header.linesFrom (header.opening ++ ", ".toList.intercalate params) [] header.continued

end MethodHeader

end Swiftward
