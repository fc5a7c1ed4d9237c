import Swiftward.Text.Label
import Swiftward.Text.Quoting
import Swiftward.Text.Token
import Swiftward.Text.Trim

/-!
# Message sends

The interior of one pair of brackets, such as `list addObject:x at:0`, is a receiver and either a
single selector or keywords with an argument each. In call syntax:

* `Foo bar` is `Foo.bar()`, `Foo alloc` is `Foo` and `Foo init` is `Foo()`;
* `foo setX:1 y:2` is `foo.setX(1, y: 2)`;
* a first keyword that begins with `init` makes a constructor call, whose first argument is
  labelled by what follows `initWith`: `Foo initWithName:n` is `Foo(name: n)`.

A keyword is a word outside literals with a colon right behind it.
-/

namespace Swiftward

variable {α : Type} [Symbol α]

/-- A message and the expression it is sent to. -/
inductive MessageSend (α : Type) where
  /-- A message without arguments. -/
  | unary (receiver : List α) (selector : Text)
  /-- A message of one or more keywords, each with its argument. -/
  | keyword (receiver : List α) (first : Text) (argument : List α) (more : List (Text × List α))
  deriving DecidableEq, Repr

/-- Whether a text read in state `q` has a square bracket outside its literals. -/
def hasBareBracketFrom (q : Quoting) : List α → Bool
  | [] => false
  | a :: s => q.bare '[' a || q.bare ']' a || hasBareBracketFrom (q.step a) s

/-- Whether a text has a square bracket outside its literals. -/
def hasBareBracket (s : List α) : Bool := hasBareBracketFrom .code s

/-- A text read in state `q`, cut at its keywords: what stands before the first of them, and each
keyword with what stands behind it. -/
def cutAtKeywords (q : Quoting) : List (Token α) → List α × List (Text × List α)
  | [] => ([], [])
  | .other a :: rest =>
    let (lead, keywords) := cutAtKeywords (q.step a) rest
    (a :: lead, keywords)
  | .word w :: .other a :: rest =>
    let (lead, keywords) := cutAtKeywords ((q.run w).step a) rest
    if q.bare ':' a then ([], (w, lead) :: keywords)
    else (Symbol.ofText w ++ a :: lead, keywords)
  | .word w :: rest =>
    let (lead, keywords) := cutAtKeywords (q.run w) rest
    (Symbol.ofText w ++ lead, keywords)

namespace MessageSend

/-- Reads a receiver without white space and a selector. -/
def unary? (s : List α) : Option (MessageSend α) :=
  let receiver := s.takeWhile (!isSpace ·)
  match receiver.getLast?, word? (trimStart (s.dropWhile (!isSpace ·))) with
  | some a, some selector =>
    if isChar ':' a || isChar ',' a then none else some (unary receiver selector)
  | _, _ => none

/-- Reads a receiver and its keywords. A single keyword has to have an argument, and nested sends
have to be resolved already. -/
def keyword? (s : List α) : Option (MessageSend α) :=
  let (lead, keywords) := cutAtKeywords .code (Token.ofText s)
  match trim lead, keywords.map fun (k, argument) => (k, trim argument) with
  | [], _ => none
  | _, [] => none
  | _, [(_, [])] => none
  | receiver, (first, argument) :: more =>
    if hasBareBracket s then none else some (keyword receiver first argument more)

/-- Reads the interior of a pair of brackets. -/
def parse? (s : List α) : Option (MessageSend α) :=
  let s := trim s
  unary? s <|> keyword? s

/-- What stands between the receiver and the first argument of a call. -/
def callHead (first : Text) : Text :=
  match after? "init" first with
  | none => '.' :: first ++ ['(']
  | some rest =>
    match after? "With" rest with
    | some (c :: label) => '(' :: downcaseFirst (c :: label) ++ [':', ' ']
    | _ => ['(']

/-- A further argument of a call, with its label. -/
def labelled : Text × List α → List α
  | (label, argument) => Symbol.ofText (", ".toList ++ label ++ ": ".toList) ++ argument

/-- The send in call syntax. -/
def render : MessageSend α → List α
  | unary receiver selector =>
    if selector = "alloc".toList then receiver
    else if selector = "init".toList then receiver ++ Symbol.ofText "()".toList
    else receiver ++ Symbol.ofText ('.' :: selector ++ "()".toList)
  | keyword receiver first argument more =>
    receiver ++ Symbol.ofText (callHead first) ++ argument ++ more.flatMap labelled ++
      Symbol.ofText [')']

end MessageSend

/-- The interior of a pair of brackets in call syntax, if it is a message send. -/
def resolveSend (s : List α) : Option (List α) := (MessageSend.parse? s).map MessageSend.render

end Swiftward
