import Swiftward.Proofs.Conversion.Scan
import Swiftward.Proofs.Text.Comment

/-!
# Trees of statements

A statement is a line that ends with a semicolon, or a conditional around other statements, with or
without braces of its own. No header in a tree is that of a guard: a guard has no line of its own in
Swift. The braces that a tree asks for are those of the tree (`Tree.nest`). Those that come out are
other ones unless every body without braces is a statement which the scan for the end of a body
takes up whole (`Tree.isLone`, `Tree.isSound`).
-/

namespace Swiftward

/-! ### Lines of Swift and their braces -/

/-- A line of Swift, where closing braces are all the same. -/
inductive NestLine where
  | text (line : Text)
  | closing
  deriving DecidableEq

/-- The line of Swift that a text is. -/
def NestLine.of (line : Text) : NestLine := if isClosing line then closing else text line

lemma NestLine.of_closing {line : Text} (h : isClosing line = true) : of line = .closing := by
  rw [of, if_pos h]

lemma NestLine.of_text {line : Text} (h : isClosing line = false) : of line = .text line := by
  rw [of, if_neg (by simp [h])]

/-! ### Trees of statements -/

/-- A simple statement. -/
def Item.IsStatement (item : Item) : Prop := item.kind = .statement ∧ isClosing item.swift = false

/-- A header without a brace, `if (…)` or else `else`. -/
def Item.IsHeader (item : Item) (isIf : Bool) : Prop :=
  (∃ closing, item.kind = .header closing) ∧ isClosing item.swift = false ∧
    ∃ c comment, IsConstruct (trimEnd item.line) (.statement (.conditional c)) comment ∧
      c.condition.isSome = isIf

/-- A header `if (…) {`, other than that of a guard. -/
def Item.IsOpening (item : Item) : Prop :=
  item.kind = .neutral ∧ isClosing item.swift = false ∧
    ∃ c comment, IsConstruct (trimEnd item.line) (.statement (.conditional c)) comment ∧
      c.condition.isSome = true ∧ c.body = .braced ['\x7b']

/-- A closing brace. -/
def Item.IsClosing (item : Item) : Prop := item.kind = .neutral ∧ isClosing item.swift = true

mutual
/-- A statement without guards in it, with the lines that it is printed on. -/
inductive Tree where
  | simple (line : {item : Item // item.IsStatement})
  | braceless (header : {item : Item // item.IsHeader true}) (body : Tree)
  | withElse (header : {item : Item // item.IsHeader true}) (body : Tree)
      (otherwise : {item : Item // item.IsHeader false}) (other : Tree)
  | braced (header : {item : Item // item.IsOpening}) (bodies : Trees)
      (close : {item : Item // item.IsClosing})

/-- Statements one after the other. -/
inductive Trees where
  | nil
  | cons (first : Tree) (more : Trees)
end

mutual
/-- The lines of a statement. -/
def Tree.items : Tree → List Item
  | .simple line => [line.1]
  | .braceless header body => header.1 :: body.items
  | .withElse header body otherwise other => header.1 :: body.items ++ otherwise.1 :: other.items
  | .braced header bodies close => header.1 :: bodies.items ++ [close.1]

@[inherit_doc Tree.items]
def Trees.items : Trees → List Item
  | .nil => []
  | .cons first more => first.items ++ more.items
end

mutual
/-- The lines of Swift that the tree asks for: what stands between a header and the brace that
closes it is what its body becomes, and `else` stands behind the brace that closes its `if`. -/
def Tree.nest : Tree → List NestLine
  | .simple line => [.text line.1.swift]
  | .braceless header body => .text header.1.swift :: body.nest ++ [.closing]
  | .withElse header body otherwise other =>
    .text header.1.swift :: body.nest ++ .closing :: .text otherwise.1.swift :: other.nest ++
      [.closing]
  | .braced header bodies _ => .text header.1.swift :: bodies.nest ++ [.closing]

@[inherit_doc Tree.nest]
def Trees.nest : Trees → List NestLine
  | .nil => []
  | .cons first more => first.nest ++ more.nest
end

mutual
/-- A conditional with braces around nothing, or around nothing but others like itself. The scan for
the end of a body goes on behind it. -/
def Tree.isHollow : Tree → Bool
  | .simple _ => false
  | .braceless _ _ => false
  | .withElse _ _ _ _ => false
  | .braced _ bodies _ => bodies.isHollow

@[inherit_doc Tree.isHollow]
def Trees.isHollow : Trees → Bool
  | .nil => true
  | .cons first more => first.isHollow && more.isHollow
end

mutual
/-- A statement that the scan for the end of a body takes up whole, but for closing braces: a simple
statement, an `if` without `else` and without braces around such a statement, or a conditional with
braces in which such a statement comes last and all others are hollow. -/
def Tree.isLone : Tree → Bool
  | .simple _ => true
  | .braceless _ body => body.isLone
  | .withElse _ _ _ _ => false
  | .braced _ bodies _ => bodies.isLone

/-- The last statement is such a one, and the others are hollow. -/
def Trees.isLone : Trees → Bool
  | .nil => false
  | .cons first .nil => first.isLone
  | .cons first more => first.isHollow && more.isLone
end

mutual
/-- Every body without braces, of an `if` or of an `else`, is a statement that the scan takes up
whole. -/
def Tree.isSound : Tree → Bool
  | .simple _ => true
  | .braceless _ body => body.isLone
  | .withElse _ body _ other => body.isLone && other.isLone
  | .braced _ bodies _ => bodies.isSound

@[inherit_doc Tree.isSound]
def Trees.isSound : Trees → Bool
  | .nil => true
  | .cons first more => first.isSound && more.isSound
end

end Swiftward
