import Swiftward.Proofs.MessageSend.Outline
import Swiftward.Proofs.MessageSend.Resolve

/-!
# Expressions

An expression is a name, a send, a subscript or an array literal, and these nest in each other to
any depth. It is printed with its sends in square brackets, and rendered in call syntax by
recursion. The passes over a line know nothing of the tree that was printed, and still they arrive
at what the recursion gives (`Expr.collapseSends_eq_render`): the marks keep each pass away from what
the passes before it have made.
-/

namespace Swiftward

/-! ### Names and string literals -/

/-- Whether a character is an ASCII letter or digit, or an underscore. -/
def isNameChar (c : Char) : Bool := c.isAlphanum || c == '_'

/-- A word of ASCII letters, digits and underscores. -/
structure Name where
  text : Text
  ne_nil : text ≠ []
  isNameChar : ∀ c ∈ text, isNameChar c = true

/-- Whether a text, written between double quotes, is all of the literal: every double quote in it
is escaped, and no backslash at its end escapes the one that closes the literal. -/
def isStringContent : Text → Bool
  | [] => true
  | '\\' :: _ :: s => isStringContent s
  | c :: s => c != '"' && c != '\\' && isStringContent s

/-- A string literal without the character that opens a written-out mark. -/
structure StringLiteral where
  content : Text
  isStringContent : isStringContent content = true
  markless : Cell.markOpen ∉ content

/-- The literal between its quotes. -/
def StringLiteral.print (s : StringLiteral) : Text := '"' :: s.content ++ ['"']

section NameChar

variable {c : Char} (h : isNameChar c = true)
include h

lemma isNameChar_cases : (65 ≤ c.val ∧ c.val ≤ 90 ∨ 97 ≤ c.val ∧ c.val ≤ 122) ∨
    (48 ≤ c.val ∧ c.val ≤ 57) ∨ c = '_' := by
  have hranges : (decide (65 ≤ c.val ∧ c.val ≤ 90) ||
      decide (97 ≤ c.val) && decide (c.val ≤ 122) ||
      decide (48 ≤ c.val) && decide (c.val ≤ 57) || c == '_') = true := h
  simpa only [Bool.or_eq_true, Bool.and_eq_true, decide_eq_true_eq, beq_iff_eq, or_assoc] using hranges

lemma val_lt_of_isNameChar : c.val < 128 := by
  rcases isNameChar_cases h with (h | h) | h | rfl
  · exact UInt32.lt_of_le_of_lt h.2 (by decide)
  · exact UInt32.lt_of_le_of_lt h.2 (by decide)
  · exact UInt32.lt_of_le_of_lt h.2 (by decide)
  · decide

lemma isWord_of_isNameChar : Unicode.isWord c = true := by
  rw [Unicode.isWord, if_pos (val_lt_of_isNameChar h)]
  exact h

/-- A pair of brackets behind a name is a subscript. -/
lemma behind_of_isNameChar : BracketRole.behind (some (.char c)) = .subscript := by
  have hat : c ≠ '@' := by
    rintro rfl
    exact absurd h (by decide)
  have halpha : (Unicode.isAlphanumeric c || c == '_') = true := by
    rw [Unicode.isAlphanumeric, if_pos (val_lt_of_isNameChar h)]
    exact h
  rw [BracketRole.behind, if_neg hat, if_pos halpha]

lemma isSpace_of_isNameChar : Unicode.isSpace c = false := by
  have hspace : c ≠ ' ' := ne_of_class h (by decide)
  have hcontrol : ¬ (9 ≤ c.val ∧ c.val ≤ 13) := by
    rintro ⟨-, hle⟩
    rcases isNameChar_cases h with (h | h) | h | rfl
    · exact absurd (UInt32.le_trans h.1 hle) (by decide)
    · exact absurd (UInt32.le_trans h.1 hle) (by decide)
    · exact absurd (UInt32.le_trans h.1 hle) (by decide)
    · exact absurd hle (by decide)
  rw [Unicode.isSpace, if_pos (val_lt_of_isNameChar h)]
  simp only [hspace, beq_eq_false_iff_ne.mpr, Bool.false_or, Bool.and_eq_false_iff,
    decide_eq_false_iff_not, ne_eq, not_false_eq_true]
  exact not_and_or.mp hcontrol

end NameChar

lemma Name.isWord (n : Name) : ∀ c ∈ n.text, Unicode.isWord c = true := by
  intro c hc
  exact isWord_of_isNameChar (n.isNameChar c hc)

/-- A string literal opens and closes, whatever its content. -/
lemma run_stringContent {s : Text} (h : isStringContent s = true) :
    (Quoting.literal '"' false).run s = .literal '"' false := by
  fun_induction isStringContent s with
  | case1 => rfl
  | case2 c s ih =>
    show ((Quoting.literal '"' true).stepChar c).run s = _
    exact ih h
  | case3 c s _ ih =>
    simp only [Bool.and_eq_true, bne_iff_ne] at h
    have hstep : (Quoting.literal '"' false).step c = .literal '"' false := by
      simp [Quoting.stepChar, h.1.1, h.1.2]
    rw [Quoting.run_cons, hstep]
    exact ih h.2

/-- Inside a literal no character is in code. -/
lemma hasBareFrom_stringContent (d : Char) {s : Text} (h : isStringContent s = true) :
    hasBareFrom d (.literal '"' false) s = false := by
  fun_induction isStringContent s with
  | case1 => rfl
  | case2 c s ih =>
    show hasBareFrom d ((Quoting.literal '"' true).stepChar c) s = false
    exact ih h
  | case3 c s _ ih =>
    simp only [Bool.and_eq_true, bne_iff_ne] at h
    have hstep : (Quoting.literal '"' false).step c = .literal '"' false := by
      simp [Quoting.stepChar, h.1.1, h.1.2]
    rw [hasBareFrom, hstep, ih h.2]
    rfl

/-! ### Trees -/

mutual
/-- An expression that a send may go to. -/
inductive Expr where
  | name (n : Name)
  | unary (receiver : Expr) (selector : Name)
  | keyword (receiver : Expr) (first : Name) (argument : Operand) (more : Arguments)
  | subscript (base : Expr) (index : Operand)
  | array (elements : Elements)

/-- An argument, an index or an element: an expression or a string literal. -/
inductive Operand where
  | expr (e : Expr)
  | string (s : StringLiteral)

/-- The arguments behind the first one, each with its keyword. -/
inductive Arguments where
  | nil
  | cons (keyword : Name) (argument : Operand) (more : Arguments)

/-- The elements of an array literal. -/
inductive Elements where
  | nil
  | cons (element : Operand) (more : Elements)
end

mutual
/-- An expression with its sends in brackets. -/
def Expr.print : Expr → Text
  | .name n => n.text
  | .unary receiver selector => '[' :: receiver.print ++ ' ' :: selector.text ++ [']']
  | .keyword receiver first argument more =>
    '[' :: receiver.print ++ ' ' :: first.text ++ ':' :: argument.print ++ more.print ++ [']']
  | .subscript base index => base.print ++ '[' :: index.print ++ [']']
  | .array elements => '@' :: '[' :: elements.print [] ++ [']']

@[inherit_doc Expr.print]
def Operand.print : Operand → Text
  | .expr e => e.print
  | .string s => s.print

@[inherit_doc Expr.print]
def Arguments.print : Arguments → Text
  | .nil => []
  | .cons keyword argument more => ' ' :: keyword.text ++ ':' :: argument.print ++ more.print

/-- The elements, the first of them behind `lead` and the others behind a comma. -/
def Elements.print (lead : Text) : Elements → Text
  | .nil => []
  | .cons element more => lead ++ element.print ++ more.print [',', ' ']
end

/-- What stands between the receiver of a call and its first argument: a keyword that begins with
`init` makes a constructor call, and the first argument of that is labelled by what follows
`initWith`. -/
def Name.head (keyword : Name) : Text :=
  if "init".toList <+: keyword.text then
    if "initWith".toList <+: keyword.text ∧ keyword.text ≠ "initWith".toList then
      '(' :: downcaseFirst (keyword.text.drop 8) ++ [':', ' ']
    else ['(']
  else '.' :: keyword.text ++ ['(']

mutual
/-- An expression in call syntax. -/
def Expr.render : Expr → Text
  | .name n => n.text
  | .unary receiver selector =>
    if selector.text = "alloc".toList then receiver.render
    else if selector.text = "init".toList then receiver.render ++ ['(', ')']
    else receiver.render ++ '.' :: selector.text ++ ['(', ')']
  | .keyword receiver first argument more =>
    receiver.render ++ first.head ++ argument.render ++ more.render ++ [')']
  | .subscript base index => base.render ++ '[' :: index.render ++ [']']
  | .array elements => '[' :: elements.render [] ++ [']']

@[inherit_doc Expr.render]
def Operand.render : Operand → Text
  | .expr e => e.render
  | .string s => s.print

@[inherit_doc Expr.render]
def Arguments.render : Arguments → Text
  | .nil => []
  | .cons label argument more =>
    ',' :: ' ' :: label.text ++ ':' :: ' ' :: argument.render ++ more.render

@[inherit_doc Elements.print]
def Elements.render (lead : Text) : Elements → Text
  | .nil => []
  | .cons element more => lead ++ element.render ++ more.render [',', ' ']
end

/-! ### Outlines of trees -/

mutual
/-- An expression, as its brackets divide it, in front of `rest`. Every pair is to become what it
is rendered as. -/
def Expr.outline : Expr → Outline → Outline
  | .name n, rest => .text n.text rest
  | .unary receiver selector, rest =>
    .pair false (receiver.outline (.text (' ' :: selector.text) .nil))
      (Expr.unary receiver selector).render rest
  | .keyword receiver first argument more, rest =>
    .pair false (receiver.outline (.text (' ' :: first.text ++ [':'])
        (argument.outline (more.outline .nil))))
      (Expr.keyword receiver first argument more).render rest
  | .subscript base index, rest =>
    base.outline (.pair false (index.outline .nil) ('[' :: index.render ++ [']']) rest)
  | .array elements, rest =>
    .pair true (elements.outline [] .nil) ('[' :: elements.render [] ++ [']']) rest

@[inherit_doc Expr.outline]
def Operand.outline : Operand → Outline → Outline
  | .expr e, rest => e.outline rest
  | .string s, rest => .text s.print rest

@[inherit_doc Expr.outline]
def Arguments.outline : Arguments → Outline → Outline
  | .nil, rest => rest
  | .cons keyword argument more, rest =>
    .text (' ' :: keyword.text ++ [':']) (argument.outline (more.outline rest))

@[inherit_doc Expr.outline]
def Elements.outline (lead : Text) : Elements → Outline → Outline
  | .nil, rest => rest
  | .cons element more, rest => .text lead (element.outline (more.outline [',', ' '] rest))
end

mutual
lemma Expr.print_outline (e : Expr) (rest : Outline) :
    (e.outline rest).print = e.print ++ rest.print := by
  match e with
  | .name n => rfl
  | .unary receiver selector =>
    simp [Expr.outline, Outline.print, opening, receiver.print_outline, Expr.print]
  | .keyword receiver first argument more =>
    simp [Expr.outline, Outline.print, opening, receiver.print_outline, argument.print_outline,
      more.print_outline, Expr.print]
  | .subscript base index =>
    simp [Expr.outline, base.print_outline, Outline.print, opening, index.print_outline, Expr.print]
  | .array elements =>
    simp [Expr.outline, Outline.print, opening, elements.print_outline, Expr.print]

lemma Operand.print_outline (a : Operand) (rest : Outline) :
    (a.outline rest).print = a.print ++ rest.print := by
  match a with
  | .expr e => exact e.print_outline rest
  | .string s => rfl

lemma Arguments.print_outline (as : Arguments) (rest : Outline) :
    (as.outline rest).print = as.print ++ rest.print := by
  match as with
  | .nil => rfl
  | .cons keyword argument more =>
    simp [Arguments.outline, Outline.print, argument.print_outline, more.print_outline,
      Arguments.print]

lemma Elements.print_outline (es : Elements) (lead : Text) (rest : Outline) :
    (es.outline lead rest).print = es.print lead ++ rest.print := by
  match es with
  | .nil => rfl
  | .cons element more =>
    simp [Elements.outline, Outline.print, element.print_outline, more.print_outline,
      Elements.print]
end

mutual
lemma Expr.value_outline (e : Expr) (rest : Outline) :
    (e.outline rest).value = e.render ++ rest.value := by
  match e with
  | .name n => rfl
  | .unary receiver selector => rfl
  | .keyword receiver first argument more => rfl
  | .subscript base index =>
    simp [Expr.outline, base.value_outline, Outline.value, Expr.render]
  | .array elements => rfl

lemma Operand.value_outline (a : Operand) (rest : Outline) :
    (a.outline rest).value = a.render ++ rest.value := by
  match a with
  | .expr e => exact e.value_outline rest
  | .string s => rfl

lemma Elements.value_outline (es : Elements) (lead : Text) (rest : Outline) :
    (es.outline lead rest).value = es.render lead ++ rest.value := by
  match es with
  | .nil => rfl
  | .cons element more =>
    simp [Elements.outline, Outline.value, element.value_outline, more.value_outline,
      Elements.render]
end

lemma Name.markless (n : Name) : Cell.markOpen ∉ n.text := by
  intro h
  exact ne_of_class (n.isNameChar _ h) (by decide) rfl

mutual
lemma Expr.markless (e : Expr) : Cell.markOpen ∉ e.print := by
  match e with
  | .name n => exact n.markless
  | .unary receiver selector =>
    simpa [Expr.print, receiver.markless, selector.markless] using by decide
  | .keyword receiver first argument more =>
    simpa [Expr.print, receiver.markless, first.markless, argument.markless, more.markless]
      using by decide
  | .subscript base index =>
    simpa [Expr.print, base.markless, index.markless] using by decide
  | .array elements =>
    simpa [Expr.print, elements.markless (show Cell.markOpen ∉ [] by decide)] using by decide

lemma Operand.markless (a : Operand) : Cell.markOpen ∉ a.print := by
  match a with
  | .expr e => exact e.markless
  | .string s => simpa [Operand.print, StringLiteral.print, s.markless] using by decide

lemma Arguments.markless (as : Arguments) : Cell.markOpen ∉ as.print := by
  match as with
  | .nil => simp [Arguments.print]
  | .cons keyword argument more =>
    simpa [Arguments.print, keyword.markless, argument.markless, more.markless] using by decide

lemma Elements.markless (es : Elements) {lead : Text} (hlead : Cell.markOpen ∉ lead) :
    Cell.markOpen ∉ es.print lead := by
  match es with
  | .nil => simp [Elements.print]
  | .cons element more =>
    have hcomma : Cell.markOpen ∉ [',', ' '] := by decide
    simp [Elements.print, hlead, element.markless, more.markless hcomma]
end

/-! ### Lines with marks in place of the sends -/

/-- A cell that an expression consists of once its pairs have marks. -/
def Cell.isNamePart : Cell → Bool
  | .char c => isNameChar c
  | .fragment _ => true

section NamePart

variable {a : Cell} (h : a.isNamePart = true)
include h

lemma isSpace_of_isNamePart : isSpace a = false := by
  cases a with
  | char c => exact isSpace_of_isNameChar h
  | fragment id => rfl

lemma isChar_of_isNamePart {d : Char} (hd : isNameChar d = false) : isChar d a = false := by
  cases a with
  | char c =>
    rw [isChar, Symbol.satisfies, Cell.char?_char]
    exact beq_eq_false_iff_ne.mpr (ne_of_class h hd)
  | fragment id => rfl

end NamePart

/-- Cells that make up an expression: a receiver, an argument or what is subscripted. -/
structure IsAtom (cells : List Cell) : Prop where
  ne_nil : cells ≠ []
  isNamePart : ∀ a ∈ cells, a.isNamePart = true

lemma Name.isAtom (n : Name) : IsAtom (Symbol.ofText n.text) where
  ne_nil := by simpa [Symbol.ofText] using n.ne_nil
  isNamePart a ha := by
    obtain ⟨c, hc, rfl⟩ := List.mem_map.mp ha
    exact n.isNameChar c hc

lemma isAtom_fragment (id : Nat) : IsAtom [.fragment id] := ⟨by simp, by simp [Cell.isNamePart]⟩

lemma IsAtom.append_fragment {cells : List Cell} (h : IsAtom cells) (id : Nat) :
    IsAtom (cells ++ [.fragment id]) where
  ne_nil := by simp
  isNamePart a ha := by
    rcases List.mem_append.mp ha with ha | ha
    · exact h.isNamePart a ha
    · obtain rfl := List.mem_singleton.mp ha
      rfl

lemma IsAtom.isSpace_eq_false {cells : List Cell} (h : IsAtom cells) :
    ∀ a ∈ cells, isSpace a = false := by
  intro a ha
  exact isSpace_of_isNamePart (h.isNamePart a ha)

lemma IsAtom.isOperand {cells : List Cell} (h : IsAtom cells) : IsOperand cells where
  ne_nil := h.ne_nil
  trimmed := Trimmed.of_forall h.isSpace_eq_false
  plain := by
    apply Plain.of_forall
    intro a ha
    have hpart := h.isNamePart a ha
    refine ⟨?_, isChar_of_isNamePart hpart (by decide), isChar_of_isNamePart hpart (by decide)⟩
    rw [isUnquoted, isChar_of_isNamePart hpart (by decide), isChar_of_isNamePart hpart (by decide)]
    rfl
  keywordless := by
    apply hasKeywordFrom_of_colonless
    apply hasBareFrom_of_forall_ne
    intro a ha
    exact isChar_of_isNamePart (h.isNamePart a ha) (by decide)

/-- Without white space there is no selector. -/
lemma IsAtom.unary? {cells : List Cell} (h : IsAtom cells) : MessageSend.unary? cells = none := by
  have hspace : ∀ a ∈ cells, (!isSpace a) = true := by
    intro a ha
    rw [h.isSpace_eq_false a ha]
    rfl
  rw [MessageSend.unary?, List.dropWhile_eq_nil_iff.mpr hspace]
  split
  · next hword => simp [trimStart, word?] at hword
  · rfl

section StringLiteral

variable (s : StringLiteral)

lemma StringLiteral.closed : Closed s.print := by
  rw [Closed, StringLiteral.print, Quoting.run_append, Quoting.run_cons]
  show ((Quoting.literal '"' false).run s.content).run ['"'] = .code
  rw [run_stringContent s.isStringContent]
  rfl

/-- Only the quotes of a literal can stand outside of it. -/
lemma StringLiteral.hasBareFrom {d : Char} (hd : d ≠ '"') :
    hasBareFrom d .code s.print = false := by
  rw [StringLiteral.print, hasBareFrom_append, Bool.or_eq_false_iff, Quoting.run_cons,
    Swiftward.hasBareFrom]
  show (Quoting.code.bare d '"' || Swiftward.hasBareFrom d (.literal '"' false) s.content) = false ∧
    Swiftward.hasBareFrom d ((Quoting.literal '"' false).run s.content) ['"'] = false
  rw [hasBareFrom_stringContent d s.isStringContent, run_stringContent s.isStringContent]
  simp [Quoting.bare, Swiftward.hasBareFrom, hd.symm]

lemma StringLiteral.plain : Plain s.print := by
  refine ⟨s.closed, ?_⟩
  rw [hasBareBracket, hasBareBracketFrom_eq, s.hasBareFrom (by decide), s.hasBareFrom (by decide)]
  rfl

lemma StringLiteral.isOperand : IsOperand (Symbol.ofText s.print : List Cell) where
  ne_nil := by simp [Symbol.ofText, StringLiteral.print]
  trimmed := by
    constructor
    · simpa [Symbol.ofText, StringLiteral.print, isSpace, Symbol.satisfies] using by decide
    · rw [StringLiteral.print, Symbol.ofText_append, List.getLast?_append]
      simpa [Symbol.ofText, isSpace, Symbol.satisfies] using by decide
  plain := plain_ofText.mpr s.plain
  keywordless := hasKeywordFrom_of_colonless false
    (by rw [hasBareFrom_ofText, s.hasBareFrom (by decide)])

/-- Whatever follows white space in a literal ends with its quote, and so it is no selector. -/
lemma StringLiteral.unary? :
    MessageSend.unary? (Symbol.ofText s.print : List Cell) = none := by
  have hquote : isSpace (Cell.char '"') = false := by decide
  have hword :
      word? (trimStart ((Symbol.ofText s.print : List Cell).dropWhile (!isSpace ·))) = none := by
    rw [StringLiteral.print, Symbol.ofText_append, List.dropWhile_append]
    split
    · simp [Symbol.ofText, hquote, trimStart, word?]
    · refine word?_eq_none (a := .char '"') ?_ (by decide)
      exact mem_dropWhile_of_not (List.mem_append_right _ (by simp [Symbol.ofText])) hquote
  rw [MessageSend.unary?, hword]
  split
  · next hsome => simp at hsome
  · rfl

end StringLiteral

open Outline in
lemma Expr.marked (e : Expr) {values : List Text} {rest : Outline} {line : List Cell}
    (h : Marked values (e.outline rest) line) :
    ∃ cells more, line = cells ++ more ∧ IsAtom cells ∧ Means values cells e.render ∧
      Marked values rest more := by
  match e with
  | .name n =>
    cases h with
    | text s h => exact ⟨_, _, rfl, n.isAtom, Means.ofText _, h⟩
  | .unary receiver selector =>
    cases h with
    | mark hid h => exact ⟨[_], _, rfl, isAtom_fragment _, Means.fragment hid, h⟩
  | .keyword receiver first argument more =>
    cases h with
    | mark hid h => exact ⟨[_], _, rfl, isAtom_fragment _, Means.fragment hid, h⟩
  | .subscript base index =>
    obtain ⟨cells, more, rfl, hatom, hmeans, hmore⟩ := base.marked h
    cases hmore with
    | @mark _ _ _ id hid _ line hmore =>
      refine ⟨cells ++ [.fragment id], line, by simp, hatom.append_fragment id, ?_, hmore⟩
      have := hmeans.append (Means.fragment hid)
      simpa [Expr.render] using this
  | .array elements =>
    cases h with
    | mark hid h => exact ⟨[_], _, rfl, isAtom_fragment _, Means.fragment hid, h⟩

open Outline in
lemma Operand.marked (a : Operand) {values : List Text} {rest : Outline} {line : List Cell}
    (h : Marked values (a.outline rest) line) :
    ∃ cells more, line = cells ++ more ∧ IsOperand cells ∧ MessageSend.unary? cells = none ∧
      Means values cells a.render ∧ Marked values rest more := by
  match a with
  | .expr e =>
    obtain ⟨cells, more, hline, hatom, hmeans, hmore⟩ := e.marked h
    exact ⟨cells, more, hline, hatom.isOperand, hatom.unary?, hmeans, hmore⟩
  | .string s =>
    cases h with
    | text t h => exact ⟨_, _, rfl, s.isOperand, s.unary?, Means.ofText _, h⟩

lemma Name.isKeyword (n : Name) {cells : List Cell} (h : IsOperand cells) :
    IsKeyword (n.text, cells) := ⟨n.ne_nil, n.isWord, h⟩

open Outline in
/-- The arguments behind the first stand on the line as keywords and operands. -/
lemma Arguments.marked (as : Arguments) {values : List Text} {rest : Outline} {line : List Cell}
    (h : Marked values (as.outline rest) line) :
    ∃ keywords more, line = writeKeywords keywords ++ more ∧ (∀ k ∈ keywords, IsKeyword k) ∧
      Means values (keywords.flatMap MessageSend.labelled) as.render ∧ Marked values rest more := by
  match as with
  | .nil => exact ⟨[], line, rfl, by simp, Means.nil, h⟩
  | .cons keyword argument more =>
    cases h with
    | text s h =>
      obtain ⟨cells, line, rfl, hoperand, -, hmeans, h⟩ := argument.marked h
      obtain ⟨keywords, line, rfl, hks, hmore, h⟩ := more.marked h
      refine ⟨(keyword.text, cells) :: keywords, line, ?_, ?_, ?_, h⟩
      · simp [writeKeywords, Symbol.ofText]
      · exact List.forall_mem_cons.mpr ⟨keyword.isKeyword hoperand, hks⟩
      · have hlabel : Means values _ _ := .ofText (", ".toList ++ keyword.text ++ ": ".toList)
        have := (hlabel.append hmeans).append hmore
        simpa [MessageSend.labelled, Arguments.render, Symbol.ofText] using this

/-! ### Pairs that become what their trees are rendered as -/

lemma Name.callHead (n : Name) : MessageSend.callHead n.text = n.head := by
  rw [MessageSend.callHead, Name.head]
  split
  · next hinit =>
    have hno : ¬ "init".toList <+: n.text := by
      rintro ⟨rest, hrest⟩
      rw [after?_eq_some_iff.mpr hrest.symm] at hinit
      simp at hinit
    rw [if_neg hno]
  · next rest hinit =>
    have htext := after?_eq_some_iff.mp hinit
    rw [if_pos ⟨rest, htext.symm⟩]
    split
    · next c label hwith =>
      have hrest := after?_eq_some_iff.mp hwith
      rw [htext, hrest, if_pos ⟨⟨c :: label, by simp⟩, by simp⟩]
      rfl
    · next hwith =>
      rw [if_neg]
      rintro ⟨⟨label, hlabel⟩, hne⟩
      obtain rfl : rest = "With".toList ++ label := by
        rw [htext] at hlabel
        simpa using hlabel.symm
      cases label with
      | nil => exact hne (by simp [htext])
      | cons c label => exact hwith c label (after?_eq_some_iff.mpr rfl)

lemma Name.trimmed (n : Name) : Trimmed (Symbol.ofText n.text : List Cell) :=
  n.isAtom.isOperand.trimmed

section BecomesPart

open Outline

lemma Expr.becomesPart_unary (receiver : Expr) (selector : Name) :
    BecomesPart .send (receiver.outline (.text (' ' :: selector.text) .nil))
      (Expr.unary receiver selector).render := by
  intro values inner h
  obtain ⟨cells, more, rfl, hatom, hmeans, hmore⟩ := receiver.marked h
  obtain ⟨rfl⟩ : more = Symbol.ofText (' ' :: selector.text) := by
    cases hmore with
    | text s hnil =>
      cases hnil with
      | nil => rw [List.append_nil]
  have hlast := hatom.isNamePart _ (List.getLast_mem hatom.ne_nil)
  have hsend := resolveSend_unary hatom.isSpace_eq_false
    (List.getLast?_eq_some_getLast hatom.ne_nil) (isChar_of_isNamePart hlast (by decide))
    (isChar_of_isNamePart hlast (by decide)) selector.ne_nil selector.isWord selector.trimmed
  refine ⟨_, hsend, ?_⟩
  rw [MessageSend.render, Expr.render]
  split_ifs
  · exact hmeans
  · exact hmeans.append (Means.ofText ['(', ')'])
  · have := hmeans.append (Means.ofText ('.' :: selector.text ++ ['(', ')']))
    rwa [← List.append_assoc] at this

lemma Expr.becomesPart_keyword (receiver : Expr) (first : Name) (argument : Operand)
    (more : Arguments) :
    BecomesPart .send (receiver.outline (.text (' ' :: first.text ++ [':'])
        (argument.outline (more.outline .nil))))
      (Expr.keyword receiver first argument more).render := by
  intro values inner hinner
  obtain ⟨cells, line, rfl, hatom, hreceiver, h⟩ := receiver.marked hinner
  cases h with
  | text s h =>
    obtain ⟨operand, line, rfl, hoperand, -, hargument, h⟩ := argument.marked h
    obtain ⟨keywords, line, rfl, hks, hmore, h⟩ := more.marked h
    cases h with
    | nil =>
      have hsend := resolveSend_keywords hatom.isOperand (first.isKeyword hoperand) hks
      have hline : cells ++ (Symbol.ofText (' ' :: first.text ++ [':']) ++ (operand ++
          (writeKeywords keywords ++ []))) =
            cells ++ writeKeywords ((first.text, operand) :: keywords) := by
        simp [writeKeywords, Symbol.ofText]
      rw [hline]
      refine ⟨_, hsend, ?_⟩
      have hcall := ((hreceiver.append (Means.ofText first.head)).append hargument).append hmore
      rw [first.callHead]
      exact hcall.append (Means.ofText [')'])

lemma means_whole {values : List Text} {inner : List Cell} {v : Text} (h : Means values inner v) :
    Means values (BracketPair.whole ⟨[], inner⟩) ('[' :: v ++ [']']) :=
  ((Means.ofText ['[']).append h).append (Means.ofText [']'])

/-- An index is no send, whatever stands before it. -/
lemma Operand.becomesPart_subscript (index : Operand) {role : BracketRole}
    (hrole : role = .subscript ∨ role = .trailing) :
    BecomesPart role (index.outline .nil) ('[' :: index.render ++ [']']) := by
  intro values inner h
  obtain ⟨cells, line, rfl, hoperand, hunary, hmeans, h⟩ := index.marked h
  cases h with
  | nil =>
    rw [List.append_nil]
    refine ⟨_, ?_, means_whole hmeans⟩
    rcases hrole with rfl | rfl
    · rfl
    · rw [BracketRole.part?, resolveSend_operand hoperand hunary]
      rfl

lemma Elements.becomesPart_literal (es : Elements) :
    BecomesPart .literal (es.outline [] .nil) ('[' :: es.render [] ++ [']']) := by
  intro values inner h
  refine ⟨_, rfl, means_whole ?_⟩
  have := h.means
  rwa [es.value_outline, Outline.value, List.append_nil] at this

end BecomesPart

/-! ### The passes give what the recursion gives -/

/-- A pair behind a name is a subscript. -/
lemma Name.after (n : Name) (role : BracketRole) : role.after n.text = .subscript := by
  rw [BracketRole.after, List.getLast?_eq_some_getLast n.ne_nil]
  exact behind_of_isNameChar (n.isNameChar _ (List.getLast_mem n.ne_nil))

lemma Name.plain (n : Name) : Plain n.text := plain_word n.isWord

lemma Name.getLast?_ne_at (n : Name) (s : Text) : (s ++ n.text).getLast? ≠ some '@' := by
  rw [List.getLast?_append, List.getLast?_eq_some_getLast n.ne_nil]
  intro h
  have hlast := n.isNameChar _ (List.getLast_mem n.ne_nil)
  exact ne_of_class hlast (by decide) (Option.some.inj h)

lemma Outline.collapsible_keyword (n : Name) {role : BracketRole} {rest : Outline}
    (h : rest.Collapsible .send) : (text (' ' :: n.text ++ [':']) rest).Collapsible role := by
  have hplain := ((show Plain [' '] by decide).append n.plain).append (show Plain [':'] by decide)
  refine ⟨hplain, ?_, ?_⟩
  · rw [List.getLast?_append]
    simp
  · rw [BracketRole.after, List.getLast?_append]
    exact h

mutual
lemma Expr.collapsible (e : Expr) {rest : Outline}
    (hrest : ∀ role, role = .subscript ∨ role = .trailing → rest.Collapsible role) :
    (e.outline rest).Collapsible .send := by
  match e with
  | .name n =>
    refine ⟨n.plain, n.getLast?_ne_at [], ?_⟩
    rw [n.after]
    exact hrest _ (.inl rfl)
  | .unary receiver selector =>
    refine ⟨receiver.collapsible ?_, receiver.becomesPart_unary selector, hrest _ (.inr rfl)⟩
    intro role _
    exact ⟨(show Plain [' '] by decide).append selector.plain, selector.getLast?_ne_at [' '], trivial⟩
  | .keyword receiver first argument more =>
    refine ⟨receiver.collapsible ?_, receiver.becomesPart_keyword first argument more,
      hrest _ (.inr rfl)⟩
    intro role _
    exact Outline.collapsible_keyword first (argument.collapsible (more.collapsible fun _ => trivial))
  | .subscript base index =>
    apply base.collapsible
    intro role hrole
    exact ⟨index.collapsible fun _ => trivial, index.becomesPart_subscript hrole,
      hrest _ (.inr rfl)⟩
  | .array elements =>
    exact ⟨elements.collapsible (by decide) (by decide) rfl fun _ => trivial,
      elements.becomesPart_literal, hrest _ (.inr rfl)⟩

lemma Operand.collapsible (a : Operand) {rest : Outline} (hrest : ∀ role, rest.Collapsible role) :
    (a.outline rest).Collapsible .send := by
  match a with
  | .expr e =>
    apply e.collapsible
    intro role _
    exact hrest role
  | .string s =>
    refine ⟨s.plain, ?_, hrest _⟩
    rw [StringLiteral.print, List.getLast?_append]
    simp

lemma Arguments.collapsible (as : Arguments) {rest : Outline}
    (hrest : ∀ role, rest.Collapsible role) (role : BracketRole) :
    (as.outline rest).Collapsible role := by
  match as with
  | .nil => exact hrest role
  | .cons keyword argument more =>
    exact Outline.collapsible_keyword keyword (argument.collapsible (more.collapsible hrest))

lemma Elements.collapsible (es : Elements) {lead : Text} (hplain : Plain lead)
    (hat : lead.getLast? ≠ some '@') {role : BracketRole} (hrole : role.after lead = .send)
    {rest : Outline} (hrest : ∀ role, rest.Collapsible role) :
    (es.outline lead rest).Collapsible role := by
  match es with
  | .nil => exact hrest role
  | .cons element more =>
    refine ⟨hplain, hat, ?_⟩
    rw [hrole]
    apply element.collapsible
    intro role
    exact more.collapsible (by decide) (by decide) (by cases role <;> decide) hrest
end

/-- The sends of an operand come out in call syntax behind plain text, unless that gives a bracket at
the start of the operand a role. -/
lemma Operand.collapseSends_behind (a : Operand) {s : Text} (hs : Plain s)
    (hat : s.getLast? ≠ some '@') (hrole : BracketRole.send.after s = .send)
    (hmark : Cell.markOpen ∉ s) : collapseSends (s ++ a.print) = s ++ a.render := by
  have hprint : (Outline.text s (a.outline .nil)).print = s ++ a.print := by
    rw [Outline.print, a.print_outline, Outline.print, List.append_nil]
  have hvalue : (Outline.text s (a.outline .nil)).value = s ++ a.render := by
    rw [Outline.value, a.value_outline, Outline.value, List.append_nil]
  have hcollapsible : (Outline.text s (a.outline .nil)).Collapsible .send :=
    ⟨hs, hat, by rw [hrole]; exact a.collapsible fun _ => trivial⟩
  have hmarkless : Cell.markOpen ∉ s ++ a.print := by simp [hmark, a.markless]
  have hcollapse := Outline.collapseSends_print hcollapsible (hprint ▸ hmarkless)
  rwa [hprint, hvalue] at hcollapse

/-- The sends of an expression, however they nest, come out in call syntax as the tree has them. -/
theorem Expr.collapseSends_eq_render (e : Expr) : collapseSends e.print = e.render := by
  have hprint : (e.outline .nil).print = e.print := by
    rw [e.print_outline, Outline.print, List.append_nil]
  have hvalue : (e.outline .nil).value = e.render := by
    rw [e.value_outline, Outline.value, List.append_nil]
  have hcollapsible : (e.outline .nil).Collapsible .send := e.collapsible fun _ _ => trivial
  have hcollapse := Outline.collapseSends_print hcollapsible (hprint ▸ e.markless)
  rwa [hprint, hvalue] at hcollapse

end Swiftward
