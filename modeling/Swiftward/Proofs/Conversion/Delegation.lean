import Swiftward.Proofs.Conversion.Conditional
import Swiftward.Proofs.Conversion.Reattachment
import Swiftward.Proofs.Statement.Expression

/-!
# Delegations of initializers

A line that assigns to `self` what `super` or `self` answers to an initializer becomes a call of
that initializer, with each argument converted by itself. The assignment goes unless a square
bracket is left in the call, as an unresolved send would leave one. A bracket of a subscript, of an
array literal or of a string is taken for that (`Delegation.convertLines_line`).
-/

namespace Swiftward

/-! ### Names that stay -/

section Names

variable {n : Name} (h : ∀ w ∈ substitutedWords, w.toList ≠ n.text)

include h

lemma Name.isStable_of_forall : n.IsStable := fun hblock => h "__block" (by decide) hblock.symm

lemma Name.substituteInside_append {t : Text} (ht : Delimited t) :
    substituteInside (n.text ++ t) = n.text ++ substituteInside t := by
  have hat : '@' ∉ n.text := fun hat => ne_of_class (n.isNameChar _ hat) (by decide) rfl
  have hwords : substituteWords n.text = n.text := by
    rw [substituteWords_text (isStable_of_forall h)]
    exact (lineRule_of_forall_ne h).2
  rw [actsOnWords_substituteInside.name (isStable_of_forall h) ht, substituteInside,
    stripMarkers_of_not_mem hat, hwords]

end Names

/-! ### Assignments -/

section Assignment

variable (value : Text)

lemma trimStart_assignment : trimStart ("self = ".toList ++ value) = "self = ".toList ++ value := by
  have hchars : "self = ".toList = ['s', 'e', 'l', 'f', ' ', '=', ' '] := by decide
  rw [hchars]
  exact trimStart_cons (by decide) _

variable {value}

lemma selfAssignment?_append (hvalue : ∀ c ∈ value.head?, isSpace c = false) :
    selfAssignment? ("self = ".toList ++ value) = some ([], value) := by
  have hchars : "self = ".toList = "self".toList ++ [' ', '=', ' '] := by decide
  have hself : after? "self" ("self = ".toList ++ value) = some ([' ', '=', ' '] ++ value) := by
    rw [after?_eq_some_iff, hchars, List.append_assoc]
  have hequals : trimStart ([' ', '=', ' '] ++ value) = "=".toList ++ (' ' :: value) :=
    (trimStart_cons_space (by decide) _).trans (trimStart_cons (by decide) _)
  have hbehind : trimStart (' ' :: value) = value := by
    rw [trimStart_cons_space (by decide)]
    exact trimStart_append (List.forall_mem_nil _) hvalue
  have hindent : ("self = ".toList ++ value).takeWhile isSpace = [] := by
    rw [hchars]
    exact List.takeWhile_cons_of_neg (by decide)
  rw [selfAssignment?, trimStart_assignment, hself, hindent]
  simp only [Option.bind_eq_bind, Option.bind_some]
  rw [hequals, after?_eq_some_iff.mpr rfl, Option.bind_some, hbehind]

lemma Conditional.parse?_assignment : parse? ("self = ".toList ++ value) = none := by
  refine Option.eq_none_iff_forall_ne_some.mpr fun c hc => ?_
  obtain ⟨d, hd, hhead⟩ := exists_lead_of_parse? hc
  have hfirst : ("self = ".toList ++ value).head? = some 's' := by
    rw [List.head?_append]
    rfl
  rw [trimStart_assignment, hfirst] at hhead
  obtain rfl := Option.some.inj hhead
  exact absurd hd (by decide)

end Assignment

/-! ### Delegations -/

/-- A line `self = [super initWith…:…];` with its arguments as trees. -/
structure Delegation where
  indent : Text
  isSpace_indent : ∀ c ∈ indent, isSpace c = true
  receiver : Name
  receiver_mem : receiver.text ∈ ["super".toList, "self".toList]
  /-- What follows `initWith` in the first keyword. -/
  label : Name
  argument : Operand
  more : Arguments
  /-- The string literals that are written with a `@`. -/
  marked : StringLiteral → Bool
  argument_isStable : argument.IsStable
  more_isStable : more.IsStable
  unbroken : Unbroken (argument.source marked ++ more.source marked)

namespace Delegation

variable (d : Delegation)

/-- The first keyword. -/
def keyword : Name where
  text := "initWith".toList ++ d.label.text
  ne_nil := by simp
  isNameChar := List.forall_mem_append.mpr ⟨List.all_eq_true.mp (by decide), d.label.isNameChar⟩

/-- The statement without its indentation and its semicolon. -/
def body : Text :=
  "self = ".toList ++ '[' :: d.receiver.text ++ ' ' :: d.keyword.text ++
    ':' :: d.argument.source d.marked ++ d.more.source d.marked ++ [']']

/-- The line of the delegation. -/
def line : Text := d.indent ++ d.body ++ [';']

/-- The arguments of the call that it becomes, each with its label. -/
def arguments : Text :=
  '(' :: downcaseFirst d.label.text ++ ": ".toList ++ d.argument.converted d.marked ++
    d.more.converted d.marked ++ [')']

/-! ### Substitutions and sends -/

lemma forall_ne_receiver : ∀ w ∈ substitutedWords, w.toList ≠ d.receiver.text := by
  have hall : ∀ r ∈ ["super".toList, "self".toList], ∀ w ∈ substitutedWords, w.toList ≠ r := by
    decide
  exact hall _ d.receiver_mem

lemma forall_ne_keyword : ∀ w ∈ substitutedWords, w.toList ≠ d.keyword.text := by
  have hhead : ∀ w ∈ substitutedWords, w.toList.head? ≠ some 'i' := by decide
  intro w hw heq
  exact hhead w hw (by rw [heq]; rfl)

lemma head_keyword : d.keyword.head = '(' :: downcaseFirst d.label.text ++ [':', ' '] := by
  have hinit : "init".toList <+: d.keyword.text := ⟨"With".toList ++ d.label.text, rfl⟩
  have hwith : "initWith".toList <+: d.keyword.text := ⟨d.label.text, rfl⟩
  have hne : d.keyword.text ≠ "initWith".toList := by
    intro heq
    exact d.label.ne_nil (List.append_right_eq_self.mp heq)
  rw [Name.head, if_pos hinit, if_pos ⟨hwith, hne⟩]
  rfl

/-- After the substitutions, a send is assigned, and the send in call syntax has the arguments
converted by themselves. -/
lemma exists_substitute : ∃ send : Operand,
    substitute (d.body ++ [';']) = "self = ".toList ++ send.print ∧
      send.print.head? = some '[' ∧ send.render = d.receiver.text ++ d.arguments := by
  have hacts := actsOnWords_substituteInside
  obtain ⟨argument, hargument⟩ := @Operand.exists_substituted d.marked _ d.argument_isStable
  obtain ⟨more, hrender, hmore⟩ := @Arguments.exists_substituted d.marked _ d.more_isStable
  refine ⟨.expr (.keyword (.name d.receiver) d.keyword argument more), ?_, rfl, ?_⟩
  · obtain ⟨own, hown⟩ : ∃ n : Name, n.text = "self".toList := ⟨.ofString "self" (by decide), rfl⟩
    have hself : ∀ w ∈ substitutedWords, w.toList ≠ own.text := by
      rw [hown]
      decide
    have hassign : "self = ".toList = own.text ++ " = ".toList := by
      rw [hown]
      decide
    have hbody : d.body = own.text ++ (" = ".toList ++ '[' :: (d.receiver.text ++ ' ' ::
        (d.keyword.text ++ ':' :: (d.argument.source d.marked ++
          (d.more.source d.marked ++ [']']))))) := by
      unfold body
      rw [hassign]
      simp only [List.append_assoc, List.cons_append]
    have hlast : d.body.getLast? = some ']' := by
      unfold body
      exact List.getLast?_concat
    have hequals : ∀ c ∈ " = ".toList, isSign c = true := List.all_eq_true.mp (by decide)
    have hclose : Delimited [']'] := delimited_cons (by decide) []
    rw [substitute_semicolon (by rw [hlast]; decide) (by rw [hlast]; decide), hbody,
      Name.substituteInside_append hself (delimited_append (by decide) hequals _),
      hacts.append hequals, hacts.cons (by decide),
      Name.substituteInside_append d.forall_ne_receiver (delimited_cons (by decide) _),
      hacts.cons (by decide),
      Name.substituteInside_append d.forall_ne_keyword (delimited_cons (by decide) _),
      hacts.cons (by decide), hargument (d.more.delimited_source d.marked hclose), hmore hclose,
      hacts.cons (by decide), hacts.nil, hassign, Operand.print, Expr.print, Expr.print]
    simp only [List.append_assoc, List.cons_append]
  · rw [Operand.render, Expr.render, Expr.render, head_keyword, hrender,
      Operand.render_eq_converted hargument]
    simp [arguments]

/-! ### The call -/

/-- A call of `super` or `self` is made one of its initializer. -/
lemma nameInitializer_call :
    nameInitializer (d.receiver.text ++ d.arguments) =
      d.receiver.text ++ ".init".toList ++ d.arguments := by
  obtain ⟨rest, hrest⟩ : ∃ rest, d.arguments = '(' :: rest := ⟨_, rfl⟩
  have hcases : d.receiver.text = "super".toList ∨ d.receiver.text = "self".toList := by
    simpa using d.receiver_mem
  rw [hrest, nameInitializer]
  rcases hcases with hsuper | hself
  · have hcall : after? "super(" (d.receiver.text ++ '(' :: rest) = some rest := by
      rw [after?_eq_some_iff, hsuper]
      rfl
    rw [hcall, hsuper]
    rfl
  · have hother : after? "super(" (d.receiver.text ++ '(' :: rest) = none := by
      rw [hself]
      rfl
    have hcall : after? "self(" (d.receiver.text ++ '(' :: rest) = some rest := by
      rw [after?_eq_some_iff, hself]
      rfl
    rw [hother, hcall, hself]
    rfl

lemma unbroken_body : Unbroken d.body := by
  have hself : Unbroken "self = ".toList := by decide
  have hreceiver : Unbroken d.receiver.text := unbroken_of_isWord d.receiver.isWord
  have hkeyword : Unbroken d.keyword.text := unbroken_of_isWord d.keyword.isWord
  obtain ⟨hargument, hmore⟩ := unbroken_append.mp d.unbroken
  exact ((((hself.append (hreceiver.cons (by decide))).append (hkeyword.cons (by decide))).append
    (hargument.cons (by decide))).append hmore).append (by decide)

/-- The delegation with its sends converted. -/
def call : Text := d.receiver.text ++ d.arguments

lemma trimmed_call : Trimmed d.call := by
  obtain ⟨init, hinit⟩ : ∃ init, d.arguments = init ++ [')'] := ⟨_, rfl⟩
  have hreceiver : Trimmed d.receiver.text :=
    .of_forall fun c hc => isSpace_of_isNameChar (d.receiver.isNameChar c hc)
  have hparen : Trimmed [')'] := by decide
  rw [call, hinit, ← List.append_assoc]
  exact hreceiver.append d.receiver.ne_nil hparen (List.cons_ne_nil _ _) init

lemma mem_call_iff : '[' ∈ d.call ↔ '[' ∈ d.arguments := by
  have hreceiver : '[' ∉ d.receiver.text := fun hmem =>
    ne_of_class (d.receiver.isNameChar _ hmem) (by decide) rfl
  rw [call, List.mem_append, or_iff_right hreceiver]

lemma collapseSends_body :
    collapseSends (substitute (d.body ++ [';'])) = "self = ".toList ++ d.call := by
  obtain ⟨send, hsubstitute, -, hrender⟩ := d.exists_substitute
  rw [hsubstitute, send.collapseSends_behind (by decide) (by decide) (by decide) (by decide),
    hrender, call]

lemma isSelfDelegation_body : isSelfDelegation (substitute (d.body ++ [';'])) = true := by
  obtain ⟨send, hsubstitute, hhead, -⟩ := d.exists_substitute
  have hbracket : ∀ c ∈ send.print.head?, isSpace c = false := by
    rw [hhead]
    rintro c ⟨⟩
    decide
  rw [hsubstitute, isSelfDelegation, selfAssignment?_append hbracket]
  simp [hhead]

lemma unbroken_call : Unbroken d.call := by
  have hline : Unbroken (d.body ++ [';']) := d.unbroken_body.append (by decide)
  have hconverted := hline.substitute.collapseSends
  rw [collapseSends_body] at hconverted
  exact (unbroken_append.mp hconverted).2

lemma dropSelfAssignment?_call :
    dropSelfAssignment? ("self = ".toList ++ d.call) =
      if '[' ∈ d.arguments then none
      else some (d.receiver.text ++ ".init".toList ++ d.arguments) := by
  have hunbroken : '\n' ∉ d.call := d.unbroken_call
  rw [dropSelfAssignment?, selfAssignment?_append d.trimmed_call.head_not_space]
  simp only [Option.bind_eq_bind, Option.bind_some, hunbroken, false_or, mem_call_iff,
    d.trimmed_call.trimEnd]
  rw [call, nameInitializer_call]
  rfl

/-- The statement that the delegation becomes. -/
def converted : Text :=
  if '[' ∈ d.arguments then "self = ".toList ++ (d.receiver.text ++ d.arguments)
  else d.receiver.text ++ ".init".toList ++ d.arguments

lemma ofCode_body : Statement.ofCode (d.body ++ [';']) = .done d.converted := by
  unfold Statement.ofCode
  dsimp only
  rw [collapseSends_body, Conditional.parse?_assignment, if_pos d.isSelfDelegation_body,
    dropSelfAssignment?_call, converted]
  split_ifs <;> rfl

/-! ### The line -/

lemma slashless_line : Slashless d.line := by
  have hindent : Slashless d.indent := by
    refine ⟨(unquoted_space d.isSpace_indent).closed, hasBareFrom_of_forall_ne fun c hc => ?_⟩
    exact isChar_eq_false (d.isSpace_indent c hc) (by decide)
  have hbody : Slashless d.body :=
    (((((show Slashless "self = ".toList by decide).append
      (d.receiver.slashless.cons (by decide))).append (d.keyword.slashless.cons (by decide))).append
      ((d.argument.slashless d.marked).cons (by decide))).append (d.more.slashless d.marked)).append
      (by decide)
  exact (hindent.append hbody).append (by decide)

lemma ofCode_line : Construct.ofCode d.line = .statement (.done (d.indent ++ d.converted)) := by
  have hfirst : d.body ++ [';'] = 's' :: (d.body ++ [';']).tail := rfl
  have himport : Import.parse? (d.body ++ [';']) = none := by
    rw [Import.parse?, hfirst, trimStart_cons (by decide)]
    rfl
  rw [line, List.append_assoc]
  by_cases hindent : d.indent = []
  · rw [hindent, List.nil_append, List.nil_append, Construct.ofCode_of_head himport, ofCode_body]
    rw [hfirst]
    rintro c ⟨⟩
    decide
  · rw [Construct.ofCode_indent d.isSpace_indent hindent himport, ofCode_body]
    rfl

/-- A line that delegates to an initializer becomes a call of that initializer, its arguments
converted each by itself. The assignment stays in front of it, and the initializer without its name,
if and only if a bracket is left among the arguments. -/
theorem convertLines_line (width : Nat) :
    Swiftward.convertLines width [d.line] =
      [⟨1, d.indent ++
        if '[' ∈ d.arguments then "self = ".toList ++ (d.receiver.text ++ d.arguments)
        else d.receiver.text ++ ".init".toList ++ d.arguments⟩] := by
  have htrim : trimEnd d.line = d.line := trimEnd_append_singleton (by decide) _
  have hne : d.line ≠ [] := by simp [line]
  rw [convertLines_singleton, htrim, convertUnit, d.slashless_line.splitComment, ← converted]
  simp [hne, d.ofCode_line, LineSource.emit, LineSource.lineNumber]

end Delegation

/-- The line `self = [super initWithName:names[0]];`, indented. -/
def subscriptDelegation : Delegation where
  indent := "    ".toList
  isSpace_indent := List.all_eq_true.mp (by decide)
  receiver := .ofString "super" (by decide)
  receiver_mem := by decide
  label := .ofString "Name" (by decide)
  argument := .expr (.subscript (.name (.ofString "names" (by decide)))
    (.expr (.name (.ofString "0" (by decide)))))
  more := .nil
  marked := fun _ => true
  argument_isStable := ⟨(by decide : "names".toList ≠ "__block".toList),
    (by decide : "0".toList ≠ "__block".toList)⟩
  more_isStable := trivial
  unbroken := by decide

/-- A subscript leaves a bracket, and so the assignment stays. -/
theorem Delegation.convertLines_line_subscript :
    subscriptDelegation.line = "    self = [super initWithName:names[0]];".toList ∧
      Swiftward.convertLines 4 [subscriptDelegation.line] =
        [⟨1, "    self = super(name: names[0])".toList⟩] :=
  ⟨by decide, (convertLines_line subscriptDelegation 4).trans (by decide +kernel)⟩

example : convertLines 4 ["    self = [super initWithName:[self nameOf:@\"a;\"] age:3];".toList] =
    [⟨1, "    super.init(name: self.nameOf(\"a;\"), age: 3)".toList⟩] := by
  decide +kernel

end Swiftward
