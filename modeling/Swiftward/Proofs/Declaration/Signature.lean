import Swiftward.Proofs.Declaration.Method
import Swiftward.Proofs.MessageSend.Resolve
import Swiftward.Proofs.SwiftType

/-!
# Headers and calls

The header of a method and a call of it are converted apart from each other: the one looks for `init`
or `_init` at the start of the name, the other for `init` only. Both come to a *signature*, that is
whether there is a constructor, and the labels of the arguments. The two signatures agree but for
the methods whose name begins with `_init` (`MethodHeader.agrees_with_call`).
-/

namespace Swiftward

variable {α : Type} [Symbol α]

/-- What a method looks like from outside. -/
structure Signature where
  constructs : Bool
  /-- The label of the first argument, if it has one of its own. -/
  label? : Option Text
  /-- The labels of the other arguments. -/
  labels : List Text
  deriving DecidableEq, Repr

/-- A parameter with its external label, which is left out where it is the name. -/
def Param.declare (label : Text) (p : Param) : Text :=
  label ++ (if label = p.name then [] else ' ' :: p.name) ++ ": ".toList ++ swiftType p.type

namespace Signature

/-- The header of a method in Swift. Without a label of its own, the first parameter goes by its
name. -/
def header (sig : Signature) (name returns : Text) (first : Param) (more : List Param) : Text :=
  (if sig.constructs then "init(".toList else "func ".toList ++ name ++ ['(']) ++
    ", ".toList.intercalate
      (first.declare (sig.label?.getD first.name) :: List.zipWith Param.declare sig.labels more) ++
    ')' :: if sig.constructs then [] else returns

/-- A call of a method in Swift. -/
def call (sig : Signature) (name : Text) (receiver first : List α) (more : List (List α)) : List α :=
  receiver ++ Symbol.ofText (if sig.constructs then ['('] else '.' :: name ++ ['(']) ++
    Symbol.ofText ((sig.label?.map (· ++ ": ".toList)).getD []) ++ first ++
    (sig.labels.zip more).flatMap MessageSend.labelled ++ Symbol.ofText [')']

/-- The signature that the header of a method comes to. -/
def declared (name : Text) (labels : List Text) : Signature where
  constructs := (after? "init" name).isSome || (after? "_init" name).isSome
  label? := MethodHeader.initializerLabel? name
  labels := labels

/-- The signature that a call of a method comes to. -/
def called (name : Text) (labels : List Text) : Signature where
  constructs := (after? "init" name).isSome
  label? := (after? "initWith" name).bind fun label =>
    if label = [] then none else some (downcaseFirst label)
  labels := labels

end Signature

/-! ### Labels -/

lemma after?_append (lead : String) (s : Text) : after? lead (lead.toList ++ s) = some s :=
  after?_eq_some_iff.mpr rfl

lemma downcaseFirst_ne_nil {word : Text} (h : word ≠ []) : downcaseFirst word ≠ [] := by
  obtain ⟨c, word, rfl⟩ := List.exists_cons_of_ne_nil h
  have hlower : Unicode.lowercase c ≠ [] := by
    unfold Unicode.lowercase
    split
    · simp
    · split
      · simp
      · split <;> simp
  rw [downcaseFirst]
  split
  · exact h
  · simp [hlower]

/-! ### Labels in a header -/

/-- A keyword labels its parameter; without one the parameter goes by its name. -/
lemma Param.render_trimmed (p : Param) (keyword : Text) :
    ({ p.trimmed with keyword := keyword } : Param).render =
      p.declare (if keyword = [] then p.name else keyword) := by
  by_cases hnil : keyword = []
  · simp [render, declare, trimmed, swiftType_trim, hnil]
  · by_cases hname : keyword = p.name <;>
      simp [render, declare, trimmed, swiftType_trim, hnil, hname]

namespace MethodHeader

/-- Only an initializer has a label for its first parameter. -/
lemma isInitializer_of_label {header : MethodHeader} {label : Text}
    (h : initializerLabel? header.name = some label) : header.isInitializer = true := by
  obtain ⟨rest, hrest, -⟩ := Option.bind_eq_some_iff.mp h
  rw [isInitializer, Bool.or_eq_true, isSome_after?_iff, isSome_after?_iff]
  cases hunderscore : after? "_" header.name with
  | none =>
    rw [hunderscore] at hrest
    have hname : header.name = "initWith".toList ++ rest := after?_eq_some_iff.mp hrest
    exact .inl (hname ▸ ⟨"With".toList ++ rest, rfl⟩)
  | some name =>
    rw [hunderscore] at hrest
    have hname : header.name = "_".toList ++ ("initWith".toList ++ rest) := by
      rw [← after?_eq_some_iff.mp hrest]
      exact after?_eq_some_iff.mp hunderscore
    exact .inr (hname ▸ ⟨"With".toList ++ rest, rfl⟩)

lemma initializerLabel?_ne_nil {name label : Text} (h : initializerLabel? name = some label) :
    label ≠ [] := by
  obtain ⟨rest, -, hrest⟩ := Option.bind_eq_some_iff.mp h
  split at hrest
  · cases hrest
  · next hne =>
    obtain rfl : downcaseFirst rest = label := Option.some.inj hrest
    exact downcaseFirst_ne_nil hne

lemma map_render_trimmed {more : List Param} (hmore : ∀ p ∈ more, p.IsPrintable) :
    (more.map Param.trimmed).map Param.render =
      List.zipWith Param.declare (more.map Param.keyword) more := by
  induction more with
  | nil => rfl
  | cons p more ih =>
    obtain ⟨hp, hmore⟩ := List.forall_mem_cons.mp hmore
    have hrender := p.render_trimmed p.keyword
    rw [if_neg hp.keyword.ne_nil] at hrender
    rw [List.map_cons, List.map_cons, List.map_cons, List.zipWith_cons_cons, ih hmore, ← hrender]
    rfl

/-- The first parameter has the label of an initializer or goes by its name. -/
lemma map_render_labelledParams (returnType : Text) (first : Param) {more : List Param}
    (hmore : ∀ p ∈ more, p.IsPrintable) :
    (onOneLine returnType first more).labelledParams.map Param.render =
      first.declare ((initializerLabel? first.keyword).getD first.name) ::
        List.zipWith Param.declare (more.map Param.keyword) more := by
  rw [← map_render_trimmed hmore]
  cases hlabel : initializerLabel? first.keyword with
  | none =>
    have hfirst := first.render_trimmed []
    rw [if_pos rfl] at hfirst
    have hparams : (onOneLine returnType first more).labelledParams =
        (onOneLine returnType first more).params := by
      rw [labelledParams, show initializerLabel? (onOneLine returnType first more).name = none
        from hlabel]
      split
      · next hsome => cases hsome
      · rfl
    rw [hparams, Option.getD_none, ← hfirst]
    rfl
  | some label =>
    have hinit : (onOneLine returnType first more).isInitializer = true :=
      isInitializer_of_label hlabel
    have hfirst := first.render_trimmed label
    rw [if_neg (initializerLabel?_ne_nil hlabel)] at hfirst
    have hparams : (onOneLine returnType first more).labelledParams =
        { first.trimmed with keyword := label } :: more.map Param.trimmed := by
      rw [labelledParams, hinit, show initializerLabel? (onOneLine returnType first more).name =
        some label from hlabel]
      rfl
    rw [hparams, Option.getD_some, ← hfirst]
    rfl

/-- The header of a method on one line comes to its signature. -/
lemma render_onOneLine (returnType : Text) (first : Param) {more : List Param}
    (hmore : ∀ p ∈ more, p.IsPrintable) :
    (onOneLine returnType first more).render =
      [(Signature.declared first.keyword (more.map Param.keyword)).header first.keyword
        (onOneLine returnType first more).returnClause first more] := by
  have hconstructs : (Signature.declared first.keyword (more.map Param.keyword)).constructs =
      (onOneLine returnType first more).isInitializer := rfl
  have hparams : (onOneLine returnType first more).params ≠ [] := List.cons_ne_nil _ _
  have hcontinued : (onOneLine returnType first more).continued = [] := rfl
  have hbrace : (onOneLine returnType first more).brace = [] := rfl
  have hdeclarator : (onOneLine returnType first more).declarator = "func ".toList := rfl
  have hname : (onOneLine returnType first more).name = first.keyword := rfl
  rw [render, if_neg hparams, map_render_labelledParams returnType first hmore,
    hcontinued, linesFrom, opening, closing, hbrace, hdeclarator, hname, Signature.header,
    hconstructs, List.append_nil, List.append_nil]
  rfl

end MethodHeader

/-! ### Labels in a call -/

namespace MessageSend

/-- What stands before the first argument of a call comes to the signature. -/
lemma callHead_signature (name : Text) (labels : List Text) :
    callHead name = (if (Signature.called name labels).constructs then ['('] else
      '.' :: name ++ ['(']) ++
        ((Signature.called name labels).label?.map (· ++ ": ".toList)).getD [] := by
  rw [callHead, Signature.called]
  cases hinit : after? "init" name with
  | none =>
    have hwith : after? "initWith" name = none := by
      cases h : after? "initWith" name with
      | none => rfl
      | some rest =>
        rw [after?_eq_some_iff.mp h] at hinit
        cases hinit
    simp [hwith]
  | some rest =>
    have hwith : after? "initWith" name = after? "With" rest := by
      rw [after?_eq_some_iff.mp hinit]
      rfl
    rcases hlabel : after? "With" rest with _ | _ | ⟨c, label⟩ <;> simp [hwith, hlabel]

end MessageSend

/-- A call with keywords comes to its signature. -/
lemma resolveSend_signature {receiver argument : List α} {name : Text}
    (hname : IsIdentifier name) (hr : IsOperand receiver) (ha : IsOperand argument)
    {labels : List Text} (hlabels : ∀ l ∈ labels, IsIdentifier l) {arguments : List (List α)}
    (harguments : ∀ a ∈ arguments, IsOperand a) :
    resolveSend (receiver ++ writeKeywords ((name, argument) :: labels.zip arguments)) =
      some ((Signature.called name labels).call name receiver argument arguments) := by
  have hmore : ∀ k ∈ labels.zip arguments, IsKeyword k := by
    rintro ⟨label, a⟩ hk
    obtain ⟨hlabel, ha⟩ := List.of_mem_zip hk
    exact ⟨(hlabels label hlabel).ne_nil, (hlabels label hlabel).isWord, harguments a ha⟩
  rw [resolveSend_keywords hr ⟨hname.ne_nil, hname.isWord, ha⟩ hmore, Signature.call,
    MessageSend.callHead_signature name labels, Symbol.ofText_append]
  simp only [List.append_assoc]
  rfl

/-! ### Agreement -/

namespace Signature

/-- The name of a plain function is not taken for an initializer. -/
lemma init_isPrefix_header_iff (sig : Signature) (name returns : Text) (first : Param)
    (more : List Param) :
    "init(".toList <+: sig.header name returns first more ↔ sig.constructs = true := by
  cases hconstructs : sig.constructs with
  | true => simp [header, hconstructs]
  | false => simp [header, hconstructs]

/-- A receiver that a parenthesis follows right away is the one of a constructor call. -/
lemma paren_isPrefix_call_iff (sig : Signature) (name : Text) (receiver first : List α)
    (more : List (List α)) :
    receiver ++ [Symbol.ofChar '('] <+: sig.call name receiver first more ↔
      sig.constructs = true := by
  have hdot : (Symbol.ofChar '(' : α) ≠ Symbol.ofChar '.' := by
    intro h
    simpa [isChar] using congrArg (isChar '(') h
  cases hconstructs : sig.constructs with
  | true => simp [call, hconstructs, Symbol.ofText]
  | false => simp [call, hconstructs, Symbol.ofText, hdot]

/-- A call of a method whose name begins with an underscore is a plain one. -/
lemma called_of_underscore {name : Text} (h : "_init".toList <+: name) (labels : List Text) :
    (called name labels).constructs = false ∧ (called name labels).label? = none := by
  obtain ⟨rest, rfl⟩ := h
  exact ⟨rfl, rfl⟩

/-- Header and call look at a name in the same way, unless it begins with `_init`. -/
lemma declared_eq_called {name : Text} (h : ¬ "_init".toList <+: name) (labels : List Text) :
    declared name labels = called name labels := by
  have hnone : (after? "_init" name).isSome = false := by
    rwa [← Bool.not_eq_true, isSome_after?_iff]
  have hlabel : MethodHeader.initializerLabel? name = (called name labels).label? := by
    cases hunderscore : after? "_" name with
    | none =>
      rw [MethodHeader.initializerLabel?, hunderscore]
      rfl
    | some rest =>
      have hname := after?_eq_some_iff.mp hunderscore
      have hrest : after? "initWith" rest = none := by
        cases hwith : after? "initWith" rest with
        | none => rfl
        | some label =>
          refine absurd ⟨"With".toList ++ label, ?_⟩ h
          rw [hname, after?_eq_some_iff.mp hwith]
          rfl
      rw [MethodHeader.initializerLabel?, hunderscore, Option.getD_some, hrest, hname]
      rfl
  rw [declared, hnone, Bool.or_false, hlabel]
  rfl

lemma declared_constructs_iff (name : Text) (labels : List Text) :
    (declared name labels).constructs = true ↔
      (called name labels).constructs = true ∨ "_init".toList <+: name := by
  rw [declared, called, Bool.or_eq_true]
  exact or_congr_right isSome_after?_iff

/-- What follows `initWith` labels the first argument of a call. -/
lemma label?_called {label : Text} (hne : label ≠ []) (labels : List Text) :
    (called ("initWith".toList ++ label) labels).label? = some (downcaseFirst label) := by
  rw [called, after?_append]
  exact if_neg hne

/-- What follows `_initWith` labels the first parameter of a header. -/
lemma label?_declared {label : Text} (hne : label ≠ []) (labels : List Text) :
    (declared ("_initWith".toList ++ label) labels).label? = some (downcaseFirst label) := by
  have hunderscore : after? "_" ("_initWith".toList ++ label) = some ("initWith".toList ++ label) :=
    rfl
  rw [declared, MethodHeader.initializerLabel?, hunderscore, Option.getD_some, after?_append]
  exact if_neg hne

/-- What the signatures of a header and a call have in common, for a method of the given name. -/
structure Agree (name : Text) (declared called : Signature) : Prop where
  eq : ¬ "_init".toList <+: name → declared = called
  underscored : "_init".toList <+: name →
    declared.constructs = true ∧ called.constructs = false ∧ called.label? = none
  label : ∀ label ≠ [], name = "initWith".toList ++ label →
    declared.label? = some (downcaseFirst label) ∧ called.label? = some (downcaseFirst label)
  underscoredLabel : ∀ label ≠ [], name = "_initWith".toList ++ label →
    declared.label? = some (downcaseFirst label)
  labels : declared.labels = called.labels

lemma agree (name : Text) (labels : List Text) :
    Agree name (declared name labels) (called name labels) where
  eq h := declared_eq_called h labels
  underscored h :=
    ⟨(declared_constructs_iff name labels).mpr (.inr h), called_of_underscore h labels⟩
  label := by
    rintro label hne rfl
    have hplain : ¬ "_init".toList <+: "initWith".toList ++ label := by simp
    rw [declared_eq_called hplain]
    exact ⟨label?_called hne labels, label?_called hne labels⟩
  underscoredLabel := by
    rintro label hne rfl
    exact label?_declared hne labels
  labels := rfl

end Signature

/-- A header on one line and a call of its method come to signatures that agree, unless the name of
the method begins with `_init`: then the header is the one of an initializer, with the label that
follows `_initWith`, and the call is a plain one. -/
theorem MethodHeader.agrees_with_call {returnType : Text} (hreturn : IsTypeSpelling returnType)
    {first : Param} (hfirst : first.IsPrintable) {more : List Param}
    (hmore : ∀ p ∈ more, p.IsPrintable) {receiver argument : List α} (hr : IsOperand receiver)
    (ha : IsOperand argument) {arguments : List (List α)}
    (harguments : ∀ a ∈ arguments, IsOperand a) :
    ∃ header line call,
      parse? (print returnType first more) = some header ∧ header.render = [line] ∧
      resolveSend (receiver ++ writeKeywords ((first.keyword, argument) ::
        (more.map Param.keyword).zip arguments)) = some call ∧
      line = (Signature.declared first.keyword (more.map Param.keyword)).header first.keyword
        header.returnClause first more ∧
      call = (Signature.called first.keyword (more.map Param.keyword)).call first.keyword receiver
        argument arguments ∧
      ("init(".toList <+: line ↔
        receiver ++ [Symbol.ofChar '('] <+: call ∨ "_init".toList <+: first.keyword) ∧
      Signature.Agree first.keyword (Signature.declared first.keyword (more.map Param.keyword))
        (Signature.called first.keyword (more.map Param.keyword)) := by
  have hlabels : ∀ l ∈ more.map Param.keyword, IsIdentifier l := by
    rintro l hl
    obtain ⟨p, hp, rfl⟩ := List.mem_map.mp hl
    exact (hmore p hp).keyword
  refine ⟨_, _, _, parse?_print hreturn hfirst hmore, render_onOneLine returnType first hmore,
    resolveSend_signature hfirst.keyword hr ha hlabels harguments, rfl, rfl, ?_,
    Signature.agree first.keyword (more.map Param.keyword)⟩
  rw [Signature.init_isPrefix_header_iff, Signature.paren_isPrefix_call_iff]
  exact Signature.declared_constructs_iff first.keyword (more.map Param.keyword)

theorem MethodHeader.agrees_with_call_initWithName :
    ∃ header line call,
      parse? "- (id)initWithName:(NSString *)name age:(int)years".toList = some header ∧
      header.render = [line] ∧ resolveSend "Person initWithName:n age:3".toList = some call ∧
      line = "init(name: String?, age years: Int)".toList ∧
      call = "Person(name: n, age: 3)".toList := by
  have hreturn : IsTypeSpelling "id".toList := by decide
  have hfirst : Param.IsPrintable
      ⟨"initWithName".toList, "NSString *".toList, "name".toList⟩ := by decide
  have hmore : ∀ p ∈ [Param.mk "age".toList "int".toList "years".toList], p.IsPrintable := by
    decide
  have hr : IsOperand "Person".toList := by decide
  have ha : IsOperand ['n'] := by decide
  have harguments : ∀ a ∈ [['3']], IsOperand a := by decide
  obtain ⟨header, line, call, hparse, hrender, hsend, hline, hcall, -, -⟩ :=
    agrees_with_call hreturn hfirst hmore hr ha harguments
  exact ⟨header, line, call, hparse, hrender, hsend, hline.trans rfl, hcall.trans (by decide)⟩

/-- Header and call differ for a name that begins with `_init`. A parenthesis in a type cuts a
header off, and a word with a colon behind it cuts an argument in two. -/
theorem MethodHeader.disagrees_with_call :
    ((parse? "- (id)_initWithName:(id)n".toList).map render =
        some ["init(name n: id)".toList] ∧
      resolveSend "r _initWithName:n".toList = some "r._initWithName(n)".toList) ∧
    ((parse? "- (void)initWithBlock:(void (^)(int))b".toList).map render =
        some ["func initWithBlock()".toList] ∧
      resolveSend "r initWithBlock:b".toList = some "r(block: b)".toList) ∧
    resolveSend "r foo:x ? a:b".toList = some "r.foo(x ?, a: b)".toList := by
  decide +kernel

end Swiftward
