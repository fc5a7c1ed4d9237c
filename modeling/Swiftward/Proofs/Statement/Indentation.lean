import Swiftward.Proofs.Conversion.Derivation
import Swiftward.Proofs.MessageSend.Paren
import Swiftward.Proofs.Statement.Rewording
import Swiftward.Proofs.Statement.Substitution
import Swiftward.Proofs.Text.Comment

/-!
# Indentation

What stands before a statement on its line is no part of it. Each stage keeps white space at the
start of a line (`KeepsIndent`) or reads what is behind it, so a statement becomes the same whatever
its indentation is, and keeps it (`Statement.ofCode_indent`). An indented line is a statement unless
it is an import, since all other declarations begin at the margin (`Construct.ofCode_indent`).
-/

namespace Swiftward

/-! ### White space at the start -/

section Spaces

variable {indent : Text} (hindent : ∀ c ∈ indent, isSpace c = true)

include hindent

lemma trimStart_indent (s : Text) : trimStart (indent ++ s) = trimStart s :=
  List.dropWhile_append_of_pos hindent

lemma takeWhile_indent (s : Text) :
    (indent ++ s).takeWhile isSpace = indent ++ s.takeWhile isSpace :=
  List.takeWhile_append_of_pos hindent

lemma unquoted_spaces : Unquoted indent := fun c hc => isUnquoted_of_isSpace (hindent c hc)

end Spaces

/-! ### Functions that keep the indentation -/

/-- The function leaves white space at the start of a text alone. -/
def KeepsIndent (g : Text → Text) : Prop :=
  ∀ (c : Char) (s : Text), isSpace c = true → g (c :: s) = c :: g s

namespace KeepsIndent

variable {g h : Text → Text}

lemma comp (hg : KeepsIndent g) (hh : KeepsIndent h) : KeepsIndent fun s => g (h s) := by
  intro c s hc
  dsimp only
  rw [hh c s hc, hg c _ hc]

lemma append (hg : KeepsIndent g) {indent : Text} (hindent : ∀ c ∈ indent, isSpace c = true)
    (s : Text) : g (indent ++ s) = indent ++ g s := by
  induction indent with
  | nil => rfl
  | cons c indent ih =>
    obtain ⟨hc, hindent⟩ := List.forall_mem_cons.mp hindent
    rw [List.cons_append, hg c _ hc, ih hindent, List.cons_append]

end KeepsIndent

/-! ### Substitutions -/

lemma stripMarkersAfter_eq {previous : Option Char} (h : previous ≠ some '%') (s : Text) :
    stripMarkersAfter previous s = stripMarkers s := by
  cases s with
  | nil => rfl
  | cons c s => simp [stripMarkers, stripMarkersAfter, h]

lemma keepsIndent_stripMarkers : KeepsIndent stripMarkers := by
  intro c s hc
  have hat : c ≠ '@' := ne_of_class hc (by decide)
  have hpercent : some c ≠ some '%' := by simpa using ne_of_class hc (by decide)
  rw [stripMarkers, stripMarkersAfter, if_neg (by simp [hat]), stripMarkersAfter_eq hpercent]

lemma keepsIndent_dropSemicolon : KeepsIndent dropSemicolon := by
  intro c s hc
  have hsemicolon : c ≠ ';' := ne_of_class hc (by decide)
  unfold dropSemicolon before?
  rw [trimEnd]
  cases trimEnd s with
  | nil => simp [hc]
  | cons d t =>
    dsimp only
    rw [List.getLast?_cons_cons]
    split_ifs <;> rfl

lemma keepsIndent_substituteWords : KeepsIndent substituteWords := fun _ s hc =>
  substituteWords_cons (Unicode.isWord_of_isSpace hc) s

lemma keepsIndent_substitute : KeepsIndent substitute :=
  keepsIndent_substituteWords.comp (keepsIndent_dropSemicolon.comp keepsIndent_stripMarkers)

/-! ### Message sends -/

namespace Piece

/-- A pair behind white space is what it would be at the start of the line. -/
lemma roleBehind_space {c : Char} (hc : isSpace c = true) :
    roleBehind (some (.char c)) = .send := by
  have hrole : decide (BracketRole.behind (some (.char c)) = .send) = true :=
    Unicode.forall_isSpace (p := fun c => decide (BracketRole.behind (some (.char c)) = .send))
      (by decide +kernel) (by decide +kernel) hc
  exact of_decide_eq_true hrole

lemma pass_space {c : Char} (hc : isSpace c = true) (line : List Piece) :
    pass (.char c :: line) = (.char c :: (pass line).1, (pass line).2) := by
  have hplain : Plain [Piece.char c] :=
    plain_ofChar (plain_space (List.forall_mem_singleton.mpr hc))
  have hpass : pass ([.char c] ++ line) = ([.char c] ++ (pass line).1, (pass line).2) :=
    pass_prepend hplain (roleBehind_space hc)
  exact hpass

lemma Settles.space {c : Char} (hc : isSpace c = true) {line line' : List Piece}
    (h : Settles line line') : Settles (.char c :: line) (.char c :: line') := by
  induction h with
  | @done line hdone =>
    have hpass := pass_space hc line
    have hsettles : Settles (.char c :: line) (pass (.char c :: line)).1 :=
      .done (by rw [hpass]; exact hdone)
    rwa [hpass] at hsettles
  | @again line line' hagain _ ih =>
    have hpass := pass_space hc line
    apply Settles.again
    · rw [hpass]
      exact hagain
    · rw [hpass]
      exact ih

end Piece

lemma keepsIndent_collapseSends : KeepsIndent collapseSends := by
  intro c s hc
  by_cases hmark : Cell.markOpen ∈ s
  · have hskip : Cell.markOpen ∈ c :: s := List.mem_cons_of_mem c hmark
    rw [collapseSends, collapseSends, if_pos (.inr hskip), if_pos (.inr hmark)]
  · have hmark' : Cell.markOpen ∉ c :: s := by
      have hne : Cell.markOpen ≠ c := (ne_of_class hc (by decide)).symm
      simp [hmark, hne]
    obtain ⟨done, hdone, heq⟩ := collapseSends_eq_textOf hmark
    have hspace : Piece.Settles (Symbol.ofText (c :: s)) (.char c :: done) := hdone.space hc
    rw [heq, collapseSends_of_settles hmark' hspace]
    rfl

/-! ### Conditionals -/

/-- A header with more indentation. -/
def Conditional.indentBy (indent : Text) (c : Conditional) : Conditional :=
  { c with indent := indent ++ c.indent }

lemma before_append {indent s rest : Text} (h : rest.length ≤ s.length) :
    before (indent ++ s) rest = indent ++ before s rest := by
  unfold before
  rw [List.length_append, Nat.add_sub_assoc h, List.take_length_add_append]

lemma Conditional.parse?_indent {indent : Text} (hindent : ∀ c ∈ indent, isSpace c = true)
    (s : Text) : parse? (indent ++ s) = (parse? s).map (indentBy indent) := by
  have hparen : fromParen? (indent ++ s) = fromParen? s := by
    rw [fromParen?, fromParen?, trimStart_indent hindent]
  unfold parse? keywordBefore
  rw [hparen, trimStart_indent hindent, takeWhile_indent hindent]
  cases hrest : fromParen? s with
  | some rest =>
    dsimp only
    have hquoting : parenthesized? (before (indent ++ s) rest) rest =
        parenthesized? (before s rest) rest := by
      obtain ⟨lead, -, hlead⟩ := (Skips.trimStart s).trans (skips_fromParen? hrest)
      have hlength : rest.length ≤ s.length := by simp [hlead]
      unfold parenthesized?
      rw [before_append hlength, (unquoted_spaces hindent).closed.run]
    rw [hquoting, Option.map_map]
    rfl
  | none =>
    cases afterElse? (trimStart s) with
    | none => rfl
    | some rest =>
      simp only [Option.bind_eq_bind, Option.bind_some]
      split_ifs <;> rfl

/-! ### Assignments and declarations -/

lemma selfAssignment?_indent {indent : Text} (hindent : ∀ c ∈ indent, isSpace c = true) (s : Text) :
    selfAssignment? (indent ++ s) =
      (selfAssignment? s).map fun (own, value) => (indent ++ own, value) := by
  unfold selfAssignment?
  rw [trimStart_indent hindent, takeWhile_indent hindent]
  cases after? "self" (trimStart s) with
  | none => rfl
  | some behind =>
    simp only [Option.bind_eq_bind, Option.bind_some]
    cases after? "=" (trimStart behind) <;> rfl

lemma isSelfDelegation_indent {indent : Text} (hindent : ∀ c ∈ indent, isSpace c = true) (s : Text) :
    isSelfDelegation (indent ++ s) = isSelfDelegation s := by
  rw [isSelfDelegation, isSelfDelegation, selfAssignment?_indent hindent]
  cases selfAssignment? s <;> rfl

lemma dropSelfAssignment?_indent {indent : Text} (hindent : ∀ c ∈ indent, isSpace c = true)
    (s : Text) :
    dropSelfAssignment? (indent ++ s) = (dropSelfAssignment? s).map (indent ++ ·) := by
  unfold dropSelfAssignment?
  rw [selfAssignment?_indent hindent]
  cases selfAssignment? s with
  | none => rfl
  | some assignment =>
    simp only [Option.map_some, Option.bind_eq_bind, Option.bind_some]
    split_ifs
    · rfl
    · rw [Option.map_some, List.append_assoc]

/-- A declaration with more indentation. -/
def LocalDeclaration.indentBy (indent : Text) (d : LocalDeclaration) : LocalDeclaration :=
  { d with indent := indent ++ d.indent }

lemma LocalDeclaration.parse?_indent {indent : Text} (hindent : ∀ c ∈ indent, isSpace c = true)
    (s : Text) : parse? (indent ++ s) = (parse? s).map (indentBy indent) := by
  unfold parse?
  rw [trimStart_indent hindent, takeWhile_indent hindent]
  cases nextWord? (trimStart s) with
  | none => rfl
  | some first =>
    simp only [Option.bind_eq_bind, Option.bind_some]
    cases nextWord? (first.2.dropWhile isSeparator) with
    | none => rfl
    | some second =>
      simp only [Option.bind_some]
      generalize (if '*' ∈ first.2.takeWhile isSeparator then first.1 ++ ['*'] else first.1) = type
      split_ifs
      · rfl
      · split
        · rfl
        · split_ifs <;> rfl
        · rfl

lemma LocalDeclaration.render_indentBy (indent : Text) (d : LocalDeclaration) :
    (d.indentBy indent).render = indent ++ d.render := by
  unfold render indentBy
  cases d.value <;> simp

/-! ### Statements -/

/-- A statement with more indentation. -/
def Statement.indentBy (indent : Text) : Statement → Statement
  | conditional c => conditional (c.indentBy indent)
  | done text => done (indent ++ text)

/-- A statement becomes the same whatever its indentation is, and keeps it. -/
theorem Statement.ofCode_indent {indent : Text} (hindent : ∀ c ∈ indent, isSpace c = true)
    (s : Text) : ofCode (indent ++ s) = (ofCode s).indentBy indent := by
  unfold ofCode
  dsimp only
  rw [keepsIndent_substitute.append hindent, keepsIndent_collapseSends.append hindent,
    Conditional.parse?_indent hindent, isSelfDelegation_indent hindent,
    dropSelfAssignment?_indent hindent, LocalDeclaration.parse?_indent hindent]
  generalize substitute s = substituted
  cases Conditional.parse? (collapseSends substituted) with
  | some header => rfl
  | none =>
    simp only [Option.map_none]
    split_ifs with hdelegation
    · cases dropSelfAssignment? (collapseSends substituted) <;> rfl
    · cases LocalDeclaration.parse? (collapseSends substituted) with
      | none => rfl
      | some declaration => exact congrArg done (declaration.render_indentBy indent)

lemma Import.parse?_indent {indent : Text} (hindent : ∀ c ∈ indent, isSpace c = true) (s : Text) :
    parse? (indent ++ s) = parse? s := by
  rw [parse?, parse?, trimStart_indent hindent]

/-- Only imports and statements are indented. -/
theorem Construct.ofCode_indent {indent : Text} (hindent : ∀ c ∈ indent, isSpace c = true)
    (hne : indent ≠ []) {s : Text} (himport : Import.parse? s = none) :
    ofCode (indent ++ s) = .statement ((Statement.ofCode s).indentBy indent) := by
  rw [← Statement.ofCode_indent hindent]
  obtain ⟨c, more, rfl⟩ := List.exists_cons_of_ne_nil hne
  have hc : isSpace c = true := hindent c List.mem_cons_self
  apply ofCode_of_head ((Import.parse?_indent hindent s).trans himport)
  rintro d ⟨⟩ hd
  have hsigns : ['@', '+', '-'].all (!isSpace ·) := by decide
  exact absurd hc (by simpa using List.all_eq_true.mp hsigns c hd)

end Swiftward
