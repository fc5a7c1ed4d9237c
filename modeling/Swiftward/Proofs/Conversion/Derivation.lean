import Swiftward.Conversion.Block
import Swiftward.Proofs.Conversion.Reading
import Swiftward.Proofs.Text.Trim

/-!
# Derivations of conversions

Units and blocks are converted by recursive functions on what is unread of the source. Here the same
conversions are derived by rules, one for each way in which a unit or a block can go
(`converts_unit`, `converts_block`), and a derivation leaves no choice (`Converts.convert_eq`). What
is to be shown of every conversion is shown by induction on its derivation.
-/

namespace Swiftward

/-- The line has code, of the given construct, and the given comment. -/
structure IsConstruct (line : Text) (construct : Construct) (comment : Text) : Prop where
  code_ne_nil : (splitComment line).1 ≠ []
  ofCode : Construct.ofCode (splitComment line).1 = construct
  comment_eq : (splitComment line).2 = comment

/-- What begins a line of code at the margin that is neither a method header nor a statement. -/
def keywordLeads : List String :=
  ["@interface", "@implementation", "@synthesize", "@dynamic", "@end"]

lemma after?_keywordLead {s : Text} (hat : s.head? ≠ some '@') :
    ∀ lead ∈ keywordLeads, after? lead s = none := by
  have hheads : ∀ lead ∈ keywordLeads, lead.toList.head? = some '@' := by decide
  intro lead hlead
  exact after?_eq_none_of_head (hheads lead hlead) hat

/-- Code that is no import and begins with none of the keywords is a method header or a statement. -/
lemma Construct.ofCode_of_no_lead {code : Text} (himport : Import.parse? code = none)
    (hleads : ∀ lead ∈ keywordLeads, after? lead code = none) :
    ofCode code =
      if (MethodHeader.sigil? code).isSome then
        match MethodHeader.parse? code with
        | some header => method header
        | none => statement (.done code)
      else statement (.ofCode code) := by
  have himplementation : ImplementationHeader.parse? code = none := by
    rw [ImplementationHeader.parse?, hleads _ (by decide)]
    rfl
  have hinterface : InterfaceHeader.parse? code = none := by
    rw [InterfaceHeader.parse?, hleads _ (by decide)]
    rfl
  have hend : isBlockEnd code = false := by
    rw [isBlockEnd, hleads _ (by decide)]
    rfl
  have hsynthesize : isSynthesize code = false := by
    rw [isSynthesize, hleads _ (by decide), hleads _ (by decide)]
    rfl
  rw [ofCode, himport, himplementation, hinterface, hend, hsynthesize]
  rfl

/-- Code that begins neither with a sigil nor like a declaration is an import or a statement. -/
lemma Construct.ofCode_of_head {code : Text} (himport : Import.parse? code = none)
    (hhead : ∀ c ∈ code.head?, c ∉ ['@', '+', '-']) : ofCode code = .statement (.ofCode code) := by
  have hat : code.head? ≠ some '@' := fun hat => absurd (hhead '@' hat) (by decide)
  have hsigil : MethodHeader.sigil? code = none := by
    unfold MethodHeader.sigil?
    split
    · exact absurd (hhead '+' rfl) (by decide)
    · exact absurd (hhead '-' rfl) (by decide)
    · rfl
  rw [ofCode_of_no_lead himport (after?_keywordLead hat), hsigil]
  rfl

lemma Conditional.indent_eq {line : Text} {c : Conditional} (h : parse? line = some c) :
    c.indent = line.takeWhile isSpace := by
  unfold parse? at h
  split at h
  · obtain ⟨⟨inside, behind⟩, -, rfl⟩ := Option.map_eq_some_iff.mp h
    rfl
  · obtain ⟨rest, -, h⟩ := Option.bind_eq_some_iff.mp h
    split_ifs at h
    obtain rfl := Option.some.inj h
    rfl

lemma Statement.parse?_of_conditional {code : Text} {c : Conditional}
    (h : ofCode code = conditional c) :
    Conditional.parse? (collapseSends (substitute code)) = some c := by
  dsimp only [ofCode] at h
  split at h
  · next header hparse =>
    rw [hparse, Statement.conditional.inj h]
  · split_ifs at h
    split at h <;> simp at h

lemma IsConstruct.parse?_of_conditional {line comment : Text} {c : Conditional}
    (h : IsConstruct line (.statement (.conditional c)) comment) :
    Conditional.parse? (collapseSends (substitute (splitComment line).1)) = some c := by
  have hcode := h.ofCode
  unfold Construct.ofCode at hcode
  split at hcode
  · simp at hcode
  · simp at hcode
  · simp at hcode
  · split_ifs at hcode
    · split at hcode <;> simp at hcode
    · exact Statement.parse?_of_conditional (Construct.statement.inj hcode)

/-- Whether a construct is the header of a guard. -/
def Construct.isGuard : Construct → Bool
  | statement (.conditional c) => c.isSelfGuard
  | _ => false

/-- The line is converted to the header of a guard. -/
def IsGuard (line : Text) : Prop :=
  (splitComment line).1 ≠ [] ∧ (Construct.ofCode (splitComment line).1).isGuard = true

instance (line : Text) : Decidable (IsGuard line) := inferInstanceAs (Decidable (_ ∧ _))

lemma IsConstruct.isGuard {line comment : Text} {c : Conditional}
    (h : IsConstruct line (.statement (.conditional c)) comment) (hguard : c.isSelfGuard = true) :
    IsGuard line :=
  ⟨h.code_ne_nil, by rw [h.ofCode]; exact hguard⟩

lemma IsConstruct.not_isGuard {line comment : Text} {construct : Construct}
    (h : IsConstruct line construct comment) (hguard : construct.isGuard = false) :
    ¬IsGuard line := by
  rintro ⟨-, hisGuard⟩
  rw [h.ofCode, hguard] at hisGuard
  exact absurd hisGuard (by decide)

/-- The units that read no block. The first line of the unit is consumed when the unit begins. -/
inductive Alone (line : Text) (s : LineSource) : List OutputLine → LineSource → Prop where
  | blank (h : (splitComment line).1 = []) : Alone line s [s.emit (splitComment line).2] s
  | imported {name comment : Text} (h : IsConstruct line (.imported (.module name)) comment) :
      Alone line s [s.emit ("import ".toList ++ name ++ comment)] s
  | dropped {comment : Text} (h : IsConstruct line (.imported .dropped) comment) : Alone line s [] s
  | implementation {header : ImplementationHeader} {comment : Text}
      (h : IsConstruct line (.implementation header) comment) :
      Alone line s (convertImplementation header comment s).lines
        (convertImplementation header comment s).source
  | interface {header : InterfaceHeader} {comment : Text}
      (h : IsConstruct line (.interface header) comment) : Alone line s [] (skipInterface s).source
  | blockEnd {comment : Text} (h : IsConstruct line .blockEnd comment) :
      Alone line s [s.emit ('\x7d' :: comment)] s
  | synthesize {comment : Text} (h : IsConstruct line .synthesize comment) :
      Alone line s [] (skipSynthesize (splitComment line).1 s).source
  | method {header : MethodHeader} {comment : Text}
      (h : IsConstruct line (.method header) comment) :
      Alone line s (convertMethod header comment s).lines (convertMethod header comment s).source
  | done {text comment : Text} (h : IsConstruct line (.statement (.done text)) comment) :
      Alone line s [s.emit (text ++ comment)] s
  | header {c : Conditional} {comment : Text}
      (h : IsConstruct line (.statement (.conditional c)) comment) (hguard : c.isSelfGuard = false)
      (hbody : c.body ≠ .follows) : Alone line s [s.emit (c.render ++ comment)] s
  | braced {c : Conditional} {comment : Text}
      (h : IsConstruct line (.statement (.conditional c)) comment) (hguard : c.isSelfGuard = false)
      (hbody : c.body = .follows) (hbrace : (s.skipIf isLoneBrace).1 = true) :
      Alone line s [s.emit (c.render ++ comment)] (s.skipIf isLoneBrace).2

lemma Alone.not_isGuard {line : Text} {s t : LineSource} {lines : List OutputLine}
    (h : Alone line s lines t) : ¬IsGuard line := by
  cases h with
  | blank h => exact fun hguard => hguard.1 h
  | imported h | dropped h | implementation h | interface h | blockEnd h | synthesize h | method h
  | done h => exact h.not_isGuard rfl
  | header h hguard | braced h hguard => exact h.not_isGuard hguard

/-- What is converted as a whole: a unit whose first line is consumed, or a block. -/
inductive Part where
  | unit (line : Text)
  | block (bound : BlockBound)

/-- The lines that a part becomes, and the source behind it. -/
inductive Converts : Part → LineSource → List OutputLine → LineSource → Prop where
  | alone {line : Text} {s t : LineSource} {lines : List OutputLine} (h : Alone line s lines t) :
      Converts (.unit line) s lines t
  | guarded {line comment : Text} {s t : LineSource} {c : Conditional} {lines : List OutputLine}
      (h : IsConstruct line (.statement (.conditional c)) comment) (hguard : c.isSelfGuard = true)
      (hbody : Converts (.block (.indented c.indent)) (s.setDedent true) lines t) :
      Converts (.unit line) s lines (skipGuardEnd (t.setDedent s.dedenting))
  | braceless {line comment : Text} {s t : LineSource} {c : Conditional} {lines : List OutputLine}
      (h : IsConstruct line (.statement (.conditional c)) comment) (hguard : c.isSelfGuard = false)
      (hfollows : c.body = .follows) (hbrace : (s.skipIf isLoneBrace).1 = false)
      (hbody : Converts (.block .statement) (s.skipIf isLoneBrace).2 lines t) :
      Converts (.unit line) s
        (s.emit (c.render ++ comment) :: lines ++ [t.emit (c.indent ++ ['\x7d'])]) t
  | outOfLines {bound : BlockBound} {s : LineSource} (h : s.peek.1 = none) :
      Converts (.block bound) s [] s.peek.2
  | stopBefore {bound : BlockBound} {s : LineSource} {line : Text} (h : s.peek.1 = some line)
      (hbefore : bound.endsBefore line = true) : Converts (.block bound) s [] s.peek.2
  | stopBehind {bound : BlockBound} {s t : LineSource} {line : Text} {lines : List OutputLine}
      (h : s.peek.1 = some line) (hbefore : bound.endsBefore line = false)
      (hbehind : bound.endsBehind line = true)
      (hunit : Converts (.unit line) s.peek.2.consume lines t) : Converts (.block bound) s lines t
  | goOn {bound : BlockBound} {s t u : LineSource} {line : Text} {lines more : List OutputLine}
      (h : s.peek.1 = some line) (hbefore : bound.endsBefore line = false)
      (hbehind : bound.endsBehind line = false)
      (hunit : Converts (.unit line) s.peek.2.consume lines t)
      (hmore : Converts (.block bound) t more u) : Converts (.block bound) s (lines ++ more) u

/-! ### Every conversion has a derivation -/

/-- The next unit is that of the next line. -/
lemma convertNext_cases (s : LineSource) :
    (s.next? = none ∧ convertNext s = none) ∨
      ∃ line s' unit, s.next? = some (line, s') ∧ convertNext s = some unit ∧
        unit.lines = (convertUnit line s').lines ∧ unit.source = (convertUnit line s').source := by
  rw [convertNext]
  split
  · next h => exact .inl ⟨h, rfl⟩
  · next line s' h => exact .inr ⟨line, s', _, h, rfl, rfl, rfl⟩

lemma convertNext_peek {s : LineSource} {line : Text} (h : s.peek.1 = some line) :
    ∃ unit, convertNext s.peek.2 = some unit ∧
      unit.lines = (convertUnit line s.peek.2.consume).lines ∧
      unit.source = (convertUnit line s.peek.2.consume).source := by
  obtain ⟨hnone, -⟩ | ⟨line', s', unit, hnext, hunit, hlines, hsource⟩ :=
    convertNext_cases s.peek.2
  · simp [LineSource.next?_peek h] at hnone
  · rw [LineSource.next?_peek h, Option.some.injEq, Prod.mk.injEq] at hnext
    obtain ⟨rfl, rfl⟩ := hnext
    exact ⟨unit, hunit, hlines, hsource⟩

@[simp] lemma lines_skipSynthesize (code : Text) (s : LineSource) :
    (skipSynthesize code s).lines = [] := by
  unfold skipSynthesize
  split_ifs <;> rfl

mutual
lemma converts_unit (line : Text) (s : LineSource) :
    Converts (.unit line) s (convertUnit line s).lines (convertUnit line s).source := by
  rw [convertUnit]
  split
  next code comment hsplit =>
  have hcode : (splitComment line).1 = code := by rw [hsplit]
  have hcomment : (splitComment line).2 = comment := by rw [hsplit]
  subst hcode hcomment
  split_ifs with hnil
  · exact .alone (.blank hnil)
  · split
    · next name h => exact .alone (.imported ⟨hnil, h, rfl⟩)
    · next h => exact .alone (.dropped ⟨hnil, h, rfl⟩)
    · next header h => exact .alone (.implementation ⟨hnil, h, rfl⟩)
    · next header h => exact .alone (.interface ⟨hnil, h, rfl⟩)
    · next h => exact .alone (.blockEnd ⟨hnil, h, rfl⟩)
    · next h =>
      rw [lines_skipSynthesize]
      exact .alone (.synthesize ⟨hnil, h, rfl⟩)
    · next header h => exact .alone (.method ⟨hnil, h, rfl⟩)
    · next text h => exact .alone (.done ⟨hnil, h, rfl⟩)
    · next c h => exact converts_conditional ⟨hnil, h, rfl⟩ s
termination_by 4 * s.unread + 3

lemma converts_conditional {line comment : Text} {c : Conditional}
    (h : IsConstruct line (.statement (.conditional c)) comment) (s : LineSource) :
    Converts (.unit line) s (convertConditional c comment s).lines
      (convertConditional c comment s).source := by
  rw [convertConditional]
  split_ifs with hguard hbody hbrace
  · exact .guarded h hguard (converts_block (.indented c.indent) (s.setDedent true))
  · exact .alone (.header h (by simpa using hguard) hbody)
  · exact .alone (.braced h (by simpa using hguard) (by simpa using hbody) hbrace)
  · exact .braceless h (by simpa using hguard) (by simpa using hbody) (by simpa using hbrace)
      (converts_block .statement (s.skipIf isLoneBrace).2)
termination_by 4 * s.unread + 2
decreasing_by
  · simp
  · have := s.unread_skipIf_le isLoneBrace
    omega

lemma converts_block (bound : BlockBound) (s : LineSource) :
    Converts (.block bound) s (convertBlock bound s).lines (convertBlock bound s).source := by
  rw [convertBlock]
  split
  · next h => exact .outOfLines h
  · next line h =>
    by_cases hbefore : bound.endsBefore line = true
    · rw [if_pos hbefore]
      exact .stopBefore h hbefore
    · rw [if_neg hbefore]
      rw [Bool.not_eq_true] at hbefore
      obtain ⟨unit, hunit, hlines, hsource⟩ := convertNext_peek h
      have hlt := LineSource.unread_consume_peek h
      have hderived := converts_unit line s.peek.2.consume
      rw [← hlines, ← hsource] at hderived
      rw [hunit]
      show Converts (.block bound) s
        (if bound.endsBehind line = true then _ else _ : Conversion _).lines
        (if bound.endsBehind line = true then _ else _ : Conversion _).source
      split_ifs with hbehind
      · exact .stopBehind h hbefore hbehind hderived
      · exact .goOn h hbefore (by simpa using hbehind) hderived (converts_block bound unit.source)
termination_by 4 * s.unread + 1
decreasing_by
  · omega
  · have := unread_behind_unit unit
    omega
end

/-! ### A derivation leaves no choice -/

lemma IsConstruct.splitComment_eq {line comment : Text} {construct : Construct}
    (h : IsConstruct line construct comment) :
    splitComment line = ((splitComment line).1, comment) := by
  rw [← h.comment_eq]

lemma Alone.unit_eq {line : Text} {s t : LineSource} {lines : List OutputLine}
    (h : Alone line s lines t) :
    (convertUnit line s).lines = lines ∧ (convertUnit line s).source = t := by
  cases h with
  | blank h =>
    rw [convertUnit]
    simp [h]
  | synthesize h =>
    rw [convertUnit, h.splitComment_eq]
    simp [h.code_ne_nil, h.ofCode]
  | header h hguard hbody =>
    rw [convertUnit, h.splitComment_eq]
    simp [h.code_ne_nil, h.ofCode, convertConditional, hguard, hbody]
  | braced h hguard hbody hbrace =>
    rw [convertUnit, h.splitComment_eq]
    simp [h.code_ne_nil, h.ofCode, convertConditional, hguard, hbody, hbrace]
  | interface h =>
    rw [convertUnit, h.splitComment_eq]
    simp [h.code_ne_nil, h.ofCode, skipInterface]
  | imported h =>
    rw [convertUnit, h.splitComment_eq]
    simp [h.code_ne_nil, h.ofCode]
  | dropped h =>
    rw [convertUnit, h.splitComment_eq]
    simp [h.code_ne_nil, h.ofCode]
  | implementation h =>
    rw [convertUnit, h.splitComment_eq]
    simp [h.code_ne_nil, h.ofCode]
  | blockEnd h =>
    rw [convertUnit, h.splitComment_eq]
    simp [h.code_ne_nil, h.ofCode]
  | method h =>
    rw [convertUnit, h.splitComment_eq]
    simp [h.code_ne_nil, h.ofCode]
  | done h =>
    rw [convertUnit, h.splitComment_eq]
    simp [h.code_ne_nil, h.ofCode]

/-- What a part is converted to. -/
def Part.convert : Part → LineSource → List OutputLine × LineSource
  | unit line, s => ((convertUnit line s).lines, (convertUnit line s).source)
  | block bound, s => ((convertBlock bound s).lines, (convertBlock bound s).source)

theorem Converts.convert_eq {part : Part} {s t : LineSource} {lines : List OutputLine}
    (h : Converts part s lines t) : part.convert s = (lines, t) := by
  induction h with
  | alone h =>
    obtain ⟨hlines, hsource⟩ := h.unit_eq
    rw [Part.convert, hlines, hsource]
  | guarded h hguard hbody ih =>
    rw [Part.convert, Prod.mk.injEq] at ih
    rw [Part.convert, convertUnit, h.splitComment_eq]
    simp [h.code_ne_nil, h.ofCode, convertConditional, hguard, Conversion.endGuard, ih.1, ih.2]
  | braceless h hguard hfollows hbrace hbody ih =>
    rw [Part.convert, Prod.mk.injEq] at ih
    rw [Part.convert, convertUnit, h.splitComment_eq]
    simp [h.code_ne_nil, h.ofCode, convertConditional, hguard, hfollows, hbrace,
      Conversion.enclose, ih.1, ih.2]
  | outOfLines h =>
    rw [Part.convert, convertBlock]
    split
    · rfl
    · next line hline => simp [h] at hline
  | stopBefore h hbefore =>
    rw [Part.convert, convertBlock]
    split
    · rfl
    · next line hline =>
      obtain rfl : _ = line := Option.some.inj (h.symm.trans hline)
      rw [if_pos hbefore]
      rfl
  | stopBehind h hbefore hbehind hunit ih =>
    rw [Part.convert, Prod.mk.injEq] at ih
    obtain ⟨unit, hnext, hlines, hsource⟩ := convertNext_peek h
    rw [Part.convert, convertBlock]
    split
    · next hnone => simp [h] at hnone
    · next line hline =>
      obtain rfl : _ = line := Option.some.inj (h.symm.trans hline)
      simp [hbefore, hnext, hbehind, hlines, hsource, ih.1, ih.2]
  | goOn h hbefore hbehind hunit hmore ih ih' =>
    rw [Part.convert, Prod.mk.injEq] at ih
    rw [Part.convert, Prod.mk.injEq] at ih'
    obtain ⟨unit, hnext, hlines, hsource⟩ := convertNext_peek h
    rw [Part.convert, convertBlock]
    split
    · next hnone => simp [h] at hnone
    · next line hline =>
      obtain rfl : _ = line := Option.some.inj (h.symm.trans hline)
      simp only [hbefore, hnext, hbehind, hlines, ih.1, Bool.false_eq_true, if_false,
        Conversion.lines_weaken, Conversion.source_weaken, Conversion.lines_prepend,
        Conversion.source_prepend]
      rw [hsource.trans ih.2, ih'.1, ih'.2]

/-- A unit that is derived from the next line is the next unit. -/
lemma Converts.exists_convertNext {line : Text} {s t u : LineSource} {lines : List OutputLine}
    (h : Converts (.unit line) t lines u) (hnext : s.next? = some (line, t)) :
    ∃ unit, convertNext s = some unit ∧ unit.lines = lines ∧ unit.source = u := by
  have heq := h.convert_eq
  rw [Part.convert, Prod.mk.injEq] at heq
  obtain ⟨hnone, -⟩ | ⟨line', t', unit, hnext', hunit, hlines, hsource⟩ := convertNext_cases s
  · simp [hnext] at hnone
  · rw [hnext, Option.some.injEq, Prod.mk.injEq] at hnext'
    obtain ⟨rfl, rfl⟩ := hnext'
    exact ⟨unit, hunit, hlines.trans heq.1, hsource.trans heq.2⟩

lemma Converts.unread_le {part : Part} {s t : LineSource} {lines : List OutputLine}
    (h : Converts part s lines t) : t.unread ≤ s.unread := by
  have heq := h.convert_eq
  cases part with
  | unit line =>
    rw [Part.convert, Prod.mk.injEq] at heq
    rw [← heq.2]
    exact Nat.le_of_lt_succ (convertUnit line s).unread_lt
  | block bound =>
    rw [Part.convert, Prod.mk.injEq] at heq
    rw [← heq.2]
    exact Nat.le_of_lt_succ (convertBlock bound s).unread_lt

end Swiftward
