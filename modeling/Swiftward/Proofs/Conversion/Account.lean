import Mathlib.Tactic.LinearCombination
import Mathlib.Tactic.Ring
import Swiftward.Proofs.Conversion.Scan
import Swiftward.Proofs.Conversion.Upcoming
import Swiftward.Proofs.Text.Brace

/-!
# Accounts of what is converted

Give every line a weight. As long as no guard is read, a conversion changes the total weight of the
lines only where the body of a conditional follows: its header opens a brace, and then either a
closing brace is made or the brace on the next line is taken in. So the weight of the output is that
of the lines consumed, corrected for each such header that was met on the way
(`Converts.weight_eq`). Which these are is told by the units that are visited (`Converter.visits`).
-/

namespace Swiftward

/-! ### The lines ahead of a source -/

namespace LineSource

/-- The lines that are still to come, as they are fetched in the present mode. -/
def texts (s : LineSource) : List Text := s.upcoming.map (· s.dedenting)

variable {s t : LineSource} {text : Text}

@[simp] lemma texts_ofLines (width : Nat) (lines : List Text) :
    (ofLines width lines).texts = lines.map trimEnd := by
  rw [texts, upcoming_ofLines, List.map_map]
  apply List.map_congr_left
  intro line hline
  exact fetchedAs_false width line

@[simp] lemma length_texts (s : LineSource) : s.texts.length = s.unread := by
  rw [texts, upcoming, unread]
  simp [Nat.add_comm]

lemma texts_of_next? (h : s.next? = some (text, t)) : s.texts = text :: t.texts := by
  obtain ⟨-, hnone⟩ | ⟨text', t', hnext, hconsumes⟩ := s.next?_cases
  · simp [hnone] at h
  · rw [h, Option.some.injEq, Prod.mk.injEq] at hnext
    obtain ⟨rfl, rfl⟩ := hnext
    obtain ⟨first, hupcoming, hfirst⟩ := hconsumes.upcoming_eq
    rw [texts, texts, hupcoming, List.map_cons, hfirst, hconsumes.dedenting_eq]

lemma texts_eq_nil (h : s.next? = none) : s.texts = [] := by
  obtain ⟨hnil, -⟩ | ⟨text, t, hnext, -⟩ := s.next?_cases
  · rw [texts, hnil, List.map_nil]
  · simp [h] at hnext

lemma texts_peek (s : LineSource) : s.peek.2.texts = s.texts := by
  obtain ⟨-, hpeek⟩ | ⟨text, t, hpeek, hlooks⟩ := s.peek_cases
  · rw [hpeek]
  · obtain ⟨first, more, hupcoming, hfirst, hlooked⟩ := hlooks.upcoming_eq
    rw [hpeek, texts, texts, hupcoming, hlooked, List.map_cons, List.map_cons, hfirst,
      hlooks.dedenting_eq]

lemma texts_of_peek (h : s.peek.1 = some text) : s.texts = text :: s.peek.2.consume.texts := by
  rw [← texts_peek, texts_of_next? (next?_peek h)]

/-- The first of the lines ahead is the one that is looked at. -/
lemma peek_of_texts {texts : List Text} (h : s.texts = text :: texts) :
    s.peek.1 = some text ∧ s.peek.2.consume.texts = texts := by
  obtain ⟨hnil, -⟩ | ⟨text', t, hpeek, -⟩ := s.peek_cases
  · rw [LineSource.texts, hnil] at h
    cases h
  · have hpeek : s.peek.1 = some text' := by rw [hpeek]
    rw [texts_of_peek hpeek] at h
    obtain ⟨rfl, htexts⟩ := List.cons.inj h
    exact ⟨hpeek, htexts⟩

/-- Without a change of the mode, what is ahead stays ahead until it is consumed. -/
lemma kept_texts (ahead : List Text) : Kept fun t => t.texts <:+ ahead where
  peek {s} h := by rwa [texts_peek]
  next {s t text} hnext h := by
    rw [texts_of_next? hnext] at h
    exact (List.suffix_cons text t.texts).trans h

end LineSource

/-- The line of a unit, which is consumed when the unit begins. -/
def Part.texts : Part → List Text
  | unit line => [line]
  | block _ => []

lemma Alone.texts_suffix {line : Text} {s t : LineSource} {lines : List OutputLine}
    (h : Alone line s lines t) : t.texts <:+ s.texts :=
  (LineSource.kept_texts s.texts).alone h List.suffix_rfl

lemma LineSource.texts_skipIf_suffix (p : Text → Bool) (s : LineSource) :
    (s.skipIf p).2.texts <:+ s.texts :=
  (kept_texts s.texts).skipIf p List.suffix_rfl

/-- Where there is no guard, the lines behind a conversion are lines that were ahead of it. -/
theorem Converts.texts_suffix {part : Part} {s t : LineSource} {lines : List OutputLine}
    (h : Converts part s lines t) (hguard : ∀ text ∈ part.texts ++ s.texts, ¬IsGuard text) :
    t.texts <:+ s.texts := by
  induction h with
  | alone h => exact h.texts_suffix
  | guarded h hself hbody ih => exact absurd (h.isGuard hself) (hguard _ (by simp [Part.texts]))
  | @braceless line comment s t c lines h hself hfollows hbrace hbody ih =>
    have hskip := s.texts_skipIf_suffix isLoneBrace
    refine (ih ?_).trans hskip
    intro text htext
    exact hguard text (List.mem_append_right _ (hskip.subset htext))
  | @outOfLines bound s h => exact LineSource.texts_peek s ▸ List.suffix_rfl
  | @stopBefore bound s line h hbefore => exact LineSource.texts_peek s ▸ List.suffix_rfl
  | @stopBehind bound s t line lines h hbefore hbehind hunit ih =>
    have htexts := LineSource.texts_of_peek h
    have hbehind := ih (fun text htext => hguard text (by rw [htexts]; exact htext))
    rw [htexts]
    exact hbehind.trans (List.suffix_cons ..)
  | @goOn bound s t u line lines more h hbefore hbehind hunit hmore ih ih' =>
    have htexts := LineSource.texts_of_peek h
    have hfirst := ih (fun text htext => hguard text (by rw [htexts]; exact htext))
    have hahead : t.texts <:+ s.texts := by
      rw [htexts]
      exact hfirst.trans (List.suffix_cons ..)
    exact (ih' fun text htext => hguard text (hahead.subset htext)).trans hahead

/-! ### Units that are visited -/

/-- The conditional that a line is the header of. -/
def headerOf? (line : Text) : Option Conditional :=
  if (splitComment line).1 = [] then none
  else match Construct.ofCode (splitComment line).1 with
    | .statement (.conditional c) => some c
    | _ => none

/-- Whether a line is the header of a conditional whose body follows. -/
def awaitsBody (line : Text) : Bool :=
  (headerOf? line).any fun c => !c.isSelfGuard && c.body = .follows

/-- A unit when its conversion begins: its line, and the source behind that. -/
structure Visit where
  line : Text
  source : LineSource

namespace Visit

/-- Whether a closing brace is made for the header. -/
def closes (v : Visit) : Bool := awaitsBody v.line && !(v.source.skipIf isLoneBrace).1

/-- Whether the header takes in a brace from the next line. -/
def absorbs (v : Visit) : Bool := awaitsBody v.line && (v.source.skipIf isLoneBrace).1

end Visit

mutual

/-- The units that are converted in the course of the unit of a line, itself among them. -/
def unitVisits (line : Text) (s : LineSource) : List Visit :=
  ⟨line, s⟩ :: match headerOf? line with
    | none => []
    | some c =>
      if c.isSelfGuard then blockVisits (.indented c.indent) (s.setDedent true)
      else if c.body ≠ .follows ∨ (s.skipIf isLoneBrace).1 = true then []
      else blockVisits .statement (s.skipIf isLoneBrace).2
termination_by 2 * s.unread + 1
decreasing_by
  · simp
  · have := s.unread_skipIf_le isLoneBrace
    omega

/-- The units that are converted in the course of a block. -/
def blockVisits (bound : BlockBound) (s : LineSource) : List Visit :=
  match _h : s.peek.1 with
  | none => []
  | some line =>
    if bound.endsBefore line then []
    else
      let visits := unitVisits line s.peek.2.consume
      if bound.endsBehind line then visits
      else visits ++ blockVisits bound (convertUnit line s.peek.2.consume).source
termination_by 2 * s.unread
decreasing_by
  · have := LineSource.unread_consume_peek _h
    omega
  · have := LineSource.unread_consume_peek _h
    have := (convertUnit line s.peek.2.consume).unread_lt
    omega

end

/-- The units that are converted in the course of a part. -/
def Part.visits : Part → LineSource → List Visit
  | unit line, s => unitVisits line s
  | block bound, s => blockVisits bound s

section Visits

variable {line comment : Text} {c : Conditional} {s t : LineSource} {lines : List OutputLine}
  {bound : BlockBound}

lemma IsConstruct.headerOf? (h : IsConstruct line (.statement (.conditional c)) comment) :
    Swiftward.headerOf? line = some c := by
  rw [Swiftward.headerOf?, if_neg h.code_ne_nil, h.ofCode]

lemma IsConstruct.headerOf?_eq_none {construct : Construct}
    (h : IsConstruct line construct comment) (hother : ∀ c, construct ≠ .statement (.conditional c)) :
    Swiftward.headerOf? line = none := by
  rw [Swiftward.headerOf?, if_neg h.code_ne_nil, h.ofCode]
  split
  · next c => exact absurd rfl (hother c)
  · rfl

lemma IsConstruct.awaitsBody (h : IsConstruct line (.statement (.conditional c)) comment)
    (hself : c.isSelfGuard = false) :
    Swiftward.awaitsBody line = decide (c.body = .follows) := by
  simp [Swiftward.awaitsBody, h.headerOf?, hself]

/-- A unit that reads no block is the header of none, or it takes in its brace. -/
lemma Alone.header_cases (h : Alone line s lines t) :
    (Swiftward.headerOf? line = none) ∨
      ∃ c comment, IsConstruct line (.statement (.conditional c)) comment ∧
        c.isSelfGuard = false ∧ lines = [s.emit (c.render ++ comment)] ∧
        (c.body ≠ .follows ∧ t = s ∨
          c.body = .follows ∧ (s.skipIf isLoneBrace).1 = true ∧ t = (s.skipIf isLoneBrace).2) := by
  cases h with
  | header h hself hbody => exact .inr ⟨_, _, h, hself, rfl, .inl ⟨hbody, rfl⟩⟩
  | braced h hself hbody hbrace => exact .inr ⟨_, _, h, hself, rfl, .inr ⟨hbody, hbrace, rfl⟩⟩
  | blank h => exact .inl (by rw [Swiftward.headerOf?, if_pos h])
  | imported h => exact .inl (h.headerOf?_eq_none nofun)
  | dropped h => exact .inl (h.headerOf?_eq_none nofun)
  | implementation h => exact .inl (h.headerOf?_eq_none nofun)
  | interface h => exact .inl (h.headerOf?_eq_none nofun)
  | blockEnd h => exact .inl (h.headerOf?_eq_none nofun)
  | synthesize h => exact .inl (h.headerOf?_eq_none nofun)
  | method h => exact .inl (h.headerOf?_eq_none nofun)
  | done h => exact .inl (h.headerOf?_eq_none nofun)

lemma Alone.visits (h : Alone line s lines t) : unitVisits line s = [⟨line, s⟩] := by
  rw [unitVisits]
  obtain hnone | ⟨c, comment, hconstruct, hself, -, hcases⟩ := h.header_cases
  · rw [hnone]
  · simp only [hconstruct.headerOf?, hself, Bool.false_eq_true, if_false]
    rw [if_pos]
    exact hcases.imp (·.1) (·.2.1)

lemma IsConstruct.visits (h : IsConstruct line (.statement (.conditional c)) comment)
    (hself : c.isSelfGuard = false) (hfollows : c.body = .follows)
    (hbrace : (s.skipIf isLoneBrace).1 = false) :
    unitVisits line s = ⟨line, s⟩ :: blockVisits .statement (s.skipIf isLoneBrace).2 := by
  rw [unitVisits]
  simp [h.headerOf?, hself, hfollows, hbrace]

lemma blockVisits_of_none (h : s.peek.1 = none) : blockVisits bound s = [] := by
  rw [blockVisits]
  split
  · rfl
  · next line hline => simp [h] at hline

lemma blockVisits_of_some (h : s.peek.1 = some line) :
    blockVisits bound s =
      if bound.endsBefore line then []
      else if bound.endsBehind line then unitVisits line s.peek.2.consume
      else unitVisits line s.peek.2.consume ++
        blockVisits bound (convertUnit line s.peek.2.consume).source := by
  rw [blockVisits]
  split
  · next hnone => simp [h] at hnone
  · next line' hline =>
    obtain rfl : line = line' := Option.some.inj (h.symm.trans hline)
    rfl

end Visits

/-! ### Weights -/

/-- The texts of lines of output. -/
def textsOf (lines : List OutputLine) : List Text := lines.map (·.text)

@[simp] lemma textsOf_nil : textsOf [] = [] := rfl

@[simp] lemma textsOf_cons (line : OutputLine) (lines : List OutputLine) :
    textsOf (line :: lines) = line.text :: textsOf lines := rfl

@[simp] lemma textsOf_append (lines more : List OutputLine) :
    textsOf (lines ++ more) = textsOf lines ++ textsOf more := List.map_append

@[simp] lemma textsOf_map_emit (s : LineSource) (texts : List Text) :
    textsOf (texts.map s.emit) = texts := by
  rw [textsOf, List.map_map]
  exact List.map_id texts

/-- A weight of lines under which lines with the property `P` are converted one by one: a header
whose body follows gains the weight `opening`, a closing brace that is made weighs `closing`, and
a line with a brace alone weighs `brace`. -/
structure Weighing (P : Text → Prop) (weight : Text → Int) (opening closing brace : Int) : Prop where
  not_guard : ∀ {line}, P line → ¬IsGuard line
  alone : ∀ {line s lines t}, P line → Alone line s lines t → awaitsBody line = false →
    total weight (textsOf lines) + total weight t.texts = weight line + total weight s.texts
  header : ∀ {line comment c}, P line → IsConstruct line (.statement (.conditional c)) comment →
    c.isSelfGuard = false → c.body = .follows →
    weight (c.render ++ comment) = weight line + opening
  closing : ∀ {line comment c}, IsConstruct line (.statement (.conditional c)) comment →
    weight (c.indent ++ ['\x7d']) = closing
  brace : ∀ {text}, isLoneBrace text = true → weight text = brace

/-- What the headers that are visited add to the weight, when `made` is what each of them adds that
a closing brace is made for, and `taken` what each of them adds that takes in a brace. -/
def surplus (made taken : Int) (visits : List Visit) : Int :=
  visits.countP Visit.closes * made + visits.countP Visit.absorbs * taken

section Surplus

variable (made taken : Int)

@[simp] lemma surplus_nil : surplus made taken [] = 0 := by simp [surplus]

@[simp] lemma surplus_append (visits more : List Visit) :
    surplus made taken (visits ++ more) = surplus made taken visits + surplus made taken more := by
  simp only [surplus, List.countP_append]
  push_cast
  ring

lemma surplus_cons (v : Visit) (visits : List Visit) :
    surplus made taken (v :: visits) = surplus made taken [v] + surplus made taken visits :=
  surplus_append made taken [v] visits

variable {line comment : Text} {c : Conditional} {s : LineSource}

lemma surplus_zero (visits : List Visit) : surplus 0 0 visits = 0 := by simp [surplus]

lemma surplus_of_not_awaitsBody (h : awaitsBody line = false) :
    surplus made taken [⟨line, s⟩] = 0 := by
  simp [surplus, Visit.closes, Visit.absorbs, h]

lemma surplus_of_awaitsBody (h : awaitsBody line = true) :
    surplus made taken [⟨line, s⟩] = if (s.skipIf isLoneBrace).1 then taken else made := by
  cases hbrace : (s.skipIf isLoneBrace).1 <;>
    simp [surplus, Visit.closes, Visit.absorbs, h, hbrace]

end Surplus

namespace Weighing

variable {P : Text → Prop} {weight : Text → Int} {opening closing brace : Int}

/-- Where there is a brace to take in, it is what the source gives next. -/
lemma total_skipIf (hw : Weighing P weight opening closing brace) (s : LineSource) :
    total weight s.texts = total weight (s.skipIf isLoneBrace).2.texts +
      if (s.skipIf isLoneBrace).1 then brace else 0 := by
  obtain ⟨text, hpeek, htext, heq⟩ | ⟨-, heq⟩ := s.skipIf_cases isLoneBrace
  · rw [heq, LineSource.texts_of_peek hpeek, total_cons, hw.brace htext, if_pos rfl, add_comm]
  · rw [heq, LineSource.texts_peek]
    simp

lemma of_alone (hw : Weighing P weight opening closing brace) {line : Text} {s t : LineSource}
    {lines : List OutputLine} (h : Alone line s lines t) (hP : P line) :
    total weight (textsOf lines) + total weight t.texts = weight line + total weight s.texts +
      surplus (opening + closing) (opening - brace) [⟨line, s⟩] := by
  obtain hnone | ⟨c, comment, hconstruct, hself, hlines, ⟨hbody, ht⟩ | ⟨hbody, hbrace, ht⟩⟩ :=
    h.header_cases
  · have hawaits : awaitsBody line = false := by rw [awaitsBody, hnone]; rfl
    rw [hw.alone hP h hawaits, surplus_of_not_awaitsBody _ _ hawaits, add_zero]
  · have hawaits : awaitsBody line = false := by simp [hconstruct.awaitsBody hself, hbody]
    rw [hw.alone hP h hawaits, surplus_of_not_awaitsBody _ _ hawaits, add_zero]
  · have hawaits : awaitsBody line = true := by simp [hconstruct.awaitsBody hself, hbody]
    have hskip := hw.total_skipIf s
    have hheader := hw.header hP hconstruct hself hbody
    rw [hbrace, if_pos rfl] at hskip
    rw [surplus_of_awaitsBody _ _ hawaits, hbrace, if_pos rfl, hlines, ht]
    simp only [LineSource.emit, textsOf_cons, textsOf_nil, total_cons, total_nil]
    linear_combination hheader - hskip

end Weighing

section Weights

variable {P : Text → Prop} {weight : Text → Int} {opening closing brace : Int}

/-- The weight of what a conversion makes and leaves is the weight of what it was given, and what
the headers add that are visited. -/
theorem Converts.weight_eq (hw : Weighing P weight opening closing brace) {part : Part}
    {s t : LineSource} {lines : List OutputLine} (h : Converts part s lines t)
    (hP : ∀ text ∈ part.texts ++ s.texts, P text) :
    total weight (textsOf lines) + total weight t.texts =
      total weight (part.texts ++ s.texts) +
        surplus (opening + closing) (opening - brace) (part.visits s) := by
  induction h with
  | @alone line s t lines h =>
    have hunit := hw.of_alone h (hP line (by simp [Part.texts]))
    simpa [Part.texts, Part.visits, h.visits] using hunit
  | guarded h hself hbody ih =>
    exact absurd (h.isGuard hself) (hw.not_guard (hP _ (by simp [Part.texts])))
  | @braceless line comment s t c lines h hself hfollows hbrace hbody ih =>
    have hawaits : awaitsBody line = true := by simp [h.awaitsBody hself, hfollows]
    have hline := hw.header (hP line (by simp [Part.texts])) h hself hfollows
    have hclosing := hw.closing h
    have hskip := hw.total_skipIf s
    have hinside := ih fun text htext =>
      hP text (List.mem_append_right _ ((s.texts_skipIf_suffix isLoneBrace).subset htext))
    rw [hbrace, if_neg (by decide), add_zero] at hskip
    rw [Part.visits, h.visits hself hfollows hbrace, surplus_cons, surplus_of_awaitsBody _ _ hawaits,
      hbrace, if_neg (by decide)]
    simp only [Part.texts, Part.visits, List.nil_append, List.cons_append, textsOf_cons,
      textsOf_append, textsOf_nil, LineSource.emit, total_cons, total_append, total_nil] at hinside ⊢
    linear_combination hline + hclosing + hinside - hskip
  | outOfLines h => simp [Part.texts, Part.visits, blockVisits_of_none h, LineSource.texts_peek]
  | stopBefore h hbefore =>
    simp [Part.texts, Part.visits, blockVisits_of_some h, hbefore, LineSource.texts_peek]
  | @stopBehind bound s t line lines h hbefore hbehind hunit ih =>
    have htexts := LineSource.texts_of_peek h
    have hinside := ih fun text htext => hP text (by rw [htexts]; exact htext)
    simpa [Part.texts, Part.visits, blockVisits_of_some h, hbefore, hbehind, htexts] using hinside
  | @goOn bound s t u line lines more h hbefore hbehind hunit hmore ih ih' =>
    have htexts := LineSource.texts_of_peek h
    have hunitP : ∀ text ∈ (Part.unit line).texts ++ s.peek.2.consume.texts, P text := by
      intro text htext
      exact hP text (by rw [htexts]; exact htext)
    have hahead : t.texts <:+ s.peek.2.consume.texts :=
      hunit.texts_suffix fun text htext => hw.not_guard (hunitP text htext)
    have hfirst := ih hunitP
    have hrest := ih' fun text htext =>
      hunitP text (List.mem_append_right _ (hahead.subset htext))
    have hsource : (convertUnit line s.peek.2.consume).source = t := congrArg Prod.snd hunit.convert_eq
    rw [Part.visits, blockVisits_of_some h, hbefore, hbehind, hsource]
    simp only [Part.texts, Part.visits, List.nil_append, List.cons_append, textsOf_append,
      total_cons, total_append, htexts, Bool.false_eq_true, if_false, surplus_append] at hfirst hrest ⊢
    linear_combination hfirst + hrest

namespace Converter

/-- The units that are converted in the course of the next step. -/
def visits (c : Converter) : List Visit :=
  match c.source.next? with
  | none => []
  | some (line, rest) => unitVisits line rest

/-- A step goes over lines ahead of the source, and the weight of what it hands out is that of these
lines, and what the headers add that are visited. -/
theorem weight_step (hw : Weighing P weight opening closing brace) {c : Converter}
    (hP : ∀ text ∈ c.source.texts, P text) :
    c.step.2.source.texts <:+ c.source.texts ∧
      total weight (textsOf c.step.1.lines) + total weight c.step.2.source.texts =
        total weight c.source.texts +
          surplus (opening + closing) (opening - brace) c.visits := by
  rcases hnext : c.source.next? with _ | ⟨line, rest⟩
  · obtain ⟨-, hnone⟩ | ⟨line, s, unit, hline, -⟩ := convertNext_cases c.source
    · rw [step_of_none hnone, visits, hnext]
      exact ⟨List.suffix_rfl, by simp [Step.lines]⟩
    · simp [hnext] at hline
  · have htexts := LineSource.texts_of_next? hnext
    have hunit := converts_unit line rest
    have hunitP : ∀ text ∈ (Part.unit line).texts ++ rest.texts, P text := by
      rw [htexts] at hP
      exact hP
    obtain ⟨hlines, hafter⟩ := step_of_converts hnext hunit
    rw [hlines, hafter, visits, hnext, htexts]
    constructor
    · exact (hunit.texts_suffix fun text htext => hw.not_guard (hunitP text htext)).trans
        (List.suffix_cons ..)
    · exact hunit.weight_eq hw hunitP

lemma texts_after_suffix (hw : Weighing P weight opening closing brace) {c : Converter}
    (hP : ∀ text ∈ c.source.texts, P text) (k : Nat) :
    (c.after k).source.texts <:+ c.source.texts := by
  induction k with
  | zero => exact List.suffix_rfl
  | succ k ih =>
    obtain ⟨hstep, -⟩ := weight_step hw fun text htext => hP text (ih.subset htext)
    exact hstep.trans ih

end Converter

/-- Where a closing brace makes up for what the header of a body gains, and so does a brace that is
taken in, the output has the weight of the lines. -/
theorem weight_convertUnits (hw : Weighing P weight opening (-opening) opening) {s : LineSource}
    (hP : ∀ text ∈ s.texts, P text) :
    total weight (textsOf (convertUnits s).flatten) = total weight s.texts := by
  fun_induction convertUnits s with
  | case1 s hnone =>
    obtain ⟨hnext, -⟩ | ⟨line, rest, unit, -, hunit, -⟩ := convertNext_cases s
    · rw [LineSource.texts_eq_nil hnext]
      rfl
    · simp [hnone] at hunit
  | case2 s unit hunit _ ih =>
    obtain ⟨-, hnone⟩ | ⟨line, rest, unit', hnext, hunit', hlines, hsource⟩ := convertNext_cases s
    · simp [hunit] at hnone
    · obtain rfl := Option.some.inj (hunit.symm.trans hunit')
      have hderived := converts_unit line rest
      rw [← hlines, ← hsource] at hderived
      have htexts := LineSource.texts_of_next? hnext
      have hunitP : ∀ text ∈ (Part.unit line).texts ++ rest.texts, P text := by
        rw [htexts] at hP
        exact hP
      have hahead := hderived.texts_suffix fun text htext => hw.not_guard (hunitP text htext)
      have hlater := ih fun text htext =>
        hunitP text (List.mem_append_right _ (hahead.subset htext))
      have hfirst := hderived.weight_eq hw hunitP
      rw [add_neg_cancel, sub_self, surplus_zero, add_zero] at hfirst
      rw [List.flatten_cons, textsOf_append, total_append, hlater, hfirst, htexts]
      rfl

end Weights

end Swiftward
