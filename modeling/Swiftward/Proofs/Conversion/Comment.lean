import Swiftward.Proofs.Conversion.Simulation
import Swiftward.Proofs.Text.Comment

/-!
# What comments decide

Comments are detached before the rules read the code of a line. The tests for what ends a
declaration, a block or a guard look at lines with their comments, though: all but one of them do
not see the comment (`IgnoresComment`), and the exception is the end of a statement, which a
semicolon at the end of a comment ends as well. A line without code counts with its indentation.

Sources that agree in the code and in these two points become the same code in the same places, and
differ only in the comments behind it (`forall₂_convertLines`).
-/

namespace Swiftward

/-! ### Tests of lines with their comments -/

lemma ignoresComment_isBlockEnd : IgnoresComment isBlockEnd := by
  have hends : IgnoresComment wordEnds := by
    apply IgnoresComment.head? (p := fun c => !c.any isWord)
    · intro c hc
      have hword : isWord c = false := Unicode.isWord_of_isSpace hc
      simp [hword]
    · decide
  exact hends.after? (by decide)

lemma ignoresComment_closesBlock : IgnoresComment closesBlock := by
  have hbrace : IgnoresComment fun s => decide (s.head? = some '\x7d') := by
    apply IgnoresComment.head? (p := fun c => decide (c = some '\x7d'))
    · rintro c hc
      have hne : c ≠ '\x7d' := by
        rintro rfl
        exact absurd hc (by decide)
      simpa using hne
    · decide
  exact hbrace.trimStart

lemma isReturnSelf_eq (line : Text) :
    isReturnSelf line = (after? "return" (trimStart line)).any fun s => (afterSpace? s).any fun s =>
      (after? "self" s).any fun s => (after? ";" (trimStart s)).any fun _ => true := by
  unfold isReturnSelf
  cases after? "return" (trimStart line) with
  | none => rfl
  | some s =>
    cases hspace : afterSpace? s with
    | none => simp [hspace]
    | some s =>
      cases hself : after? "self" s with
      | none => simp [hspace, hself]
      | some s => simp [hspace, hself, Option.any_true]

lemma ignoresComment_isReturnSelf : IgnoresComment isReturnSelf := by
  have hsemicolon : IgnoresComment fun s => (after? ";" s).any fun _ => true :=
    (IgnoresComment.const true).after? (by decide)
  have hself : IgnoresComment fun s => (after? "self" s).any fun s =>
      (after? ";" (trimStart s)).any fun _ => true :=
    hsemicolon.trimStart.after? (by decide)
  have hreturn : IgnoresComment fun s => (after? "return" s).any fun s =>
      (afterSpace? s).any fun s => (after? "self" s).any fun s => (after? ";" (trimStart s)).any fun _ => true :=
    (hself.afterSpace? (by decide)).after? (by decide)
  rw [funext isReturnSelf_eq]
  exact hreturn.trimStart

/-! ### Leading white space -/

/-- What follows white space that ends does not matter to the indentation. -/
lemma dedent_append {s t : Text} (width : Nat)
    (h : (∃ c ∈ s, isSpace c = false) ∨ ∀ c ∈ t.head?, isSpace c = false) :
    dedent width (s ++ t) = dedent width s ++ t := by
  have hne {c : Char} (hc : isSpace c = false) : decide (c = ' ') = false := by
    rw [decide_eq_false_iff_not]
    rintro rfl
    exact absurd hc (by decide)
  have hstop : (s ++ t).takeWhile (· = ' ') = s.takeWhile (· = ' ') := by
    apply takeWhile_append_of_stop
    refine h.imp ?_ fun h c hc => hne (h c hc)
    rintro ⟨c, hc, hspace⟩
    exact ⟨c, hc, hne hspace⟩
  unfold dedent
  rw [hstop]
  split_ifs with hwidth
  · have hle : width ≤ s.length := hwidth.trans (List.takeWhile_prefix _).length_le
    exact List.drop_append_of_le_length hle
  · rfl

lemma endsStatement_append_spaces {indent : Text} (h : ∀ c ∈ indent, isSpace c = true) (s : Text) :
    endsStatement (indent ++ s) = endsStatement s := by
  induction indent with
  | nil => rfl
  | cons c indent ih =>
    obtain ⟨hc, hindent⟩ := List.forall_mem_cons.mp h
    have hne : c ≠ ';' := by
      rintro rfl
      exact absurd hc (by decide)
    simp [endsStatement, hne, ih hindent]

@[simp] lemma endsStatement_dedent (width : Nat) (line : Text) :
    endsStatement (dedent width line) = endsStatement line := by
  obtain ⟨indent, hindent, hline⟩ := exists_dedent width line
  conv_rhs => rw [hline]
  exact (endsStatement_append_spaces hindent _).symm

/-- Whether a line begins with white space is told by its own white space. -/
lemma strip?_spaces {indent : Text} (h : ∀ c ∈ indent, isSpace c = true) (line : Text) :
    (strip? indent line).isNone = (strip? indent (line.takeWhile isSpace)).isNone := by
  induction indent generalizing line with
  | nil => rfl
  | cons c indent ih =>
    obtain ⟨hc, hindent⟩ := List.forall_mem_cons.mp h
    cases line with
    | nil => rfl
    | cons d line =>
      by_cases heq : c = d
      · subst heq
        simpa [strip?, hc] using ih hindent line
      · cases hd : isSpace d with
        | true => simp [strip?, heq, hd]
        | false => simp [strip?, heq, hd]

/-! ### Lines that differ in the comment -/

/-- Lines that are the same, or whose comments begin behind the same code. Without code, the
comments are indented alike. -/
inductive UpToComment : Text → Text → Prop where
  | same (line : Text) : UpToComment line line
  | cut {front front' : Text} (hfront : BeforeComment .code front)
      (hfront' : BeforeComment .code front') (hcode : trimEnd front = trimEnd front')
      (hindent : trimEnd front = [] → front = front') (rest rest' : Text) :
      UpToComment (front ++ '/' :: '/' :: rest) (front' ++ '/' :: '/' :: rest')

lemma exists_not_space {front : Text} (h : trimEnd front ≠ []) :
    ∃ c ∈ trimEnd front, isSpace c = false := by
  obtain ⟨init, c, hcode⟩ := (List.eq_nil_or_concat (trimEnd front)).resolve_left h
  refine ⟨c, by simp [hcode], getLast_trimEnd front c ?_⟩
  simp [hcode]

lemma trimEnd_append_slashes (front rest : Text) :
    trimEnd (front ++ '/' :: '/' :: rest) = front ++ '/' :: '/' :: trimEnd rest := by
  have hslashes : trimEnd ('/' :: '/' :: rest) = '/' :: '/' :: trimEnd rest := by
    rw [trimEnd_cons_of_not_space (by decide), trimEnd_cons_of_not_space (by decide)]
  rw [trimEnd_append_of_ne_nil (by simp [hslashes]), hslashes]

lemma trimStart_append_slash (front rest : Text) :
    trimStart (front ++ '/' :: rest) = trimStart front ++ '/' :: rest := by
  induction front with
  | nil => exact trimStart_cons (by decide) rest
  | cons c front ih =>
    cases hc : isSpace c with
    | true => rw [List.cons_append, trimStart_cons_space hc, trimStart_cons_space hc, ih]
    | false => rw [List.cons_append, trimStart_cons hc, trimStart_cons hc, List.cons_append]

lemma head_slash_not_space (s : Text) : ∀ c ∈ ('/' :: s).head?, isSpace c = false := by
  rintro c ⟨⟩
  decide

namespace UpToComment

variable {line line' : Text}

lemma trimEnd (h : UpToComment line line') :
    UpToComment (Swiftward.trimEnd line) (Swiftward.trimEnd line') := by
  cases h with
  | same => exact .same _
  | cut hfront hfront' hcode hindent rest rest' =>
    rw [trimEnd_append_slashes, trimEnd_append_slashes]
    exact .cut hfront hfront' hcode hindent _ _

lemma trimEnd_dedent {front : Text} (h : Swiftward.trimEnd front ≠ []) (width : Nat) :
    Swiftward.trimEnd (dedent width front) =
      Swiftward.trimEnd (dedent width (Swiftward.trimEnd front)) := by
  obtain ⟨gap, hgap, hfront⟩ := exists_gap front
  have hspace := exists_not_space h
  conv_lhs => rw [hfront, dedent_append width (.inl hspace), trimEnd_append_spaces _ hgap]

lemma dedent (h : UpToComment line line') (width : Nat) :
    UpToComment (dedent width line) (Swiftward.dedent width line') := by
  cases h with
  | same => exact .same _
  | @cut front front' hfront hfront' hcode hindent rest rest' =>
    have hbefore {front : Text} (hfront : BeforeComment .code front) :
        BeforeComment .code (Swiftward.dedent width front) := by
      obtain ⟨indent, hspaces, heq⟩ := exists_dedent width front
      rw [heq] at hfront
      exact hfront.of_spaces hspaces
    rw [dedent_append width (.inr (head_slash_not_space _)),
      dedent_append width (.inr (head_slash_not_space _))]
    by_cases hnil : Swiftward.trimEnd front = []
    · obtain rfl := hindent hnil
      exact .cut (hbefore hfront) (hbefore hfront) rfl (fun _ => rfl) _ _
    · have hnil' : Swiftward.trimEnd front' ≠ [] := by rwa [← hcode]
      refine .cut (hbefore hfront) (hbefore hfront') ?_ ?_ _ _
      · rw [trimEnd_dedent hnil, trimEnd_dedent hnil', hcode]
      · intro hdedented
        obtain ⟨indent, hspaces, heq⟩ := exists_dedent width front
        refine absurd ?_ hnil
        rw [heq]
        apply trimEnd_spaces
        intro c hc
        rcases List.mem_append.mp hc with hc | hc
        · exact hspaces c hc
        · exact isSpace_of_trimEnd_eq_nil hdedented c hc

/-- The lines begin with the same white space. -/
lemma takeWhile_eq (h : UpToComment line line') :
    line.takeWhile isSpace = line'.takeWhile isSpace := by
  cases h with
  | same => rfl
  | @cut front front' hfront hfront' hcode hindent rest rest' =>
    rw [takeWhile_append_of_stop (.inr (head_slash_not_space _)),
      takeWhile_append_of_stop (.inr (head_slash_not_space _))]
    by_cases hnil : Swiftward.trimEnd front = []
    · rw [hindent hnil]
    · have hcodeEnds {front : Text} (h : Swiftward.trimEnd front ≠ []) :
          front.takeWhile isSpace = (Swiftward.trimEnd front).takeWhile isSpace := by
        obtain ⟨gap, -, hfront⟩ := exists_gap front
        conv_lhs => rw [hfront, takeWhile_append_of_stop (.inl (exists_not_space h))]
      have hnil' : Swiftward.trimEnd front' ≠ [] := by rwa [← hcode]
      rw [hcodeEnds hnil, hcodeEnds hnil', hcode]

lemma code_eq (h : UpToComment line line') : (splitComment line).1 = (splitComment line').1 := by
  cases h with
  | same => rfl
  | cut hfront hfront' hcode hindent rest rest' =>
    rw [(splitComment_of_beforeComment hfront rest).1,
      (splitComment_of_beforeComment hfront' rest').1, hcode]

/-- What comes behind the code is a comment on either line, or the same. -/
lemma comment (h : UpToComment line line') :
    (splitComment line).2 = (splitComment line').2 ∨
      IsComment (splitComment line).2 ∧ IsComment (splitComment line').2 := by
  cases h with
  | same => exact .inl rfl
  | cut hfront hfront' hcode hindent rest rest' =>
    exact .inr ⟨(splitComment_of_beforeComment hfront rest).2,
      (splitComment_of_beforeComment hfront' rest').2⟩

/-- Tests that do not see comments cannot tell the lines apart. -/
lemma test_eq (h : UpToComment line line') {test : Text → Bool} (htest : IgnoresComment test) :
    test line = test line' := by
  cases h with
  | same => rfl
  | @cut front front' hfront hfront' hcode hindent rest rest' =>
    have hcut (front rest : Text) :
        test (front ++ '/' :: '/' :: rest) = test (Swiftward.trimEnd front) := by
      obtain ⟨gap, hgap, hfront⟩ := exists_gap front
      conv_lhs => rw [hfront, List.append_assoc]
      exact htest _ _ ⟨gap, rest, hgap, rfl⟩
    rw [hcut, hcut, hcode]

lemma isEmpty_eq (h : UpToComment line line') : line.isEmpty = line'.isEmpty := by
  cases h with
  | same => rfl
  | cut hfront hfront' hcode hindent rest rest' =>
    have hne (front rest : Text) : (front ++ '/' :: '/' :: rest).isEmpty = false := by
      cases front <;> rfl
    rw [hne, hne]

lemma isLoneBrace_eq (h : UpToComment line line') : isLoneBrace line = isLoneBrace line' := by
  cases h with
  | same => rfl
  | cut hfront hfront' hcode hindent rest rest' =>
    have hne (front rest : Text) : isLoneBrace (front ++ '/' :: '/' :: rest) = false := by
      unfold isLoneBrace trim
      rw [trimStart_append_slash, trimEnd_append_slashes, decide_eq_false_iff_not]
      intro h
      have hlength := congrArg List.length h
      simp at hlength
      omega
    rw [hne, hne]

end UpToComment

/-! ### Sources that differ in the comments -/

/-- The lines differ at most in the comment, and end a statement or not alike. -/
structure Indistinct (line line' : Text) : Prop where
  upToComment : UpToComment line line'
  endsStatement_eq : endsStatement line = endsStatement line'

lemma blind_indistinct : Blind Indistinct where
  code_eq h := h.upToComment.code_eq
  isEmpty_eq h := h.upToComment.isEmpty_eq
  isLoneBrace_eq h := h.upToComment.isLoneBrace_eq
  isBlockEnd_eq h := h.upToComment.test_eq ignoresComment_isBlockEnd
  endsStatement_eq h := h.endsStatement_eq
  closesBlock_eq h := h.upToComment.test_eq ignoresComment_closesBlock
  isReturnSelf_eq h := h.upToComment.test_eq ignoresComment_isReturnSelf
  indented_eq := by
    intro line line' h indent hindent
    rw [strip?_spaces hindent line, strip?_spaces hindent line', h.upToComment.takeWhile_eq]

/-- Lines with the same code, both with a comment or both without. -/
structure SameCode (line line' : Text) : Prop where
  code_eq : (splitComment line).1 = (splitComment line').1
  comment_iff : (splitComment line).2 = [] ↔ (splitComment line').2 = []

/-- A look at the whole lines tells them apart neither by whether they end a statement nor, where
there is nothing but a comment, by how it is indented. -/
structure ScannedAlike (line line' : Text) : Prop where
  endsStatement_eq : endsStatement (trimEnd line) = endsStatement (trimEnd line')
  indent_eq : (splitComment line).1 = [] → line.takeWhile isSpace = line'.takeWhile isSpace

lemma SameCode.upToComment {line line' : Text} (h : SameCode line line')
    (hscanned : ScannedAlike line line') : UpToComment line line' := by
  have hcode := h.code_eq
  have hcomment := h.comment_iff
  have hindent := hscanned.indent_eq
  obtain ⟨-, hline⟩ | ⟨front, rest, hfront, rfl⟩ := splitComment_cases line
  · obtain ⟨-, hline'⟩ | ⟨front', rest', hfront', rfl⟩ := splitComment_cases line'
    · rw [hline, hline'] at hcode
      obtain rfl : line = line' := hcode
      exact .same line
    · refine absurd (hcomment.mp ?_) (splitComment_of_beforeComment hfront' rest').2.ne_nil
      rw [hline]
  · have hsplit := splitComment_of_beforeComment hfront rest
    obtain ⟨-, hline'⟩ | ⟨front', rest', hfront', rfl⟩ := splitComment_cases line'
    · refine absurd (hcomment.mpr ?_) hsplit.2.ne_nil
      rw [hline']
    · have hsplit' := splitComment_of_beforeComment hfront' rest'
      rw [hsplit.1, hsplit'.1] at hcode
      refine .cut hfront hfront' hcode ?_ rest rest'
      intro hnil
      have hgap {front : Text} (hnil : trimEnd front = []) (rest : Text) :
          (front ++ '/' :: '/' :: rest).takeWhile isSpace = front := by
        rw [takeWhile_append_of_stop (.inr (head_slash_not_space _)), List.takeWhile_eq_self_iff]
        exact isSpace_of_trimEnd_eq_nil hnil
      have hspaces := hindent (hsplit.1.trans hnil)
      rwa [hgap hnil, hgap (hcode.symm.trans hnil)] at hspaces

lemma SameCode.indistinct {line line' : Text} (h : SameCode line line')
    (hscanned : ScannedAlike line line') (width : Nat) (on : Bool) :
    Indistinct (fetchedAs width on line) (fetchedAs width on line') := by
  have htrimmed : Indistinct (trimEnd line) (trimEnd line') :=
    ⟨(h.upToComment hscanned).trimEnd, hscanned.endsStatement_eq⟩
  cases on with
  | false =>
    rw [fetchedAs_false, fetchedAs_false]
    exact htrimmed
  | true =>
    rw [fetchedAs_true, fetchedAs_true]
    refine ⟨htrimmed.upToComment.dedent width, ?_⟩
    rw [endsStatement_dedent, endsStatement_dedent, htrimmed.endsStatement_eq]

/-- Lines of output made of the same line, with the same code and comments behind it on both or on
neither. Unless a literal is left open in the code or a slash at its end, it is split off from the
comments again. -/
structure OutputLine.DiffersInComment (line line' : OutputLine) : Prop where
  source_eq : line.source = line'.source
  text : ∃ code comment comment', line.text = code ++ comment ∧ line'.text = code ++ comment' ∧
    (comment = comment' ∨ IsComment comment ∧ IsComment comment') ∧
    (Closed code → code.getLast? ≠ some '/' →
      (splitComment line.text).1 = (splitComment line'.text).1)

lemma OutputLine.Alike.differsInComment {line line' : OutputLine}
    (h : line.Alike Indistinct 0 line') :
    line.DiffersInComment line' := by
  obtain ⟨code, comment, comment', htext, htext', hcomment⟩ := h.text
  have hcomment : comment = comment' ∨ IsComment comment ∧ IsComment comment' := by
    cases hcomment with
    | same => exact .inl rfl
    | behind hline => exact hline.upToComment.comment
  refine ⟨h.source_eq.symm, code, comment, comment', htext, htext', hcomment, ?_⟩
  intro hclosed hlast
  rw [htext, htext']
  obtain rfl | ⟨hcomment, hcomment'⟩ := hcomment
  · rfl
  · rw [splitComment_append hclosed hlast hcomment, splitComment_append hclosed hlast hcomment']

/-- Lines with the same code, and comments on the same lines, become lines of Swift in the same
places and with the same code, so that these differ at most in their comments. That holds if no
semicolon in a comment makes the one line end a statement and not the other, and if lines without
code have their comments indented alike. -/
theorem forall₂_convertLines (width : Nat) {source source' : List Text}
    (hsame : List.Forall₂ SameCode source source')
    (hscanned : List.Forall₂ ScannedAlike source source') :
    List.Forall₂ OutputLine.DiffersInComment (convertLines width source)
      (convertLines width source') := by
  have hlines : List.Forall₂ (fun line line' => SameCode line line' ∧ ScannedAlike line line')
      source source' := by
    induction hsame with
    | nil => exact .nil
    | cons h _ ih =>
      cases hscanned with
      | cons h' hrest => exact .cons ⟨h, h'⟩ (ih hrest)
  have halike : (LineSource.ofLines width source).Alike Indistinct 0
      (LineSource.ofLines width source') := by
    refine ⟨?_, rfl, rfl, LineSource.counted_ofLines _ _, LineSource.counted_ofLines _ _⟩
    rw [LineSource.upcoming_ofLines, LineSource.upcoming_ofLines, List.forall₂_map_left_iff,
      List.forall₂_map_right_iff]
    exact hlines.imp fun _ _ h on => h.1.indistinct h.2 width on
  have houtput : List.Forall₂ (OutputLine.Alike Indistinct 0) (convertLines width source)
      (convertLines width source') :=
    List.rel_flatten (convertUnits_alike blind_indistinct halike)
  exact houtput.imp fun _ _ h => h.differsInComment

/-- The body of an `if` between two comments. -/
def commentedLines : List Text :=
  ["if (a) // test".toList, "    x = 1; // set".toList, "// done".toList]

/-- The same lines with other comments, one of which ends in a semicolon as its line does. -/
def recommentedLines : List Text :=
  ["if (a)// is it?".toList, "    x = 1;   // x = 0;".toList, "// y".toList]

theorem forall₂_convertLines_recommented :
    List.Forall₂ OutputLine.DiffersInComment (convertLines 4 commentedLines)
        (convertLines 4 recommentedLines) ∧
      convertLines 4 commentedLines = [⟨1, "if a \x7b // test".toList⟩,
        ⟨2, "    x = 1 // set".toList⟩, ⟨2, "\x7d".toList⟩, ⟨3, "// done".toList⟩] := by
  refine ⟨forall₂_convertLines 4 ?_ ?_, by decide +kernel⟩
  · have hfirst : SameCode "if (a) // test".toList "if (a)// is it?".toList :=
      ⟨by decide +kernel, by decide +kernel⟩
    have hsecond : SameCode "    x = 1; // set".toList "    x = 1;   // x = 0;".toList :=
      ⟨by decide +kernel, by decide +kernel⟩
    have hthird : SameCode "// done".toList "// y".toList := ⟨by decide +kernel, by decide +kernel⟩
    exact .cons hfirst (.cons hsecond (.cons hthird .nil))
  · have hfirst : ScannedAlike "if (a) // test".toList "if (a)// is it?".toList :=
      ⟨by decide +kernel, by decide +kernel⟩
    have hsecond : ScannedAlike "    x = 1; // set".toList "    x = 1;   // x = 0;".toList :=
      ⟨by decide +kernel, by decide +kernel⟩
    have hthird : ScannedAlike "// done".toList "// y".toList :=
      ⟨by decide +kernel, by decide +kernel⟩
    exact .cons hfirst (.cons hsecond (.cons hthird .nil))

/-- A semicolon at the end of a comment ends the body of an `if`: the brace is closed a line
earlier than without it. -/
example :
    SameCode "    x = 1 // foo;".toList "    x = 1 // foo".toList ∧
    (convertLines 4 ["if (a)".toList, "    x = 1 // foo;".toList, "    y = 2;".toList]).map
        (·.source) = [1, 2, 2, 3] ∧
    (convertLines 4 ["if (a)".toList, "    x = 1 // foo".toList, "    y = 2;".toList]).map
        (·.source) = [1, 2, 3, 3] :=
  ⟨⟨by decide +kernel, by decide +kernel⟩, by decide +kernel, by decide +kernel⟩

end Swiftward
