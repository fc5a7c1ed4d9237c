import Swiftward.Conversion.Stream
import Swiftward.Proofs.Conversion.Derivation
import Swiftward.Proofs.Conversion.Upcoming
import Swiftward.Proofs.Declaration.Alignment

/-!
# Conversions side by side

The rules ask certain things of a line, and two lines of which all of these are the same cannot be
told apart (`Blind`). Two sources that give such lines one after the other are read in step
(`LineSource.InStep`), and so they are converted to the same code in the same places, whatever the
comments are (`Converts.inStep`). The one source may have consumed more lines before than the other:
the numbers of the lines of output then differ by as many. And it may have more lines to come, as
long as the last of those that the other has is not needed.

Sources that give such lines up to their end, in whichever mode these are reached, are the main case
(`LineSource.Alike`).
-/

namespace Swiftward

/-! ### Lines that cannot be told apart -/

/-- No rule tells related lines apart. -/
structure Blind (R : Text → Text → Prop) : Prop where
  code_eq : ∀ {line line'}, R line line' → (splitComment line).1 = (splitComment line').1
  isEmpty_eq : ∀ {line line'}, R line line' → line.isEmpty = line'.isEmpty
  isLoneBrace_eq : ∀ {line line'}, R line line' → isLoneBrace line = isLoneBrace line'
  isBlockEnd_eq : ∀ {line line'}, R line line' → isBlockEnd line = isBlockEnd line'
  endsStatement_eq : ∀ {line line'}, R line line' → endsStatement line = endsStatement line'
  closesBlock_eq : ∀ {line line'}, R line line' → closesBlock line = closesBlock line'
  isReturnSelf_eq : ∀ {line line'}, R line line' → isReturnSelf line = isReturnSelf line'
  indented_eq : ∀ {line line'}, R line line' → ∀ indent : Text, (∀ c ∈ indent, isSpace c = true) →
    (strip? indent line).isNone = (strip? indent line').isNone

lemma blind_of_eq {R : Text → Text → Prop} (h : ∀ {line line'}, R line line' → line = line') :
    Blind R := by
  constructor
  all_goals
    intro line line' hline
    obtain rfl := h hline
    intros
    rfl

lemma blind_eq : Blind (· = ·) := blind_of_eq id

/-- The comments of two related lines, or the same comment. -/
inductive CommentAlike (R : Text → Text → Prop) : Text → Text → Prop where
  | same (comment : Text) : CommentAlike R comment comment
  | behind {line line' : Text} (h : R line line') :
      CommentAlike R (splitComment line).2 (splitComment line').2

/-- The same code, with the comments of related lines behind it. -/
def TextAlike (R : Text → Text → Prop) (text text' : Text) : Prop :=
  ∃ code comment comment', text = code ++ comment ∧ text' = code ++ comment' ∧
    CommentAlike R comment comment'

/-- Lines of output with the same code, the second of which has a number larger by `shift`. -/
structure OutputLine.Alike (R : Text → Text → Prop) (shift : Nat) (line line' : OutputLine) :
    Prop where
  source_eq : line'.source = line.source + shift
  text : TextAlike R line.text line'.text

lemma TextAlike.refl {R : Text → Text → Prop} (text : Text) : TextAlike R text text :=
  ⟨[], text, text, rfl, rfl, .same text⟩

lemma TextAlike.append {R : Text → Text → Prop} (code : Text) {comment comment' : Text}
    (h : CommentAlike R comment comment') : TextAlike R (code ++ comment) (code ++ comment') :=
  ⟨code, comment, comment', rfl, rfl, h⟩

/-! ### Sources that are read in step -/

namespace LineSource

/-- Related sources are read in step, as long as there are `left` lines left of the first: the next
lines are related, and so is what is behind them. The second source has `shift` more lines behind
it. The mode is switched only for guards, so if there are any, it has to be the same. -/
structure InStep (R : Text → Text → Prop) (shift left : Nat)
    (Rel : LineSource → LineSource → Prop) : Prop where
  lineNumber_eq : ∀ {s s' : LineSource}, Rel s s' → s'.lineNumber = s.lineNumber + shift
  peek_cases : ∀ {s s' : LineSource}, Rel s s' → left ≤ s.unread →
    (s.peek.1 = none ∧ s'.peek.1 = none ∧ Rel s.peek.2 s'.peek.2) ∨
      ∃ text text', s.peek.1 = some text ∧ s'.peek.1 = some text' ∧ R text text' ∧
        Rel s.peek.2 s'.peek.2 ∧ Rel s.peek.2.consume s'.peek.2.consume
  mode : (∀ {line line' : Text}, R line line' → ¬IsGuard line) ∨
    ∀ {s s' : LineSource}, Rel s s' →
      s'.dedenting = s.dedenting ∧ ∀ on, Rel (s.setDedent on) (s'.setDedent on)

/-- The next lines are related, and what is behind them; or there are none. -/
def NextInStep (R : Text → Text → Prop) (Rel : LineSource → LineSource → Prop)
    (s s' : LineSource) : Prop :=
  (s.next? = none ∧ s'.next? = none) ∨
    ∃ text t text' t', s.next? = some (text, t) ∧ s'.next? = some (text', t') ∧ R text text' ∧
      Rel t t'

namespace InStep

variable {R : Text → Text → Prop} {shift left : Nat} {Rel : LineSource → LineSource → Prop}
  (hRel : InStep R shift left Rel) {s s' : LineSource}

include hRel

lemma emit (h : Rel s s') {text text' : Text} (htext : TextAlike R text text') :
    (s.emit text).Alike R shift (s'.emit text') :=
  ⟨hRel.lineNumber_eq h, htext⟩

lemma emit_same (h : Rel s s') (text : Text) : (s.emit text).Alike R shift (s'.emit text) :=
  hRel.emit h (.refl text)

lemma next?_cases (h : Rel s s') (hleft : left ≤ s.unread) : NextInStep R Rel s s' := by
  rw [NextInStep, next?_eq, next?_eq]
  obtain ⟨hnone, hnone', -⟩ | ⟨text, text', hsome, hsome', hR, -, hconsumed⟩ :=
    hRel.peek_cases h hleft
  · rw [hnone, hnone']
    exact .inl ⟨rfl, rfl⟩
  · rw [hsome, hsome']
    exact .inr ⟨_, _, _, _, rfl, rfl, hR, hconsumed⟩

/-! ### Reading on -/

lemma nextWhere (h : Rel s s') (hleft : left ≤ s.unread) {β : Type} {Q : β → β → Prop}
    {f : Text → Option β} (hf : ∀ {text text'}, R text text' → Option.Rel Q (f text) (f text')) :
    Option.Rel Q (s.nextWhere f).1 (s'.nextWhere f).1 ∧
      Rel (s.nextWhere f).2 (s'.nextWhere f).2 := by
  unfold LineSource.nextWhere
  obtain ⟨hnone, hnone', hpeek⟩ | ⟨text, text', hsome, hsome', hR, hpeek, hconsumed⟩ :=
    hRel.peek_cases h hleft
  · rw [← Prod.eta s.peek, ← Prod.eta s'.peek, hnone, hnone']
    exact ⟨.none, hpeek⟩
  · rw [← Prod.eta s.peek, ← Prod.eta s'.peek, hsome, hsome']
    have hrel := hf hR
    dsimp only
    generalize f text = b, f text' = b' at hrel ⊢
    cases hrel with
    | none => exact ⟨.none, hpeek⟩
    | some hQ => exact ⟨.some hQ, hconsumed⟩

lemma skipIf (h : Rel s s') (hleft : left ≤ s.unread) {p : Text → Bool}
    (hp : ∀ {text text'}, R text text' → p text = p text') :
    (s'.skipIf p).1 = (s.skipIf p).1 ∧ Rel (s.skipIf p).2 (s'.skipIf p).2 := by
  obtain ⟨hsome, hskipped⟩ := hRel.nextWhere h hleft (Q := fun _ _ => True)
    (f := fun line => if p line then some () else none) (by
      intro text text' hR
      rw [hp hR]
      split_ifs
      · exact .some trivial
      · exact .none)
  refine ⟨?_, hskipped⟩
  unfold LineSource.skipIf
  dsimp only
  generalize (s.nextWhere _).1 = b, (s'.nextWhere _).1 = b' at hsome ⊢
  cases hsome with
  | none => rfl
  | some _ => rfl

lemma skipWhile {p : Text → Bool} (h : Rel s s') (hleft : left ≤ (s.skipWhile p).unread)
    (hp : ∀ {text text'}, R text text' → p text = p text') :
    Rel (s.skipWhile p) (s'.skipWhile p) := by
  induction hunread : s.unread using Nat.strongRecOn generalizing s s' with
  | ind unread ih =>
    subst hunread
    have hunread := hleft.trans (s.unread_skipWhile_le p)
    obtain ⟨heq, hskipped⟩ := hRel.skipIf h hunread hp
    rw [LineSource.skipWhile.eq_def p s] at hleft ⊢
    rw [LineSource.skipWhile.eq_def p s']
    by_cases hskip : (s.skipIf p).1 = true
    · rw [dif_pos hskip] at hleft
      rw [dif_pos hskip, dif_pos (heq.trans hskip)]
      exact ih _ (LineSource.unread_skipIf_lt hskip) hskipped hleft rfl
    · rw [dif_neg hskip, dif_neg (heq ▸ hskip)]
      exact hskipped

/-- Lines that were read, each with its number. -/
def EntryAlike (R : Text → Text → Prop) (shift : Nat) (entry entry' : Nat × Text) : Prop :=
  entry'.1 = entry.1 + shift ∧ R entry.2 entry'.2

lemma readUntil {stop : Text → Bool} (h : Rel s s')
    (hleft : left ≤ (s.readUntil stop).2.unread)
    (hstop : ∀ {text text'}, R text text' → stop text = stop text') :
    List.Forall₂ (EntryAlike R shift) (s.readUntil stop).1 (s'.readUntil stop).1 ∧
      Rel (s.readUntil stop).2 (s'.readUntil stop).2 := by
  have hnext := hRel.next?_cases h (hleft.trans (s.unread_readUntil_le stop))
  fun_induction LineSource.readUntil stop s generalizing s' with
  | case1 s hnone =>
    obtain ⟨-, hnone'⟩ | ⟨_, _, _, _, hsome, -⟩ := hnext
    · rw [LineSource.readUntil]
      split
      · exact ⟨.nil, h⟩
      · next hsome => simp [hnone'] at hsome
    · simp [hnone] at hsome
  | case2 s text t htext hend =>
    obtain ⟨hnone, -⟩ | ⟨_, _, text', t', htext₁, htext', hR, ht⟩ := hnext
    · simp [htext] at hnone
    · rw [htext, Option.some.injEq, Prod.mk.injEq] at htext₁
      obtain ⟨rfl, rfl⟩ := htext₁
      rw [LineSource.readUntil]
      split
      · next hnone => simp [htext'] at hnone
      · next hsome =>
        rw [htext', Option.some.injEq, Prod.mk.injEq] at hsome
        obtain ⟨rfl, rfl⟩ := hsome
        rw [if_pos ((hstop hR).symm.trans hend)]
        exact ⟨.nil, ht⟩
  | case3 s text t htext hgo lines rest hread ih =>
    obtain ⟨hnone, -⟩ | ⟨_, _, text', t', htext₁, htext', hR, ht⟩ := hnext
    · simp [htext] at hnone
    · rw [htext, Option.some.injEq, Prod.mk.injEq] at htext₁
      obtain ⟨rfl, rfl⟩ := htext₁
      have hleft' : left ≤ (t.readUntil stop).2.unread := by rwa [hread]
      have ih := ih ht hleft' (hRel.next?_cases ht (hleft'.trans (t.unread_readUntil_le stop)))
      rw [hread] at ih
      rw [LineSource.readUntil]
      split
      · next hnone => simp [htext'] at hnone
      · next hsome =>
        rw [htext', Option.some.injEq, Prod.mk.injEq] at hsome
        obtain ⟨rfl, rfl⟩ := hsome
        rw [if_neg (hstop hR ▸ hgo)]
        exact ⟨.cons ⟨hRel.lineNumber_eq ht, hR⟩ ih.1, ih.2⟩

end InStep

end LineSource

/-! ### Constructs that read on -/

/-- Lines of output with the same code in the same places. -/
abbrev OutputAlike (R : Text → Text → Prop) (shift : Nat) :
    List OutputLine → List OutputLine → Prop :=
  List.Forall₂ (OutputLine.Alike R shift)

section Rules

variable {R : Text → Text → Prop} {shift left : Nat} {Rel : LineSource → LineSource → Prop}
  {s s' : LineSource}

namespace LineSource.InStep

variable (hRel : InStep R shift left Rel) (hR : Blind R)

include hRel hR

lemma convertFields (h : Rel s s') (hleft : left ≤ (convertFields s).source.unread) :
    OutputAlike R shift (Swiftward.convertFields s).lines (Swiftward.convertFields s').lines ∧
      Rel (Swiftward.convertFields s).source (Swiftward.convertFields s').source := by
  have hstop {text text' : Text} (htext : R text text') :
      decide (trim (splitComment text).1 = ['\x7d']) =
        decide (trim (splitComment text').1 = ['\x7d']) := by
    rw [hR.code_eq htext]
  obtain ⟨hread, hrest⟩ := hRel.readUntil h hleft hstop
  refine ⟨List.rel_filterMap ?_ hread, hrest⟩
  rintro ⟨number, text⟩ ⟨number', text'⟩ ⟨hnumber, htext⟩
  dsimp only at hnumber htext ⊢
  rw [hR.code_eq htext]
  cases Field.parse? (splitComment text').1 with
  | none => exact .none
  | some field => exact .some ⟨hnumber, .append _ (.behind htext)⟩

lemma convertImplementation (header : ImplementationHeader) {comment comment' : Text}
    (hcomment : CommentAlike R comment comment') (h : Rel s s')
    (hleft : left ≤ (convertImplementation header comment s).source.unread) :
    OutputAlike R shift (Swiftward.convertImplementation header comment s).lines
        (Swiftward.convertImplementation header comment' s').lines ∧
      Rel (Swiftward.convertImplementation header comment s).source
        (Swiftward.convertImplementation header comment' s').source := by
  have hfirst := hRel.emit h (.append header.render hcomment)
  have hunread := hleft.trans (Nat.le_of_lt_succ (Conversion.unread_lt _))
  obtain ⟨heq, hskipped⟩ := hRel.skipIf h hunread hR.isLoneBrace_eq
  unfold Swiftward.convertImplementation at hleft ⊢
  by_cases hopens : header.opensFields = true
  · obtain ⟨hfields, hrest⟩ := hRel.convertFields hR h (by simpa [hopens] using hleft)
    simpa [hopens] using ⟨⟨hfirst, hRel.emit_same h [], hfields⟩, hrest⟩
  · by_cases hbrace : (s.skipIf isLoneBrace).1 = true
    · obtain ⟨hfields, hrest⟩ :=
        hRel.convertFields hR hskipped (by simpa [hopens, hbrace] using hleft)
      simpa [hopens, heq, hbrace] using
        ⟨⟨hfirst, hRel.emit_same hskipped [], hfields⟩, hrest⟩
    · simpa [hopens, heq, hbrace] using ⟨hfirst, hskipped⟩

lemma skipInterface (h : Rel s s') (hleft : left ≤ (skipInterface s).source.unread) :
    Rel (Swiftward.skipInterface s).source (Swiftward.skipInterface s').source := by
  have hread := hleft.trans (LineSource.unread_skipWhile_le List.isEmpty _)
  exact hRel.skipWhile (hRel.readUntil h hread hR.isBlockEnd_eq).2 hleft hR.isEmpty_eq

lemma skipSynthesize (code : Text) (h : Rel s s')
    (hleft : left ≤ (skipSynthesize code s).source.unread) :
    Rel (Swiftward.skipSynthesize code s).source (Swiftward.skipSynthesize code s').source := by
  unfold Swiftward.skipSynthesize at hleft ⊢
  split_ifs at hleft ⊢
  · exact h
  · exact (hRel.readUntil h hleft hR.endsStatement_eq).2

lemma skipGuardEnd (h : Rel s s') (hleft : left ≤ (skipGuardEnd s).unread) :
    Rel (Swiftward.skipGuardEnd s) (Swiftward.skipGuardEnd s') := by
  have hclosed := hleft.trans (LineSource.unread_skipIf_le isReturnSelf _)
  have hunread := hclosed.trans (LineSource.unread_skipIf_le closesBlock s)
  have hskipped := (hRel.skipIf h hunread hR.closesBlock_eq).2
  exact (hRel.skipIf hskipped hclosed hR.isReturnSelf_eq).2

end LineSource.InStep

/-! ### Method headers -/

/-- Continued parameters that are the same up to the comments. -/
structure Continuation.Alike (R : Text → Text → Prop) (c c' : Continuation) : Prop where
  param_eq : c'.param = c.param
  opensBody_eq : c'.opensBody = c.opensBody
  comment : CommentAlike R c.comment c'.comment

/-- Method headers that are the same up to the comments. -/
structure MethodHeader.Alike (R : Text → Text → Prop) (header header' : MethodHeader) : Prop where
  eq : header' = { header with continued := header'.continued }
  continued : List.Forall₂ (Continuation.Alike R) header.continued header'.continued

lemma rel_bind {α β : Type} {Q : β → β → Prop} (a : Option α) {f g : α → Option β}
    (h : ∀ a, Option.Rel Q (f a) (g a)) : Option.Rel Q (a >>= f) (a >>= g) := by
  cases a with
  | none => exact .none
  | some a => exact h a

lemma alike_parseContinuation (hR : Blind R) {text text' : Text} (h : R text text') :
    Option.Rel (Continuation.Alike R) (Continuation.parse? text) (Continuation.parse? text') := by
  have hcode := hR.code_eq h
  have hcomment := CommentAlike.behind h
  unfold Continuation.parse?
  generalize splitComment text = split, splitComment text' = split' at hcode hcomment ⊢
  obtain ⟨code, comment⟩ := split
  obtain ⟨_, comment'⟩ := split'
  obtain rfl : code = _ := hcode
  exact rel_bind _ fun s => rel_bind _ fun (keyword, s) => rel_bind _ fun s =>
    rel_bind _ fun (type, name, _) => .some ⟨rfl, rfl, hcomment⟩

namespace MethodHeader.Alike

variable {header header' : MethodHeader}

lemma refl (header : MethodHeader) : header.Alike R header :=
  ⟨rfl, List.forall₂_same.mpr fun c _ => ⟨rfl, rfl, .same c.comment⟩⟩

lemma continueWith (h : header.Alike R header') {c c' : Continuation} (hc : c.Alike R c') :
    (header.continueWith c).Alike R (header'.continueWith c') := by
  constructor
  · rw [MethodHeader.continueWith, hc.opensBody_eq, h.eq]
    rfl
  · exact List.rel_append h.continued (.cons hc .nil)

lemma acceptsContinuation_eq (h : header.Alike R header') :
    header'.acceptsContinuation = header.acceptsContinuation := by
  rw [h.eq]
  rfl

lemma linesFrom (h : header.Alike R header') (current : Text) {comment comment' : Text}
    (hcomment : CommentAlike R comment comment') {continued continued' : List Continuation}
    (hcontinued : List.Forall₂ (Continuation.Alike R) continued continued') :
    List.Forall₂ (TextAlike R) (header.linesFrom current comment continued)
      (header'.linesFrom current comment' continued') := by
  induction hcontinued generalizing current comment comment' with
  | nil =>
    rw [h.eq]
    exact .cons (.append _ hcomment) .nil
  | cons hc _ ih =>
    have hindentation : header'.indentation = header.indentation := by
      rw [h.eq]
      rfl
    rw [MethodHeader.linesFrom, MethodHeader.linesFrom, hindentation, hc.param_eq]
    refine .cons ⟨current ++ [','], comment, comment', ?_, ?_, hcomment⟩ (ih _ hc.comment)
    · simp
    · simp

end MethodHeader.Alike

lemma LineSource.InStep.readContinuations (hRel : InStep R shift left Rel) (hR : Blind R)
    {header header' : MethodHeader} (hheader : header.Alike R header') (h : Rel s s')
    (hleft : left ≤ (readContinuations header s).2.unread) :
    (Swiftward.readContinuations header s).1.Alike R (Swiftward.readContinuations header' s').1 ∧
      Rel (Swiftward.readContinuations header s).2 (Swiftward.readContinuations header' s').2 := by
  induction hunread : s.unread using Nat.strongRecOn generalizing header header' s s' with
  | ind unread ih =>
    subst hunread
    have haccepts := hheader.acceptsContinuation_eq
    have hunread := hleft.trans (unread_readContinuations_le header s)
    rw [readContinuations.eq_def header s] at hleft ⊢
    rw [readContinuations.eq_def header' s', haccepts]
    split_ifs at hleft ⊢ with hcontinues
    · obtain ⟨hparsed, hrest⟩ := hRel.nextWhere h hunread (alike_parseContinuation hR)
      have hlt := @LineSource.unread_nextWhere_lt _ Continuation.parse? s
      split
      · next c t hnext =>
        rw [hnext] at hparsed hrest hlt
        have hleft : left ≤ (Swiftward.readContinuations (header.continueWith c) t).2.unread := by
          split at hleft
          · next hnext' =>
            rw [hnext, Prod.mk.injEq, Option.some.injEq] at hnext'
            obtain ⟨rfl, rfl⟩ := hnext'
            exact hleft
          · next hnext' => simp [hnext] at hnext'
        split
        · next c' t' hnext' =>
          rw [hnext'] at hparsed hrest
          cases hparsed with
          | some hc => exact ih _ (hlt rfl) (hheader.continueWith hc) hrest hleft rfl
        · next t' hnext' =>
          rw [hnext'] at hparsed
          cases hparsed
      · next t hnext =>
        rw [hnext] at hparsed hrest
        split
        · next c' t' hnext' =>
          rw [hnext'] at hparsed
          cases hparsed
        · next t' hnext' =>
          rw [hnext'] at hrest
          exact ⟨hheader, hrest⟩
    · exact ⟨hheader, h⟩

lemma commentFirst_linesFrom (header : MethodHeader) (current comment : Text)
    (continued : List Continuation) :
    commentFirst comment (header.linesFrom current [] continued) =
      header.linesFrom current comment continued := by
  cases continued <;> simp [MethodHeader.linesFrom, commentFirst]

/-- The lines of a header with parameters, the comment of its own line among them. -/
lemma MethodHeader.commentFirst_render {header : MethodHeader} (h : header.params ≠ [])
    (comment : Text) :
    commentFirst comment header.render = header.linesFrom
      (header.opening ++ ", ".toList.intercalate (header.labelledParams.map Param.render)) comment
      header.continued := by
  rw [render_eq_linesFrom h, commentFirst_linesFrom]

/-- Headers that are the same up to the comments become the same lines of Swift up to these. -/
lemma MethodHeader.Alike.render {header header' : MethodHeader} (h : header.Alike R header')
    {comment comment' : Text} (hcomment : CommentAlike R comment comment') :
    List.Forall₂ (TextAlike R) (commentFirst comment header.render)
      (commentFirst comment' header'.render) := by
  have hparams : header'.params = header.params := by rw [h.eq]
  have hlabelled : header'.labelledParams = header.labelledParams := by
    rw [h.eq]
    rfl
  have hopening : header'.opening = header.opening := by
    rw [h.eq]
    rfl
  by_cases hnone : header.params = []
  · obtain ⟨text, hrender, hrender'⟩ :
        ∃ text, header.render = [text] ∧ header'.render = [text] := by
      unfold MethodHeader.render
      rw [if_pos hnone, if_pos (hparams.trans hnone), h.eq]
      dsimp only
      split_ifs
      · exact ⟨_, rfl, rfl⟩
      · exact ⟨_, rfl, rfl⟩
    rw [hrender, hrender']
    exact .cons (.append text hcomment) .nil
  · rw [MethodHeader.commentFirst_render hnone, MethodHeader.commentFirst_render (hparams ▸ hnone),
      hlabelled, hopening]
    exact h.linesFrom _ hcomment h.continued

lemma LineSource.InStep.convertMethod (hRel : InStep R shift left Rel) (hR : Blind R)
    (header : MethodHeader) {comment comment' : Text} (hcomment : CommentAlike R comment comment')
    (h : Rel s s') (hleft : left ≤ (convertMethod header comment s).source.unread) :
    OutputAlike R shift (Swiftward.convertMethod header comment s).lines
        (Swiftward.convertMethod header comment' s').lines ∧
      Rel (Swiftward.convertMethod header comment s).source
        (Swiftward.convertMethod header comment' s').source := by
  obtain ⟨hread, hrest⟩ := hRel.readContinuations hR (.refl header) h hleft
  exact ⟨List.rel_map (fun _ _ htext => hRel.emit hrest htext) (hread.render hcomment), hrest⟩

/-! ### Units and blocks -/

lemma IsConstruct.alike (hR : Blind R) {line line' comment : Text} {construct : Construct}
    (h : IsConstruct line construct comment) (hline : R line line') :
    ∃ comment', IsConstruct line' construct comment' ∧ CommentAlike R comment comment' := by
  have hcode := hR.code_eq hline
  refine ⟨(splitComment line').2, ⟨hcode ▸ h.code_ne_nil, hcode ▸ h.ofCode, rfl⟩, ?_⟩
  rw [← h.comment_eq]
  exact .behind hline

lemma Alone.inStep (hRel : LineSource.InStep R shift left Rel) (hR : Blind R) {line line' : Text}
    {t : LineSource} {lines : List OutputLine} (h : Alone line s lines t) (hline : R line line')
    (hs : Rel s s') (hleft : left ≤ t.unread) :
    ∃ lines' t', Alone line' s' lines' t' ∧ OutputAlike R shift lines lines' ∧ Rel t t' := by
  cases h with
  | blank h =>
    have htext : TextAlike R (splitComment line).2 (splitComment line').2 :=
      .append [] (.behind hline)
    exact ⟨_, _, .blank ((hR.code_eq hline).symm.trans h), .cons (hRel.emit hs htext) .nil, hs⟩
  | imported h =>
    obtain ⟨_, h', hcomment⟩ := h.alike hR hline
    exact ⟨_, _, .imported h', .cons (hRel.emit hs (.append _ hcomment)) .nil, hs⟩
  | dropped h =>
    obtain ⟨_, h', -⟩ := h.alike hR hline
    exact ⟨_, _, .dropped h', .nil, hs⟩
  | implementation h =>
    obtain ⟨_, h', hcomment⟩ := h.alike hR hline
    exact ⟨_, _, .implementation h', hRel.convertImplementation hR _ hcomment hs hleft⟩
  | interface h =>
    obtain ⟨_, h', -⟩ := h.alike hR hline
    exact ⟨_, _, .interface h', .nil, hRel.skipInterface hR hs hleft⟩
  | blockEnd h =>
    obtain ⟨_, h', hcomment⟩ := h.alike hR hline
    exact ⟨_, _, .blockEnd h', .cons (hRel.emit hs (.append ['\x7d'] hcomment)) .nil, hs⟩
  | synthesize h =>
    obtain ⟨_, h', -⟩ := h.alike hR hline
    refine ⟨_, _, .synthesize h', .nil, ?_⟩
    rw [← hR.code_eq hline]
    exact hRel.skipSynthesize hR _ hs hleft
  | method h =>
    obtain ⟨_, h', hcomment⟩ := h.alike hR hline
    exact ⟨_, _, .method h', hRel.convertMethod hR _ hcomment hs hleft⟩
  | done h =>
    obtain ⟨_, h', hcomment⟩ := h.alike hR hline
    exact ⟨_, _, .done h', .cons (hRel.emit hs (.append _ hcomment)) .nil, hs⟩
  | header h hguard hbody =>
    obtain ⟨_, h', hcomment⟩ := h.alike hR hline
    exact ⟨_, _, .header h' hguard hbody, .cons (hRel.emit hs (.append _ hcomment)) .nil, hs⟩
  | braced h hguard hbody hbrace =>
    obtain ⟨_, h', hcomment⟩ := h.alike hR hline
    have hunread := hleft.trans (s.unread_skipIf_le isLoneBrace)
    obtain ⟨heq, hskipped⟩ := hRel.skipIf hs hunread hR.isLoneBrace_eq
    exact ⟨_, _, .braced h' hguard hbody (heq.trans hbrace),
      .cons (hRel.emit hs (.append _ hcomment)) .nil, hskipped⟩

/-- Parts with the same bound, or whose first lines no rule tells apart. -/
inductive Part.Alike (R : Text → Text → Prop) : Part → Part → Prop where
  | unit {line line' : Text} (h : R line line') : Part.Alike R (.unit line) (.unit line')
  | block {bound : BlockBound} (hindent : ∀ indent, bound = .indented indent →
      ∀ c ∈ indent, isSpace c = true) : Part.Alike R (.block bound) (.block bound)

/-- A bound does not tell related lines apart. -/
lemma BlockBound.endsBefore_alike (hR : Blind R) {bound : BlockBound}
    (hindent : ∀ indent, bound = .indented indent → ∀ c ∈ indent, isSpace c = true)
    {line line' : Text} (h : R line line') : bound.endsBefore line = bound.endsBefore line' := by
  cases bound with
  | statement => rfl
  | indented indent =>
    rw [endsBefore, endsBefore, hR.isEmpty_eq h, hR.indented_eq h indent (hindent indent rfl)]

lemma BlockBound.endsBehind_alike (hR : Blind R) (bound : BlockBound) {line line' : Text}
    (h : R line line') : bound.endsBehind line = bound.endsBehind line' := by
  cases bound with
  | statement =>
    rw [endsBehind, endsBehind, hR.endsStatement_eq h, opensUnbracedConditional,
      opensUnbracedConditional, hR.code_eq h]
  | indented indent => rfl

lemma IsConstruct.isSpace_indent {line comment : Text} {c : Conditional}
    (h : IsConstruct line (.statement (.conditional c)) comment) :
    ∀ a ∈ c.indent, isSpace a = true := by
  intro a ha
  rw [Conditional.indent_eq h.parse?_of_conditional] at ha
  exact List.mem_takeWhile_imp ha

/-- Whatever is converted from one source is converted from any other that is read in step with
it, to the same code in the same places. -/
theorem Converts.inStep (hRel : LineSource.InStep R shift left Rel) (hR : Blind R)
    {part part' : Part} {t : LineSource} {lines : List OutputLine} (h : Converts part s lines t)
    (hpart : part.Alike R part') (hs : Rel s s') (hleft : left ≤ t.unread) :
    ∃ lines' t', Converts part' s' lines' t' ∧ OutputAlike R shift lines lines' ∧ Rel t t' := by
  have hunread := hleft.trans h.unread_le
  induction h generalizing part' s' with
  | alone h =>
    cases hpart with
    | unit hline =>
      obtain ⟨lines', t', h', halike⟩ := h.inStep hRel hR hline hs hleft
      exact ⟨lines', t', .alone h', halike⟩
  | @guarded line comment s t c lines h hguard hbody ih =>
    cases hpart with
    | unit hline =>
      obtain hnone | hmode := hRel.mode
      · exact absurd (h.isGuard hguard) (hnone hline)
      · obtain ⟨_, h', -⟩ := h.alike hR hline
        have hindent (indent : Text) (heq : BlockBound.indented c.indent = .indented indent) :
            ∀ a ∈ indent, isSpace a = true := by
          cases heq
          exact h.isSpace_indent
        have hbehind : left ≤ t.unread := hleft.trans (unread_skipGuardEnd_le _)
        obtain ⟨hdedenting, hset⟩ := hmode hs
        obtain ⟨lines', t', hbody', hlines, ht⟩ := ih (.block hindent) (hset true) hbehind hunread
        refine ⟨lines', _, .guarded h' hguard hbody', hlines, ?_⟩
        rw [hdedenting]
        exact hRel.skipGuardEnd hR ((hmode ht).2 _) hleft
  | @braceless line comment s t c lines h hguard hfollows hbrace hbody ih =>
    cases hpart with
    | unit hline =>
      obtain ⟨_, h', hcomment⟩ := h.alike hR hline
      obtain ⟨heq, hskipped⟩ := hRel.skipIf hs hunread hR.isLoneBrace_eq
      obtain ⟨lines', t', hbody', hlines, ht⟩ :=
        ih (.block nofun) hskipped hleft (hleft.trans hbody.unread_le)
      refine ⟨_, t', .braceless h' hguard hfollows (heq.trans hbrace) hbody', ?_, ht⟩
      exact .cons (hRel.emit hs (.append _ hcomment))
        (List.rel_append hlines (.cons (hRel.emit_same ht _) .nil))
  | outOfLines h =>
    cases hpart with
    | block hindent =>
      obtain ⟨-, hnone, hpeek⟩ | ⟨_, _, hsome, -⟩ := hRel.peek_cases hs hunread
      · exact ⟨[], _, .outOfLines hnone, .nil, hpeek⟩
      · simp [h] at hsome
  | stopBefore h hbefore =>
    cases hpart with
    | block hindent =>
      obtain ⟨hnone, -⟩ | ⟨text, text', hsome, hsome', hline, hpeek, -⟩ :=
        hRel.peek_cases hs hunread
      · simp [h] at hnone
      · obtain rfl := Option.some.inj (h.symm.trans hsome)
        rw [BlockBound.endsBefore_alike hR hindent hline] at hbefore
        exact ⟨[], _, .stopBefore hsome' hbefore, .nil, hpeek⟩
  | stopBehind h hbefore hbehind hunit ih =>
    cases hpart with
    | block hindent =>
      obtain ⟨hnone, -⟩ | ⟨text, text', hsome, hsome', hline, -, hconsumed⟩ :=
        hRel.peek_cases hs hunread
      · simp [h] at hnone
      · obtain rfl := Option.some.inj (h.symm.trans hsome)
        rw [BlockBound.endsBefore_alike hR hindent hline] at hbefore
        rw [BlockBound.endsBehind_alike hR _ hline] at hbehind
        obtain ⟨lines', t', hunit', hlines, ht⟩ :=
          ih (.unit hline) hconsumed hleft (hleft.trans hunit.unread_le)
        exact ⟨lines', t', .stopBehind hsome' hbefore hbehind hunit', hlines, ht⟩
  | goOn h hbefore hbehind hunit hmore ih ih' =>
    cases hpart with
    | block hindent =>
      obtain ⟨hnone, -⟩ | ⟨text, text', hsome, hsome', hline, -, hconsumed⟩ :=
        hRel.peek_cases hs hunread
      · simp [h] at hnone
      · obtain rfl := Option.some.inj (h.symm.trans hsome)
        rw [BlockBound.endsBefore_alike hR hindent hline] at hbefore
        rw [BlockBound.endsBehind_alike hR _ hline] at hbehind
        have hbetween := hleft.trans hmore.unread_le
        obtain ⟨lines', t', hunit', hlines, ht⟩ :=
          ih (.unit hline) hconsumed hbetween (hbetween.trans hunit.unread_le)
        obtain ⟨more', u', hmore', hmorelines, hu⟩ := ih' (.block hindent) ht hleft hbetween
        exact ⟨_, u', .goOn hsome' hbefore hbehind hunit' hmore', List.rel_append hlines hmorelines,
          hu⟩

/-- The next unit, made from either source. -/
lemma LineSource.InStep.convertNext (hRel : InStep R shift left Rel) (hR : Blind R)
    (h : NextInStep R Rel s s')
    (hleft : ∀ unit, convertNext s = some unit → left ≤ unit.source.unread) :
    (Swiftward.convertNext s = none ∧ Swiftward.convertNext s' = none) ∨
      ∃ unit unit', Swiftward.convertNext s = some unit ∧ Swiftward.convertNext s' = some unit' ∧
        OutputAlike R shift unit.lines unit'.lines ∧ Rel unit.source unit'.source := by
  obtain ⟨hnext, hnone⟩ | ⟨line, t, unit, hnext, hunit, hlines, hsource⟩ := convertNext_cases s
  · obtain ⟨-, hnone'⟩ | ⟨_, _, _, hnext', -⟩ := convertNext_cases s'
    · exact .inl ⟨hnone, hnone'⟩
    · obtain ⟨-, hnext''⟩ | ⟨_, _, _, _, hnext'', -⟩ := h
      · simp [hnext'] at hnext''
      · simp [hnext] at hnext''
  · obtain ⟨hnone, -⟩ | ⟨line, t, line', t', hnext₁, hnext', hline, ht⟩ := h
    · simp [hnext] at hnone
    · rw [hnext, Option.some.injEq, Prod.mk.injEq] at hnext₁
      obtain ⟨rfl, rfl⟩ := hnext₁
      obtain ⟨lines, u, hconverts, hout, hu⟩ :=
        (converts_unit line t).inStep hRel hR (.unit hline) ht (hsource ▸ hleft unit hunit)
      obtain ⟨unit', hunit', rfl, rfl⟩ := hconverts.exists_convertNext hnext'
      refine .inr ⟨unit, unit', hunit, hunit', ?_, ?_⟩
      · rw [hlines]
        exact hout
      · rw [hsource]
        exact hu

end Rules

/-! ### Whole sources -/

namespace LineSource

/-- Sources that give related lines in the same places, in whichever mode they are reached. The
second one has `shift` more lines behind it. -/
structure Alike (R : Text → Text → Prop) (shift : Nat) (s s' : LineSource) : Prop where
  upcoming : List.Forall₂ (fun line line' => ∀ on, R (line on) (line' on)) s.upcoming s'.upcoming
  dedenting_eq : s'.dedenting = s.dedenting
  lineNumber_eq : s'.lineNumber = s.lineNumber + shift
  counted : s.Counted
  counted' : s'.Counted

/-- The next lines are related, and behind them the sources are alike; or there are none. -/
abbrev AlikeNext (R : Text → Text → Prop) (shift : Nat) (s s' : LineSource) : Prop :=
  NextInStep R (Alike R shift) s s'

namespace Alike

variable {R : Text → Text → Prop} {shift : Nat} {s s' : LineSource}

lemma setDedent (h : s.Alike R shift s') (on : Bool) :
    (s.setDedent on).Alike R shift (s'.setDedent on) :=
  ⟨h.upcoming, rfl, h.lineNumber_eq, h.counted, h.counted'⟩

lemma of_consumes (h : s.Alike R shift s') {text text' : Text} {t t' : LineSource}
    (ht : s.Consumes text t) (ht' : s'.Consumes text' t') :
    R text text' ∧ t.Alike R shift t' := by
  obtain ⟨first, hs, rfl⟩ := ht.upcoming_eq
  obtain ⟨first', hs', rfl⟩ := ht'.upcoming_eq
  have hupcoming := h.upcoming
  rw [hs, hs', List.forall₂_cons] at hupcoming
  refine ⟨?_, hupcoming.2, ?_, ?_, ht.counted, ht'.counted⟩
  · rw [h.dedenting_eq]
    exact hupcoming.1 _
  · rw [ht.dedenting_eq, ht'.dedenting_eq, h.dedenting_eq]
  · rw [ht.lineNumber_eq h.counted, ht'.lineNumber_eq h.counted', h.lineNumber_eq]
    omega

lemma peek_cases (h : s.Alike R shift s') :
    (s.peek.1 = none ∧ s'.peek.1 = none ∧ s.peek.2.Alike R shift s'.peek.2) ∨
      ∃ text text', s.peek.1 = some text ∧ s'.peek.1 = some text' ∧ R text text' ∧
        s.peek.2.Alike R shift s'.peek.2 ∧ s.peek.2.consume.Alike R shift s'.peek.2.consume := by
  have hupcoming := h.upcoming
  obtain ⟨hnil, hpeek⟩ | ⟨text, t, hpeek, ht⟩ := s.peek_cases
  · obtain ⟨-, hpeek'⟩ | ⟨text', t', -, ht'⟩ := s'.peek_cases
    · rw [hpeek, hpeek']
      exact .inl ⟨rfl, rfl, h⟩
    · obtain ⟨first', more', hs', -⟩ := ht'.upcoming_eq
      simp [hnil, hs'] at hupcoming
  · obtain ⟨hnil', -⟩ | ⟨text', t', hpeek', ht'⟩ := s'.peek_cases
    · obtain ⟨first, more, hs, -⟩ := ht.upcoming_eq
      simp [hnil', hs] at hupcoming
    · obtain ⟨hR, hconsumed⟩ := h.of_consumes ht.consume ht'.consume
      obtain ⟨first, more, hs, -, hlooked⟩ := ht.upcoming_eq
      obtain ⟨first', more', hs', -, hlooked'⟩ := ht'.upcoming_eq
      rw [hs, hs', List.forall₂_cons] at hupcoming
      rw [hpeek, hpeek']
      refine .inr ⟨text, text', rfl, rfl, hR, ⟨?_, ?_, ?_, ?_, ?_⟩, hconsumed⟩
      · rw [hlooked, hlooked']
        exact .cons (fun _ => hR) hupcoming.2
      · rw [ht.dedenting_eq, ht'.dedenting_eq, h.dedenting_eq]
      · rw [ht.lineNumber_eq h.counted, ht'.lineNumber_eq h.counted', h.lineNumber_eq]
      · exact ht.counted h.counted
      · exact ht'.counted h.counted'

end Alike

/-- Sources that are alike are read in step up to their end. -/
lemma inStep_alike (R : Text → Text → Prop) (shift : Nat) : InStep R shift 0 (Alike R shift) where
  lineNumber_eq h := h.lineNumber_eq
  peek_cases h _ := h.peek_cases
  mode := .inr fun h => ⟨h.dedenting_eq, h.setDedent⟩

lemma Alike.next?_cases {R : Text → Text → Prop} {shift : Nat} {s s' : LineSource}
    (h : s.Alike R shift s') : s.AlikeNext R shift s' :=
  (inStep_alike R shift).next?_cases h (Nat.zero_le _)

end LineSource

section Units

variable {R : Text → Text → Prop} {shift : Nat} {s s' : LineSource}

lemma convertNext_alike (hR : Blind R) (h : s.AlikeNext R shift s') :
    (convertNext s = none ∧ convertNext s' = none) ∨
      ∃ unit unit', convertNext s = some unit ∧ convertNext s' = some unit' ∧
        OutputAlike R shift unit.lines unit'.lines ∧
        unit.source.Alike R shift unit'.source :=
  (LineSource.inStep_alike R shift).convertNext hR h fun _ _ => Nat.zero_le _

/-- From sources that are read in step, units are made with the same code in the same places. -/
theorem convertUnits_alikeNext (hR : Blind R) (h : s.AlikeNext R shift s') :
    List.Forall₂ (OutputAlike R shift) (convertUnits s) (convertUnits s') := by
  induction hunread : s.unread using Nat.strongRecOn generalizing s s' with
  | ind unread ih =>
    subst hunread
    rw [convertUnits.eq_def s, convertUnits.eq_def s']
    obtain ⟨hnone, hnone'⟩ | ⟨unit, unit', hunit, hunit', hlines, hsource⟩ :=
      convertNext_alike hR h
    · rw [hnone, hnone']
      exact .nil
    · rw [hunit, hunit']
      exact .cons hlines (ih _ unit.unread_lt hsource.next?_cases rfl)

theorem convertUnits_alike (hR : Blind R) (h : s.Alike R shift s') :
    List.Forall₂ (OutputAlike R shift) (convertUnits s) (convertUnits s') :=
  convertUnits_alikeNext hR h.next?_cases

end Units

/-! ### Equal lines -/

/-- The same line of output, made `n` lines further on. -/
def OutputLine.shift (n : Nat) (line : OutputLine) : OutputLine :=
  { line with source := line.source + n }

/-- If no lines are related but equal ones, lines of output in the same places are equal. -/
lemma OutputAlike.eq_map_shift {R : Text → Text → Prop}
    (hR : ∀ {line line'}, R line line' → line = line') {shift : Nat}
    {lines lines' : List OutputLine} (h : OutputAlike R shift lines lines') :
    lines' = lines.map (·.shift shift) := by
  induction h with
  | nil => rfl
  | @cons line line' _ _ h _ ih =>
    rw [List.map_cons, ← ih]
    congr 1
    obtain ⟨hsource, code, comment, comment', htext, htext', hcomment⟩ := h
    have hcomments : comment = comment' := by
      cases hcomment with
      | same => rfl
      | behind hline => rw [hR hline]
    have htexts : line'.text = line.text := by rw [htext, htext', hcomments]
    rw [OutputLine.shift, ← hsource, ← htexts]

/-- From sources with the same lines before them the same units are made, `n` lines further on. -/
theorem convertUnits_shift {n : Nat} {s s' : LineSource} (h : s.AlikeNext (· = ·) n s') :
    convertUnits s' = (convertUnits s).map (List.map (·.shift n)) := by
  rw [eq_comm, ← List.forall₂_eq_eq_eq, List.forall₂_map_left_iff]
  exact (convertUnits_alikeNext blind_eq h).imp fun _ _ hlines =>
    (OutputAlike.eq_map_shift id hlines).symm

end Swiftward
