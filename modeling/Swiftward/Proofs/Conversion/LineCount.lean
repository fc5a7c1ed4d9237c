import Swiftward.Proofs.Conversion.Account

/-!
# How many lines are made

Outside the declarations that are left out or made anew, and outside guards, each line that is
consumed is made into one line, a method header on several lines among them. Only headers whose body
follows change the count, by the closing brace that is made or by the brace that is taken in
(`Converter.length_step`).
-/

namespace Swiftward

/-! ### Lines that are left out or made anew -/

/-- The line is an import, opens a class, or declares what has no counterpart. -/
def IsDeclaration (line : Text) : Prop :=
  (Import.parse? (splitComment line).1).isSome ∨
    (ImplementationHeader.parse? (splitComment line).1).isSome ∨
    (InterfaceHeader.parse? (splitComment line).1).isSome ∨
    isSynthesize (splitComment line).1

instance (line : Text) : Decidable (IsDeclaration line) := inferInstanceAs (Decidable (_ ∨ _))

/-- The constructs of lines that are no declarations. -/
def Construct.isDeclaration : Construct → Bool
  | imported _ => true
  | implementation _ => true
  | interface _ => true
  | blockEnd => false
  | synthesize => true
  | method _ => false
  | statement _ => false

lemma IsConstruct.isDeclaration_eq_false {line comment : Text} {construct : Construct}
    (h : IsConstruct line construct comment) (hline : ¬IsDeclaration line) :
    construct.isDeclaration = false := by
  simp only [IsDeclaration, not_or, Bool.not_eq_true, Option.isSome_eq_false_iff,
    Option.isNone_iff_eq_none] at hline
  obtain ⟨himport, himplementation, hinterface, hsynthesize⟩ := hline
  rw [← h.ofCode, Construct.ofCode, himport, himplementation, hinterface]
  simp only [hsynthesize, Bool.false_eq_true, if_false]
  split_ifs
  · rfl
  · split
    · rfl
    · rfl
  · rfl

/-! ### Method headers -/

namespace MethodHeader

lemma length_linesFrom (header : MethodHeader) (current comment : Text)
    (continued : List Continuation) :
    (header.linesFrom current comment continued).length = continued.length + 1 := by
  induction continued generalizing current comment with
  | nil => rfl
  | cons continuation more ih => rw [linesFrom, List.length_cons, ih, List.length_cons]

/-- A header has as many lines as it was read from. -/
lemma length_render {header : MethodHeader} (h : header.params = [] → header.continued = []) :
    header.render.length = header.continued.length + 1 := by
  unfold render
  split_ifs with hparams
  · rw [h hparams]
    rfl
  · rw [h hparams]
    rfl
  · exact length_linesFrom ..

lemma continued_of_parse? {line : Text} {header : MethodHeader} (h : parse? line = some header) :
    header.continued = [] := by
  simp only [parse?, Option.bind_eq_bind, Option.bind_eq_some_iff, Prod.exists] at h
  obtain ⟨_, _, -, _, _, _, -, h⟩ := h
  obtain rfl := Option.some.inj h
  rfl

end MethodHeader

lemma IsConstruct.parse?_of_method {line comment : Text} {header : MethodHeader}
    (h : IsConstruct line (.method header) comment) :
    MethodHeader.parse? (splitComment line).1 = some header := by
  have hcode := h.ofCode
  unfold Construct.ofCode at hcode
  split at hcode
  · simp at hcode
  · simp at hcode
  · simp at hcode
  · split_ifs at hcode
    split at hcode
    · next header' hparse =>
      rw [hparse, Construct.method.inj hcode]
    · simp at hcode

/-- Lines that continue a header are kept with it, and its brace may stand on any of them. -/
lemma MethodHeader.foldl_continueWith_eq (header : MethodHeader) (continuations : List Continuation) :
    continuations.foldl continueWith header =
      { header with
        continued := header.continued ++ continuations
        hasBrace := header.hasBrace || continuations.any (·.opensBody) } := by
  induction continuations generalizing header with
  | nil => simp
  | cons k more ih =>
    rw [List.foldl_cons, ih]
    simp [continueWith, Bool.or_assoc]

/-- Each line that continues a header is kept with it, and nothing else of the header that decides
on its parameters changes. -/
lemma MethodHeader.foldl_continueWith (header : MethodHeader) (continuations : List Continuation) :
    (continuations.foldl continueWith header).continued = header.continued ++ continuations ∧
      (continuations.foldl continueWith header).params = header.params ∧
      (continuations.foldl continueWith header).labelledParams = header.labelledParams := by
  rw [foldl_continueWith_eq]
  exact ⟨rfl, rfl, rfl⟩

/-- The lines that continue a header are lines ahead that can be read so, and only a header with
parameters is continued. -/
lemma readContinuations_eq (header : MethodHeader) (s : LineSource) :
    ∃ more continuations, s.texts = more ++ (readContinuations header s).2.texts ∧
      List.Forall₂ (fun text k => Continuation.parse? text = some k) more continuations ∧
      (readContinuations header s).1 = continuations.foldl MethodHeader.continueWith header ∧
      (header.params = [] → continuations = []) := by
  fun_induction readContinuations header s with
  | case1 header s haccepts k t h ih =>
    obtain ⟨text, k', hpeek, hparse, heq⟩ | ⟨-, heq⟩ := s.nextWhere_cases Continuation.parse?
    · obtain ⟨rfl, rfl⟩ : k' = k ∧ s.peek.2.consume = t := by simpa [h] using heq.symm
      obtain ⟨more, continuations, htexts, hmore, hread, -⟩ := ih
      refine ⟨text :: more, k' :: continuations, ?_, .cons hparse hmore, hread, ?_⟩
      · rw [LineSource.texts_of_peek hpeek, htexts, List.cons_append]
      · intro hnil
        simp [MethodHeader.acceptsContinuation, hnil] at haccepts
    · simp [h] at heq
  | case2 header s haccepts t h =>
    obtain ⟨text, k, -, -, heq⟩ | ⟨-, heq⟩ := s.nextWhere_cases Continuation.parse?
    · simp [heq] at h
    · obtain rfl : s.peek.2 = t := congrArg Prod.snd (heq.symm.trans h)
      exact ⟨[], [], (LineSource.texts_peek s).symm, .nil, rfl, fun _ => rfl⟩
  | case3 header s haccepts => exact ⟨[], [], rfl, .nil, rfl, fun _ => rfl⟩

lemma continued_readContinuations {header : MethodHeader} (h : header.continued = [])
    (s : LineSource) (hparams : (readContinuations header s).1.params = []) :
    (readContinuations header s).1.continued = [] := by
  obtain ⟨more, continuations, -, -, hread, hnil⟩ := readContinuations_eq header s
  obtain ⟨hcontinued, hkeeps, -⟩ := header.foldl_continueWith continuations
  rw [hread, hkeeps] at hparams
  rw [hread, hcontinued, h, hnil hparams, List.nil_append]

lemma length_commentFirst (comment : Text) (texts : List Text) :
    (commentFirst comment texts).length = texts.length := by
  cases texts <;> rfl

/-- A method header is made into as many lines as were read for it. -/
lemma length_convertMethod {line comment : Text} {header : MethodHeader}
    (h : IsConstruct line (.method header) comment) (s : LineSource) :
    (convertMethod header comment s).lines.length + (convertMethod header comment s).source.unread =
      1 + s.unread := by
  have hcontinued := MethodHeader.continued_of_parse? h.parse?_of_method
  obtain ⟨more, continuations, htexts, hmore, hread, -⟩ := readContinuations_eq header s
  have hrender := MethodHeader.length_render (continued_readContinuations hcontinued s)
  rw [hread, (header.foldl_continueWith continuations).1, hcontinued, List.nil_append,
    ← hmore.length_eq, ← hread] at hrender
  have hlength := congrArg List.length htexts
  simp only [List.length_append, LineSource.length_texts] at hlength
  simp only [convertMethod, List.length_map, length_commentFirst, hrender]
  omega

/-! ### The count -/

/-- A unit that reads no block and is the header of no body is made line by line. -/
lemma Alone.length_eq {line : Text} {s t : LineSource} {lines : List OutputLine}
    (h : Alone line s lines t) (hline : ¬IsDeclaration line) (hawaits : awaitsBody line = false) :
    lines.length + t.unread = 1 + s.unread := by
  have hconstruct {construct : Construct} {comment : Text}
      (h : IsConstruct line construct comment) := h.isDeclaration_eq_false hline
  cases h with
  | imported h => rfl
  | dropped h => exact nomatch hconstruct h
  | implementation h => exact nomatch hconstruct h
  | interface h => exact nomatch hconstruct h
  | synthesize h => exact nomatch hconstruct h
  | braced h hself hbody hbrace => simp [h.awaitsBody hself, hbody] at hawaits
  | method h => exact length_convertMethod h s
  | blank h => rfl
  | blockEnd h => rfl
  | done h => rfl
  | header h hself hbody => rfl

/-- A unit that is no declaration and no guard is made into at least one line. -/
lemma Converts.lines_ne_nil {line : Text} {s t : LineSource} {lines : List OutputLine}
    (h : Converts (.unit line) s lines t) (hline : ¬IsDeclaration line) (hguard : ¬IsGuard line) :
    lines ≠ [] := by
  have hle := h.unread_le
  cases h with
  | guarded h hself hbody => exact absurd (h.isGuard hself) hguard
  | braceless h hself hfollows hbrace hbody => simp
  | alone h =>
    obtain hnone | ⟨c, comment, -, -, rfl, -⟩ := h.header_cases
    · have hlength := h.length_eq hline (by rw [awaitsBody, hnone]; rfl)
      rintro rfl
      simp only [List.length_nil] at hlength
      omega
    · simp

lemma total_one (texts : List Text) : total (fun _ => 1) texts = texts.length := by
  induction texts with
  | nil => rfl
  | cons text texts ih =>
    rw [total_cons, ih, List.length_cons]
    omega

/-- Where there are no declarations and no guards, lines are made one by one. -/
lemma weighing_one :
    Weighing (fun line => ¬IsDeclaration line ∧ ¬IsGuard line) (fun _ => 1) 0 1 1 where
  not_guard h := h.2
  alone hline h hawaits := by
    have hlength := h.length_eq hline.1 hawaits
    simp only [total_one, textsOf, List.length_map, LineSource.length_texts]
    exact_mod_cast hlength
  header _ _ _ _ := rfl
  closing _ := rfl
  brace _ := rfl

namespace Converter

/-- A step is exhausted, or it takes the next line for a unit. -/
lemma step_cases_unit (c : Converter) :
    c.step.1 = .exhausted ∨
      ∃ line rest lines t, c.source.next? = some (line, rest) ∧ Converts (.unit line) rest lines t ∧
        c.step.1.lines = lines := by
  rcases hnext : c.source.next? with _ | ⟨line, rest⟩
  · obtain ⟨-, hnone⟩ | ⟨line, s, unit, hline, -⟩ := convertNext_cases c.source
    · rw [step_of_none hnone]
      exact .inl rfl
    · simp [hnext] at hline
  · have hunit := converts_unit line rest
    exact .inr ⟨line, rest, _, _, rfl, hunit, (step_of_converts hnext hunit).1⟩

lemma Step.eq_emitted {step : Step} (h : step.lines ≠ []) : step = .emitted step.lines := by
  cases step with
  | emitted lines => rfl
  | nothing => exact absurd rfl h
  | exhausted => exact absurd rfl h

/-- Where there are no declarations and no guards, each step that is made hands out at least one
line: as many as it consumes, one more for each header that a closing brace is made for, and one
less for each header that takes in the brace on the next line. -/
theorem length_step (width : Nat) {lines : List Text}
    (hlines : ∀ line ∈ lines, ¬IsDeclaration (trimEnd line) ∧ ¬IsGuard (trimEnd line)) {k : Nat}
    (hstep : ((ofLines width lines).after k).step.1 ≠ .exhausted) :
    ∃ out, ((ofLines width lines).after k).step.1 = .emitted out ∧ out ≠ [] ∧
      (out.length : Int) =
        ((ofLines width lines).after (k + 1)).source.lineNumber -
            ((ofLines width lines).after k).source.lineNumber +
          ((ofLines width lines).after k).visits.countP Visit.closes -
          ((ofLines width lines).after k).visits.countP Visit.absorbs := by
  have hahead : ∀ text ∈ (ofLines width lines).source.texts, ¬IsDeclaration text ∧ ¬IsGuard text := by
    intro text htext
    rw [ofLines, LineSource.texts_ofLines, List.mem_map] at htext
    obtain ⟨line, hline, rfl⟩ := htext
    exact hlines line hline
  have hleft : ∀ text ∈ ((ofLines width lines).after k).source.texts,
      ¬IsDeclaration text ∧ ¬IsGuard text := fun text htext =>
    hahead text ((texts_after_suffix weighing_one hahead k).subset htext)
  have hbefore := lineNumber_add_unread width lines k
  have hafter := lineNumber_add_unread width lines (k + 1)
  rw [after] at hafter ⊢
  generalize (ofLines width lines).after k = c at *
  obtain hexhausted | ⟨line, rest, out, t, hnext, hunit, hout⟩ := c.step_cases_unit
  · exact absurd hexhausted hstep
  · have hline := hleft line (by rw [LineSource.texts_of_next? hnext]; exact List.mem_cons_self)
    have hne : c.step.1.lines ≠ [] := by
      rw [hout]
      exact hunit.lines_ne_nil hline.1 hline.2
    refine ⟨_, Step.eq_emitted hne, hne, ?_⟩
    obtain ⟨-, hweight⟩ := weight_step weighing_one hleft
    simp only [total_one, textsOf, List.length_map, LineSource.length_texts, surplus] at hweight
    omega

/-- A header without a brace around a header with a brace on the next line. -/
def bracedInside : List Text :=
  ["if (a)".toList, "    if (b)".toList, "    \x7b".toList, "        c = d;".toList]

theorem length_step_bracedInside :
    (ofLines 4 bracedInside).visits.countP Visit.closes = 1 ∧
      (ofLines 4 bracedInside).visits.countP Visit.absorbs = 1 ∧
      (ofLines 4 bracedInside).step.2.source.lineNumber = 3 ∧
      ∃ out, (ofLines 4 bracedInside).step.1 = .emitted out ∧ out.length = 3 := by
  have hcloses : (ofLines 4 bracedInside).visits.countP Visit.closes = 1 := by decide +kernel
  have habsorbs : (ofLines 4 bracedInside).visits.countP Visit.absorbs = 1 := by decide +kernel
  have hnumber : (ofLines 4 bracedInside).step.2.source.lineNumber = 3 := by decide +kernel
  have hlines : ∀ line ∈ bracedInside, ¬IsDeclaration (trimEnd line) ∧ ¬IsGuard (trimEnd line) := by
    decide +kernel
  have hstep : ((ofLines 4 bracedInside).after 0).step.1 ≠ .exhausted := by decide +kernel
  obtain ⟨out, hout, -, hlength⟩ := length_step 4 hlines hstep
  refine ⟨hcloses, habsorbs, hnumber, out, hout, ?_⟩
  simp only [after, hcloses, habsorbs, hnumber] at hlength
  have hstart : (ofLines 4 bracedInside).source.lineNumber = 0 := rfl
  omega

end Converter

end Swiftward
