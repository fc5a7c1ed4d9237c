import Swiftward.Proofs.Conversion.Header

/-!
# Headers on several lines

A header may have all of its parameters on one line, or some of them on lines of their own. What is
written out differs in the line breaks only: the lines of the one, joined with a space and without
their indentation, are the single line of the other, and every line keeps its comment
(`convertUnit_joined`).
-/

namespace Swiftward

/-- The lines spell a header and the parameters that continue it, the last line perhaps with a
brace. -/
structure IsSplit (header : MethodHeader) (continuations : List Continuation) (line : Text)
    (more : List Text) : Prop where
  first : header.SpelledBy (splitComment line).1
  params_ne_nil : header.params ≠ []
  more : List.Forall₂ (fun text k => Continuation.SpelledBy k text) more continuations
  braceless : ∀ b ∈ (header.hasBrace :: continuations.map (·.opensBody)).dropLast, b = false

/-- The header with the continued parameters on its first line. -/
def MethodHeader.joined (header : MethodHeader) (continuations : List Continuation) :
    MethodHeader where
  isClassMethod := header.isClassMethod
  returnType := header.returnType
  name := header.name
  params := header.params ++ continuations.map (·.param)
  continued := []
  hasBrace := header.hasBrace || continuations.any (·.opensBody)

/-- The comments of lines. -/
def commentsOf (lines : List Text) : List Text := lines.map fun line => (splitComment line).2

/-! ### Reading the lines of a header -/

namespace LineSource

variable {s : LineSource} {f : Text → Option β}

lemma nextWhere_of_texts {text : Text} {texts : List Text} {b : β} (h : s.texts = text :: texts)
    (hf : f text = some b) : s.nextWhere f = (some b, s.peek.2.consume) := by
  have hpeek := (peek_of_texts h).1
  obtain ⟨text', b', hpeek', hf', heq⟩ | ⟨hnone, -⟩ := s.nextWhere_cases f
  · obtain rfl : text = text' := Option.some.inj (hpeek.symm.trans hpeek')
    obtain rfl : b = b' := Option.some.inj (hf.symm.trans hf')
    exact heq
  · rw [hnone text hpeek] at hf
    cases hf

lemma nextWhere_eq_none (h : ∀ next ∈ s.texts.head?, f next = none) :
    s.nextWhere f = (none, s.peek.2) := by
  obtain ⟨text, b, hpeek, hf, -⟩ | ⟨-, heq⟩ := s.nextWhere_cases f
  · rw [h text (by rw [texts_of_peek hpeek]; rfl)] at hf
    cases hf
  · exact heq

end LineSource

/-- As long as no brace is read, the lines that continue a header are read on. -/
lemma readContinuations_of_texts {header : MethodHeader} (hparams : header.params ≠ [])
    {more rest : List Text} {continuations : List Continuation}
    (hmore : List.Forall₂ (fun text k => Continuation.parse? text = some k) more continuations)
    (hbraces : ∀ b ∈ (header.hasBrace :: continuations.map (·.opensBody)).dropLast, b = false)
    {s : LineSource} (hs : s.texts = more ++ rest)
    (hrest : ∀ next ∈ rest.head?, Continuation.parse? next = none) :
    (readContinuations header s).1 = continuations.foldl MethodHeader.continueWith header ∧
      (readContinuations header s).2.texts = rest := by
  induction hmore generalizing header s with
  | nil =>
    rw [List.nil_append] at hs
    have hnone := LineSource.nextWhere_eq_none (hs ▸ hrest)
    rw [readContinuations]
    split_ifs
    · split
      · next hsome => cases hnone.symm.trans hsome
      · next heq =>
        obtain ⟨-, rfl⟩ := Prod.mk.inj (hnone.symm.trans heq)
        exact ⟨rfl, (LineSource.texts_peek s).trans hs⟩
    · exact ⟨rfl, hs⟩
  | @cons text k more continuations hparse hmore ih =>
    have hbrace : header.hasBrace = false := hbraces _ (by simp)
    have haccepts : header.acceptsContinuation = true := by
      simp [MethodHeader.acceptsContinuation, hbrace, hparams]
    have hsome := LineSource.nextWhere_of_texts hs hparse
    have hbraces' : ∀ b ∈ ((header.continueWith k).hasBrace ::
        continuations.map (·.opensBody)).dropLast, b = false := by
      intro b hb
      refine hbraces b ?_
      simp only [MethodHeader.continueWith, hbrace, Bool.false_or] at hb
      rw [List.map_cons, List.dropLast_cons_of_ne_nil (List.cons_ne_nil _ _)]
      exact List.mem_cons_of_mem _ hb
    have hparams' : (header.continueWith k).params ≠ [] := hparams
    obtain ⟨hread, htexts⟩ := ih hparams' hbraces' (LineSource.peek_of_texts hs).2
    rw [readContinuations, if_pos haccepts]
    split
    · next heq =>
      obtain ⟨hk, rfl⟩ := Prod.mk.inj (hsome.symm.trans heq)
      obtain rfl := Option.some.inj hk
      exact ⟨hread, htexts⟩
    · next heq => cases hsome.symm.trans heq

/-! ### The lines that are written out -/

namespace MethodHeader

variable (header : MethodHeader)

/-- The lines of a header without their comments, from the one that begins with `current`. -/
def codeFrom (current : Text) : List Param → List Text
  | [] => [current ++ header.closing]
  | p :: more =>
    (current ++ [',']) :: codeFrom (List.replicate header.indentation ' ' ++ p.render) more

/-- The lines of a header without their comments. -/
def code : List Text :=
  header.codeFrom (header.opening ++ ", ".toList.intercalate (header.labelledParams.map Param.render))
    (header.continued.map (·.param))

lemma length_codeFrom (current : Text) (params : List Param) :
    (header.codeFrom current params).length = params.length + 1 := by
  induction params generalizing current with
  | nil => rfl
  | cons p more ih => rw [codeFrom, List.length_cons, ih, List.length_cons]

/-- Every line is its code and its comment. -/
lemma linesFrom_eq_zipWith (current comment : Text) (continued : List Continuation) :
    header.linesFrom current comment continued =
      List.zipWith (· ++ ·) (header.codeFrom current (continued.map (·.param)))
        (comment :: continued.map (·.comment)) := by
  induction continued generalizing current comment with
  | nil => rfl
  | cons k more ih =>
    rw [linesFrom, ih, List.map_cons, codeFrom, List.map_cons, List.zipWith_cons_cons,
      List.append_assoc]
    rfl

lemma commentFirst_render_eq_zipWith {header : MethodHeader} (h : header.params ≠ [])
    (comment : Text) :
    commentFirst comment header.render =
      List.zipWith (· ++ ·) header.code (comment :: header.continued.map (·.comment)) := by
  rw [commentFirst_render h, linesFrom_eq_zipWith, code]

end MethodHeader

/-- A text that begins with something else than white space. -/
def Begins (s : Text) : Prop := ∃ c ∈ s.head?, isSpace c = false

lemma Begins.trimStart_append {s : Text} (h : Begins s) {indent : Text}
    (hindent : ∀ c ∈ indent, isSpace c = true) (t : Text) :
    trimStart (indent ++ s ++ t) = s ++ t := by
  obtain ⟨c, hc, hspace⟩ := h
  rw [List.append_assoc]
  refine Swiftward.trimStart_append hindent ?_
  intro d hd
  rw [List.head?_append, Option.mem_def.mp hc] at hd
  obtain rfl : c = d := Option.some.inj hd
  exact hspace

lemma Param.begins_render {p : Param} (h : IsIdentifier p.keyword) : Begins p.render := by
  obtain ⟨c, w, hw⟩ := List.exists_cons_of_ne_nil h.ne_nil
  have hc : isSpace c = false := isSpace_of_isWord (h.isWord c (by simp [hw]))
  refine ⟨c, ?_, hc⟩
  unfold render
  split_ifs with hname
  · rw [← hname.resolve_left h.ne_nil, hw]
    rfl
  · rw [hw]
    rfl

lemma MethodHeader.begins_opening (header : MethodHeader) (s : Text) :
    Begins (header.opening ++ s) := by
  unfold opening declarator
  split_ifs
  · exact ⟨'i', rfl, by decide⟩
  · exact ⟨'c', rfl, by decide⟩
  · exact ⟨'f', rfl, by decide⟩

/-- The lines of a header, joined with a space and without their indentation, have all parameters
one behind the other. -/
lemma MethodHeader.intercalate_codeFrom (header : MethodHeader) {indent current : Text}
    (hindent : ∀ c ∈ indent, isSpace c = true) (hcurrent : Begins current) {params : List Param}
    (hparams : ∀ p ∈ params, Begins p.render) :
    [' '].intercalate ((header.codeFrom (indent ++ current) params).map trimStart) =
      current ++ (params.flatMap fun p => ", ".toList ++ p.render) ++ header.closing := by
  induction params generalizing indent current with
  | nil =>
    rw [codeFrom, List.map_singleton, List.intercalate_singleton, hcurrent.trimStart_append hindent]
    simp
  | cons p more ih =>
    obtain ⟨hp, hmore⟩ := List.forall_mem_cons.mp hparams
    have hspaces : ∀ c ∈ List.replicate header.indentation ' ', isSpace c = true := by
      intro c hc
      rw [(List.mem_replicate.mp hc).2]
      decide
    have hrest := ih hspaces hp hmore
    obtain ⟨line, lines, hlines⟩ := List.exists_cons_of_length_pos
      (l := header.codeFrom (List.replicate header.indentation ' ' ++ p.render) more)
      (by rw [length_codeFrom]; omega)
    rw [hlines, List.map_cons] at hrest
    rw [codeFrom, hlines, List.map_cons, List.map_cons, List.intercalate_cons_cons, hrest,
      hcurrent.trimStart_append hindent, List.flatMap_cons]
    simp

/-! ### One line instead of several -/

/-- Behind the first piece, each piece has the separator before it. -/
lemma intercalate_cons_eq (separator piece : Text) (more : List Text) :
    separator.intercalate (piece :: more) = piece ++ more.flatMap (separator ++ ·) := by
  induction more generalizing piece with
  | nil => simp
  | cons piece' more ih =>
    rw [List.intercalate_cons_cons, ih, List.flatMap_cons, List.append_assoc, List.append_assoc]

lemma intercalate_append {separator : Text} {front : List Text} (h : front ≠ [])
    (more : List Text) :
    separator.intercalate (front ++ more) =
      separator.intercalate front ++ more.flatMap (separator ++ ·) := by
  obtain ⟨piece, front, rfl⟩ := List.exists_cons_of_ne_nil h
  rw [List.cons_append, intercalate_cons_eq, intercalate_cons_eq, List.flatMap_append,
    List.append_assoc]

namespace MethodHeader

variable {header : MethodHeader} {continuations : List Continuation}

/-- Only the first parameter gets a label from the name, and that is on the first line. -/
lemma labelledParams_joined (h : header.params ≠ []) :
    (header.joined continuations).labelledParams =
      header.labelledParams ++ continuations.map (·.param) := by
  obtain ⟨first, more, hparams⟩ := List.exists_cons_of_ne_nil h
  have hinit : (header.joined continuations).isInitializer = header.isInitializer := rfl
  have hname : (header.joined continuations).name = header.name := rfl
  have hjoined : (header.joined continuations).params =
      first :: (more ++ continuations.map (·.param)) := by
    rw [joined, hparams, List.cons_append]
  unfold labelledParams
  rw [hinit, hname, hjoined, hparams]
  cases header.isInitializer with
  | false => rfl
  | true =>
    cases initializerLabel? header.name with
    | none => rfl
    | some label => rfl

/-- The header with all parameters on one line has the lines of the other as its only one. -/
lemma code_joined (h : header.params ≠ []) (hcontinued : header.continued = [])
    (hkeywords : ∀ k ∈ continuations, IsIdentifier k.param.keyword) :
    (header.joined continuations).code =
      [[' '].intercalate
        ((continuations.foldl continueWith header).code.map trimStart)] := by
  have hparams : ∀ p ∈ continuations.map (·.param), Begins p.render := by
    intro p hp
    obtain ⟨k, hk, rfl⟩ := List.mem_map.mp hp
    exact Param.begins_render (hkeywords k hk)
  have hlines := intercalate_codeFrom (continuations.foldl continueWith header)
    (List.forall_mem_nil _) (begins_opening header
      (", ".toList.intercalate (header.labelledParams.map Param.render))) hparams
  have hcode : (continuations.foldl continueWith header).code =
      (continuations.foldl continueWith header).codeFrom
        ([] ++ (header.opening ++ ", ".toList.intercalate (header.labelledParams.map Param.render)))
        (continuations.map (·.param)) := by
    rw [foldl_continueWith_eq, hcontinued]
    rfl
  have hclosing : (continuations.foldl continueWith header).closing =
      (header.joined continuations).closing := by
    rw [foldl_continueWith_eq]
    rfl
  have hlabelled : header.labelledParams.map Param.render ≠ [] :=
    mt List.map_eq_nil_iff.mp (labelledParams_ne_nil h)
  have hopening : (header.joined continuations).opening = header.opening := rfl
  have hjoined : (header.joined continuations).continued = [] := rfl
  rw [hcode, hlines, code, hjoined, labelledParams_joined h, List.map_append,
    intercalate_append hlabelled, hopening, hclosing, List.flatMap_map, List.map_nil, codeFrom]
  simp only [List.append_assoc]

end MethodHeader

lemma MethodHeader.SpelledBy.isSome_sigil? {header : MethodHeader} {code : Text}
    (h : header.SpelledBy code) (comment : Text) : (sigil? (code ++ comment)).isSome := by
  obtain @⟨isClassMethod, _, _, _, _, _, _, _, -, -, -, gap, -, hbody⟩ := h
  obtain ⟨gap', -, hcode⟩ := exists_gap code
  rw [hcode, hbody]
  cases isClassMethod <;> rfl

lemma MethodHeader.SpelledBy.isConstruct {header : MethodHeader} {line : Text}
    (h : header.SpelledBy (splitComment line).1) :
    IsConstruct line (.method header) (splitComment line).2 := by
  have hsigil := h.isSome_sigil? (splitComment line).2
  rw [code_append_comment] at hsigil
  have hconstruct := isConstruct_of_sigil hsigil
  rwa [(MethodHeader.spelledBy_iff.mp h).1] at hconstruct

namespace IsSplit

variable {header : MethodHeader} {continuations : List Continuation} {line : Text}
  {more : List Text}

lemma forall₂_parse? (h : IsSplit header continuations line more) :
    List.Forall₂ (fun text k => Continuation.parse? text = some k) more continuations :=
  (Continuation.forall₂_spelledBy_iff.mp h.more).2

lemma continued_eq_nil (h : IsSplit header continuations line more) : header.continued = [] :=
  MethodHeader.continued_of_parse? (MethodHeader.spelledBy_iff.mp h.first).1

/-- What is read of a line that continues a header has a keyword, and the comment of the line. -/
lemma exists_line (h : IsSplit header continuations line more) :
    (∀ k ∈ continuations, IsIdentifier k.param.keyword) ∧
      commentsOf more = continuations.map (·.comment) := by
  have hmore := h.more
  clear h
  induction hmore with
  | nil => exact ⟨List.forall_mem_nil _, rfl⟩
  | cons hfirst hmore ih =>
    obtain ⟨hkeywords, hcomments⟩ := ih
    obtain ⟨-, -, hkeyword, -, -⟩ := hfirst
    exact ⟨List.forall_mem_cons.mpr ⟨hkeyword, hkeywords⟩, congrArg (_ :: ·) hcomments⟩

/-- All lines of a header are consumed together, and as many are made. -/
lemma convertUnit_eq (h : IsSplit header continuations line more) {s : LineSource}
    {rest : List Text} (hs : s.texts = more ++ rest)
    (hrest : ∀ next ∈ rest.head?, Continuation.parse? next = none) :
    textsOf (convertUnit line s).lines =
        List.zipWith (· ++ ·) (continuations.foldl MethodHeader.continueWith header).code
          (commentsOf (line :: more)) ∧
      (convertUnit line s).source.texts = rest := by
  obtain ⟨hlines, hsource⟩ := (Alone.method (s := s) h.first.isConstruct).unit_eq
  obtain ⟨hread, htexts⟩ :=
    readContinuations_of_texts h.params_ne_nil h.forall₂_parse? h.braceless hs hrest
  obtain ⟨hcontinued, hparams, -⟩ := header.foldl_continueWith continuations
  rw [h.continued_eq_nil, List.nil_append] at hcontinued
  constructor
  · rw [hlines, convertMethod, textsOf_map_emit, hread,
      MethodHeader.commentFirst_render_eq_zipWith (hparams ▸ h.params_ne_nil), hcontinued,
      ← h.exists_line.2]
    rfl
  · rw [hsource]
    exact htexts

end IsSplit

/-- A header that is split over several lines is made into one line for each of them, which keeps
its comment. Joined with a space and without their indentation, the lines are the single one that is
made of the header with all parameters on its first line. -/
theorem convertUnit_joined {header : MethodHeader} {continuations : List Continuation}
    {line : Text} {more : List Text} (h : IsSplit header continuations line more) {single : Text}
    (hsingle : (header.joined continuations).SpelledBy (splitComment single).1)
    {s s' : LineSource} {rest : List Text} (hs : s.texts = more ++ rest)
    (hrest : ∀ next ∈ rest.head?, Continuation.parse? next = none)
    (hrest' : ∀ next ∈ s'.texts.head?, Continuation.parse? next = none) :
    ∃ code : List Text, code.length = more.length + 1 ∧
      textsOf (convertUnit line s).lines = List.zipWith (· ++ ·) code (commentsOf (line :: more)) ∧
      (convertUnit line s).source.texts = rest ∧
      textsOf (convertUnit single s').lines =
        [[' '].intercalate (code.map trimStart) ++ (splitComment single).2] := by
  obtain ⟨hlines, hsource⟩ := h.convertUnit_eq hs hrest
  have hjoined : IsSplit (header.joined continuations) [] single [] :=
    ⟨hsingle, List.append_ne_nil_of_left_ne_nil h.params_ne_nil _, .nil, List.forall_mem_nil _⟩
  obtain ⟨hline, -⟩ := hjoined.convertUnit_eq (List.nil_append _).symm hrest'
  obtain ⟨hcontinued, -, -⟩ := header.foldl_continueWith continuations
  refine ⟨_, ?_, hlines, hsource, ?_⟩
  · rw [MethodHeader.code, MethodHeader.length_codeFrom, hcontinued, h.continued_eq_nil,
      List.nil_append, List.length_map, h.more.length_eq]
  · rw [hline, List.foldl_nil, MethodHeader.code_joined h.params_ne_nil h.continued_eq_nil
      h.exists_line.1]
    rfl

/-- The header of an initializer with one of its three parameters on the first line. -/
def splitInitializer : MethodHeader where
  isClassMethod := false
  returnType := "id".toList
  name := "initWithX".toList
  params := [⟨[], "int".toList, ['x']⟩]
  continued := []
  hasBrace := false

/-- The other two parameters. -/
def splitParams : List Continuation :=
  [⟨⟨['y'], "int".toList, ['y']⟩, false, " // down".toList⟩,
    ⟨⟨"scale".toList, "float".toList, ['s']⟩, true, []⟩]

/-- The lines of the other two parameters. -/
def splitLines : List Text :=
  ["           y:(int)y // down".toList, "       scale:(float)s \x7b".toList]

theorem convertUnit_joined_initializer :
    ∃ code : List Text, code.length = 3 ∧
      textsOf (convertUnit "- (id)initWithX:(int)x // across".toList (.ofLines 4 splitLines)).lines =
        List.zipWith (· ++ ·) code [" // across".toList, " // down".toList, []] ∧
      textsOf (convertUnit "- (id)initWithX:(int)x y:(int)y scale:(float)s \x7b".toList
        (.ofLines 4 [])).lines = [[' '].intercalate (code.map trimStart) ++ []] := by
  have hsplit : IsSplit splitInitializer splitParams "- (id)initWithX:(int)x // across".toList
      splitLines := by
    refine ⟨MethodHeader.spelledBy_iff.mpr
      ⟨by decide +kernel, List.all_eq_true.mp (by decide +kernel)⟩, by decide, ?_, by decide⟩
    exact .cons (Continuation.spelledBy_iff.mpr
        ⟨by decide +kernel, List.all_eq_true.mp (by decide +kernel)⟩)
      (.cons (Continuation.spelledBy_iff.mpr
        ⟨by decide +kernel, List.all_eq_true.mp (by decide +kernel)⟩) .nil)
  have hsingle : (splitInitializer.joined splitParams).SpelledBy
      (splitComment "- (id)initWithX:(int)x y:(int)y scale:(float)s \x7b".toList).1 :=
    MethodHeader.spelledBy_iff.mpr ⟨by decide +kernel, List.all_eq_true.mp (by decide +kernel)⟩
  have htexts : (LineSource.ofLines 4 splitLines).texts = splitLines ++ [] := by decide +kernel
  have hnext : ∀ next ∈ (LineSource.ofLines 4 []).texts.head?, Continuation.parse? next = none := by
    decide
  obtain ⟨code, hlength, hlines, -, hline⟩ :=
    convertUnit_joined hsplit hsingle htexts (by decide) hnext
  exact ⟨code, hlength, hlines, hline⟩

end Swiftward
