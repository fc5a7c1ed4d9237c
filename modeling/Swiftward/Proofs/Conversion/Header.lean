import Swiftward.Proofs.Conversion.LineCount
import Swiftward.Proofs.Conversion.Simulation
import Swiftward.Proofs.Declaration.Alignment
import Swiftward.Proofs.Declaration.Spelling

/-!
# What is kept of a method header

A line that begins like a method header is left as it is, or the header that is read from it and from
the lines that continue it is written out. Nothing of the lines is lost if they spell the header,
whose parameters all occur in what is written, one behind the other. But the reader does not look at
what stands behind the last parameter of a line: nothing is lost just where that is white space
(`keepsHeader_convertUnit_iff`).
-/

namespace Swiftward

/-! ### Texts that occur one behind the other -/

/-- The pieces occur in the text one behind the other. -/
inductive InOrder : List Text → Text → Prop where
  | nil (s : Text) : InOrder [] s
  | cons (front : Text) {piece s : Text} {pieces : List Text} (h : InOrder pieces s) :
      InOrder (piece :: pieces) (front ++ (piece ++ s))

namespace InOrder

variable {pieces more : List Text} {s t : Text}

lemma prepend (h : InOrder pieces t) (s : Text) : InOrder pieces (s ++ t) := by
  cases h with
  | nil => exact .nil _
  | cons front h =>
    rw [← List.append_assoc]
    exact .cons (s ++ front) h

lemma append (hs : InOrder pieces s) (ht : InOrder more t) : InOrder (pieces ++ more) (s ++ t) := by
  induction hs with
  | nil s => exact ht.prepend s
  | cons front h ih =>
    rw [List.append_assoc, List.append_assoc]
    exact .cons front ih

lemma append_right (h : InOrder pieces s) (t : Text) : InOrder pieces (s ++ t) := by
  simpa using h.append (.nil t)

lemma singleton (piece : Text) : InOrder [piece] piece := by
  have hpiece : InOrder [piece] ([] ++ (piece ++ [])) := .cons [] (.nil [])
  simpa using hpiece

lemma intercalate (separator : Text) (pieces : List Text) :
    InOrder pieces (separator.intercalate pieces) := by
  induction pieces with
  | nil => exact .nil _
  | cons piece more ih =>
    cases more with
    | nil =>
      rw [List.intercalate_singleton]
      exact singleton piece
    | cons piece' more =>
      rw [List.intercalate_cons_cons, List.append_assoc]
      exact (singleton piece).append (ih.prepend separator)

end InOrder

/-- Nothing of the lines of a header is lost in the lines that are made of them: they are left as
they are, or they spell a header, all of whose parameters occur in order in what is made. -/
inductive KeepsHeader : List Text → List Text → Prop where
  | unchanged (lines : List Text) : KeepsHeader lines lines
  | spelled {line : Text} {more made : List Text} {header : MethodHeader}
      {continuations : List Continuation} (hline : header.SpelledBy (splitComment line).1)
      (hmore : List.Forall₂ (fun text k => k.SpelledBy text) more continuations)
      (hshown : InOrder ((header.labelledParams ++ continuations.map (·.param)).map Param.render)
        made.flatten) :
      KeepsHeader (line :: more) made

lemma Continuation.forall₂_spelledBy_iff {more : List Text} {continuations : List Continuation} :
    List.Forall₂ (fun text k => Continuation.SpelledBy k text) more continuations ↔
      (∀ text ∈ more, ∀ c ∈ leftover text, isSpace c = true) ∧
        List.Forall₂ (fun text k => parse? text = some k) more continuations := by
  simp only [spelledBy_iff, and_comm (a := _ = some _), List.forall₂_and_left]

/-! ### Headers as they are written out -/

namespace MethodHeader

/-- The lines of a header have all that is on its first line and the continued parameters. -/
lemma inOrder_linesFrom (header : MethodHeader) {pieces : List Text} {current : Text}
    (h : InOrder pieces current) (comment : Text) (continued : List Continuation) :
    InOrder (pieces ++ continued.map fun k => k.param.render)
      (header.linesFrom current comment continued).flatten := by
  induction continued generalizing pieces current comment with
  | nil =>
    simp only [linesFrom, List.map_nil, List.append_nil, List.flatten_cons, List.flatten_nil]
    exact (h.append_right header.closing).append_right comment
  | cons k more ih =>
    have hlater := ih ((InOrder.singleton k.param.render).prepend
      (List.replicate header.indentation ' ')) k.comment
    rw [linesFrom, List.flatten_cons, List.map_cons]
    exact (h.append_right (',' :: comment)).append hlater

/-- All parameters of a header occur in what is written of it. -/
lemma inOrder_render {header : MethodHeader} (hlone : header.params = [] → header.continued = [])
    (comment : Text) :
    InOrder ((header.labelledParams ++ header.continued.map (·.param)).map Param.render)
      (commentFirst comment header.render).flatten := by
  by_cases hnil : header.params = []
  · have hlabelled : header.labelledParams = [] := by
      rw [labelledParams, hnil]
      split <;> simp_all
    rw [hlabelled, hlone hnil]
    exact .nil _
  · have hfirst := (InOrder.intercalate ", ".toList (header.labelledParams.map Param.render)).prepend
      header.opening
    have hshown := header.inOrder_linesFrom hfirst comment header.continued
    rw [commentFirst_render hnil, List.map_append, List.map_map]
    exact hshown

lemma sigil?_declarator (header : MethodHeader) (behind : Text) :
    sigil? (header.declarator ++ behind) = none := by
  unfold declarator
  cases header.isClassMethod <;> rfl

lemma sigil?_opening (header : MethodHeader) (behind : Text) :
    sigil? (header.opening ++ behind) = none := by
  unfold opening
  split_ifs
  · rfl
  · rw [List.append_assoc, List.append_assoc]
    exact header.sigil?_declarator _

/-- What is written of a header does not begin with a sigil. -/
lemma exists_render_eq (header : MethodHeader) (comment : Text) :
    ∃ text rest, commentFirst comment header.render = text :: rest ∧ sigil? text = none := by
  unfold render
  split_ifs with hparams hname
  · exact ⟨_, [], rfl, rfl⟩
  · refine ⟨_, [], rfl, ?_⟩
    simp only [List.append_assoc]
    exact header.sigil?_declarator _
  · rw [commentFirst_linesFrom]
    obtain ⟨behind, rest, heq⟩ := header.exists_linesFrom_eq
      (header.opening ++ ", ".toList.intercalate (header.labelledParams.map Param.render)) comment
      header.continued
    refine ⟨_, rest, heq, ?_⟩
    rw [List.append_assoc]
    exact header.sigil?_opening _

end MethodHeader

/-! ### Lines that begin like a header -/

/-- White space and a comment behind a sigil leave it to the code. -/
lemma MethodHeader.isSome_sigil?_code {line : Text} (h : (sigil? line).isSome) :
    (sigil? (splitComment line).1).isSome := by
  obtain ⟨-, hcode⟩ | ⟨front, rest, hfront, rfl⟩ := splitComment_cases line
  · rwa [hcode]
  · rw [(splitComment_of_beforeComment hfront rest).1]
    cases front with
    | nil => simp [sigil?] at h
    | cons c front =>
      obtain rfl | rfl : c = '+' ∨ c = '-' := by
        rw [List.cons_append] at h
        unfold sigil? at h
        split at h <;> simp_all
      · rw [trimEnd_cons_of_not_space (by decide)]
        rfl
      · rw [trimEnd_cons_of_not_space (by decide)]
        rfl

/-- Code that begins with a sigil is a method header, or it is left as it is. -/
lemma Construct.ofCode_of_sigil {code : Text} (h : (MethodHeader.sigil? code).isSome) :
    ofCode code = match MethodHeader.parse? code with
      | some header => method header
      | none => statement (.done code) := by
  obtain ⟨c, s, hc, rfl⟩ : ∃ c s, (c = '+' ∨ c = '-') ∧ code = c :: s := by
    unfold MethodHeader.sigil? at h
    split at h <;> simp_all
  have hspace : isSpace c = false := by
    obtain rfl | rfl := hc <;> decide
  have himport : Import.parse? (c :: s) = none := by
    rw [Import.parse?, trimStart_cons hspace]
    obtain rfl | rfl := hc <;> rfl
  have hat : (c :: s).head? ≠ some '@' := by
    obtain rfl | rfl := hc <;> simp
  refine (ofCode_of_no_lead himport (after?_keywordLead hat)).trans ((if_pos h).trans ?_)
  cases MethodHeader.parse? (c :: s) <;> rfl

/-- The lines that are consumed behind the line of a unit. -/
def consumedBehind (line : Text) (s : LineSource) : List Text :=
  s.texts.take (s.unread - (convertUnit line s).source.unread)

section Sigil

variable {line : Text}

lemma isConstruct_of_sigil (hline : (MethodHeader.sigil? line).isSome) :
    IsConstruct line
      (match MethodHeader.parse? (splitComment line).1 with
        | some header => .method header
        | none => .statement (.done (splitComment line).1))
      (splitComment line).2 where
  code_ne_nil h := by
    have hcode := MethodHeader.isSome_sigil?_code hline
    rw [h] at hcode
    exact Bool.false_ne_true hcode
  ofCode := Construct.ofCode_of_sigil (MethodHeader.isSome_sigil?_code hline)
  comment_eq := rfl

/-- A line that is no header stays as it is. -/
lemma convertUnit_of_none (hline : (MethodHeader.sigil? line).isSome)
    (hnone : MethodHeader.parse? (splitComment line).1 = none) (s : LineSource) :
    textsOf (convertUnit line s).lines = [line] ∧ consumedBehind line s = [] := by
  have hconstruct := isConstruct_of_sigil hline
  rw [hnone] at hconstruct
  obtain ⟨hlines, hsource⟩ := (Alone.done (s := s) hconstruct).unit_eq
  constructor
  · rw [hlines, code_append_comment]
    rfl
  · rw [consumedBehind, hsource, Nat.sub_self, List.take_zero]

/-- The lines that are consumed with a header are those that continue it. -/
lemma convertUnit_of_some (hline : (MethodHeader.sigil? line).isSome) {header : MethodHeader}
    (hsome : MethodHeader.parse? (splitComment line).1 = some header) (s : LineSource) :
    textsOf (convertUnit line s).lines =
        commentFirst (splitComment line).2 (readContinuations header s).1.render ∧
      List.Forall₂ (fun text k => Continuation.parse? text = some k) (consumedBehind line s)
        (readContinuations header s).1.continued ∧
      (readContinuations header s).1.labelledParams = header.labelledParams := by
  have hconstruct := isConstruct_of_sigil hline
  rw [hsome] at hconstruct
  obtain ⟨hlines, hsource⟩ := (Alone.method (s := s) hconstruct).unit_eq
  obtain ⟨more, continuations, htexts, hmore, hread, -⟩ := readContinuations_eq header s
  obtain ⟨hcontinued, -, hlabelled⟩ := header.foldl_continueWith continuations
  rw [MethodHeader.continued_of_parse? hsome, List.nil_append, ← hread] at hcontinued
  have hconsumed : consumedBehind line s = more := by
    have hlength := congrArg List.length htexts
    rw [List.length_append, LineSource.length_texts, LineSource.length_texts] at hlength
    rw [consumedBehind, hsource, htexts]
    refine List.take_left' ?_
    simp only [convertMethod]
    omega
  refine ⟨?_, ?_, hread ▸ hlabelled⟩
  · rw [hlines, convertMethod, textsOf_map_emit]
  · rwa [hconsumed, hcontinued]

/-- Nothing of a header and of the lines that continue it is lost just where nothing but white space
stands behind the parameters that are read, and no word before the first colon. -/
theorem keepsHeader_convertUnit_iff (hline : (MethodHeader.sigil? line).isSome) (s : LineSource) :
    KeepsHeader (line :: consumedBehind line s) (textsOf (convertUnit line s).lines) ↔
      ∀ c ∈ MethodHeader.leftover (splitComment line).1 ++
        (consumedBehind line s).flatMap Continuation.leftover, isSpace c = true := by
  cases hparse : MethodHeader.parse? (splitComment line).1 with
  | none =>
    obtain ⟨hlines, hconsumed⟩ := convertUnit_of_none hline hparse s
    rw [hlines, hconsumed, MethodHeader.leftover_of_none hparse]
    exact iff_of_true (.unchanged [line]) (by simp)
  | some header =>
    obtain ⟨hlines, hmore, hlabelled⟩ := convertUnit_of_some hline hparse s
    rw [hlines]
    generalize consumedBehind line s = more at hmore ⊢
    constructor
    · intro hkeeps
      rw [List.forall_mem_append, List.forall_mem_flatMap]
      generalize hmade : commentFirst _ _ = made at hkeeps
      cases hkeeps with
      | unchanged =>
        -- What is written of a header does not begin with its sigil.
        obtain ⟨text, rest, heq, hnone⟩ :=
          (readContinuations header s).1.exists_render_eq (splitComment line).2
        obtain ⟨rfl, -⟩ := List.cons.inj (heq.symm.trans hmade)
        rw [hnone] at hline
        exact absurd hline Bool.false_ne_true
      | spelled hheader hspelled hshown =>
        exact ⟨(MethodHeader.spelledBy_iff.mp hheader).2,
          (Continuation.forall₂_spelledBy_iff.mp hspelled).1⟩
    · intro hleftover
      obtain ⟨hfirst, hbehind⟩ := List.forall_mem_append.mp hleftover
      rw [List.forall_mem_flatMap] at hbehind
      refine .spelled (MethodHeader.spelledBy_iff.mpr ⟨hparse, hfirst⟩)
        (Continuation.forall₂_spelledBy_iff.mpr ⟨hbehind, hmore⟩) ?_
      rw [← hlabelled]
      exact MethodHeader.inOrder_render
        (continued_readContinuations (MethodHeader.continued_of_parse? hparse) s) _

/-- A method that is written on one line. -/
def oneLineMethod : Text := "- (void)foo \x7b x = 1; \x7d".toList

theorem keepsHeader_convertUnit_iff_oneLineMethod :
    textsOf (convertUnit oneLineMethod (.ofLines 4 [])).lines = ["func foo()".toList] ∧
      ¬KeepsHeader (oneLineMethod :: consumedBehind oneLineMethod (.ofLines 4 []))
        (textsOf (convertUnit oneLineMethod (.ofLines 4 [])).lines) := by
  have hlines : textsOf (convertUnit oneLineMethod (.ofLines 4 [])).lines =
      ["func foo()".toList] := by
    decide +kernel
  have hbody : MethodHeader.leftover (splitComment oneLineMethod).1 = " \x7b x = 1; \x7d".toList := by
    decide +kernel
  refine ⟨hlines, ?_⟩
  intro hkeeps
  have hblank := (keepsHeader_convertUnit_iff (by decide) _).mp hkeeps
  rw [hbody] at hblank
  exact absurd (hblank '\x7b' (by simp)) (by decide)

end Sigil

end Swiftward
