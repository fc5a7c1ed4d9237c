import Swiftward.Conversion.Stream
import Swiftward.Proofs.Conversion.Derivation
import Swiftward.Proofs.Declaration.LineFeed

/-!
# Line feeds of conversions

Reading on from a source of unbroken lines gives unbroken lines, whatever the mode. A unit is made
of what declarations and statements on them become, so all lines of output are unbroken
(`unbroken_convertLines`).
-/

namespace Swiftward

/-! ### Sources -/

namespace LineSource

/-- The lines that are still to be read are unbroken. -/
structure IsUnbroken (s : LineSource) : Prop where
  pending : ∀ line ∈ s.pending, Unbroken line
  lookahead : ∀ line ∈ s.lookahead, Unbroken line

variable {s t : LineSource}

lemma unbroken_asFetched (s : LineSource) {line : Text} (h : Unbroken line) :
    Unbroken (s.asFetched line) := by
  have htrim : Unbroken (trimEnd line) := h.subset (trimEnd_subset line)
  unfold asFetched dedent
  split_ifs
  · exact htrim.subset (List.drop_subset _ _)
  · exact htrim
  · exact htrim

namespace IsUnbroken

lemma setDedent (h : s.IsUnbroken) (on : Bool) : (s.setDedent on).IsUnbroken := ⟨h.pending, h.lookahead⟩

lemma next? (h : s.IsUnbroken) {text : Text} (hnext : s.next? = some (text, t)) :
    Unbroken text ∧ t.IsUnbroken := by
  obtain ⟨pending, lookahead, dedenting, width, fetched⟩ := s
  cases lookahead with
  | some line =>
    obtain ⟨rfl, rfl⟩ := Prod.mk.inj (Option.some.inj hnext)
    exact ⟨h.lookahead _ rfl, h.pending, fun _ hnone => absurd hnone (by simp [consume])⟩
  | none =>
    cases pending with
    | nil => simp [LineSource.next?, fetch?] at hnext
    | cons line rest =>
      obtain ⟨rfl, rfl⟩ := Prod.mk.inj (Option.some.inj hnext)
      obtain ⟨hline, hrest⟩ := List.forall_mem_cons.mp h.pending
      exact ⟨unbroken_asFetched _ hline, hrest, fun _ hnone => absurd hnone (by simp)⟩

lemma peek (h : s.IsUnbroken) : s.peek.2.IsUnbroken := by
  obtain ⟨pending, lookahead, dedenting, width, fetched⟩ := s
  cases lookahead with
  | some line => exact h
  | none =>
    cases pending with
    | nil => exact h
    | cons line rest =>
      obtain ⟨hline, hrest⟩ := List.forall_mem_cons.mp h.pending
      refine ⟨hrest, fun text htext => ?_⟩
      obtain rfl := Option.some.inj htext
      exact unbroken_asFetched _ hline

end IsUnbroken

lemma kept_isUnbroken : Kept IsUnbroken where
  peek h := h.peek
  next hnext h := (h.next? hnext).2

lemma IsUnbroken.peek_eq (h : s.IsUnbroken) {text : Text} (hpeek : s.peek.1 = some text) :
    Unbroken text ∧ s.peek.2.consume.IsUnbroken :=
  h.peek.next? (next?_peek hpeek)

lemma IsUnbroken.readUntil (h : s.IsUnbroken) (stop : Text → Bool) :
    ∀ line ∈ (s.readUntil stop).1, Unbroken line.2 := by
  fun_induction LineSource.readUntil stop s with
  | case1 s hnext => exact List.forall_mem_nil _
  | case2 s line s' hnext hstop => exact List.forall_mem_nil _
  | case3 s line s' hnext hstop lines rest hrest ih =>
    obtain ⟨hline, hs'⟩ := h.next? hnext
    have hlines := ih hs'
    rw [hrest] at hlines
    exact List.forall_mem_cons.mpr ⟨hline, hlines⟩

lemma IsUnbroken.nextWhere (h : s.IsUnbroken) {f : Text → Option β} {b : β}
    (hb : (s.nextWhere f).1 = some b) : ∃ text, Unbroken text ∧ f text = some b := by
  obtain ⟨text, b', hpeek, hf, heq⟩ | ⟨-, heq⟩ := nextWhere_cases f s
  · rw [heq] at hb
    obtain rfl := Option.some.inj hb
    exact ⟨text, (h.peek_eq hpeek).1, hf⟩
  · rw [heq] at hb
    simp at hb

end LineSource

/-! ### Constructs -/

/-- How a construct was read from the code of its line. -/
def Construct.ReadFrom (code : Text) : Construct → Prop
  | imported what => Import.parse? code = some what
  | implementation header => ImplementationHeader.parse? code = some header
  | interface header => InterfaceHeader.parse? code = some header
  | blockEnd => isBlockEnd code = true
  | synthesize => isSynthesize code = true
  | method header => MethodHeader.parse? code = some header
  | statement what => what = .done code ∨ what = .ofCode code

lemma Construct.readFrom_ofCode (code : Text) : (ofCode code).ReadFrom code := by
  unfold ofCode
  split
  · next himport => exact himport
  · next himplementation => exact himplementation
  · next hinterface => exact hinterface
  · split_ifs with hend hsynthesize
    · exact hend
    · exact hsynthesize
    · split
      · next header hmethod => exact hmethod
      · exact .inl rfl
    · exact .inr rfl

namespace IsConstruct

variable {line comment : Text}

lemma readFrom {construct : Construct} (h : IsConstruct line construct comment) :
    construct.ReadFrom (splitComment line).1 := h.ofCode ▸ Construct.readFrom_ofCode _

lemma unbroken_comment {construct : Construct} (h : IsConstruct line construct comment)
    (hline : Unbroken line) : Unbroken comment := h.comment_eq ▸ hline.splitComment.2

lemma unbroken_statement {what : Statement} (h : IsConstruct line (.statement what) comment)
    (hline : Unbroken line) : Unbroken what.text := by
  have hcode := hline.splitComment.1
  have hread : what = .done (splitComment line).1 ∨ what = .ofCode (splitComment line).1 := h.readFrom
  rcases hread with heq | heq
  · rw [heq]
    exact hcode
  · rw [heq]
    exact hcode.statement

lemma unbroken_indent {c : Conditional} (h : IsConstruct line (.statement (.conditional c)) comment)
    (hline : Unbroken line) : Unbroken c.indent := by
  rw [Conditional.indent_eq h.parse?_of_conditional]
  exact hline.splitComment.1.substitute.collapseSends.indent

end IsConstruct

/-! ### Units -/

/-- All lines of output are unbroken. -/
def UnbrokenOutput (lines : List OutputLine) : Prop := ∀ line ∈ lines, Unbroken line.text

lemma UnbrokenOutput.append {lines more : List OutputLine} (h : UnbrokenOutput lines)
    (hmore : UnbrokenOutput more) : UnbrokenOutput (lines ++ more) :=
  List.forall_mem_append.mpr ⟨h, hmore⟩

lemma unbrokenOutput_emit (s : LineSource) {text : Text} (h : Unbroken text) :
    UnbrokenOutput [s.emit text] := List.forall_mem_singleton.mpr h

variable {s t : LineSource}

lemma LineSource.IsUnbroken.convertFields (h : s.IsUnbroken) :
    UnbrokenOutput (convertFields s).lines ∧ (Swiftward.convertFields s).source.IsUnbroken := by
  refine ⟨?_, LineSource.kept_isUnbroken.readUntil _ h⟩
  intro line hline
  obtain ⟨⟨number, text⟩, htext, heq⟩ := List.mem_filterMap.mp hline
  obtain ⟨field, hfield, rfl⟩ := Option.map_eq_some_iff.mp heq
  obtain ⟨hcode, hcomment⟩ := (h.readUntil _ _ htext).splitComment
  exact (Field.unbroken_render hcode hfield).append hcomment

lemma LineSource.IsUnbroken.convertImplementation (h : s.IsUnbroken) {header : ImplementationHeader}
    {comment : Text} (hheader : Unbroken (header.render ++ comment)) :
    UnbrokenOutput (convertImplementation header comment s).lines ∧
      (Swiftward.convertImplementation header comment s).source.IsUnbroken := by
  have hfirst := unbrokenOutput_emit s hheader
  have hblank (s : LineSource) : UnbrokenOutput [s.emit []] := unbrokenOutput_emit s unbroken_nil
  have hskip : (s.skipIf isLoneBrace).2.IsUnbroken := LineSource.kept_isUnbroken.skipIf _ h
  unfold Swiftward.convertImplementation
  dsimp only
  split_ifs
  · obtain ⟨hlines, hsource⟩ := h.convertFields
    exact ⟨(hfirst.append (hblank _)).append hlines, hsource⟩
  · obtain ⟨hlines, hsource⟩ := hskip.convertFields
    exact ⟨(hfirst.append (hblank _)).append hlines, hsource⟩
  · exact ⟨hfirst, hskip⟩

lemma LineSource.IsUnbroken.readContinuations (h : s.IsUnbroken) {header : MethodHeader}
    (hheader : header.IsUnbroken) : (readContinuations header s).1.IsUnbroken := by
  fun_induction Swiftward.readContinuations header s with
  | case1 header s haccepts continuation t hnext ih =>
    have ht := LineSource.kept_isUnbroken.nextWhere Continuation.parse? h
    rw [hnext] at ht
    obtain ⟨text, htext, hparse⟩ := h.nextWhere (congrArg Prod.fst hnext)
    exact ih ht (hheader.continueWith (Continuation.isUnbroken_of_parse? htext hparse))
  | case2 header s haccepts t hnext => exact hheader
  | case3 header s haccepts => exact hheader

lemma LineSource.IsUnbroken.convertMethod (h : s.IsUnbroken) {header : MethodHeader} {comment : Text}
    (hheader : header.IsUnbroken) (hcomment : Unbroken comment) :
    UnbrokenOutput (convertMethod header comment s).lines ∧
      (Swiftward.convertMethod header comment s).source.IsUnbroken := by
  refine ⟨?_, LineSource.kept_isUnbroken.readContinuations header h⟩
  have hrender := (h.readContinuations hheader).render
  intro line hline
  obtain ⟨text, htext, rfl⟩ := List.mem_map.mp hline
  cases hlines : (Swiftward.readContinuations header s).1.render with
  | nil => simp [hlines, commentFirst] at htext
  | cons first more =>
    rw [hlines] at hrender htext
    obtain ⟨hfirst, hmore⟩ := List.forall_mem_cons.mp hrender
    exact List.forall_mem_cons.mpr ⟨hfirst.append hcomment, hmore⟩ text htext

/-- A unit that reads no block keeps everything unbroken. -/
lemma Alone.unbroken {line : Text} {lines : List OutputLine} (h : Alone line s lines t)
    (hline : Unbroken line) (hs : s.IsUnbroken) : UnbrokenOutput lines ∧ t.IsUnbroken := by
  have hkept := LineSource.kept_isUnbroken
  cases h with
  | blank h => exact ⟨unbrokenOutput_emit s hline.splitComment.2, hs⟩
  | imported h =>
    have hlead : Unbroken "import ".toList := by decide
    exact ⟨unbrokenOutput_emit s ((hlead.append (Import.unbroken_of_parse? h.readFrom)).append
      (h.unbroken_comment hline)), hs⟩
  | dropped h => exact ⟨List.forall_mem_nil _, hs⟩
  | implementation h =>
    exact hs.convertImplementation
      ((ImplementationHeader.unbroken_render h.readFrom).append (h.unbroken_comment hline))
  | interface h => exact ⟨List.forall_mem_nil _, hkept.skipWhile _ (hkept.readUntil _ hs)⟩
  | blockEnd h => exact ⟨unbrokenOutput_emit s ((h.unbroken_comment hline).cons (by decide)), hs⟩
  | synthesize h =>
    refine ⟨List.forall_mem_nil _, ?_⟩
    unfold skipSynthesize
    split_ifs
    · exact hs
    · exact hkept.readUntil _ hs
  | method h =>
    exact hs.convertMethod (MethodHeader.isUnbroken_of_parse? hline.splitComment.1 h.readFrom)
      (h.unbroken_comment hline)
  | done h =>
    exact ⟨unbrokenOutput_emit s ((h.unbroken_statement hline).append (h.unbroken_comment hline)), hs⟩
  | header h =>
    exact ⟨unbrokenOutput_emit s ((h.unbroken_statement hline).append (h.unbroken_comment hline)), hs⟩
  | braced h =>
    exact ⟨unbrokenOutput_emit s ((h.unbroken_statement hline).append (h.unbroken_comment hline)),
      hkept.skipIf _ hs⟩

/-- The line that a unit begins with is unbroken. -/
def Part.IsUnbroken : Part → Prop
  | unit line => Unbroken line
  | block _ => True

/-- A conversion keeps everything unbroken. -/
lemma Converts.unbroken {part : Part} {lines : List OutputLine} (h : Converts part s lines t)
    (hpart : part.IsUnbroken) (hs : s.IsUnbroken) : UnbrokenOutput lines ∧ t.IsUnbroken := by
  have hkept := LineSource.kept_isUnbroken
  induction h with
  | alone h => exact h.unbroken hpart hs
  | guarded h _ _ ih =>
    obtain ⟨hlines, ht⟩ := ih trivial (hs.setDedent true)
    exact ⟨hlines, hkept.skipIf _ (hkept.skipIf _ (ht.setDedent _))⟩
  | braceless h _ _ _ _ ih =>
    obtain ⟨hlines, ht⟩ := ih trivial (hkept.skipIf _ hs)
    have hheader := (h.unbroken_statement hpart).append (h.unbroken_comment hpart)
    have hbrace : Unbroken ['\x7d'] := by decide
    have hclose := (h.unbroken_indent hpart).append hbrace
    exact ⟨((unbrokenOutput_emit _ hheader).append hlines).append (unbrokenOutput_emit _ hclose), ht⟩
  | outOfLines _ => exact ⟨List.forall_mem_nil _, hs.peek⟩
  | stopBefore _ _ => exact ⟨List.forall_mem_nil _, hs.peek⟩
  | stopBehind hpeek _ _ _ ih =>
    obtain ⟨hline, hconsumed⟩ := hs.peek_eq hpeek
    exact ih hline hconsumed
  | goOn hpeek _ _ _ _ ih ihmore =>
    obtain ⟨hline, hconsumed⟩ := hs.peek_eq hpeek
    obtain ⟨hlines, ht⟩ := ih hline hconsumed
    obtain ⟨hmore, hu⟩ := ihmore trivial ht
    exact ⟨hlines.append hmore, hu⟩

/-! ### Whole sources -/

lemma unbroken_convertUnits (h : s.IsUnbroken) :
    ∀ lines ∈ convertUnits s, UnbrokenOutput lines := by
  fun_induction convertUnits s with
  | case1 s hnone => exact List.forall_mem_nil _
  | case2 s unit hunit _ ih =>
    obtain ⟨-, hnone⟩ | ⟨line, s', unit', hnext, hunit', hlines, hsource⟩ := convertNext_cases s
    · simp [hunit] at hnone
    · rw [hunit] at hunit'
      obtain rfl := Option.some.inj hunit'
      obtain ⟨hline, hs'⟩ := h.next? hnext
      obtain ⟨hoverall, hrest⟩ := (converts_unit line s').unbroken hline hs'
      rw [← hlines] at hoverall
      rw [← hsource] at hrest
      exact List.forall_mem_cons.mpr ⟨hoverall, ih hrest⟩

/-- All lines of output for unbroken lines are unbroken. -/
lemma unbroken_convertLines (width : Nat) {source : List Text} (h : ∀ line ∈ source, Unbroken line) :
    UnbrokenOutput (convertLines width source) := by
  have hsource : (LineSource.ofLines width source).IsUnbroken :=
    ⟨h, fun _ hnone => absurd hnone (by simp [LineSource.ofLines])⟩
  intro line hline
  obtain ⟨lines, hlines, hline⟩ := List.mem_flatten.mp hline
  exact unbroken_convertUnits hsource lines hlines line hline

end Swiftward
