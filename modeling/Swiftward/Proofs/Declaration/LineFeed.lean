import Swiftward.Declaration.ClassHeader
import Swiftward.Proofs.Declaration.Field
import Swiftward.Proofs.Declaration.Import
import Swiftward.Proofs.Declaration.Spelling
import Swiftward.Proofs.Statement.LineFeed

/-!
# Line feeds and declarations

Names are words, and the types and comments of a declaration are parts of its lines. So everything
that is written for declarations on unbroken lines is unbroken, and a method header is written on
several lines only where it is read from several (`MethodHeader.IsUnbroken.render`).
-/

namespace Swiftward

/-! ### Imports, classes and fields -/

lemma Import.unbroken_of_parse? {line name : Text} (h : parse? line = some (.module name)) :
    Unbroken name := by
  obtain ⟨header, rfl⟩ := exists_of_parse?_module h
  exact unbroken_of_isWord header.isIdentifier_name.isWord

lemma ImplementationHeader.unbroken_render {line : Text} {header : ImplementationHeader}
    (h : parse? line = some header) : Unbroken header.render := by
  simp only [parse?, Option.bind_eq_bind, Option.bind_eq_some_iff, Prod.exists] at h
  obtain ⟨_, -, _, -, name, _, hname, heq⟩ := h
  obtain rfl := Option.some.inj heq
  refine Unbroken.append (.append ?_ (nextWord?_subset hname).1) (by decide)
  split <;> decide

lemma Field.unbroken_render {line : Text} {field : Field} (hline : Unbroken line)
    (h : parse? line = some field) : Unbroken field.render := by
  obtain ⟨-, htrim, -, -, -⟩ := parse?_eq_some_iff.mp h
  have hdeclaration := (unbroken_append.mp hline).1.subset (trim_subset _)
  rw [htrim] at hdeclaration
  obtain ⟨htype, hname⟩ := unbroken_append.mp hdeclaration
  have hvar : Unbroken "private var ".toList := by decide
  exact ((hvar.append hname).append (by decide)).append (htype.subset (trim_subset _)).swiftType

/-! ### Parameters -/

/-- The names and the type of a parameter have no line feed. -/
structure Param.IsUnbroken (param : Param) : Prop where
  keyword : Unbroken param.keyword
  type : Unbroken param.type
  name : Unbroken param.name

lemma SpellsTypedName.unbroken {type name s : Text} (h : SpellsTypedName type name s)
    (hs : Unbroken s) : Unbroken type ∧ Unbroken name := by
  obtain ⟨-, -, -, -⟩ := h
  simp only [unbroken_append, unbroken_cons] at hs
  obtain ⟨-, -, htype, -, -, hname⟩ := hs
  exact ⟨htype.subset (trim_subset _), hname⟩

lemma unbroken_typedName? {s type name rest : Text} (hs : Unbroken s)
    (h : typedName? s = some (type, name, rest)) :
    Unbroken type ∧ Unbroken name ∧ Unbroken rest := by
  obtain ⟨named, hspelled, -, rfl⟩ := typedName?_eq_some_iff.mp h
  obtain ⟨hnamed, hrest⟩ := unbroken_append.mp hs
  obtain ⟨htype, hname⟩ := hspelled.unbroken hnamed
  exact ⟨htype, hname, hrest⟩

namespace Param

lemma unbroken_next? {s rest : Text} {param : Param} (hs : Unbroken s)
    (h : next? s = some (param, rest)) : param.IsUnbroken ∧ Unbroken rest := by
  obtain ⟨t, hspelled, -, rfl⟩ := next?_eq_some_iff.mp h
  obtain ⟨hparam, hrest⟩ := unbroken_append.mp hs
  refine ⟨?_, hrest⟩
  obtain ⟨-, -, -, hnamed⟩ := hspelled
  simp only [unbroken_append, unbroken_cons] at hparam
  obtain ⟨-, hkeyword, -, -, htypedName⟩ := hparam
  obtain ⟨htype, hname⟩ := hnamed.unbroken htypedName
  exact ⟨hkeyword, htype, hname⟩

lemma IsUnbroken.render {param : Param} (h : param.IsUnbroken) : Unbroken param.render := by
  have hdeclared : Unbroken (param.name ++ ": ".toList ++ swiftType param.type) :=
    (h.name.append (by decide)).append h.type.swiftType
  unfold Param.render
  dsimp only
  split_ifs
  · exact hdeclared
  · exact h.keyword.append (hdeclared.cons (by decide))

end Param

lemma unbroken_paramsOf {s : Text} (hs : Unbroken s) : ∀ param ∈ paramsOf s, param.IsUnbroken := by
  fun_induction paramsOf s with
  | case1 s h => exact List.forall_mem_nil _
  | case2 s param rest h ih =>
    obtain ⟨hparam, hrest⟩ := Param.unbroken_next? hs h
    exact List.forall_mem_cons.mpr ⟨hparam, ih hrest⟩

lemma Unbroken.stripBrace {s : Text} (h : Unbroken s) : Unbroken (stripBrace s).1 := by
  unfold Swiftward.stripBrace
  cases hbrace : before? '\x7b' s with
  | none => exact h
  | some front => exact (h.subset (before?_subset hbrace)).subset (trimEnd_subset front)

/-- The parameter and the comment of a continuation have no line feed. -/
structure Continuation.IsUnbroken (continuation : Continuation) : Prop where
  param : continuation.param.IsUnbroken
  comment : Unbroken continuation.comment

lemma Continuation.isUnbroken_of_parse? {line : Text} {continuation : Continuation}
    (hline : Unbroken line) (h : parse? line = some continuation) : continuation.IsUnbroken := by
  obtain ⟨hcode, hcomment⟩ := hline.splitComment
  simp only [parse?, Option.bind_eq_bind, Option.bind_eq_some_iff, Prod.exists] at h
  obtain ⟨_, hspace, keyword, _, hkeyword, _, hcolon, type, name, _, hnamed, h⟩ := h
  obtain rfl := Option.some.inj h
  obtain ⟨hkeyword, hrest⟩ := nextWord?_subset hkeyword
  have htyped := ((hcode.stripBrace.subset (afterSpace?_subset hspace)).subset hrest).subset
    (after?_subset hcolon)
  obtain ⟨htype, hname, -⟩ := unbroken_typedName? htyped hnamed
  exact ⟨⟨hkeyword, htype, hname⟩, hcomment⟩

/-! ### Method headers -/

/-- The names, types and comments of a method header have no line feed. -/
structure MethodHeader.IsUnbroken (header : MethodHeader) : Prop where
  returnType : Unbroken header.returnType
  name : Unbroken header.name
  params : ∀ param ∈ header.params, param.IsUnbroken
  continued : ∀ continuation ∈ header.continued, continuation.IsUnbroken

namespace MethodHeader

lemma isUnbroken_of_parse? {line : Text} {header : MethodHeader} (hline : Unbroken line)
    (h : parse? line = some header) : header.IsUnbroken := by
  obtain ⟨s, s', hsigil, hname, heq⟩ := parse?_eq_some_iff.mp h
  have hbody := (hline.subset (trimEnd_subset line)).stripBrace
  rw [sigil?_eq_some_iff.mp hsigil, unbroken_cons] at hbody
  obtain ⟨htype, hname, hrest⟩ := unbroken_typedName? hbody.2 hname
  have hparams := unbroken_paramsOf hrest
  refine ⟨htype, hname, ?_, ?_⟩
  · rw [heq]
    cases hread : paramsOf s' with
    | nil => exact List.forall_mem_nil _
    | cons first more =>
      obtain ⟨hfirst, hmore⟩ := List.forall_mem_cons.mp (hread ▸ hparams)
      exact List.forall_mem_cons.mpr ⟨⟨unbroken_nil, hfirst.type, hfirst.name⟩, hmore⟩
  · rw [heq]
    exact List.forall_mem_nil _

lemma unbroken_initializerLabel? {name label : Text} (hname : Unbroken name)
    (h : initializerLabel? name = some label) : Unbroken label := by
  simp only [initializerLabel?, Option.bind_eq_bind, Option.bind_eq_some_iff] at h
  obtain ⟨tail, htail, h⟩ := h
  split at h
  · simp at h
  · obtain rfl := Option.some.inj h
    have hfront : Unbroken ((after? "_" name).getD name) := by
      cases hunderscore : after? "_" name with
      | none => exact hname
      | some rest => exact hname.subset (after?_subset hunderscore)
    exact (hfront.subset (after?_subset htail)).downcaseFirst

namespace IsUnbroken

variable {header : MethodHeader}

lemma continueWith (h : header.IsUnbroken) {continuation : Continuation}
    (hcontinuation : continuation.IsUnbroken) : (header.continueWith continuation).IsUnbroken where
  returnType := h.returnType
  name := h.name
  params := h.params
  continued := List.forall_mem_append.mpr ⟨h.continued, List.forall_mem_singleton.mpr hcontinuation⟩

lemma labelledParams (h : header.IsUnbroken) : ∀ param ∈ header.labelledParams, param.IsUnbroken := by
  have hparams := h.params
  unfold MethodHeader.labelledParams
  split
  · next first more label _ hfirst hlabel =>
    rw [hfirst, List.forall_mem_cons] at hparams
    exact List.forall_mem_cons.mpr ⟨⟨unbroken_initializerLabel? h.name hlabel, hparams.1.type,
      hparams.1.name⟩, hparams.2⟩
  · exact hparams

lemma brace (header : MethodHeader) : Unbroken header.brace := by
  unfold MethodHeader.brace
  split_ifs <;> decide

lemma declarator (header : MethodHeader) : Unbroken header.declarator := by
  unfold MethodHeader.declarator
  split_ifs <;> decide

lemma returnClause (h : header.IsUnbroken) : Unbroken header.returnClause := by
  have harrow : Unbroken " -> ".toList := by decide
  unfold MethodHeader.returnClause
  split_ifs
  · exact unbroken_nil
  · exact harrow.append h.returnType.swiftType

lemma opening (h : header.IsUnbroken) : Unbroken header.opening := by
  unfold MethodHeader.opening
  split_ifs
  · decide
  · exact ((declarator header).append h.name).append (by decide)

lemma closing (h : header.IsUnbroken) : Unbroken header.closing := by
  unfold MethodHeader.closing
  refine (Unbroken.cons (by decide) ?_).append (brace header)
  split_ifs
  · exact unbroken_nil
  · exact h.returnClause

lemma linesFrom (h : header.IsUnbroken) {current comment : Text} (hcurrent : Unbroken current)
    (hcomment : Unbroken comment) {continued : List Continuation}
    (hcontinued : ∀ continuation ∈ continued, continuation.IsUnbroken) :
    ∀ line ∈ header.linesFrom current comment continued, Unbroken line := by
  induction continued generalizing current comment with
  | nil => exact List.forall_mem_singleton.mpr ((hcurrent.append h.closing).append hcomment)
  | cons continuation more ih =>
    obtain ⟨hfirst, hmore⟩ := List.forall_mem_cons.mp hcontinued
    have hindentation : Unbroken (List.replicate header.indentation ' ') :=
      fun hmem => absurd (List.eq_of_mem_replicate hmem) (by decide)
    exact List.forall_mem_cons.mpr ⟨hcurrent.append (hcomment.cons (by decide)),
      ih (hindentation.append hfirst.param.render) hfirst.comment hmore⟩

/-- Every line of a method header in Swift is unbroken. -/
lemma render (h : header.IsUnbroken) : ∀ line ∈ header.render, Unbroken line := by
  unfold MethodHeader.render
  split_ifs
  · have hinitializer : Unbroken "init()".toList := by decide
    exact List.forall_mem_singleton.mpr (hinitializer.append (brace header))
  · exact List.forall_mem_singleton.mpr
      (((((declarator header).append h.name).append (by decide)).append h.returnClause).append
        (brace header))
  · refine h.linesFrom (h.opening.append (.intercalate (by decide) ?_)) unbroken_nil h.continued
    intro text htext
    obtain ⟨param, hparam, rfl⟩ := List.mem_map.mp htext
    exact (h.labelledParams param hparam).render

end IsUnbroken

end MethodHeader

end Swiftward
