import Swiftward.Declaration.Method
import Swiftward.Proofs.Declaration.Field
import Swiftward.Proofs.Declaration.Spelling
import Swiftward.Proofs.Statement.LocalDeclaration
import Swiftward.Proofs.SwiftType

/-!
# Types before a name

The same type may be declared for an instance variable, for a parameter and for a local variable.
For the first two the type is all that is spelled, and they become the same type in Swift. A local
variable keeps of the separator before its name only whether there is a `*` in it. So its type is
that of the others if there is at most one `*`, and never if there are more
(`declared_types`): `NSError **` is an error pointer for the others and an optional error for it.
-/

namespace Swiftward

open LocalDeclaration (isSeparator)

/-! ### A word and a separator -/

namespace SeparatedType

variable (type : SeparatedType)

/-- The type of a local variable. -/
def localType : Text := typeName type.word ++ if '*' ∈ type.separator then ['?'] else []

lemma not_mem_word {c : Char} (hc : Unicode.isWord c = false) : c ∉ type.word := fun hmem =>
  ne_of_class (type.isIdentifier_word.isWord c hmem) hc rfl

lemma not_mem_separator {c : Char} (hc : LocalDeclaration.isSeparator c = false) :
    c ∉ type.separator := fun hmem => by simp [type.isSeparator c hmem] at hc

lemma trim_append (s : Text) : trim (type.word ++ s) = trimEnd (type.word ++ s) := by
  rw [trim]
  congr 1
  exact trimStart_append (List.forall_mem_nil _) (type.isIdentifier_word.head_not_space s)

lemma trim_append_spaces {gap : Text} (hgap : ∀ c ∈ gap, isSpace c = true) :
    trim (type.word ++ gap) = type.word := by
  rw [type.trim_append, trimEnd_append_spaces _ hgap]
  exact type.isIdentifier_word.trimEnd_append []

lemma trim_append_star (front : Text) {gap : Text} (hgap : ∀ c ∈ gap, isSpace c = true) :
    trim (type.word ++ (front ++ '*' :: gap)) = type.word ++ front ++ ['*'] := by
  rw [type.trim_append, List.append_cons, ← List.append_assoc, trimEnd_append_spaces _ hgap,
    ← List.append_assoc, trimEnd_append_singleton (by decide)]

/-- A separator without a `*` is white space. -/
lemma isSpace_of_separator {separator : Text} (hstar : '*' ∉ separator)
    (hseparator : ∀ c ∈ separator, LocalDeclaration.isSeparator c = true) :
    ∀ c ∈ separator, isSpace c = true := by
  intro c hc
  have hne : c ≠ '*' := by
    rintro rfl
    exact hstar hc
  simpa [LocalDeclaration.isSeparator, hne] using hseparator c hc

/-- Only white space stands behind the last `*`. -/
lemma exists_last_star {separator : Text}
    (hseparator : ∀ c ∈ separator, LocalDeclaration.isSeparator c = true) (hstar : '*' ∈ separator) :
    ∃ front gap, (∀ c ∈ gap, isSpace c = true) ∧ separator = front ++ '*' :: gap := by
  obtain ⟨gap, hgap, heq⟩ := exists_gap separator
  rcases List.eq_nil_or_concat (trimEnd separator) with hnil | ⟨front, c, hconcat⟩
  · exact absurd (isSpace_of_trimEnd_eq_nil hnil '*' hstar) (by decide)
  · rw [List.concat_eq_append] at hconcat
    have hspace : isSpace c = false := getLast_trimEnd separator c (by simp [hconcat])
    have hc : LocalDeclaration.isSeparator c = true := hseparator c (by rw [heq, hconcat]; simp)
    obtain rfl : c = '*' := by simpa [LocalDeclaration.isSeparator, hspace] using hc
    refine ⟨front, gap, hgap, ?_⟩
    rw [List.append_cons, ← hconcat, ← heq]

/-- Without a `*` behind it, or with a single one, a type is that of a local variable. -/
lemma swiftType_of_at_most_one_star (h : type.separator.count '*' ≤ 1) :
    swiftType type.spelling = type.localType := by
  have hprotocol : '<' ∉ type.word := type.not_mem_word (by decide)
  have hword : '*' ∉ type.word := type.not_mem_word (by decide)
  rw [localType, spelling]
  by_cases hstar : '*' ∈ type.separator
  · obtain ⟨front, gap, hgap, heq⟩ := exists_last_star type.isSeparator hstar
    have hfront : '*' ∉ front := by
      rw [heq, List.count_append, List.count_cons_self] at h
      exact List.not_mem_of_count_eq_zero (by omega)
    have hspaces : ∀ c ∈ front, isSpace c = true := fun c hc =>
      isSpace_of_separator hfront (fun c hc => type.isSeparator c (by simp [heq, hc])) c hc
    have htrim := type.trim_append_star front hgap
    have herror : (trim (type.word ++ (front ++ '*' :: gap))).filter (!isSpace ·) ≠
        "NSError**".toList := filter_ne_error (by
      simp [htrim, List.count_eq_zero_of_not_mem hword, List.count_eq_zero_of_not_mem hfront])
    have hpointee : '<' ∉ type.word ++ front := by
      rw [List.mem_append, not_or]
      exact ⟨hprotocol, fun hc => absurd (hspaces '<' hc) (by decide)⟩
    rw [if_pos hstar, heq, swiftType_of_pointer htrim herror hpointee,
      trimEnd_append_spaces _ hspaces]
    congr 2
    exact type.isIdentifier_word.trimEnd_append []
  · have hgap := isSpace_of_separator hstar type.isSeparator
    rw [if_neg hstar, List.append_nil,
      swiftType_of_not_pointer (type.trim_append_spaces hgap) hword hprotocol]

/-- With more stars, all but one of them stay in the type, unless it is an error pointer. -/
lemma swiftType_ne_of_more_stars (h : 1 < type.separator.count '*') :
    swiftType type.spelling ≠ type.localType := by
  have hstar : '*' ∈ type.separator := List.count_pos_iff.mp (by omega)
  obtain ⟨front, gap, hgap, heq⟩ := exists_last_star type.isSeparator hstar
  have hword : '*' ∉ type.word := type.not_mem_word (by decide)
  have hlocal : type.localType = typeName type.word ++ ['?'] := by rw [localType, if_pos hstar]
  have htrim := type.trim_append_star front hgap
  rw [spelling, heq]
  by_cases herror : (trim (type.word ++ (front ++ '*' :: gap))).filter (!isSpace ·) =
      "NSError**".toList
  · rw [swiftType_of_error herror, hlocal]
    intro htypes
    have hmark : '?' ∈ "NSErrorPointer".toList := by
      rw [htypes]
      simp
    exact absurd hmark (by decide)
  · have hgapless : '*' ∉ gap := fun hc => absurd (hgap '*' hc) (by decide)
    have hfront : '*' ∈ front := by
      rw [heq, List.count_append, List.count_cons_self,
        List.count_eq_zero_of_not_mem hgapless] at h
      exact List.count_pos_iff.mp (by omega)
    have hpointee : '<' ∉ type.word ++ front := by
      rw [List.mem_append, not_or]
      refine ⟨type.not_mem_word (by decide), fun hc => ?_⟩
      exact type.not_mem_separator (c := '<') (by decide) (by simp [heq, hc])
    have hkept : '*' ∈ trimEnd (type.word ++ front) := by
      obtain ⟨spaces, hspaces, hsplit⟩ := exists_gap (type.word ++ front)
      have hmem : '*' ∈ trimEnd (type.word ++ front) ++ spaces := by simp [← hsplit, hfront]
      exact (List.mem_append.mp hmem).resolve_right fun hc => absurd (hspaces '*' hc) (by decide)
    rw [swiftType_of_pointer htrim herror hpointee, typeName_of_star_mem hkept, hlocal]
    intro htypes
    have hmem : '*' ∈ typeName type.word ++ ['?'] := htypes ▸ List.mem_append_left _ hkept
    simp [star_not_mem_typeName hword] at hmem

/-- Without its white space, a separator is the stars in it. -/
lemma filter_separator {separator : Text}
    (hseparator : ∀ c ∈ separator, LocalDeclaration.isSeparator c = true) :
    separator.filter (!isSpace ·) = List.replicate (separator.count '*') '*' := by
  rw [← List.filter_beq]
  refine List.filter_congr fun c hc => ?_
  by_cases hstar : c = '*'
  · subst hstar
    decide
  · have hspace : isSpace c = true := by
      simpa [LocalDeclaration.isSeparator, hstar] using hseparator c hc
    simp [hspace, hstar]

/-- Two stars behind the name of the error type are an error pointer. -/
lemma swiftType_of_error_pointer (hword : type.word = "NSError".toList)
    (h : type.separator.count '*' = 2) : swiftType type.spelling = "NSErrorPointer".toList := by
  refine swiftType_of_error ?_
  obtain ⟨gap, hgap, heq⟩ := exists_gap type.spelling
  have hnone : gap.filter (!isSpace ·) = [] :=
    List.filter_eq_nil_iff.mpr fun c hc => by simp [hgap c hc]
  have hspelling : (trim type.spelling).filter (!isSpace ·) = type.spelling.filter (!isSpace ·) := by
    conv_rhs => rw [heq, List.filter_append, hnone, List.append_nil]
    rw [spelling, type.trim_append]
  rw [hspelling, spelling, List.filter_append, filter_separator type.isSeparator, h, hword]
  decide

/-! ### Declarations of one type -/

variable {name keyword : Text}

lemma parse?_field (hname : IsIdentifier name) :
    Field.parse? (type.spelling ++ (name ++ [';'])) = some ⟨trim type.spelling, name⟩ := by
  have htrim : trim (type.spelling ++ name) = type.spelling ++ name := by
    rw [spelling, List.append_assoc, type.trim_append, ← List.append_assoc]
    exact hname.trimEnd_append _
  have hfront : ';' ∉ type.spelling ++ name := by
    rw [spelling, List.mem_append, List.mem_append, not_or, not_or]
    exact ⟨⟨type.not_mem_word (by decide), type.not_mem_separator (by decide)⟩,
      fun hc => absurd (hname.isWord ';' hc) (by decide)⟩
  rw [← List.append_assoc]
  refine Field.parse?_eq_some_iff.mpr (.mk hfront htrim ?_ hname ?_)
  · obtain ⟨c, word, hword⟩ := List.exists_cons_of_ne_nil type.isIdentifier_word.ne_nil
    rw [htrim, spelling, hword]
    exact ⟨c, rfl, type.isIdentifier_word.isWord c (by simp [hword])⟩
  · obtain ⟨c, hc⟩ := List.getLast?_isSome.mpr type.separator_ne_nil |> Option.isSome_iff_exists.mp
    refine ⟨c, ?_, ?_⟩
    · rw [spelling, List.getLast?_append_of_ne_nil _ type.separator_ne_nil]
      exact hc
    · simpa [LocalDeclaration.isSeparator] using type.isSeparator c (List.mem_of_getLast? hc)

/-- The type between parentheses with the name behind it. -/
lemma spellsTypedName (hname : IsIdentifier name) :
    SpellsTypedName (trim type.spelling) name ('(' :: (type.spelling ++ ')' :: name)) := by
  have hspelling : IsTypeSpelling type.spelling := by
    refine ⟨List.append_ne_nil_of_left_ne_nil type.isIdentifier_word.ne_nil _, ?_⟩
    rw [spelling, List.mem_append, not_or]
    exact ⟨type.not_mem_word (by decide), type.not_mem_separator (by decide)⟩
  have hnil : ∀ c ∈ ([] : Text), isSpace c = true := List.forall_mem_nil _
  have hspells := SpellsTypedName.mk hnil hspelling hnil hname
  exact hspells

lemma next?_param (hkeyword : ∀ c ∈ keyword, Unicode.isWord c = true) (hname : IsIdentifier name) :
    Param.next? (keyword ++ ':' :: '(' :: (type.spelling ++ ')' :: name)) =
      some (⟨keyword, trim type.spelling, name⟩, []) := by
  have hnil : ∀ c ∈ ([] : Text), isSpace c = true := List.forall_mem_nil _
  have hspelled := Param.SpelledBy.mk hnil hkeyword hnil (type.spellsTypedName hname)
  exact Param.next?_eq_some_iff.mpr ⟨_, hspelled, by simp, by simp⟩

lemma parse?_continuation {lead : Text} (hlead : ∀ c ∈ lead, isSpace c = true) (hne : lead ≠ [])
    (hkeyword : IsIdentifier keyword) (hname : IsIdentifier name) :
    Continuation.parse? (lead ++ (keyword ++ ':' :: '(' :: (type.spelling ++ ')' :: name))) =
      some ⟨⟨keyword, trim type.spelling, name⟩, false, []⟩ := by
  have hslashless : Slashless
      (lead ++ (keyword ++ ':' :: '(' :: (type.spelling ++ ')' :: name))) := by
    have htype : Slashless type.spelling :=
      (Slashless.of_class type.isIdentifier_word.isWord (by decide)).append
        (.of_class type.isSeparator (by decide))
    have hnamed := htype.append ((Slashless.of_class hname.isWord (by decide)).cons
      (c := ')') (by decide))
    exact (Slashless.of_class hlead (by decide)).append
      ((Slashless.of_class hkeyword.isWord (by decide)).append
        ((hnamed.cons (by decide)).cons (by decide)))
  have hcode : EndsWithBrace false
      (lead ++ (keyword ++ ':' :: '(' :: (type.spelling ++ ')' :: name)))
      (splitComment (lead ++ (keyword ++ ':' :: '(' :: (type.spelling ++ ')' :: name)))).1 :=
    ⟨[], List.forall_mem_nil _, by rw [hslashless.splitComment]; simp⟩
  have hspelled := Continuation.SpelledBy.mk hlead hne hkeyword (type.spellsTypedName hname) hcode
  rw [hslashless.splitComment] at hspelled
  exact (Continuation.spelledBy_iff.mp hspelled).1

/-- A local variable keeps a single `*` of the separator. -/
lemma parse?_local (hname : IsIdentifier name) :
    LocalDeclaration.parse? (type.spelling ++ name) =
      some ⟨[], if '*' ∈ type.separator then type.word ++ ['*'] else type.word, name, none⟩ := by
  have hread := LocalDeclaration.parse?_declarationLine ⟨.none, type, name, .none, none, hname⟩
  rw [DeclarationLine.text, DeclarationLine.assignment, Gap.none, List.nil_append, List.nil_append,
    List.append_nil] at hread
  exact hread

lemma swiftType_local :
    swiftType (if '*' ∈ type.separator then type.word ++ ['*'] else type.word) =
      type.localType := by
  have hprotocol : '<' ∉ type.word := type.not_mem_word (by decide)
  have hword : '*' ∉ type.word := type.not_mem_word (by decide)
  have halone : trim type.word = type.word := by
    simpa using type.trim_append_spaces (List.forall_mem_nil _)
  rw [localType]
  split_ifs
  · -- the type is spelled with the separator `*`
    exact swiftType_of_at_most_one_star
      { type with
        separator := ['*'], separator_ne_nil := by simp
        isSeparator := List.forall_mem_singleton.mpr (by decide) }
      (show List.count '*' ['*'] ≤ 1 by decide)
  · rw [swiftType_of_not_pointer halone hword hprotocol, List.append_nil]

/-- A type that is a word and what separates it from a name is the same in Swift for an instance
variable, for a parameter and for a parameter on a line of its own. For a local variable it is the
type that at most one `*` behind the word makes of it, and with more of them it is another type. -/
theorem declared_types (hkeyword : ∀ c ∈ keyword, Unicode.isWord c = true)
    (hname : IsIdentifier name) :
    (Field.parse? (type.spelling ++ (name ++ [';']))).map Field.render =
        some ("private var ".toList ++ name ++ ": ".toList ++ swiftType type.spelling) ∧
      (∃ param, Param.next? (keyword ++ ':' :: '(' :: (type.spelling ++ ')' :: name)) =
          some (param, []) ∧
        param.render = (if keyword = [] ∨ keyword = name then [] else keyword ++ [' ']) ++
          (name ++ ": ".toList ++ swiftType type.spelling) ∧
        ∀ lead, (∀ c ∈ lead, isSpace c = true) → lead ≠ [] → keyword ≠ [] →
          Continuation.parse?
            (lead ++ (keyword ++ ':' :: '(' :: (type.spelling ++ ')' :: name))) =
              some ⟨param, false, []⟩) ∧
      (LocalDeclaration.parse? (type.spelling ++ name)).map LocalDeclaration.render =
        some ("var ".toList ++ name ++ ": ".toList ++ type.localType) ∧
      (type.localType = swiftType type.spelling ↔ type.separator.count '*' ≤ 1) ∧
      (type.word = "NSError".toList → type.separator.count '*' = 2 →
        swiftType type.spelling = "NSErrorPointer".toList ∧
          type.localType = "NSError?".toList) := by
  refine ⟨?_, ⟨_, type.next?_param hkeyword hname, ?_, ?_⟩, ?_, ?_, ?_⟩
  · rw [type.parse?_field hname]
    exact congrArg (fun t => some ("private var ".toList ++ name ++ ": ".toList ++ t))
      (swiftType_trim type.spelling)
  · simp only [Param.render, swiftType_trim]
    split_ifs <;> simp
  · intro lead hlead hne hsome
    exact type.parse?_continuation hlead hne ⟨hsome, hkeyword⟩ hname
  · simp only [type.parse?_local hname, Option.map_some, LocalDeclaration.render,
      type.swiftType_local, List.nil_append]
  · constructor
    · intro htypes
      by_contra hmore
      exact type.swiftType_ne_of_more_stars (by omega) htypes.symm
    · exact fun hfew => (type.swiftType_of_at_most_one_star hfew).symm
  · intro hword hstars
    have hstar : '*' ∈ type.separator := List.count_pos_iff.mp (by omega)
    refine ⟨type.swiftType_of_error_pointer hword hstars, ?_⟩
    rw [localType, if_pos hstar, hword]
    decide

/-- An error pointer for a parameter and an optional error for a local variable. -/
theorem declared_types_error_pointer :
    (∀ c ∈ "error".toList, Unicode.isWord c = true) ∧ IsIdentifier "e".toList ∧
      swiftType "NSError **".toList = "NSErrorPointer".toList ∧
      (LocalDeclaration.parse? "NSError **e".toList).map LocalDeclaration.render =
        some "var e: NSError?".toList := by
  have hkeyword : ∀ c ∈ "error".toList, Unicode.isWord c = true :=
    List.all_eq_true.mp (by decide)
  have hname : IsIdentifier "e".toList := by decide
  let type : SeparatedType :=
    ⟨"NSError".toList, " **".toList, by decide, by decide, by decide,
      List.all_eq_true.mp (by decide)⟩
  obtain ⟨-, -, hlocal, -, herror⟩ := type.declared_types hkeyword hname
  obtain ⟨hpointer, htype⟩ := herror rfl (by decide)
  refine ⟨hkeyword, hname, hpointer, ?_⟩
  rw [htype] at hlocal
  exact hlocal

end SeparatedType

end Swiftward
