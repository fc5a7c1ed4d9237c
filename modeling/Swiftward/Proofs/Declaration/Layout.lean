import Swiftward.Proofs.Declaration.Spelling

/-!
# White space in method headers

White space may stand behind the sigil of a header, before a keyword, on both sides of a colon,
behind a closing parenthesis, before the brace and at the end. A header is put together from its
parts with any such gaps between them, and the reader takes it apart again: sigil, result type, name,
parameters and brace are those that it was put together from, and nothing is left over
(`LaidOutHeader.parse?_text`).
-/

namespace Swiftward

/-! ### Parameters -/

/-- A parameter with the gaps between its parts. -/
structure LaidOutParam where
  beforeKeyword : Gap
  keyword : Text
  beforeColon : Gap
  behindColon : Gap
  type : Text
  behindType : Gap
  name : Text
  isWord_keyword : ∀ c ∈ keyword, Unicode.isWord c = true
  isTypeSpelling_type : IsTypeSpelling type
  isIdentifier_name : IsIdentifier name
  /-- A keyword is set off from the name before it. -/
  setOff : keyword ≠ [] → beforeKeyword.text ≠ []

namespace LaidOutParam

/-- The parameter as it stands in a header. -/
def text (p : LaidOutParam) : Text :=
  p.beforeKeyword.text ++ (p.keyword ++ (p.beforeColon.text ++ ':' :: (p.behindColon.text ++
    '(' :: (p.type ++ ')' :: (p.behindType.text ++ p.name)))))

/-- The parameter without the white space around its parts. -/
def param (p : LaidOutParam) : Param := ⟨p.keyword, trim p.type, p.name⟩

lemma spelledBy (p : LaidOutParam) : p.param.SpelledBy p.text :=
  .mk p.beforeKeyword.isSpace p.isWord_keyword p.beforeColon.isSpace
    (.mk p.behindColon.isSpace p.isTypeSpelling_type p.behindType.isSpace p.isIdentifier_name)

/-- A parameter does not go on with the word before it. -/
lemma head_not_word (p : LaidOutParam) : ∀ c ∈ p.text.head?, isWord c = false := by
  have hlead := head_not_word_of_spaces p.beforeKeyword.isSpace
  by_cases hkeyword : p.keyword = []
  · rw [text, hkeyword, List.nil_append]
    refine head_not_word_append hlead (head_not_word_append ?_ ?_)
    · exact head_not_word_of_spaces p.beforeColon.isSpace
    · rintro _ ⟨⟩
      decide
  · rw [text, List.head?_append_of_ne_nil _ (p.setOff hkeyword)]
    exact hlead

lemma listSpelledBy (params : List LaidOutParam) :
    Param.ListSpelledBy (params.map param) (params.flatMap text) := by
  induction params with
  | nil => exact .nil
  | cons p params ih =>
    rw [List.map_cons, List.flatMap_cons]
    exact .cons p.spelledBy p.head_not_word ih

end LaidOutParam

/-! ### Headers -/

/-- A header on one line with the gaps between its parts. The name stands in the place of the first
keyword. -/
structure LaidOutHeader where
  isClassMethod : Bool
  behindSigil : Gap
  returnType : Text
  behindReturnType : Gap
  name : Text
  params : List LaidOutParam
  /-- The gap before the brace, where there is a brace. -/
  beforeBrace? : Option Gap
  atEnd : Gap
  isTypeSpelling_returnType : IsTypeSpelling returnType
  isIdentifier_name : IsIdentifier name
  unlabelled : ∀ p ∈ params.head?, p.keyword = []

namespace LaidOutHeader

variable (h : LaidOutHeader)

/-- The result type and the name. -/
def named : Text :=
  h.behindSigil.text ++ '(' :: (h.returnType ++ ')' :: (h.behindReturnType.text ++ h.name))

/-- The brace with the gap before it. -/
def brace : Text :=
  match h.beforeBrace? with
  | some gap => gap.text ++ ['\x7b']
  | none => []

/-- The line of the header. -/
def text : Text :=
  (if h.isClassMethod then '+' else '-') :: (h.named ++ h.params.flatMap LaidOutParam.text) ++
    h.brace ++ h.atEnd.text

/-- The header that the line is put together from. -/
def header : MethodHeader where
  isClassMethod := h.isClassMethod
  returnType := trim h.returnType
  name := h.name
  params := h.params.map LaidOutParam.param
  continued := []
  hasBrace := h.beforeBrace?.isSome

lemma spellsTypedName : SpellsTypedName (trim h.returnType) h.name h.named :=
  .mk h.behindSigil.isSpace h.isTypeSpelling_returnType h.behindReturnType.isSpace
    h.isIdentifier_name

lemma endsWithBrace :
    EndsWithBrace h.beforeBrace?.isSome
      ((if h.isClassMethod then '+' else '-') :: (h.named ++ h.params.flatMap LaidOutParam.text))
      (trimEnd h.text) := by
  rw [text, trimEnd_append_spaces _ h.atEnd.isSpace]
  unfold brace
  cases h.beforeBrace? with
  | some gap =>
    refine ⟨gap.text, gap.isSpace, ?_⟩
    rw [← List.append_assoc, trimEnd_append_singleton (by decide)]
    rfl
  | none =>
    obtain ⟨front, w, hw, heq⟩ := MethodHeader.exists_name_end h.spellsTypedName
      (LaidOutParam.listSpelledBy h.params) (if h.isClassMethod then '+' else '-')
    refine ⟨[], List.forall_mem_nil _, ?_⟩
    rw [List.append_nil, heq, hw.trimEnd_append]
    simp

lemma spelledBy : h.header.SpelledBy h.text := by
  refine .mk h.spellsTypedName (LaidOutParam.listSpelledBy h.params) ?_ h.endsWithBrace
  intro p hp
  rw [List.head?_map] at hp
  obtain ⟨first, hfirst, rfl⟩ := Option.map_eq_some_iff.mp hp
  exact h.unlabelled first hfirst

/-- A header is read as the parts that it was put together from, whatever white space stands between
them, and nothing is left over. -/
theorem parse?_text : MethodHeader.parse? h.text = some h.header ∧ MethodHeader.leftover h.text = [] :=
  ⟨(MethodHeader.spelledBy_iff.mp h.spelledBy).1, h.spelledBy.leftover_eq_nil⟩

/-- A header with white space in all places, a parameter without a keyword, and a brace. -/
def spreadHeader : LaidOutHeader where
  isClassMethod := true
  behindSigil := .none
  returnType := " void ".toList
  behindReturnType := .space
  name := "moveTo".toList
  params :=
    [⟨.space, [], .none, .space, "int".toList, .space, ['x'], List.forall_mem_nil _, by decide,
        by decide, nofun⟩,
      ⟨.none, [], .none, .none, "int".toList, .none, ['y'], List.forall_mem_nil _, by decide,
        by decide, nofun⟩,
      ⟨.space, "then".toList, .space, .space, "id *".toList, .space, ['z'],
        IsIdentifier.isWord (by decide), by decide, by decide, fun _ => List.cons_ne_nil _ _⟩]
  beforeBrace? := some .space
  atEnd := .space
  isTypeSpelling_returnType := by decide
  isIdentifier_name := by decide
  unlabelled := by decide

theorem parse?_text_spreadHeader :
    MethodHeader.parse? "+( void ) moveTo : (int) x:(int)y then : (id *) z \x7b ".toList =
      some ⟨true, "void".toList, "moveTo".toList,
        [⟨[], "int".toList, ['x']⟩, ⟨[], "int".toList, ['y']⟩,
          ⟨"then".toList, "id *".toList, ['z']⟩], [], true⟩ :=
  parse?_text spreadHeader |>.1

end LaidOutHeader

end Swiftward
