import Swiftward.Proofs.Declaration.Spelling

/-!
# Method headers as they are printed

A header that is printed on one line, one parameter behind the other, is read again as it was
printed (`MethodHeader.parse?_print`): a type ends at the first closing parenthesis, a keyword and a
name where their word ends.
-/

namespace Swiftward

namespace Param

/-- The parts of the parameter can be told apart where it is printed. -/
structure IsPrintable (p : Param) : Prop where
  keyword : IsIdentifier p.keyword
  type : IsTypeSpelling p.type
  name : IsIdentifier p.name

instance (p : Param) : Decidable p.IsPrintable :=
  decidable_of_iff (IsIdentifier p.keyword ∧ IsTypeSpelling p.type ∧ IsIdentifier p.name)
    ⟨fun ⟨hk, ht, hn⟩ => ⟨hk, ht, hn⟩, fun ⟨hk, ht, hn⟩ => ⟨hk, ht, hn⟩⟩

/-- A parameter with its keyword, type and name. -/
def print (p : Param) : Text := p.keyword ++ ":(".toList ++ p.type ++ ')' :: p.name

/-- The parameter as it is read, without white space around its type. -/
def trimmed (p : Param) : Param := { p with type := trim p.type }

end Param

/-- The header of an instance method on one line. -/
def MethodHeader.print (returnType : Text) (first : Param) (more : List Param) : Text :=
  "- (".toList ++ returnType ++ ')' :: first.print ++ more.flatMap fun p => ' ' :: p.print

/-- The header of an instance method on one line, as it is read: the method goes by the first
keyword. -/
def MethodHeader.onOneLine (returnType : Text) (first : Param) (more : List Param) :
    MethodHeader where
  isClassMethod := false
  returnType := trim returnType
  name := first.keyword
  params := { first.trimmed with keyword := [] } :: more.map Param.trimmed
  continued := []
  hasBrace := false

/-! ### What is printed is spelled -/

namespace Param

lemma spellsTypedName_print {p : Param} (htype : IsTypeSpelling p.type) (hname : IsIdentifier p.name) :
    SpellsTypedName (trim p.type) p.name ('(' :: (p.type ++ ')' :: p.name)) :=
  .mk (List.forall_mem_nil _) htype (List.forall_mem_nil _) hname

lemma IsPrintable.spelledBy {p : Param} (h : p.IsPrintable) : p.trimmed.SpelledBy (' ' :: p.print) := by
  have hspelled : p.trimmed.SpelledBy
      ([' '] ++ (p.keyword ++ ([] ++ ':' :: '(' :: (p.type ++ ')' :: p.name)))) :=
    .mk (List.forall_mem_singleton.mpr (by decide)) h.keyword.isWord (List.forall_mem_nil _) (spellsTypedName_print h.type h.name)
  simpa [print] using hspelled

lemma listSpelledBy_print {more : List Param} (hmore : ∀ p ∈ more, p.IsPrintable) :
    ListSpelledBy (more.map trimmed) (more.flatMap fun p => ' ' :: p.print) := by
  induction more with
  | nil => exact .nil
  | cons p more ih =>
    obtain ⟨hp, hmore⟩ := List.forall_mem_cons.mp hmore
    rw [List.flatMap_cons, List.map_cons]
    exact .cons hp.spelledBy (by rintro _ ⟨⟩; decide) (ih hmore)

end Param

namespace MethodHeader

/-- A header is spelled as it is printed. -/
lemma spelledBy_print {returnType : Text} (hreturn : IsTypeSpelling returnType) {first : Param}
    (hfirst : first.IsPrintable) {more : List Param} (hmore : ∀ p ∈ more, p.IsPrintable) :
    (onOneLine returnType first more).SpelledBy (print returnType first more) := by
  have hnamed : SpellsTypedName (trim returnType) first.keyword
      ([' '] ++ '(' :: (returnType ++ ')' :: ([] ++ first.keyword))) :=
    .mk (List.forall_mem_singleton.mpr (by decide)) hreturn (List.forall_mem_nil _) hfirst.keyword
  have hlisted : Param.ListSpelledBy
      ({ first.trimmed with keyword := [] } :: more.map Param.trimmed)
      (([] ++ ([] ++ ([] ++ ':' :: '(' :: (first.type ++ ')' :: first.name)))) ++
        more.flatMap fun p => ' ' :: p.print) :=
    .cons (.mk (List.forall_mem_nil _) (List.forall_mem_nil _) (List.forall_mem_nil _)
      (Param.spellsTypedName_print hfirst.type hfirst.name)) (by rintro _ ⟨⟩; decide)
      (Param.listSpelledBy_print hmore)
  obtain ⟨front, name, hname, hend⟩ := exists_name_end hnamed hlisted '-'
  have htext : print returnType first more = front ++ name := by
    rw [← hend]
    simp [print, Param.print]
  refine .mk hnamed hlisted (by rintro _ ⟨⟩; rfl) ⟨[], List.forall_mem_nil _, ?_⟩
  rw [htext, hname.trimEnd_append, ← hend]
  simp

/-- A header is read as it was printed. -/
theorem parse?_print {returnType : Text} (hreturn : IsTypeSpelling returnType) {first : Param}
    (hfirst : first.IsPrintable) {more : List Param} (hmore : ∀ p ∈ more, p.IsPrintable) :
    parse? (print returnType first more) = some (onOneLine returnType first more) :=
  (spelledBy_iff.mp (spelledBy_print hreturn hfirst hmore)).1

end MethodHeader

end Swiftward
