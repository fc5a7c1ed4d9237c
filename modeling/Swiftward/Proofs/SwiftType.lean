import Swiftward.Proofs.Text.Reading
import Swiftward.SwiftType

/-!
# Types in Swift

A type in Swift is made of the characters of its own spelling, of names and of `?`. The white space
around a spelling does not count, and for one without a protocol, whether the type is optional is
told by the `*` at its end (`swiftType_of_not_pointer`, `swiftType_of_pointer`).
-/

namespace Swiftward

lemma swiftType_trim (t : Text) : swiftType (trim t) = swiftType t := by
  rw [swiftType, swiftType, (trimmed_trim t).trim]

/-! ### Their characters -/

lemma mem_typeName {name : Text} {c : Char} (h : c ∈ typeName name) :
    c ∈ name ∨ Unicode.isWord c = true := by
  unfold typeName at h
  split at h
  · next entry swift hfind =>
    have hall : (typeNames.all fun entry => entry.2.toList.all Unicode.isWord) = true := by decide
    have hword := List.all_eq_true.mp hall _ (List.mem_of_find?_eq_some hfind)
    exact .inr (List.all_eq_true.mp hword c h)
  · exact .inl h

lemma isWord_of_protocolName? {base name : Text} (h : protocolName? base = some name) :
    ∀ c ∈ name, Unicode.isWord c = true := by
  simp only [protocolName?, Option.bind_eq_bind, Option.bind_eq_some_iff] at h
  obtain ⟨_, -, _, -, ⟨word, _⟩, hword, _, -, hname⟩ := h
  split at hname
  · obtain rfl := Option.some.inj hname
    exact (nextWord?_eq_some_iff.mp hword).1.isWord
  · simp at hname

/-- A type in Swift is spelled with word characters, `?`, and characters of its own spelling. -/
lemma mem_swiftType {spelling : Text} {c : Char} (h : c ∈ swiftType spelling) :
    c ∈ spelling ∨ Unicode.isWord c = true ∨ c = '?' := by
  have htrim : trim spelling ⊆ spelling :=
    List.Subset.trans (prefix_trimEnd _).subset (List.dropWhile_subset _)
  unfold swiftType at h
  generalize trim spelling = text at htrim h
  simp only at h
  split at h
  · have hall : "NSErrorPointer".toList.all Unicode.isWord = true := by decide
    exact .inr (.inl (List.all_eq_true.mp hall c h))
  · split at h
    · cases hname : protocolName? text with
      | some name =>
        rw [hname] at h
        exact .inr (.inl (isWord_of_protocolName? hname c h))
      | none =>
        rw [hname] at h
        exact (mem_typeName h).imp (@htrim c) .inl
    · next pointee hpointee =>
      have hbase : trimEnd pointee ⊆ text := by
        rw [before?_eq_some_iff.mp hpointee]
        exact List.Subset.trans (prefix_trimEnd _).subset (List.subset_append_left _ _)
      cases hname : protocolName? (trimEnd pointee) with
      | some name =>
        rw [hname] at h
        exact .inr (.inl (isWord_of_protocolName? hname c h))
      | none =>
        rw [hname] at h
        rcases List.mem_append.mp h with hc | hc
        · exact (mem_typeName hc).imp (fun hc => htrim (hbase hc)) .inl
        · exact .inr (.inr (List.mem_singleton.mp hc))

/-! ### Types without a protocol -/

variable {spelling base pointee : Text}

lemma protocolName?_eq_none (h : '<' ∉ base) : protocolName? base = none := by
  rw [Option.eq_none_iff_forall_ne_some]
  intro name hname
  simp only [protocolName?, Option.bind_eq_bind, Option.bind_eq_some_iff] at hname
  obtain ⟨s, hid, t, hopen, -⟩ := hname
  apply h
  rw [after?_eq_some_iff.mp hid]
  refine List.mem_append_right _ (List.dropWhile_subset isSpace ?_)
  rw [show s.dropWhile isSpace = "<".toList ++ t from after?_eq_some_iff.mp hopen]
  exact List.mem_cons_self

lemma star_not_mem_typeNames : ∀ entry ∈ typeNames, '*' ∉ entry.1.toList := by decide

lemma typeName_of_star_mem (h : '*' ∈ base) : typeName base = base := by
  have hfind : typeNames.find? (fun entry => entry.1.toList = base) = none := by
    rw [List.find?_eq_none]
    intro entry hentry heq
    exact star_not_mem_typeNames entry hentry (of_decide_eq_true heq ▸ h)
  rw [typeName, hfind]

lemma star_not_mem_typeName (h : '*' ∉ base) : '*' ∉ typeName base := fun hmem =>
  (mem_typeName hmem).elim h (by decide)

/-- An error pointer has two stars. -/
lemma filter_ne_error (h : base.count '*' ≠ 2) : base.filter (!isSpace ·) ≠ "NSError**".toList := by
  intro heq
  have hcount := congrArg (List.count '*') heq
  rw [List.count_filter (by decide)] at hcount
  exact h (hcount.trans (by decide))

/-- Without a `*`, the name of the type is all there is to it. -/
lemma swiftType_of_not_pointer (h : trim spelling = base) (hstar : '*' ∉ base)
    (hprotocol : '<' ∉ base) : swiftType spelling = typeName base := by
  have herror : base.filter (!isSpace ·) ≠ "NSError**".toList :=
    filter_ne_error (by simp [List.count_eq_zero_of_not_mem hstar])
  have hbefore : before? '*' base = none := by
    rw [Option.eq_none_iff_forall_ne_some]
    rintro front hfront
    apply hstar
    rw [before?_eq_some_iff.mp hfront]
    simp
  rw [swiftType, h, if_neg herror, hbefore, protocolName?_eq_none hprotocol]
  rfl

/-- A `*` at the end makes an optional of what it points to. -/
lemma swiftType_of_pointer (h : trim spelling = pointee ++ ['*'])
    (herror : (trim spelling).filter (!isSpace ·) ≠ "NSError**".toList) (hprotocol : '<' ∉ pointee) :
    swiftType spelling = typeName (trimEnd pointee) ++ ['?'] := by
  have hbase : '<' ∉ trimEnd pointee := fun hmem => hprotocol ((prefix_trimEnd pointee).subset hmem)
  rw [h] at herror
  rw [swiftType, h, if_neg herror, before?_eq_some_iff.mpr rfl]
  simp only [protocolName?_eq_none hbase, Option.getD_none]

lemma swiftType_of_error (h : (trim spelling).filter (!isSpace ·) = "NSError**".toList) :
    swiftType spelling = "NSErrorPointer".toList :=
  if_pos h

end Swiftward
