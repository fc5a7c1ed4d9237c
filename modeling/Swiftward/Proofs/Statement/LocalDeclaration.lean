import Swiftward.Proofs.Declaration.Field
import Swiftward.Proofs.SwiftType
import Swiftward.Proofs.Text.LineFeed
import Swiftward.Statement.LocalDeclaration

/-!
# The grammar of local declarations

A local variable is declared by a line that is put together from white space, a type, a name and
perhaps a value. The reader takes such a line apart again (`parse?_declarationLine`), and it reads no
other lines (`exists_of_parse?`). Where a part ends is never left open, except that white space in
front of the value may be taken for a part of it; so a line is put together in only one way if the
value does not begin with white space (`DeclarationLine.eq_of_text_eq`).
-/

namespace Swiftward

/-! ### Lines that declare a variable -/

/-- A type that is a single word, and what separates it from a name. -/
@[ext]
structure SeparatedType where
  word : Text
  separator : Text
  isIdentifier_word : IsIdentifier word
  isType_word : nonTypeWords.any (·.toList = word) = false
  separator_ne_nil : separator ≠ []
  isSeparator : ∀ c ∈ separator, LocalDeclaration.isSeparator c = true

namespace SeparatedType

variable (type : SeparatedType)

/-- The type as it is spelled before a name. -/
def spelling : Text := type.word ++ type.separator

lemma isWord_separator (rest : Text) :
    ∀ c ∈ (type.separator ++ rest).head?, isWord c = false := by
  intro c hc
  rw [List.head?_append_of_ne_nil _ type.separator_ne_nil] at hc
  have hseparator := type.isSeparator c (List.mem_of_mem_head? hc)
  rw [LocalDeclaration.isSeparator, Bool.or_eq_true, beq_iff_eq] at hseparator
  exact isWord_of_separator hseparator

end SeparatedType

/-- A value on one line, and the white space between it and the `=`. -/
@[ext]
structure Assigned where
  gap : Gap
  value : Text
  unbroken : Unbroken value

/-- The line of a declaration in its parts. -/
@[ext]
structure DeclarationLine where
  indent : Gap
  type : SeparatedType
  name : Text
  behindName : Gap
  assigned? : Option Assigned
  isIdentifier_name : IsIdentifier name

namespace DeclarationLine

variable (l : DeclarationLine)

/-- The `=` and what is behind it. -/
def assignment : Text :=
  match l.assigned? with
  | none => []
  | some a => '=' :: (a.gap.text ++ a.value)

/-- The line that is put together from the parts. -/
def text : Text :=
  l.indent.text ++ (l.type.spelling ++ (l.name ++ (l.behindName.text ++ l.assignment)))

/-- What the line declares. -/
def declaration : LocalDeclaration where
  indent := l.indent.text
  type := if '*' ∈ l.type.separator then l.type.word ++ ['*'] else l.type.word
  name := l.name
  value := l.assigned?.map fun a => trim a.value

/-- No white space behind the `=` is taken for a part of the value. -/
def IsTight : Prop := ∀ a ∈ l.assigned?, ∀ c ∈ a.value.head?, isSpace c = false

/-! ### Lines are taken apart -/

lemma indent_text : l.text.takeWhile isSpace = l.indent.text ∧
    trimStart l.text =
      l.type.spelling ++ (l.name ++ (l.behindName.text ++ l.assignment)) := by
  refine takeWhile_dropWhile_append l.indent.isSpace ?_
  rw [SeparatedType.spelling, List.append_assoc]
  exact l.type.isIdentifier_word.head_not_space _

lemma nextWord?_text : nextWord? (trimStart l.text) =
    some (l.type.word, l.type.separator ++ (l.name ++ (l.behindName.text ++ l.assignment))) := by
  rw [l.indent_text.2, SeparatedType.spelling, List.append_assoc]
  exact nextWord?_eq_some_iff.mpr ⟨l.type.isIdentifier_word, l.type.isWord_separator _, rfl⟩

lemma separator_text (s : Text) :
    (l.type.separator ++ (l.name ++ s)).takeWhile LocalDeclaration.isSeparator = l.type.separator ∧
      (l.type.separator ++ (l.name ++ s)).dropWhile LocalDeclaration.isSeparator = l.name ++ s := by
  refine takeWhile_dropWhile_append l.type.isSeparator fun c hc => ?_
  rw [List.head?_append_of_ne_nil _ l.isIdentifier_name.ne_nil] at hc
  have hword := l.isIdentifier_name.isWord c (List.mem_of_mem_head? hc)
  rw [LocalDeclaration.isSeparator, isSpace_of_isWord hword, Bool.false_or, beq_eq_false_iff_ne]
  exact ne_of_class hword (by decide)

lemma head_assignment : ∀ c ∈ l.assignment.head?, c = '=' := by
  rw [assignment]
  cases l.assigned? <;> simp

lemma nextWord?_name : nextWord? (l.name ++ (l.behindName.text ++ l.assignment)) =
    some (l.name, l.behindName.text ++ l.assignment) := by
  refine nextWord?_eq_some_iff.mpr ⟨l.isIdentifier_name, ?_, rfl⟩
  refine head_not_word_append (head_not_word_of_spaces l.behindName.isSpace) fun c hc => ?_
  rw [l.head_assignment c hc]
  decide

lemma behindName_text :
    (l.behindName.text ++ l.assignment).takeWhile isSpace = l.behindName.text ∧
      trimStart (l.behindName.text ++ l.assignment) = l.assignment := by
  refine takeWhile_dropWhile_append l.behindName.isSpace fun c hc => ?_
  rw [l.head_assignment c hc]
  decide

end DeclarationLine

lemma Assigned.trimStart_eq (a : Assigned) : trimStart (a.gap.text ++ a.value) = trimStart a.value :=
  List.dropWhile_append_of_pos a.gap.isSpace

namespace LocalDeclaration

/-- What is read of a line that is put together from its parts. -/
lemma parse?_declarationLine (l : DeclarationLine) : parse? l.text = some l.declaration := by
  obtain ⟨htake, hdrop⟩ := l.separator_text (l.behindName.text ++ l.assignment)
  have hreads : ¬(l.type.separator = [] ∨ nonTypeWords.any (·.toList = l.type.word) = true) :=
    not_or.mpr ⟨l.type.separator_ne_nil, ne_true_of_eq_false l.type.isType_word⟩
  simp only [parse?, Option.bind_eq_bind, l.nextWord?_text, Option.bind_some, htake, hdrop,
    l.nextWord?_name, l.indent_text.1, l.behindName_text.2, if_neg hreads]
  rw [DeclarationLine.assignment, DeclarationLine.declaration]
  cases l.assigned? with
  | none => rfl
  | some a =>
    have hunbroken : '\n' ∉ trimStart (a.gap.text ++ a.value) := by
      rw [a.trimStart_eq]
      exact a.unbroken.subset (trimStart_subset a.value)
    have htrim : trim (a.gap.text ++ a.value) = trim a.value := congrArg trimEnd a.trimStart_eq
    simp only [if_neg hunbroken, htrim, Option.map_some]

/-- A line that is read is put together from parts. -/
lemma exists_of_parse? {line : Text} {d : LocalDeclaration} (h : parse? line = some d) :
    ∃ l : DeclarationLine, l.text = line ∧ l.IsTight ∧ l.declaration = d := by
  obtain ⟨⟨word, s⟩, hword, h⟩ := Option.bind_eq_some_iff.mp h
  obtain ⟨⟨name, t⟩, hname, h⟩ := Option.bind_eq_some_iff.mp h
  obtain ⟨hrefused, h⟩ := Option.ite_none_left_eq_some.mp h
  dsimp only at hname hrefused h
  rw [not_or, Bool.not_eq_true] at hrefused
  obtain ⟨hisWord, -, hstart⟩ := nextWord?_eq_some_iff.mp hword
  obtain ⟨hisName, -, hnamed⟩ := nextWord?_eq_some_iff.mp hname
  -- The parts are what each step has taken off; only what is assigned differs from case to case.
  let type : SeparatedType :=
    ⟨word, s.takeWhile isSeparator, hisWord, hrefused.2, hrefused.1, fun _ => List.mem_takeWhile_imp⟩
  let parts (assigned? : Option Assigned) : DeclarationLine :=
    ⟨.ofStart line, type, name, .ofStart t, assigned?, hisName⟩
  have htext {assigned? : Option Assigned} (hbehind : (parts assigned?).assignment = trimStart t) :
      (parts assigned?).text = line := by
    rw [DeclarationLine.text, hbehind, Gap.ofStart_append, ← hnamed, SeparatedType.spelling,
      List.append_assoc, List.takeWhile_append_dropWhile, ← hstart, Gap.ofStart_append]
  split at h
  · next hend =>
    obtain rfl := Option.some.inj h
    refine ⟨parts none, htext hend.symm, ?_, rfl⟩
    rintro _ ⟨⟩
  · next value hassigned =>
    obtain ⟨hunbroken, h⟩ := Option.ite_none_left_eq_some.mp h
    obtain rfl := Option.some.inj h
    refine ⟨parts (some ⟨.ofStart value, trimStart value, hunbroken⟩), htext ?_, ?_, ?_⟩
    · rw [hassigned]
      exact congrArg ('=' :: ·) (Gap.ofStart_append value)
    · rintro _ ⟨⟩
      exact head_trimStart value
    · have htrim : trim (trimStart value) = trim value :=
        congrArg trimEnd (trimStart_append (List.forall_mem_nil _) (head_trimStart value))
      rw [← htrim]
      rfl
  · cases h

end LocalDeclaration

/-! ### Lines are put together in one way -/

namespace DeclarationLine

variable {l l' : DeclarationLine}

/-- Lines with one text have one word with one rest behind it, and so on from part to part. -/
lemma parts_of_text_eq (h : l.text = l'.text) :
    l.indent = l'.indent ∧ l.type = l'.type ∧ l.name = l'.name ∧ l.behindName = l'.behindName ∧
      l.assignment = l'.assignment := by
  -- Each reader has one result for one text, and what it leaves over is the text of the next one.
  have hindent : l.indent.text = l'.indent.text := by
    rw [← l.indent_text.1, h, l'.indent_text.1]
  have hword := l.nextWord?_text
  rw [h, l'.nextWord?_text, Option.some.injEq, Prod.mk.injEq] at hword
  obtain ⟨hword, hnamed⟩ := hword
  obtain ⟨hseparator, hname⟩ := l.separator_text (l.behindName.text ++ l.assignment)
  rw [← hnamed, (l'.separator_text _).1] at hseparator
  rw [← hnamed, (l'.separator_text _).2] at hname
  have hlast := l.nextWord?_name
  rw [← hname, l'.nextWord?_name, Option.some.injEq, Prod.mk.injEq] at hlast
  obtain ⟨hname, hbehind⟩ := hlast
  obtain ⟨hgap, hassignment⟩ := l.behindName_text
  rw [← hbehind, l'.behindName_text.1] at hgap
  rw [← hbehind, l'.behindName_text.2] at hassignment
  exact ⟨Gap.ext hindent, SeparatedType.ext hword.symm hseparator.symm, hname.symm,
    Gap.ext hgap.symm, hassignment.symm⟩

/-- White space and a value that does not begin with white space are told apart. -/
lemma assigned_of_assignment_eq (hl : l.IsTight) (hl' : l'.IsTight)
    (h : l.assignment = l'.assignment) : l.assigned? = l'.assigned? := by
  rw [assignment, assignment] at h
  cases hassigned : l.assigned? with
  | none =>
    cases hassigned' : l'.assigned? with
    | none => rfl
    | some a' => simp [hassigned, hassigned'] at h
  | some a =>
    cases hassigned' : l'.assigned? with
    | none => simp [hassigned, hassigned'] at h
    | some a' =>
      rw [hassigned, hassigned', List.cons.injEq] at h
      obtain ⟨htake, hdrop⟩ := takeWhile_dropWhile_append a.gap.isSpace (hl a hassigned)
      obtain ⟨htake', hdrop'⟩ := takeWhile_dropWhile_append a'.gap.isSpace (hl' a' hassigned')
      rw [h.2, htake'] at htake
      rw [h.2, hdrop'] at hdrop
      rw [Assigned.ext (Gap.ext htake.symm) hdrop.symm]

/-- A line whose value does not begin with white space is put together in only one way. -/
lemma eq_of_text_eq (hl : l.IsTight) (hl' : l'.IsTight) (h : l.text = l'.text) : l = l' := by
  obtain ⟨hindent, htype, hname, hbehind, hassignment⟩ := parts_of_text_eq h
  exact DeclarationLine.ext hindent htype hname hbehind
    (assigned_of_assignment_eq hl hl' hassignment)

end DeclarationLine

/-! ### What a declaration is written with -/

/-- The signs that a declaration is written with, in its line and in Swift. -/
def declarationSigns : List Char := [' ', '*', ':', '=', '?']

namespace DeclarationLine

variable {l : DeclarationLine} {p : Char → Prop}

lemma gap_subset_text {a : Assigned} (h : l.assigned? = some a) : a.gap.text ⊆ l.text := by
  intro c hc
  simp [text, assignment, h, hc]

lemma forall_mem_name (hword : ∀ c, Unicode.isWord c = true → p c) : ∀ c ∈ l.name, p c :=
  fun c hc => hword c (l.isIdentifier_name.isWord c hc)

/-- What stands before a value. -/
lemma forall_mem_front (hspace : ∀ c ∈ l.text, isSpace c = true → p c)
    (hword : ∀ c, Unicode.isWord c = true → p c) (hsign : ∀ c ∈ declarationSigns, p c) :
    (∀ c ∈ l.indent.text, p c) ∧
      ∀ c ∈ l.indent.text ++ (l.type.spelling ++ (l.name ++ l.behindName.text)), p c := by
  have hindent : ∀ c ∈ l.indent.text, p c := fun c hc =>
    hspace c (List.mem_append_left _ hc) (l.indent.isSpace c hc)
  have htype : ∀ c ∈ l.type.word, p c := fun c hc =>
    hword c (l.type.isIdentifier_word.isWord c hc)
  have hseparator : ∀ c ∈ l.type.separator, p c := by
    intro c hc
    have hline : c ∈ l.text := by simp [text, SeparatedType.spelling, hc]
    obtain hkind | hkind := Bool.or_eq_true_iff.mp (l.type.isSeparator c hc)
    · exact hspace c hline hkind
    · rw [eq_of_beq hkind]
      exact hsign '*' (by decide)
  have hbehind : ∀ c ∈ l.behindName.text, p c := fun c hc =>
    hspace c (by simp [text, hc]) (l.behindName.isSpace c hc)
  simp only [SeparatedType.spelling, List.forall_mem_append]
  exact ⟨hindent, hindent, ⟨htype, hseparator⟩, forall_mem_name hword, hbehind⟩

lemma forall_mem_swiftType (hword : ∀ c, Unicode.isWord c = true → p c)
    (hsign : ∀ c ∈ declarationSigns, p c) : ∀ c ∈ swiftType l.declaration.type, p c := by
  have htype : ∀ c ∈ l.type.word, p c := fun c hc =>
    hword c (l.type.isIdentifier_word.isWord c hc)
  have hdeclared : ∀ c ∈ l.declaration.type, p c := by
    rw [declaration]
    split_ifs
    · exact List.forall_mem_append.mpr ⟨htype, List.forall_mem_singleton.mpr (hsign '*' (by decide))⟩
    · exact htype
  intro c hc
  obtain hc | hc | rfl := mem_swiftType hc
  · exact hdeclared c hc
  · exact hword c hc
  · exact hsign '?' (by decide)

/-- All that stands in front of the value is white space, words and signs, in the line and in Swift.
The value itself is only trimmed. -/
lemma exists_render (l : DeclarationLine) (p : Char → Prop)
    (hspace : ∀ c ∈ l.text, isSpace c = true → p c) (hword : ∀ c, Unicode.isWord c = true → p c)
    (hsign : ∀ c ∈ declarationSigns, p c) :
    ∃ front head value : Text, l.text = front ++ value ∧ l.declaration.render = head ++ trim value ∧
      (∀ c ∈ front, p c) ∧ ∀ c ∈ head, p c := by
  obtain ⟨hindent, hfront⟩ := forall_mem_front hspace hword hsign
  have hname := forall_mem_name (l := l) hword
  have hwritten {s : Text}
      (h : s.all (fun c => Unicode.isWord c || declarationSigns.contains c) = true) :
      ∀ c ∈ s, p c := by
    intro c hc
    obtain hkind | hkind := Bool.or_eq_true_iff.mp (List.all_eq_true.mp h c hc)
    · exact hword c hkind
    · exact hsign c (List.contains_iff_mem.mp hkind)
  cases hassigned : l.assigned? with
  | none =>
    refine ⟨_, l.indent.text ++ "var ".toList ++ l.name ++ ": ".toList ++
      swiftType l.declaration.type, [], ?_, ?_, hfront, ?_⟩
    · simp [text, assignment, hassigned]
    · simp [LocalDeclaration.render, declaration, hassigned, trim, trimStart, trimEnd]
    · simp only [List.forall_mem_append]
      exact ⟨⟨⟨⟨hindent, hwritten (by decide)⟩, hname⟩, hwritten (by decide)⟩,
        forall_mem_swiftType hword hsign⟩
  | some a =>
    refine ⟨l.indent.text ++ (l.type.spelling ++ (l.name ++ l.behindName.text)) ++ '=' :: a.gap.text,
      l.indent.text ++ "let ".toList ++ l.name ++ " = ".toList, a.value, ?_, ?_, ?_, ?_⟩
    · simp [text, assignment, hassigned]
    · simp [LocalDeclaration.render, declaration, hassigned]
    · rw [List.forall_mem_append, List.forall_mem_cons]
      exact ⟨hfront, hsign '=' (by decide),
        fun c hc => hspace c (gap_subset_text hassigned hc) (a.gap.isSpace c hc)⟩
    · simp only [List.forall_mem_append]
      exact ⟨⟨⟨hindent, hwritten (by decide)⟩, hname⟩, hwritten (by decide)⟩

end DeclarationLine

end Swiftward
