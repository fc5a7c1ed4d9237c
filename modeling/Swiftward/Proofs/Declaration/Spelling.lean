import Swiftward.Declaration.Method
import Swiftward.Proofs.Text.Reading

/-!
# How method headers are spelled

A header is spelled by a sigil, its result type and name and its parameters, with white space
between them, and perhaps a brace at the end; a line that continues it, by a single parameter. What
is spelled so is read as it was meant, but the reader asks for no more than that the line begins so:
whatever stands behind the last parameter that it can read is left over. The lines that spell what
they are read as are those that leave nothing over but white space (`MethodHeader.spelledBy_iff`,
`Continuation.spelledBy_iff`).
-/

namespace Swiftward

/-- The spelling of a type that can stand between parentheses. -/
structure IsTypeSpelling (t : Text) : Prop where
  ne_nil : t ≠ []
  closeless : ')' ∉ t

instance (t : Text) : Decidable (IsTypeSpelling t) :=
  decidable_of_iff (t ≠ [] ∧ ')' ∉ t) ⟨fun ⟨hne, ht⟩ => ⟨hne, ht⟩, fun ⟨hne, ht⟩ => ⟨hne, ht⟩⟩

/-- The text has a type between parentheses, and behind it a name. -/
inductive SpellsTypedName : Text → Text → Text → Prop where
  | mk {lead spelling gap name : Text} (hlead : ∀ c ∈ lead, isSpace c = true)
      (hspelling : IsTypeSpelling spelling) (hgap : ∀ c ∈ gap, isSpace c = true)
      (hname : IsIdentifier name) :
      SpellsTypedName (trim spelling) name (lead ++ '(' :: (spelling ++ ')' :: (gap ++ name)))

namespace Param

/-- The text has the keyword of a parameter, which may be empty, a colon, and its type and name. -/
inductive SpelledBy : Param → Text → Prop where
  | mk {lead keyword gap type name named : Text} (hlead : ∀ c ∈ lead, isSpace c = true)
      (hkeyword : ∀ c ∈ keyword, Unicode.isWord c = true) (hgap : ∀ c ∈ gap, isSpace c = true)
      (hnamed : SpellsTypedName type name named) :
      SpelledBy ⟨keyword, type, name⟩ (lead ++ (keyword ++ (gap ++ ':' :: named)))

/-- The text has the parameters one behind the other, each set off from the word before it. -/
inductive ListSpelledBy : List Param → Text → Prop where
  | nil : ListSpelledBy [] []
  | cons {p : Param} {ps : List Param} {s t : Text} (hfirst : p.SpelledBy s)
      (hends : ∀ c ∈ s.head?, isWord c = false) (hmore : ListSpelledBy ps t) :
      ListSpelledBy (p :: ps) (s ++ t)

end Param

/-- The code is `body`, and behind it white space and, where `opens`, a brace. -/
def EndsWithBrace (opens : Bool) (body code : Text) : Prop :=
  ∃ gap, (∀ c ∈ gap, isSpace c = true) ∧ code = body ++ gap ++ if opens then ['\x7b'] else []

/-- The code is that of a line that continues a header with the parameter. -/
inductive Continuation.SpelledBy : Continuation → Text → Prop where
  | mk {lead keyword type name named line : Text} {opensBody : Bool}
      (hlead : ∀ c ∈ lead, isSpace c = true) (hne : lead ≠ []) (hkeyword : IsIdentifier keyword)
      (hnamed : SpellsTypedName type name named)
      (hcode : EndsWithBrace opensBody (lead ++ (keyword ++ ':' :: named)) (splitComment line).1) :
      SpelledBy ⟨⟨keyword, type, name⟩, opensBody, (splitComment line).2⟩ line

/-- The code is that of the first line of the header. Its name stands in the place of the first
keyword. -/
inductive MethodHeader.SpelledBy : MethodHeader → Text → Prop where
  | mk {isClassMethod hasBrace : Bool} {returnType name named listed code : Text}
      {params : List Param} (hnamed : SpellsTypedName returnType name named)
      (hparams : Param.ListSpelledBy params listed) (hfirst : ∀ p ∈ params.head?, p.keyword = [])
      (hcode : EndsWithBrace hasBrace
        ((if isClassMethod then '+' else '-') :: (named ++ listed)) (trimEnd code)) :
      SpelledBy ⟨isClassMethod, returnType, name, params, [], hasBrace⟩ code

/-! ### What is left over -/

/-- The text behind all parameters at the start of a text. -/
def behindParams (s : Text) : Text :=
  match _h : Param.next? s with
  | none => s
  | some (_, rest) => behindParams rest
termination_by s.length
decreasing_by exact Param.length_next?_lt _h

/-- What the code of a header's first line has that goes into no part of the header: the word before
the first colon, and everything behind the last parameter. -/
def MethodHeader.leftover (code : Text) : Text :=
  (do
    let (_, s) ← sigil? (stripBrace (trimEnd code)).1
    let (_, _, s) ← typedName? s
    some (((paramsOf s).head?.map Param.keyword).getD [] ++ behindParams s)).getD []

/-- What the code of a line that continues a header has behind its parameter. -/
def Continuation.leftover (line : Text) : Text :=
  (do
    let s ← afterSpace? (stripBrace (splitComment line).1).1
    let (_, s) ← nextWord? s
    let s ← after? ":" s
    let (_, _, s) ← typedName? s
    some s).getD []

/-! ### Types and names -/

section Reading

variable {s t rest type name : Text}

/-- A type is read up to the first closing parenthesis. -/
lemma upToClose?_eq_some_iff :
    upToClose? s = some (t, rest) ↔ IsTypeSpelling t ∧ s = t ++ ')' :: rest := by
  unfold upToClose?
  constructor
  · intro h
    split at h
    · simp at h
    · next hne =>
      obtain ⟨rest', hrest, h⟩ := Option.map_eq_some_iff.mp h
      simp only [Prod.mk.injEq] at h
      obtain ⟨rfl, rfl⟩ := h
      refine ⟨⟨hne, ?_⟩, ?_⟩
      · intro hmem
        simpa using List.mem_takeWhile_imp hmem
      · conv_lhs => rw [← List.takeWhile_append_dropWhile (p := (· ≠ ')')) (l := s)]
        rw [after?_eq_some_iff.mp hrest]
        rfl
  · rintro ⟨ht, rfl⟩
    have hchars : ∀ c ∈ t, decide (c ≠ ')') = true := by
      intro c hc
      rw [decide_eq_true_iff]
      rintro rfl
      exact ht.closeless hc
    obtain ⟨htake, hdrop⟩ := takeWhile_dropWhile_append (t := ')' :: rest) hchars (by simp)
    rw [htake, hdrop]
    split
    · exact absurd rfl ht.ne_nil
    · rfl

lemma typedName?_eq_some_iff :
    typedName? s = some (type, name, rest) ↔
      ∃ named, SpellsTypedName type name named ∧ (∀ c ∈ rest.head?, isWord c = false) ∧
        s = named ++ rest := by
  constructor
  · intro h
    simp only [typedName?, Option.bind_eq_bind, Option.bind_eq_some_iff, Prod.exists] at h
    obtain ⟨s₁, hopen, spelling, s₂, hclose, word, s₃, hword, h⟩ := h
    simp only [Option.some.injEq, Prod.mk.injEq] at h
    obtain ⟨rfl, rfl, rfl⟩ := h
    obtain ⟨hspelling, rfl⟩ := upToClose?_eq_some_iff.mp hclose
    obtain ⟨hname, hrest, hs₂⟩ := nextWord?_eq_some_iff.mp hword
    obtain ⟨lead, hlead, hs⟩ := exists_lead s
    obtain ⟨gap, hgap, hgapped⟩ := exists_lead s₂
    refine ⟨_, .mk hlead hspelling hgap hname, hrest, ?_⟩
    rw [hs, after?_eq_some_iff.mp hopen, hgapped, hs₂]
    simp
  · rintro ⟨named, ⟨hlead, hspelling, hgap, hname⟩, hrest, rfl⟩
    rename_i lead spelling gap
    have hparen : trimStart (lead ++ '(' :: (spelling ++ ')' :: (gap ++ (name ++ rest)))) =
        '(' :: (spelling ++ ')' :: (gap ++ (name ++ rest))) :=
      trimStart_append hlead (by rintro _ ⟨⟩; decide)
    have hopen : after? "(" ('(' :: (spelling ++ ')' :: (gap ++ (name ++ rest)))) =
        some (spelling ++ ')' :: (gap ++ (name ++ rest))) := after?_eq_some_iff.mpr rfl
    have hclose := upToClose?_eq_some_iff.mpr
      ⟨hspelling, (rfl : spelling ++ ')' :: (gap ++ (name ++ rest)) = _)⟩
    have hword := nextWord?_eq_some_iff.mpr ⟨hname, hrest, rfl⟩
    simp only [typedName?, List.append_assoc, List.cons_append, hparen, hopen, hclose,
      trimStart_append hgap (hname.head_not_space rest), hword, Option.bind_eq_bind,
      Option.bind_some]

lemma SpellsTypedName.exists_name (h : SpellsTypedName type name t) :
    ∃ front, IsIdentifier name ∧ t = front ++ name := by
  obtain @⟨lead, spelling, gap, name, -, -, -, hname⟩ := h
  exact ⟨lead ++ '(' :: (spelling ++ ')' :: gap), hname, by simp⟩

end Reading

/-! ### Parameters -/

namespace Param

variable {s t rest : Text} {p : Param}

/-- White space, a keyword and white space are read up to the colon. -/
lemma keyword_append {lead keyword gap : Text} (hlead : ∀ c ∈ lead, isSpace c = true)
    (hkeyword : ∀ c ∈ keyword, Unicode.isWord c = true) (hgap : ∀ c ∈ gap, isSpace c = true)
    (s : Text) :
    (trimStart (lead ++ (keyword ++ (gap ++ ':' :: s)))).takeWhile isWord = keyword ∧
      trimStart ((trimStart (lead ++ (keyword ++ (gap ++ ':' :: s)))).dropWhile isWord) =
        ':' :: s := by
  have hcolon : ∀ c ∈ (':' :: s).head?, isSpace c = false ∧ isWord c = false := by
    rintro _ ⟨⟩
    decide
  cases keyword with
  | nil =>
    -- Without a keyword, the two stretches of white space are one.
    have hspaces : ∀ c ∈ lead ++ gap, isSpace c = true := List.forall_mem_append.mpr ⟨hlead, hgap⟩
    have hstart : trimStart (lead ++ gap ++ ':' :: s) = ':' :: s :=
      trimStart_append hspaces fun c hc => (hcolon c hc).1
    rw [List.nil_append, ← List.append_assoc, hstart]
    exact takeWhile_dropWhile_append (List.forall_mem_nil _) (fun c hc => (hcolon c hc).2) |>.imp id
      fun hdrop => by rw [List.nil_append] at hdrop; rw [hdrop, trimStart_cons (by decide)]
  | cons d w =>
    have hword : IsIdentifier (d :: w) := ⟨List.cons_ne_nil d w, hkeyword⟩
    have hstart := trimStart_append hlead (hword.head_not_space (gap ++ ':' :: s))
    obtain ⟨htake, hdrop⟩ := takeWhile_dropWhile_append (p := isWord) hkeyword
      (head_not_word_append (head_not_word_of_spaces hgap) fun c hc => (hcolon c hc).2)
    rw [hstart, htake, hdrop]
    exact ⟨rfl, trimStart_append hgap fun c hc => (hcolon c hc).1⟩

/-- A parameter is read up to the end of its name. -/
lemma next?_eq_some_iff :
    next? s = some (p, rest) ↔
      ∃ t, p.SpelledBy t ∧ (∀ c ∈ rest.head?, isWord c = false) ∧ s = t ++ rest := by
  constructor
  · intro h
    simp only [next?, Option.bind_eq_bind, Option.bind_eq_some_iff, Prod.exists] at h
    obtain ⟨s₁, hcolon, type, name, s₂, hnamed, h⟩ := h
    simp only [Option.some.injEq, Prod.mk.injEq] at h
    obtain ⟨rfl, rfl⟩ := h
    obtain ⟨named, hspells, hrest, rfl⟩ := typedName?_eq_some_iff.mp hnamed
    obtain ⟨lead, hlead, hs⟩ := exists_lead s
    obtain ⟨gap, hgap, hgapped⟩ := exists_lead ((trimStart s).dropWhile isWord)
    have hkeyword : ∀ c ∈ (trimStart s).takeWhile isWord, Unicode.isWord c = true := fun c hc =>
      List.mem_takeWhile_imp (p := isWord) hc
    refine ⟨_, .mk hlead hkeyword hgap hspells, hrest, ?_⟩
    conv_lhs => rw [hs, ← List.takeWhile_append_dropWhile (p := isWord) (l := trimStart s), hgapped,
      after?_eq_some_iff.mp hcolon]
    simp
  · rintro ⟨t, ⟨hlead, hkeyword, hgap, hnamed⟩, hrest, rfl⟩
    rename_i lead keyword gap type name named
    obtain ⟨htake, hdrop⟩ := keyword_append hlead hkeyword hgap (named ++ rest)
    have hcolon : after? ":" (':' :: (named ++ rest)) = some (named ++ rest) :=
      after?_eq_some_iff.mpr rfl
    have hname := typedName?_eq_some_iff.mpr ⟨named, hnamed, hrest, rfl⟩
    simp only [next?, List.append_assoc, List.cons_append, htake, hdrop, hcolon, hname,
      Option.bind_eq_bind, Option.bind_some]

lemma SpelledBy.exists_name (h : p.SpelledBy t) :
    ∃ front, IsIdentifier p.name ∧ t = front ++ p.name := by
  obtain @⟨lead, keyword, gap, type, name, named, -, -, -, hnamed⟩ := h
  obtain ⟨front, hname, rfl⟩ := hnamed.exists_name
  exact ⟨lead ++ (keyword ++ (gap ++ ':' :: front)), hname, by simp⟩

lemma SpelledBy.ne_nil (h : p.SpelledBy t) : t ≠ [] := by
  obtain ⟨front, hname, rfl⟩ := h.exists_name
  exact List.append_ne_nil_of_right_ne_nil front hname.ne_nil

lemma ListSpelledBy.head_not_word {ps : List Param} (h : ListSpelledBy ps t) :
    ∀ c ∈ t.head?, isWord c = false := by
  cases h with
  | nil => simp
  | cons hfirst hends hmore => rwa [List.head?_append_of_ne_nil _ hfirst.ne_nil]

lemma ListSpelledBy.keyword_isWord {ps : List Param} (h : ListSpelledBy ps t) :
    ∀ p ∈ ps.head?, ∀ c ∈ p.keyword, Unicode.isWord c = true := by
  cases h with
  | nil => simp
  | cons hfirst hends hmore =>
    rintro _ ⟨⟩
    cases hfirst with
    | mk hlead hkeyword hgap hnamed => exact hkeyword

/-- Behind a text that ends with a name, a list of parameters ends with a name too. -/
lemma ListSpelledBy.exists_name {ps : List Param} (h : ListSpelledBy ps t)
    (hs : ∃ front name, IsIdentifier name ∧ s = front ++ name) :
    ∃ front name, IsIdentifier name ∧ s ++ t = front ++ name := by
  induction h generalizing s with
  | nil => simpa using hs
  | @cons p ps u t hfirst hends hmore ih =>
    obtain ⟨front, hname, rfl⟩ := hfirst.exists_name
    rw [← List.append_assoc]
    exact ih ⟨s ++ front, p.name, hname, (List.append_assoc ..).symm⟩

/-- Parameters are read one behind the other. -/
lemma paramsOf_cons (h : next? s = some (p, rest)) : paramsOf s = p :: paramsOf rest := by
  rw [paramsOf]
  split
  · next hnone => simp [h] at hnone
  · next p' rest' hsome =>
    obtain ⟨rfl, rfl⟩ : p = p' ∧ rest = rest' := by simpa [h] using hsome
    rfl

lemma behindParams_cons (h : next? s = some (p, rest)) : behindParams s = behindParams rest := by
  conv_lhs => rw [behindParams]
  split
  · next hnone => simp [h] at hnone
  · next p' rest' hsome =>
    obtain ⟨rfl, rfl⟩ : p = p' ∧ rest = rest' := by simpa [h] using hsome
    rfl

lemma paramsOf_nil (h : next? s = none) : paramsOf s = [] := by
  rw [paramsOf]
  split
  · rfl
  · next hsome => simp [h] at hsome

lemma behindParams_nil (h : next? s = none) : behindParams s = s := by
  rw [behindParams]
  split
  · rfl
  · next hsome => simp [h] at hsome

lemma next?_spaces {gap : Text} (hgap : ∀ c ∈ gap, isSpace c = true) : next? gap = none := by
  have hnil : trimStart gap = [] := by simpa using trimStart_append (s := []) hgap (by simp)
  rw [next?, hnil]
  rfl

/-- A list of parameters is read as it is spelled, up to the white space behind it. -/
lemma ListSpelledBy.reads {ps : List Param} (h : ListSpelledBy ps t) {gap : Text}
    (hgap : ∀ c ∈ gap, isSpace c = true) :
    paramsOf (t ++ gap) = ps ∧ behindParams (t ++ gap) = gap := by
  induction h with
  | nil => exact ⟨paramsOf_nil (next?_spaces hgap), behindParams_nil (next?_spaces hgap)⟩
  | @cons p ps s t hfirst hends hmore ih =>
    have hrest := head_not_word_append hmore.head_not_word (head_not_word_of_spaces hgap)
    have hnext : next? (s ++ t ++ gap) = some (p, t ++ gap) :=
      next?_eq_some_iff.mpr ⟨s, hfirst, hrest, List.append_assoc ..⟩
    exact ⟨by rw [paramsOf_cons hnext, ih.1], by rw [behindParams_cons hnext, ih.2]⟩

/-- The parameters that are read spell the text up to what is behind them. -/
lemma exists_listSpelledBy (hs : ∀ c ∈ s.head?, isWord c = false) :
    ∃ t, ListSpelledBy (paramsOf s) t ∧ s = t ++ behindParams s := by
  fun_induction paramsOf s with
  | case1 s hnone =>
    exact ⟨[], .nil, (behindParams_nil hnone).symm⟩
  | case2 s p rest hsome ih =>
    obtain ⟨t, hfirst, hrest, rfl⟩ := next?_eq_some_iff.mp hsome
    obtain ⟨u, hmore, hu⟩ := ih hrest
    refine ⟨t ++ u, .cons hfirst ?_ hmore, ?_⟩
    · rwa [List.head?_append_of_ne_nil _ hfirst.ne_nil] at hs
    · rw [behindParams_cons hsome, List.append_assoc, ← hu]

end Param

/-! ### The brace at the end -/

section Brace

variable {body code rest : Text} {opens : Bool}

/-- The brace behind a word is found, and nothing but white space remains before it. -/
lemma EndsWithBrace.stripBrace_eq (h : EndsWithBrace opens body code)
    (hbody : ∃ front name, IsIdentifier name ∧ body = front ++ name) :
    ∃ gap, (∀ c ∈ gap, isSpace c = true) ∧ stripBrace code = (body ++ gap, opens) := by
  obtain ⟨front, name, hname, rfl⟩ := hbody
  obtain ⟨gap, hgap, rfl⟩ := h
  cases opens with
  | true =>
    have htrim := trimEnd_append_spaces (front ++ name) hgap
    rw [hname.trimEnd_append] at htrim
    refine ⟨[], List.forall_mem_nil _, ?_⟩
    rw [if_pos rfl, stripBrace, before?_eq_some_iff.mpr rfl, List.append_nil]
    exact congrArg (·, true) htrim
  | false =>
    -- The last character is white space or belongs to the word, so it is no brace.
    have hnone : before? '\x7b' (front ++ name ++ gap) = none := by
      rw [Option.eq_none_iff_forall_ne_some]
      intro before hbefore
      have hlast := congrArg List.getLast? (before?_eq_some_iff.mp hbefore)
      rw [List.getLast?_concat, List.append_assoc, List.getLast?_append_of_ne_nil front
        (List.append_ne_nil_of_left_ne_nil hname.ne_nil gap)] at hlast
      obtain hmem | hmem := List.mem_append.mp (List.mem_of_getLast? hlast)
      · exact absurd (hname.isWord _ hmem) (by decide)
      · exact absurd (hgap _ hmem) (by decide)
    refine ⟨gap, hgap, ?_⟩
    rw [if_neg (by decide), List.append_nil, stripBrace, hnone]

lemma endsWithBrace_of_stripBrace (h : stripBrace code = (body ++ rest, opens))
    (hrest : ∀ c ∈ rest, isSpace c = true) : EndsWithBrace opens body code := by
  unfold stripBrace at h
  split at h
  · next front hfront =>
    obtain ⟨htrim, rfl⟩ := Prod.mk.inj h
    obtain ⟨gap, hgap, hfronts⟩ := exists_gap front
    refine ⟨rest ++ gap, List.forall_mem_append.mpr ⟨hrest, hgap⟩, ?_⟩
    rw [before?_eq_some_iff.mp hfront, hfronts, htrim]
    simp
  · obtain ⟨rfl, rfl⟩ := Prod.mk.inj h
    exact ⟨rest, hrest, by simp⟩

/-- There is no white space right before the brace of a trimmed text, either. -/
lemma trimEnd_stripBrace (h : trimEnd code = code) :
    trimEnd (stripBrace code).1 = (stripBrace code).1 := by
  unfold stripBrace
  split
  · exact trimEnd_trimEnd _
  · exact h

end Brace

/-! ### Headers and the lines that continue them -/

lemma MethodHeader.sigil?_eq_some_iff {isClassMethod : Bool} {s rest : Text} :
    sigil? s = some (isClassMethod, rest) ↔ s = (if isClassMethod then '+' else '-') :: rest := by
  unfold sigil?
  cases isClassMethod <;> split <;> simp_all

/-- A parameter without its keyword. -/
def Param.unlabelled (p : Param) : Param := { p with keyword := [] }

lemma Param.modifyHead_unlabelled {ps : List Param} (h : ∀ p ∈ ps.head?, p.keyword = []) :
    ps.modifyHead unlabelled = ps := by
  cases ps with
  | nil => rfl
  | cons first more =>
    rw [List.modifyHead_cons, unlabelled, ← h first rfl]

namespace MethodHeader

variable {header : MethodHeader} {code : Text}

/-- What a header is read from, part by part. -/
lemma parse?_eq_some_iff :
    parse? code = some header ↔
      ∃ s s', sigil? (stripBrace (trimEnd code)).1 = some (header.isClassMethod, s) ∧
        typedName? s = some (header.returnType, header.name, s') ∧
        header = ⟨header.isClassMethod, header.returnType, header.name,
          (paramsOf s').modifyHead Param.unlabelled, [], (stripBrace (trimEnd code)).2⟩ := by
  simp only [parse?, Option.bind_eq_bind, Option.bind_eq_some_iff, Prod.exists]
  constructor
  · rintro ⟨isClassMethod, s, hsigil, returnType, name, s', hname, h⟩
    obtain rfl := Option.some.inj h
    refine ⟨s, s', hsigil, hname, ?_⟩
    cases paramsOf s' <;> rfl
  · rintro ⟨s, s', hsigil, hname, h⟩
    refine ⟨_, s, hsigil, _, _, s', hname, ?_⟩
    rw [h]
    cases paramsOf s' <;> rfl

lemma leftover_eq {isClassMethod : Bool} {s s' returnType name : Text}
    (hsigil : sigil? (stripBrace (trimEnd code)).1 = some (isClassMethod, s))
    (hname : typedName? s = some (returnType, name, s')) :
    leftover code = ((paramsOf s').head?.map Param.keyword).getD [] ++ behindParams s' := by
  simp [leftover, hsigil, hname]

lemma leftover_of_none (h : parse? code = none) : leftover code = [] := by
  unfold leftover
  cases hsigil : sigil? (stripBrace (trimEnd code)).1 with
  | none => rfl
  | some begun =>
    cases hname : typedName? begun.2 with
    | none => simp [hname]
    | some named => simp [parse?, hsigil, hname] at h

lemma exists_name_end {returnType name named listed : Text} {params : List Param}
    (hnamed : SpellsTypedName returnType name named) (hparams : Param.ListSpelledBy params listed)
    (sigil : Char) :
    ∃ front w, IsIdentifier w ∧ sigil :: (named ++ listed) = front ++ w := by
  obtain ⟨front, hname, rfl⟩ := hnamed.exists_name
  exact hparams.exists_name (s := sigil :: (front ++ name)) ⟨sigil :: front, name, hname, rfl⟩

/-- A header is read as it is spelled, up to the white space before the brace. -/
lemma SpelledBy.reads (h : header.SpelledBy code) :
    ∃ body gap, (∀ c ∈ gap, isSpace c = true) ∧
      stripBrace (trimEnd code) = (body ++ gap, header.hasBrace) ∧
      parse? code = some header ∧ leftover code = gap := by
  obtain @⟨isClassMethod, hasBrace, returnType, name, named, listed, code, params, hnamed, hparams,
    hfirst, hcode⟩ := h
  obtain ⟨gap, hgap, hbrace⟩ := hcode.stripBrace_eq (exists_name_end hnamed hparams _)
  have hsigil : sigil? (stripBrace (trimEnd code)).1 =
      some (isClassMethod, named ++ (listed ++ gap)) := by
    rw [hbrace]
    exact sigil?_eq_some_iff.mpr (by simp)
  have hname : typedName? (named ++ (listed ++ gap)) = some (returnType, name, listed ++ gap) :=
    typedName?_eq_some_iff.mpr ⟨named, hnamed,
      head_not_word_append hparams.head_not_word (head_not_word_of_spaces hgap), rfl⟩
  obtain ⟨hread, hbehind⟩ := hparams.reads hgap
  have hkeyword : (params.head?.map Param.keyword).getD [] = [] := by
    cases params with
    | nil => rfl
    | cons first more => exact hfirst first rfl
  refine ⟨_, gap, hgap, hbrace, parse?_eq_some_iff.mpr ⟨_, _, hsigil, hname, ?_⟩, ?_⟩
  · rw [hread, Param.modifyHead_unlabelled hfirst, hbrace]
  · rw [leftover_eq hsigil hname, hread, hbehind, hkeyword, List.nil_append]

/-- No white space is left before the brace. -/
lemma SpelledBy.leftover_eq_nil (h : header.SpelledBy code) : leftover code = [] := by
  obtain ⟨body, gap, hgap, hbrace, -, hleftover⟩ := h.reads
  have htrimmed := trimEnd_stripBrace (trimEnd_trimEnd code)
  rw [hbrace] at htrimmed
  rw [hleftover, ← trimEnd_of_append htrimmed, trimEnd_spaces hgap]

/-- The first line of a header spells it if nothing but white space is left over. -/
theorem spelledBy_iff :
    header.SpelledBy code ↔
      parse? code = some header ∧ ∀ c ∈ leftover code, isSpace c = true := by
  constructor
  · intro h
    obtain ⟨-, gap, hgap, -, hparse, hleftover⟩ := h.reads
    exact ⟨hparse, hleftover ▸ hgap⟩
  · rintro ⟨hparse, hleftover⟩
    obtain ⟨s, s', hsigil, hname, hheader⟩ := parse?_eq_some_iff.mp hparse
    rw [leftover_eq hsigil hname, List.forall_mem_append] at hleftover
    obtain ⟨hkeyword, hbehind⟩ := hleftover
    obtain ⟨named, hnamed, hhead, rfl⟩ := typedName?_eq_some_iff.mp hname
    obtain ⟨listed, hlisted, hs'⟩ := Param.exists_listSpelledBy hhead
    -- The word before the first colon is no white space, so there is none.
    have hfirst : ∀ p ∈ (paramsOf s').head?, p.keyword = [] := by
      intro p hp
      rw [Option.mem_def.mp hp] at hkeyword
      rw [List.eq_nil_iff_forall_not_mem]
      intro c hc
      have hspace : isSpace c = true := hkeyword c hc
      rw [isSpace_of_isWord (hlisted.keyword_isWord p hp c hc)] at hspace
      exact Bool.false_ne_true hspace
    rw [hheader, Param.modifyHead_unlabelled hfirst]
    refine .mk hnamed hlisted hfirst ?_
    refine endsWithBrace_of_stripBrace ?_ hbehind
    rw [Prod.ext_iff]
    refine ⟨?_, rfl⟩
    rw [sigil?_eq_some_iff.mp hsigil]
    conv_lhs => rw [hs']
    simp

end MethodHeader

/-- A line that continues a header spells its parameter if nothing but white space is left over. -/
theorem Continuation.spelledBy_iff {continuation : Continuation} {line : Text} :
    continuation.SpelledBy line ↔
      parse? line = some continuation ∧ ∀ c ∈ leftover line, isSpace c = true := by
  constructor
  · rintro @⟨lead, keyword, type, name, named, line, opensBody, hlead, hne, hkeyword, hnamed, hcode⟩
    have hends : ∃ front w, IsIdentifier w ∧ lead ++ (keyword ++ ':' :: named) = front ++ w := by
      obtain ⟨front, hname, hfront⟩ := hnamed.exists_name
      exact ⟨lead ++ (keyword ++ ':' :: front), name, hname, by simp [hfront]⟩
    obtain ⟨gap, hgap, hbrace⟩ := hcode.stripBrace_eq hends
    have hspace : afterSpace? (lead ++ (keyword ++ ':' :: named) ++ gap) =
        some (keyword ++ ':' :: (named ++ gap)) := by
      obtain ⟨c, lead, rfl⟩ := List.exists_cons_of_ne_nil hne
      obtain ⟨hc, hlead⟩ := List.forall_mem_cons.mp hlead
      have htrim := trimStart_append hlead (hkeyword.head_not_space (':' :: (named ++ gap)))
      simpa [afterSpace?, hc] using htrim
    have hword : nextWord? (keyword ++ ':' :: (named ++ gap)) =
        some (keyword, ':' :: (named ++ gap)) :=
      nextWord?_eq_some_iff.mpr ⟨hkeyword, by rintro _ ⟨⟩; decide, rfl⟩
    have hcolon : after? ":" (':' :: (named ++ gap)) = some (named ++ gap) :=
      after?_eq_some_iff.mpr rfl
    have hname : typedName? (named ++ gap) = some (type, name, gap) :=
      typedName?_eq_some_iff.mpr ⟨named, hnamed, head_not_word_of_spaces hgap, rfl⟩
    constructor
    · simp only [parse?, hbrace, hspace, hword, hcolon, hname, Option.bind_eq_bind,
        Option.bind_some]
    · simpa only [leftover, hbrace, hspace, hword, hcolon, hname, Option.bind_eq_bind,
        Option.bind_some, Option.getD_some] using hgap
  · rintro ⟨hparse, hleftover⟩
    simp only [parse?, Option.bind_eq_bind, Option.bind_eq_some_iff, Prod.exists] at hparse
    obtain ⟨s₁, hspace, keyword, s₂, hword, s₃, hcolon, type, name, rest, hname, h⟩ := hparse
    simp only [leftover, hspace, hword, hcolon, hname, Option.bind_eq_bind, Option.bind_some,
      Option.getD_some] at hleftover
    obtain rfl := Option.some.inj h
    obtain ⟨hkeyword, hhead, rfl⟩ := nextWord?_eq_some_iff.mp hword
    obtain rfl := after?_eq_some_iff.mp hcolon
    obtain ⟨named, hnamed, -, rfl⟩ := typedName?_eq_some_iff.mp hname
    obtain ⟨lead, hlead, hne, hcode⟩ := exists_of_afterSpace? hspace
    refine .mk hlead hne hkeyword hnamed (endsWithBrace_of_stripBrace ?_ hleftover)
    rw [Prod.ext_iff]
    exact ⟨hcode.trans (by simp), rfl⟩

end Swiftward
