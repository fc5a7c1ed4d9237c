import Swiftward.Proofs.MessageSend.Expression
import Swiftward.Proofs.Statement.Indentation
import Swiftward.Proofs.Statement.LineFeed
import Swiftward.Proofs.Statement.Literal

/-!
# Substitutions in expressions

As it is written, an expression may have a `@` before its string literals, and names and words that
are replaced. The substitutions act on each of its names and literals on their own
(`ActsOnWords`), so they make of it an expression of the same shape
(`Operand.exists_substituted`). What stands in front of it and behind it does not matter, and so an
argument becomes in its place what it becomes by itself (`Operand.converted`).
-/

namespace Swiftward

/-! ### Names between signs -/

/-- Whether a character stays where it is, and tells the substitutions where a word ends. -/
def isSign (c : Char) : Bool := !Unicode.isWord c && c != '@' && c != '%'

/-- No word goes on at the start of the text. -/
def Delimited (t : Text) : Prop := ∀ c ∈ t.head?, isSign c = true

lemma delimited_nil : Delimited [] := by simp [Delimited]

lemma delimited_cons {c : Char} (hc : isSign c = true) (t : Text) : Delimited (c :: t) := by
  rintro d ⟨⟩
  exact hc

lemma delimited_append {lead : Text} (hne : lead ≠ []) (hlead : ∀ c ∈ lead, isSign c = true)
    (t : Text) : Delimited (lead ++ t) := by
  obtain ⟨c, lead, rfl⟩ := List.exists_cons_of_ne_nil hne
  exact delimited_cons (hlead c List.mem_cons_self) _

lemma isWord_of_isSign {c : Char} (h : isSign c = true) : isWord c = false := by
  simp only [isSign, Bool.and_eq_true, Bool.not_eq_true'] at h
  exact h.1.1

/-- No name is the storage word, which goes with the white space behind it. -/
def Name.IsStable (n : Name) : Prop := n.text ≠ "__block".toList

instance (n : Name) : Decidable n.IsStable := inferInstanceAs (Decidable (_ ≠ _))

/-- A function on texts that keeps signs and acts on its own on each name between them. -/
structure ActsOnWords (g : Text → Text) : Prop where
  nil : g [] = []
  cons {c : Char} (hc : isSign c = true) (s : Text) : g (c :: s) = c :: g s
  name {n : Name} (hn : n.IsStable) {t : Text} (ht : Delimited t) :
    g (n.text ++ t) = g n.text ++ g t
  exists_name {n : Name} (hn : n.IsStable) : ∃ n' : Name, n'.IsStable ∧ n'.text = g n.text

namespace ActsOnWords

variable {g h : Text → Text}

lemma delimited (hg : ActsOnWords g) {t : Text} (ht : Delimited t) : Delimited (g t) := by
  cases t with
  | nil =>
    rw [hg.nil]
    exact delimited_nil
  | cons c t =>
    have hc : isSign c = true := ht c rfl
    rw [hg.cons hc]
    exact delimited_cons hc _

lemma comp (hg : ActsOnWords g) (hh : ActsOnWords h) : ActsOnWords fun s => g (h s) where
  nil := by rw [hh.nil, hg.nil]
  cons hc s := by rw [hh.cons hc, hg.cons hc]
  name hn t ht := by
    obtain ⟨n', hn', htext⟩ := hh.exists_name hn
    rw [hh.name hn ht, ← htext, hg.name hn' (hh.delimited ht)]
  exists_name hn := by
    obtain ⟨n', hn', htext⟩ := hh.exists_name hn
    obtain ⟨n'', hn'', htext'⟩ := hg.exists_name hn'
    exact ⟨n'', hn'', by rw [htext', htext]⟩

lemma append (hg : ActsOnWords g) {lead : Text} (hlead : ∀ c ∈ lead, isSign c = true) (s : Text) :
    g (lead ++ s) = lead ++ g s := by
  induction lead with
  | nil => rfl
  | cons c lead ih =>
    obtain ⟨hc, hlead⟩ := List.forall_mem_cons.mp hlead
    rw [List.cons_append, hg.cons hc, ih hlead, List.cons_append]

end ActsOnWords

/-! ### Markers -/

lemma stripMarkers_of_not_mem {s : Text} (h : '@' ∉ s) : stripMarkers s = s := by
  suffices hafter : ∀ previous, stripMarkersAfter previous s = s from hafter none
  intro previous
  induction s generalizing previous with
  | nil => rfl
  | cons c s ih =>
    rw [List.mem_cons, not_or] at h
    rw [stripMarkersAfter, if_neg (fun hat => h.1 hat.1.symm), ih h.2]

/-- A text that ends neither in the mark of a literal nor in the sign that protects one. -/
lemma stripMarkers_append {s : Text} (hat : s.getLast? ≠ some '@')
    (hpercent : s.getLast? ≠ some '%') (t : Text) :
    stripMarkers (s ++ t) = stripMarkers s ++ stripMarkers t := by
  rw [stripMarkers, stripMarkersAfter_append none hat, Option.or_none,
    stripMarkersAfter_eq hpercent]
  rfl

lemma Name.getLast?_ne {n : Name} {c : Char} (hc : Swiftward.isNameChar c = false) :
    n.text.getLast? ≠ some c := by
  rw [List.getLast?_eq_some_getLast n.ne_nil]
  intro h
  exact ne_of_class (n.isNameChar _ (List.getLast_mem n.ne_nil)) hc (Option.some.inj h)

lemma actsOnWords_stripMarkers : ActsOnWords stripMarkers where
  nil := rfl
  cons {c} hc s := by
    have hat : c ≠ '@' := ne_of_class hc (by decide)
    have hpercent : some c ≠ some '%' := by simpa using ne_of_class hc (by decide)
    rw [stripMarkers, stripMarkersAfter, if_neg (fun h => hat h.1), stripMarkersAfter_eq hpercent]
  name _ t _ := stripMarkers_append (Name.getLast?_ne (by decide)) (Name.getLast?_ne (by decide)) t
  exists_name {n} hn := by
    have hat : '@' ∉ n.text := fun h => ne_of_class (n.isNameChar _ h) (by decide) rfl
    exact ⟨n, hn, (stripMarkers_of_not_mem hat).symm⟩

/-! ### Words -/

lemma Name.isIdentifier (n : Name) : IsIdentifier n.text := ⟨n.ne_nil, n.isWord⟩

lemma Name.substituteWords_append {n : Name} (hn : n.IsStable) {t : Text} (ht : Delimited t) :
    substituteWords (n.text ++ t) = wordSubstitute n.text ++ substituteWords t := by
  have hstays : lineRule.drops n.text = true → ∀ c ∈ t.head?, isSpace c = false := fun hdrops =>
    absurd (of_decide_eq_true hdrops) hn
  exact isPass_substituteWords.word n.isIdentifier (fun c hc => isWord_of_isSign (ht c hc)) hstays

lemma Name.substituteWords_text {n : Name} (hn : n.IsStable) :
    substituteWords n.text = wordSubstitute n.text := by
  have halone := Name.substituteWords_append hn delimited_nil
  rwa [isPass_substituteWords.nil, List.append_nil, List.append_nil] at halone

/-- A name spelled out. -/
def Name.ofString (s : String) (h : s.toList ≠ [] ∧ s.toList.all Swiftward.isNameChar = true) :
    Name :=
  ⟨s.toList, h.1, List.all_eq_true.mp h.2⟩

/-- What stands in place of a name is a name. -/
lemma Name.exists_wordSubstitute {n : Name} (hn : n.IsStable) :
    ∃ n' : Name, n'.IsStable ∧ n'.text = wordSubstitute n.text := by
  unfold wordSubstitute
  split_ifs
  · exact ⟨.ofString "false" (by decide), by decide, rfl⟩
  · exact ⟨.ofString "true" (by decide), by decide, rfl⟩
  · exact ⟨.ofString "println" (by decide), by decide, rfl⟩
  · exact ⟨.ofString "assert" (by decide), by decide, rfl⟩
  · exact ⟨n, hn, rfl⟩

theorem actsOnWords_substituteWords : ActsOnWords substituteWords where
  nil := isPass_substituteWords.nil
  cons hc s := isPass_substituteWords.sign (isWord_of_isSign hc) s
  name hn t ht := by rw [Name.substituteWords_append hn ht, Name.substituteWords_text hn]
  exists_name hn := by
    rw [Name.substituteWords_text hn]
    exact Name.exists_wordSubstitute hn

/-! ### Statements -/

/-- All substitutions but that of the semicolon. -/
def substituteInside (s : Text) : Text := substituteWords (stripMarkers s)

lemma actsOnWords_substituteInside : ActsOnWords substituteInside :=
  actsOnWords_substituteWords.comp actsOnWords_stripMarkers

/-- Without a semicolon at its end, a statement is substituted like the inside of one. -/
lemma substitute_of_last {c : Char} (hspace : isSpace c = false) (hsemicolon : c ≠ ';') (s : Text) :
    substitute (s ++ [c]) = substituteInside (s ++ [c]) := by
  obtain ⟨v, -, hstrip⟩ := exists_stripMarkersAfter none s [c]
  have hlast (previous : Option Char) : stripMarkersAfter previous [c] = [c] := by
    simp [stripMarkersAfter]
  rw [hlast] at hstrip
  have hkept : dropSemicolon (stripMarkers (s ++ [c])) = stripMarkers (s ++ [c]) := by
    rw [stripMarkers, hstrip, dropSemicolon, trimEnd_append_singleton hspace, before?, if_neg]
    · rfl
    · simpa using hsemicolon
  rw [substitute_eq, hkept, substituteInside]

lemma substitute_semicolon {s : Text} (hat : s.getLast? ≠ some '@')
    (hpercent : s.getLast? ≠ some '%') : substitute (s ++ [';']) = substituteInside s := by
  have hstrip : stripMarkers (s ++ [';']) = stripMarkers s ++ [';'] :=
    stripMarkers_append hat hpercent _
  have hdropped : dropSemicolon (stripMarkers s ++ [';']) = stripMarkers s := by
    rw [dropSemicolon, trimEnd_append_singleton (by decide), before?_eq_some_iff.mpr rfl]
    rfl
  rw [substitute_eq, hstrip, hdropped, substituteInside]

/-! ### String literals -/

/-- The content of the literal after the substitutions. -/
def StringLiteral.substituted (s : StringLiteral) : Text := (substitute s.print).tail.dropLast

/-- The literal is one after the substitutions. -/
def StringLiteral.IsStable (s : StringLiteral) : Prop :=
  Swiftward.isStringContent s.substituted = true

instance (s : StringLiteral) : Decidable s.IsStable :=
  inferInstanceAs (Decidable (Swiftward.isStringContent s.substituted = true))

namespace StringLiteral

variable (s : StringLiteral)

lemma substitute_print : substitute s.print = substituteInside s.print :=
  substitute_of_last (by decide) (by decide) ('"' :: s.content)

/-- Between its quotes, a literal is substituted on its own. -/
lemma exists_substituteInside :
    ∃ u, ∀ t, substituteInside (s.print ++ t) = '"' :: (u ++ '"' :: substituteInside t) := by
  obtain ⟨v, -, hstrip⟩ := exists_stripMarkersAfter (some '"') s.content ['"']
  have hquote : isUnquoted '"' = false := by decide
  have hlast : s.print.getLast? = some '"' := List.getLast?_concat
  have hclosing (previous : Option Char) : stripMarkersAfter previous ['"'] = ['"'] := by
    simp [stripMarkersAfter]
  have hstripped : stripMarkers s.print = '"' :: (v ++ ['"']) := by
    rw [hclosing] at hstrip
    rw [print, List.cons_append, stripMarkers, stripMarkersAfter, if_neg (fun h => by simp at h),
      hstrip]
  refine ⟨substituteWords v, fun t => ?_⟩
  have hbehind : stripMarkers (s.print ++ t) = [] ++ '"' :: (v ++ '"' :: stripMarkers t) := by
    rw [stripMarkers_append (by rw [hlast]; decide) (by rw [hlast]; decide), hstripped]
    simp
  rw [substituteInside, hbehind, actsBetweenQuotes_substituteWords.quote _ _ hquote,
    actsBetweenQuotes_substituteWords.quote _ _ hquote, actsBetweenQuotes_substituteWords.nil]
  rfl

lemma substituteInside_append (t : Text) :
    substituteInside (s.print ++ t) = '"' :: (s.substituted ++ '"' :: substituteInside t) := by
  obtain ⟨u, hu⟩ := s.exists_substituteInside
  have halone := hu []
  rw [List.append_nil] at halone
  have hcontent : s.substituted = u := by
    have hnil : substituteInside [] = [] := rfl
    rw [substituted, substitute_print, halone, hnil]
    simp
  rw [hcontent, hu]

lemma markOpen_notMem_substituted : Cell.markOpen ∉ s.substituted := by
  intro hmem
  have halone := s.substituteInside_append []
  rw [List.append_nil, ← substitute_print] at halone
  have hprint : Cell.markOpen ∈ substitute s.print :=
    halone ▸ List.mem_cons_of_mem _ (List.mem_append_left _ hmem)
  rcases mem_substitute hprint with hprint | hword
  · exact (Operand.string s).markless hprint
  · exact absurd hword (by decide +kernel)

end StringLiteral

/-! ### Expressions as they are written -/

mutual
/-- An expression as it is written, with a `@` before those string literals that are marked. -/
def Expr.source (marked : StringLiteral → Bool) : Expr → Text
  | .name n => n.text
  | .unary receiver selector => '[' :: receiver.source marked ++ ' ' :: selector.text ++ [']']
  | .keyword receiver first argument more =>
    '[' :: receiver.source marked ++ ' ' :: first.text ++ ':' :: argument.source marked ++
      more.source marked ++ [']']
  | .subscript base index => base.source marked ++ '[' :: index.source marked ++ [']']
  | .array elements => '@' :: '[' :: elements.source marked [] ++ [']']

@[inherit_doc Expr.source]
def Operand.source (marked : StringLiteral → Bool) : Operand → Text
  | .expr e => e.source marked
  | .string s => if marked s then '@' :: s.print else s.print

@[inherit_doc Expr.source]
def Arguments.source (marked : StringLiteral → Bool) : Arguments → Text
  | .nil => []
  | .cons keyword argument more =>
    ' ' :: keyword.text ++ ':' :: argument.source marked ++ more.source marked

@[inherit_doc Elements.print]
def Elements.source (marked : StringLiteral → Bool) (lead : Text) : Elements → Text
  | .nil => []
  | .cons element more => lead ++ element.source marked ++ more.source marked [',', ' ']
end

mutual
/-- The substitutions leave each name a name and each string literal one. -/
def Expr.IsStable : Expr → Prop
  | .name n => n.IsStable
  | .unary receiver selector => receiver.IsStable ∧ selector.IsStable
  | .keyword receiver first argument more =>
    receiver.IsStable ∧ first.IsStable ∧ argument.IsStable ∧ more.IsStable
  | .subscript base index => base.IsStable ∧ index.IsStable
  | .array elements => elements.IsStable

@[inherit_doc Expr.IsStable]
def Operand.IsStable : Operand → Prop
  | .expr e => e.IsStable
  | .string s => s.IsStable

@[inherit_doc Expr.IsStable]
def Arguments.IsStable : Arguments → Prop
  | .nil => True
  | .cons keyword argument more => keyword.IsStable ∧ argument.IsStable ∧ more.IsStable

@[inherit_doc Expr.IsStable]
def Elements.IsStable : Elements → Prop
  | .nil => True
  | .cons element more => element.IsStable ∧ more.IsStable
end

section Source

variable (marked : StringLiteral → Bool)

lemma Arguments.delimited_source (as : Arguments) {t : Text} (ht : Delimited t) :
    Delimited (as.source marked ++ t) := by
  cases as with
  | nil => exact ht
  | cons => exact delimited_cons (by decide) _

lemma Elements.delimited_source (es : Elements) {t : Text} (ht : Delimited t) :
    Delimited (es.source marked [',', ' '] ++ t) := by
  cases es with
  | nil => exact ht
  | cons => exact delimited_cons (by decide) _

/-- The mark of an array literal stays. -/
lemma substituteInside_array (s : Text) :
    substituteInside ('@' :: '[' :: s) = '@' :: '[' :: substituteInside s := by
  have hbracket : stripMarkers ('[' :: s) = '[' :: stripMarkers s :=
    actsOnWords_stripMarkers.cons (by decide) s
  have hstrip : stripMarkers ('@' :: '[' :: s) = '@' :: '[' :: stripMarkers s := by
    rw [← hbracket, stripMarkers, stripMarkersAfter, if_neg (fun h => by simp at h),
      stripMarkersAfter_eq (by decide)]
  rw [substituteInside, hstrip, substituteWords_cons (by decide), substituteWords_cons (by decide)]
  rfl

/-- The mark of a string literal goes. -/
lemma StringLiteral.substituteInside_source (s : StringLiteral) (t : Text) :
    substituteInside ((Operand.string s).source marked ++ t) =
      '"' :: (s.substituted ++ '"' :: substituteInside t) := by
  rw [← s.substituteInside_append, Operand.source]
  split
  · have hstrip : stripMarkers ('@' :: (s.print ++ t)) = stripMarkers (s.print ++ t) := by
      rw [stripMarkers, stripMarkersAfter, if_pos ⟨rfl, rfl, by decide⟩,
        stripMarkersAfter_eq (by decide)]
    rw [List.cons_append, substituteInside, hstrip, substituteInside]
  · rfl

variable {marked}

/-- What an operand is converted to by itself. -/
def Operand.converted (marked : StringLiteral → Bool) (a : Operand) : Text :=
  collapseSends (substitute (a.source marked))

/-- The arguments behind the first one as a call has them, each of them converted by itself. -/
def Arguments.converted (marked : StringLiteral → Bool) : Arguments → Text
  | .nil => []
  | .cons keyword argument more =>
    ", ".toList ++ substitute keyword.text ++ ": ".toList ++ argument.converted marked ++
      more.converted marked

lemma Name.exists_concat (n : Name) :
    ∃ init c, n.text = init ++ [c] ∧ Swiftward.isNameChar c = true := by
  obtain ⟨init, c, htext⟩ := (List.eq_nil_or_concat n.text).resolve_left n.ne_nil
  rw [List.concat_eq_append] at htext
  exact ⟨init, c, htext, n.isNameChar c (by simp [htext])⟩

lemma Name.substitute_text (n : Name) : substitute n.text = substituteInside n.text := by
  obtain ⟨init, c, htext, hc⟩ := n.exists_concat
  rw [htext]
  exact substitute_of_last (isSpace_of_isNameChar hc) (ne_of_class hc (by decide)) init

/-- No operand ends with a semicolon. -/
lemma Operand.substitute_source (a : Operand) :
    substitute (a.source marked) = substituteInside (a.source marked) := by
  have hbracket (s : Text) : substitute (s ++ [']']) = substituteInside (s ++ [']']) :=
    substitute_of_last (by decide) (by decide) s
  match a with
  | .expr (.name n) => exact n.substitute_text
  | .expr (.unary ..) | .expr (.keyword ..) | .expr (.subscript ..) | .expr (.array ..) =>
    rw [source, Expr.source]
    exact hbracket _
  | .string s =>
    rw [source]
    split
    · exact substitute_of_last (by decide) (by decide) ('@' :: '"' :: s.content)
    · exact s.substitute_print

/-- What a part of a statement becomes in its place, it becomes by itself. -/
lemma Operand.render_eq_converted {a a' : Operand}
    (h : ∀ {t}, Delimited t →
      substituteInside (a.source marked ++ t) = a'.print ++ substituteInside t) :
    a'.render = a.converted marked := by
  have halone := h delimited_nil
  have hnil : substituteInside [] = [] := rfl
  rw [hnil, List.append_nil, List.append_nil, ← a.substitute_source] at halone
  have hcollapse := a'.collapseSends_behind plain_nil (by decide) (by decide) (by decide)
  rw [List.nil_append, List.nil_append] at hcollapse
  rw [converted, halone, hcollapse]

mutual
/-- An expression is one after the substitutions, whatever stands behind it. -/
lemma Expr.exists_substituted {e : Expr} (h : e.IsStable) :
    ∃ e' : Expr, ∀ {t}, Delimited t →
      substituteInside (e.source marked ++ t) = e'.print ++ substituteInside t := by
  have hacts := actsOnWords_substituteInside
  match e with
  | .name n =>
    obtain ⟨n', -, htext⟩ := hacts.exists_name h
    refine ⟨.name n', fun ht => ?_⟩
    rw [Expr.source, hacts.name h ht, ← htext, Expr.print]
  | .unary receiver selector =>
    obtain ⟨hreceiver, hselector⟩ := h
    obtain ⟨receiver', hreceiver⟩ := Expr.exists_substituted hreceiver
    obtain ⟨selector', -, htext⟩ := hacts.exists_name hselector
    refine ⟨.unary receiver' selector', fun {t} ht => ?_⟩
    have hsource : (Expr.unary receiver selector).source marked ++ t =
        '[' :: (receiver.source marked ++ ' ' :: (selector.text ++ ']' :: t)) := by
      simp [Expr.source]
    rw [hsource, hacts.cons (by decide), hreceiver (delimited_cons (by decide) _),
      hacts.cons (by decide), hacts.name hselector (delimited_cons (by decide) _),
      hacts.cons (by decide), ← htext]
    simp [Expr.print]
  | .keyword receiver first argument more =>
    obtain ⟨hreceiver, hfirst, hargument, hmore⟩ := h
    obtain ⟨receiver', hreceiver⟩ := Expr.exists_substituted hreceiver
    obtain ⟨first', -, htext⟩ := hacts.exists_name hfirst
    obtain ⟨argument', hargument⟩ := Operand.exists_substituted hargument
    obtain ⟨more', -, hmore⟩ := Arguments.exists_substituted hmore
    refine ⟨.keyword receiver' first' argument' more', fun {t} ht => ?_⟩
    have hsource : (Expr.keyword receiver first argument more).source marked ++ t =
        '[' :: (receiver.source marked ++ ' ' :: (first.text ++ ':' :: (argument.source marked ++
          (more.source marked ++ ']' :: t)))) := by
      simp [Expr.source]
    have hclose : Delimited (']' :: t) := delimited_cons (by decide) t
    rw [hsource, hacts.cons (by decide), hreceiver (delimited_cons (by decide) _),
      hacts.cons (by decide), hacts.name hfirst (delimited_cons (by decide) _),
      hacts.cons (by decide), hargument (more.delimited_source marked hclose), hmore hclose,
      hacts.cons (by decide), ← htext]
    simp [Expr.print]
  | .subscript base index =>
    obtain ⟨hbase, hindex⟩ := h
    obtain ⟨base', hbase⟩ := Expr.exists_substituted hbase
    obtain ⟨index', hindex⟩ := Operand.exists_substituted hindex
    refine ⟨.subscript base' index', fun {t} ht => ?_⟩
    have hsource : (Expr.subscript base index).source marked ++ t =
        base.source marked ++ '[' :: (index.source marked ++ ']' :: t) := by
      simp [Expr.source]
    rw [hsource, hbase (delimited_cons (by decide) _), hacts.cons (by decide),
      hindex (delimited_cons (by decide) _), hacts.cons (by decide)]
    simp [Expr.print]
  | .array elements =>
    obtain ⟨elements', helements⟩ := Elements.exists_substituted h
    refine ⟨.array elements', fun {t} ht => ?_⟩
    have hsource : (Expr.array elements).source marked ++ t =
        '@' :: '[' :: (elements.source marked [] ++ ']' :: t) := by
      simp [Expr.source]
    rw [hsource, substituteInside_array,
      helements (List.forall_mem_nil _) (delimited_cons (by decide) _), hacts.cons (by decide)]
    simp [Expr.print]

@[inherit_doc Expr.exists_substituted]
lemma Operand.exists_substituted {a : Operand} (h : a.IsStable) :
    ∃ a' : Operand, ∀ {t}, Delimited t →
      substituteInside (a.source marked ++ t) = a'.print ++ substituteInside t := by
  match a with
  | .expr e =>
    obtain ⟨e', he⟩ := Expr.exists_substituted h
    exact ⟨.expr e', he⟩
  | .string s =>
    refine ⟨.string ⟨s.substituted, h, s.markOpen_notMem_substituted⟩, fun {t} _ => ?_⟩
    rw [s.substituteInside_source, Operand.print, StringLiteral.print]
    simp

@[inherit_doc Expr.exists_substituted]
lemma Arguments.exists_substituted {as : Arguments} (h : as.IsStable) :
    ∃ as' : Arguments, as'.render = as.converted marked ∧ ∀ {t}, Delimited t →
      substituteInside (as.source marked ++ t) = as'.print ++ substituteInside t := by
  have hacts := actsOnWords_substituteInside
  match as with
  | .nil =>
    refine ⟨.nil, rfl, fun _ => ?_⟩
    rw [Arguments.source, Arguments.print, List.nil_append, List.nil_append]
  | .cons keyword argument more =>
    obtain ⟨hkeyword, hargument, hmore⟩ := h
    obtain ⟨keyword', -, htext⟩ := hacts.exists_name hkeyword
    obtain ⟨argument', hargument⟩ := Operand.exists_substituted hargument
    obtain ⟨more', hrender, hmore⟩ := Arguments.exists_substituted hmore
    refine ⟨.cons keyword' argument' more', ?_, fun {t} ht => ?_⟩
    · rw [Arguments.render, Arguments.converted, Operand.render_eq_converted hargument, hrender,
        htext, keyword.substitute_text]
      simp
    have hsource : (Arguments.cons keyword argument more).source marked ++ t =
        ' ' :: (keyword.text ++ ':' :: (argument.source marked ++ (more.source marked ++ t))) := by
      simp [Arguments.source]
    rw [hsource, hacts.cons (by decide), hacts.name hkeyword (delimited_cons (by decide) _),
      hacts.cons (by decide), hargument (more.delimited_source marked ht), hmore ht, ← htext]
    simp [Arguments.print]

@[inherit_doc Expr.exists_substituted]
lemma Elements.exists_substituted {es : Elements} (h : es.IsStable) :
    ∃ es' : Elements, ∀ {lead t : Text}, (∀ c ∈ lead, isSign c = true) → Delimited t →
      substituteInside (es.source marked lead ++ t) = es'.print lead ++ substituteInside t := by
  have hacts := actsOnWords_substituteInside
  match es with
  | .nil =>
    refine ⟨.nil, fun _ _ => ?_⟩
    rw [Elements.source, Elements.print, List.nil_append, List.nil_append]
  | .cons element more =>
    obtain ⟨helement, hmore⟩ := h
    obtain ⟨element', helement⟩ := Operand.exists_substituted helement
    obtain ⟨more', hmore⟩ := Elements.exists_substituted hmore
    refine ⟨.cons element' more', fun {lead t} hlead ht => ?_⟩
    have hsource : (Elements.cons element more).source marked lead ++ t =
        lead ++ (element.source marked ++ (more.source marked [',', ' '] ++ t)) := by
      simp [Elements.source]
    rw [hsource, hacts.append hlead, helement (more.delimited_source marked ht),
      hmore (List.all_eq_true.mp (by decide)) ht]
    simp [Elements.print]
end

end Source

/-! ### Code without comments -/

lemma Name.slashless (n : Name) : Slashless n.text where
  closed := n.plain.closed
  hasBareFrom_eq := hasBareFrom_of_forall_ne fun c hc =>
    isChar_eq_false (n.isNameChar c hc) (by decide)

lemma StringLiteral.slashless (s : StringLiteral) : Slashless s.print :=
  ⟨s.closed, s.hasBareFrom (by decide)⟩

mutual
lemma Expr.slashless (marked : StringLiteral → Bool) (e : Expr) : Slashless (e.source marked) := by
  match e with
  | .name n => exact n.slashless
  | .unary receiver selector =>
    exact ((receiver.slashless marked).cons (by decide)).append
      (selector.slashless.cons (by decide)) |>.append (by decide)
  | .keyword receiver first argument more =>
    exact ((receiver.slashless marked).cons (by decide)).append
      (first.slashless.cons (by decide)) |>.append
      ((argument.slashless marked).cons (by decide)) |>.append (more.slashless marked) |>.append
      (by decide)
  | .subscript base index =>
    exact (base.slashless marked).append ((index.slashless marked).cons (by decide)) |>.append
      (by decide)
  | .array elements =>
    exact (((elements.slashless marked (by decide)).cons (by decide)).cons (by decide)).append
      (by decide)

lemma Operand.slashless (marked : StringLiteral → Bool) (a : Operand) :
    Slashless (a.source marked) := by
  match a with
  | .expr e => exact e.slashless marked
  | .string s =>
    rw [Operand.source]
    split
    · exact s.slashless.cons (by decide)
    · exact s.slashless

lemma Arguments.slashless (marked : StringLiteral → Bool) (as : Arguments) :
    Slashless (as.source marked) := by
  match as with
  | .nil => exact (by decide : Slashless [])
  | .cons keyword argument more =>
    exact (keyword.slashless.cons (by decide)).append
      ((argument.slashless marked).cons (by decide)) |>.append (more.slashless marked)

lemma Elements.slashless (marked : StringLiteral → Bool) (es : Elements) {lead : Text}
    (hlead : Slashless lead) : Slashless (es.source marked lead) := by
  match es with
  | .nil => exact (by decide : Slashless [])
  | .cons element more =>
    exact (hlead.append (element.slashless marked)).append (more.slashless marked (by decide))
end

end Swiftward
