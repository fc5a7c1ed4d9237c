import Swiftward.Proofs.MessageSend.Balance
import Swiftward.Proofs.Text.Paren

/-!
# Parentheses around sends

A call puts parentheses around the arguments of a send, and writes nothing else with a parenthesis.
So a stretch that closes all parentheses that it opens does so when its sends are converted
(`keepsNesting_collapseSends`), and what stands in parentheses behind code without brackets is
converted on its own (`collapseSends_between`).
-/

namespace Swiftward

variable {α : Type} [Symbol α]

/-! ### Passes -/

lemma Shelters.keepsNesting {values : List Text} (hvalues : ∀ v ∈ values, Closed v) {s t : List Cell}
    (h : Shelters s t) (hs : Intact values s) :
    KeepsNesting (meaning values s) (meaning values t) := by
  induction h with
  | nil => exact .refl []
  | keep hu _ ih =>
    obtain ⟨hfront, hrest⟩ := (Intact.append_iff hu).mp hs
    have hclosed := hfront.closed_meaning hvalues hu
    rw [meaning_append, meaning_append]
    exact (KeepsNesting.refl _).append (ih hrest) hclosed hclosed
  | write hu hv _ ih =>
    have hfront : Closed (Symbol.ofText _ : List Cell) := closed_ofText.mpr hu.unquoted.closed
    rw [meaning_append, meaning_append, meaning_ofText, meaning_ofText]
    exact (KeepsNesting.of_flat hu hv).append (ih ((Intact.append_iff hfront).mp hs).2)
      hu.unquoted.closed hv.unquoted.closed
  | wrap hinside _ ih ih' =>
    -- Both parentheses count, since the stretch between them leaves no literal open.
    obtain ⟨hfront, hrest⟩ := (Intact.append_iff hinside.closed).mp hs
    have hclosed := hfront.closed_meaning hvalues hinside.closed
    have hintact := (hinside.rewords.intact hvalues hfront).1
    have hclosed' := hintact.closed_meaning hvalues hinside.rewords.closed
    have hwrap := ((ih hfront).wrap hclosed').append (ih' hrest) hclosed
      (((closed_singleton (by decide)).append hclosed').append (closed_singleton (by decide)))
    simpa using hwrap

namespace Pass

lemma meaning_setAside {f : Fragments} {lead part : List Cell} (hlead : Known f.values.length lead) :
    meaning (setAside lead f part).fragments.values (setAside lead f part).line =
      meaning f.values (lead ++ part) := by
  have hpieces : (setAside lead f part).pieces = _ := pieces_setAside hlead
  have htext := congrArg (fun pieces => Piece.textOf pieces.1) hpieces
  have hpart (text : Text) : Piece.textOf [.part text] = text := List.append_nil text
  dsimp only [pieces] at htext
  rwa [Piece.textOf_append, Cell.textOf_map_piece, Cell.textOf_map_piece, hpart,
    Cell.textOf_map_piece, ← meaning_append] at htext

variable {f : Fragments} {previous : Option Cell}

lemma keepsNesting_ofPair (hprevious : previous ≠ some (.char '@')) (hf : f.Sound)
    {pair : BracketPair Cell} (hpair : pair.IsClosed)
    (hi : Intact f.values (pair.before ++ pair.whole)) :
    KeepsNesting (meaning f.values (pair.before ++ pair.whole))
      (meaning (ofPair previous f pair).fragments.values (ofPair previous f pair).line) := by
  cases hpart : (BracketRole.behind (pair.before.getLast? <|> previous)).part? pair.interior with
  | none =>
    rw [ofPair_of_not_part f hpart]
    exact .refl _
  | some part =>
    have hlead := shelters_lead hpair hprevious
    have hknown := (hlead.rewords.intact hf.closed ((Intact.append_iff hpair.before).mp hi).1).1.known
    rw [ofPair_of_part f pair.before hpart, meaning_setAside hknown]
    exact (hlead.append (BracketRole.shelters_of_part? hpair hpart)).keepsNesting hf.closed hi

lemma keepsNesting_ofPairs (hprevious : previous ≠ some (.char '@')) (hf : f.Sound)
    {pairs : List (BracketPair Cell)} (hpairs : ∀ pair ∈ pairs, pair.IsClosed)
    (hi : Intact f.values (pairs.flatMap fun pair => pair.before ++ pair.whole)) :
    KeepsNesting (meaning f.values (pairs.flatMap fun pair => pair.before ++ pair.whole))
      (meaning (ofPairs previous f pairs).fragments.values (ofPairs previous f pairs).line) := by
  induction pairs generalizing previous f with
  | nil => exact .refl []
  | cons pair pairs ih =>
    obtain ⟨hpair, hpairs⟩ := List.forall_mem_cons.mp hpairs
    have hclosed := hpair.before.append hpair.whole
    rw [List.flatMap_cons] at hi ⊢
    obtain ⟨hfirst, hlater⟩ := (Intact.append_iff hclosed).mp hi
    have hkeeps := keeps_ofPair hprevious hf hpair hfirst
    have hbracket : some (Cell.char ']') ≠ some (.char '@') := by simp
    have hlater' := hlater.mono hkeeps.values_le
    have hrest := keeps_ofPairs hbracket hkeeps.sound hpairs hlater'
    have hnest := keepsNesting_ofPair hprevious hf hpair hfirst
    have hnestLater := ih hbracket hkeeps.sound hpairs hlater'
    rw [hlater.meaning_eq hkeeps.values_le] at hnestLater
    rw [← hkeeps.intact.meaning_eq hrest.values_le] at hnest
    have hboth := hnest.append hnestLater (hfirst.closed_meaning hf.closed hclosed)
      ((hkeeps.intact.mono hrest.values_le).closed_meaning hrest.sound.closed hkeeps.closed)
    rwa [← meaning_append, ← meaning_append] at hboth

lemma keepsNesting_ofLine (hf : f.Sound) {line : List Cell} (hi : Intact f.values line) :
    KeepsNesting (meaning f.values line)
      (meaning (ofLine f line).fragments.values (ofLine f line).line) := by
  have hline := Bracketed.toText_ofText line
  rw [Bracketed.toText] at hline
  obtain ⟨hpairs, hfront, hipairs, htail⟩ := hi.cut
  have hstart : (none : Option Cell) ≠ some (.char '@') := by simp
  have hkeeps := keeps_ofPairs hstart hf hpairs hipairs
  have hnest := keepsNesting_ofPairs hstart hf hpairs hipairs
  have htailKept := KeepsNesting.refl (meaning f.values (Bracketed.ofText line).tail)
  have hwhole := hnest.append htailKept (hipairs.closed_meaning hf.closed hfront)
    (hkeeps.intact.closed_meaning hkeeps.sound.closed hkeeps.closed)
  rw [← meaning_append, hline, ← htail.meaning_eq hkeeps.values_le, ← meaning_append] at hwhole
  exact hwhole

end Pass

lemma Passes.keepsNesting {f f' : Fragments} {line line' : List Cell} (h : Passes f line f' line')
    (hf : f.Sound) (hi : Intact f.values line) :
    KeepsNesting (meaning f.values line) (meaning f'.values line') := by
  induction h with
  | none => exact .refl _
  | one h ih =>
    have hsame := h.sameLiterals hf hi
    exact ih.trans (Pass.keepsNesting_ofLine hsame.sound hsame.intact)

/-- Converting the sends of a line keeps the nesting of its parentheses, if it closes none that it
does not open. -/
theorem keepsNesting_collapseSends (line : Text) : KeepsNesting line (collapseSends line) := by
  unfold collapseSends
  split
  · exact .refl line
  · have hpasses := passes_settle .empty (Symbol.ofText line)
    have hsame := hpasses.sameLiterals Fragments.sound_empty (.ofText line)
    have hnest := hpasses.keepsNesting Fragments.sound_empty (.ofText line)
    rw [meaning_ofText] at hnest
    rwa [Fragments.spell_expand hsame.sound.ordered (by simpa using hsame.intact.known)]

/-! ### What stands in parentheses -/

/-- Behind the last bracket, a text closes no pair. -/
lemma interior?_append_of_bracketless {q : Quoting} {s t : List α}
    (ht : hasBareBracketFrom (q.run s) t = false) :
    interior? q (s ++ t) = (interior? q s).map fun (inside, rest) => (inside, rest ++ t) := by
  induction s generalizing q with
  | nil =>
    have hnone := interior?_append ht []
    rwa [List.append_nil] at hnone
  | cons a s ih =>
    simp only [List.cons_append, interior?]
    split_ifs with hclose hopen
    · rfl
    · rfl
    · rw [ih ht, Option.map_map, Option.map_map]
      rfl

lemma Bracketed.ofText_append_of_bracketless {s t : List α} (hs : Closed s)
    (ht : hasBareBracket t = false) : ofText (s ++ t) = ⟨(ofText s).pairs, (ofText s).tail ++ t⟩ := by
  have hseparated : Separated .code s t := by
    rintro front back rfl hfront
    rw [Closed, Quoting.run_append, hfront, Quoting.run_cons, step_code_ofChar (by decide)] at hs
    exact interior?_append_of_bracketless (by rwa [hs])
  have hbehind : ofText t = ⟨[], t⟩ := by
    have happend := ofTextFrom_append ht []
    rw [List.append_nil, ofTextFrom] at happend
    rw [ofText, happend, prepend, List.append_nil]
  rw [ofText, ofTextFrom_append_of_separated _ _ _ hseparated, hs, ← ofText, ← ofText, hbehind]
  simp [append, prepend]

namespace Piece

variable {front s s' behind : List Piece}

/-- Text without brackets in front changes nothing, unless it gives the first pair a role. -/
lemma pass_prepend (hfront : Plain front) (hrole : roleBehind front.getLast? = .send) :
    pass (front ++ s) = (front ++ (pass s).1, (pass s).2) := by
  rw [pass, pass, Bracketed.ofText_append hfront]
  generalize Bracketed.ofText s = cut
  obtain ⟨_ | ⟨pair, pairs⟩, tail⟩ := cut
  · rfl
  · have hpair : ofPair none { pair with before := front ++ pair.before } =
        (front ++ (ofPair none pair).1, (ofPair none pair).2) := by
      -- The role is that of the last piece in front only if nothing else stands before the pair.
      by_cases hbefore : pair.before = []
      · have hlast : (front.getLast? <|> none) = front.getLast? := by cases front.getLast? <;> rfl
        have hnone : roleBehind ((none : Option Piece) <|> none) = .send := rfl
        have hwhole : BracketPair.whole { pair with before := front } = pair.whole := rfl
        unfold ofPair
        rw [hbefore, List.append_nil]
        dsimp only [List.getLast?_nil]
        rw [hlast, hrole, hnone, hwhole]
        cases BracketRole.send.part? pair.interior <;> rfl
      · exact ofPair_of_before none front hbefore
    simp [Bracketed.prepend, ofPairs, hpair]

lemma pass_between (hfront : Plain front) (hrole : roleBehind front.getLast? = .send)
    (hs : Closed s) (hbehind : hasBareBracket behind = false) :
    pass (front ++ s ++ behind) = (front ++ (pass s).1 ++ behind, (pass s).2) := by
  have hcut := Bracketed.ofText_append_of_bracketless (hfront.closed.append hs) hbehind
  have hpass := pass_prepend (s := s) hfront hrole
  rw [pass] at hpass ⊢
  rw [hcut]
  obtain ⟨hline, hchanged⟩ := Prod.mk.inj hpass
  rw [← hline, ← hchanged]
  simp

lemma Settles.between (h : Settles s s') (hfront : Plain front)
    (hrole : roleBehind front.getLast? = .send) (hs : Closed s)
    (hbehind : hasBareBracket behind = false) :
    Settles (front ++ s ++ behind) (front ++ s' ++ behind) := by
  induction h with
  | @done s hdone =>
    have hpass := pass_between hfront hrole hs hbehind
    have hunchanged : (pass (front ++ s ++ behind)).2 = false := by rw [hpass, hdone]
    have hsettles := Settles.done hunchanged
    rwa [hpass] at hsettles
  | @again s s' hagain hlater ih =>
    have hpass := pass_between hfront hrole hs hbehind
    apply Settles.again
    · rw [hpass, hagain]
    · rw [hpass]
      exact ih ((sameBrackets_pass s).run_eq.trans hs)

end Piece

lemma Piece.roleBehind_paren {front : Text} (h : front.getLast? = some '(') :
    roleBehind (Symbol.ofText front : List Piece).getLast? = .send := by
  rw [Symbol.ofText, List.getLast?_map, h]
  rfl

/-- What stands behind an opening parenthesis is converted on its own, where there are brackets
neither before nor behind it. -/
theorem collapseSends_between {front inside behind : Text} (hfront : Plain front)
    (hlast : front.getLast? = some '(') (hinside : Closed inside)
    (hbehind : hasBareBracket behind = false) (hmark : Cell.markOpen ∉ front ++ inside ++ behind) :
    collapseSends (front ++ inside ++ behind) = front ++ collapseSends inside ++ behind := by
  have hmark' : Cell.markOpen ∉ inside := fun h =>
    hmark (List.mem_append_left _ (List.mem_append_right _ h))
  obtain ⟨done, hdone, heq⟩ := collapseSends_eq_textOf hmark'
  have hbetween := hdone.between (plain_ofText.mpr hfront) (Piece.roleBehind_paren hlast)
    (closed_ofText.mpr hinside) ((hasBareBracketFrom_ofText .code behind).trans hbehind)
  rw [← Symbol.ofText_append, ← Symbol.ofText_append] at hbetween
  rw [collapseSends_of_settles hmark hbetween, heq, Piece.textOf_append, Piece.textOf_append,
    Piece.textOf_ofText, Piece.textOf_ofText]

/-- What closes all its brackets is converted on its own behind code without brackets, and so is what
stands behind it, unless a bracket there follows it directly. -/
theorem collapseSends_around {front inside behind : Text} (hfront : Plain front)
    (hrole : Piece.roleBehind (Symbol.ofText front : List Piece).getLast? = .send)
    (hinside : Closed inside) (hbalanced : openBrackets .code 0 inside = 0)
    (hhead : behind.head? ≠ some '[') (hmark : Cell.markOpen ∉ front ++ inside ++ behind) :
    collapseSends (front ++ inside ++ behind) =
      front ++ collapseSends inside ++ collapseSends behind := by
  obtain ⟨hmark', hmarkBehind⟩ := not_or.mp (List.mem_append.not.mp hmark)
  obtain ⟨done, hdone, heq⟩ :=
    collapseSends_eq_textOf fun h => hmark' (List.mem_append_right front h)
  obtain ⟨doneBehind, hdoneBehind, heqBehind⟩ := collapseSends_eq_textOf hmarkBehind
  have hplain : Plain (Symbol.ofText front : List Piece) := plain_ofText.mpr hfront
  have hclosed : Closed (Symbol.ofText (front ++ inside) : List Piece) :=
    closed_ofText.mpr (hfront.closed.append hinside)
  have hopen : openBrackets .code 0 (Symbol.ofText (front ++ inside) : List Piece) = 0 := by
    rw [openBrackets_ofText, openBrackets_append, hfront.closed,
      openBrackets_of_bracketless 0 hfront.bracketless, hbalanced]
  have hhead' : (Symbol.ofText behind : List Piece).head? ≠ some (.char '[') := by
    cases behind with
    | nil => simp
    | cons c behind => simpa [Symbol.ofText, Symbol.ofChar] using hhead
  have hnone : hasBareBracket ([] : List Piece) = false := rfl
  have hfirst := hdone.between hplain hrole (closed_ofText.mpr hinside) hnone
  rw [List.append_nil, List.append_nil, ← Symbol.ofText_append] at hfirst
  have hwhole := hfirst.append hdoneBehind hclosed hopen hhead'
  rw [← Symbol.ofText_append] at hwhole
  rw [collapseSends_of_settles hmark hwhole, heq, heqBehind, Piece.textOf_append,
    Piece.textOf_append, Piece.textOf_ofText]

end Swiftward
