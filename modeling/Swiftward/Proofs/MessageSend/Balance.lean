import Swiftward.Proofs.MessageSend.Piece

/-!
# Lines cut where all brackets are balanced

Where no literal and no bracket is open, a line can be cut in two: the innermost pairs of the line
are those of its two parts (`Bracketed.ofTextFrom_append_of_balanced`), a pass over the line is a
pass over each of them (`Piece.pass_append`), and it leaves all brackets balanced in the first. So
the sends of the two parts are converted independently of each other (`collapseSends_append`),
unless the second begins with a bracket, which the end of the first would give its role.
-/

namespace Swiftward

variable {α : Type} [Symbol α]

/-! ### Open brackets -/

/-- The number of square brackets that are open behind a text read in state `q`, with `depth` of
them open before it. A bracket that closes nothing counts for nothing. -/
def openBrackets (q : Quoting) (depth : Nat) : List α → Nat
  | [] => depth
  | a :: s =>
    if q.bare '[' a then openBrackets (q.step a) (depth + 1) s
    else if q.bare ']' a then openBrackets (q.step a) (depth - 1) s
    else openBrackets (q.step a) depth s

lemma openBrackets_append (q : Quoting) (depth : Nat) (s t : List α) :
    openBrackets q depth (s ++ t) = openBrackets (q.run s) (openBrackets q depth s) t := by
  induction s generalizing q depth with
  | nil => rfl
  | cons a s ih =>
    simp only [List.cons_append, openBrackets, Quoting.run_cons, ih]
    split_ifs <;> rfl

lemma openBrackets_of_bracketless {q : Quoting} (depth : Nat) {s : List α}
    (h : hasBareBracketFrom q s = false) : openBrackets q depth s = depth := by
  induction s generalizing q with
  | nil => rfl
  | cons a s ih =>
    simp only [hasBareBracketFrom, Bool.or_eq_false_iff] at h
    obtain ⟨⟨hopen, hclose⟩, hs⟩ := h
    rw [openBrackets, hopen, hclose]
    exact ih hs

lemma openBrackets_ofText (q : Quoting) (depth : Nat) (s : Text) :
    openBrackets q depth (Symbol.ofText s : List α) = openBrackets q depth s := by
  induction s generalizing q depth with
  | nil => rfl
  | cons c s ih =>
    have hstep : q.step (Symbol.ofChar c : α) = q.step c := by simp [Quoting.step]
    rw [Symbol.ofText] at ih
    simp only [Symbol.ofText, List.map_cons, openBrackets, Quoting.bare_ofChar, hstep, ih]

lemma step_code_ofChar {c : Char} (h : isUnquoted c = true) :
    Quoting.code.step (Symbol.ofChar c : α) = .code :=
  Quoting.step_code_of_isUnquoted (by rwa [isUnquoted_ofChar])

/-! ### Where the pairs are -/

lemma bracketless_interior? {q : Quoting} {s inside rest : List α}
    (h : interior? q s = some (inside, rest)) : hasBareBracketFrom q inside = false := by
  induction s generalizing q inside with
  | nil => simp [interior?] at h
  | cons a s ih =>
    simp only [interior?] at h
    split_ifs at h with hclose hopen
    · obtain ⟨rfl, -⟩ : [] = inside ∧ s = rest := by simpa using h
      rfl
    · obtain ⟨⟨i, r⟩, hi, he⟩ := Option.map_eq_some_iff.mp h
      obtain ⟨rfl, rfl⟩ : a :: i = inside ∧ r = rest := by simpa using he
      simp [hasBareBracketFrom, hopen, hclose, ih hi]

/-- The interior of an innermost pair holds no bracket. -/
lemma Bracketed.bracketless_ofTextFrom (q : Quoting) (s : List α) :
    ∀ pair ∈ (ofTextFrom q s).pairs, hasBareBracket pair.interior = false := by
  fun_induction ofTextFrom q s with
  | case1 => simp
  | case2 q a s inside rest hopened later ih =>
    split_ifs at hopened with ha
    obtain ⟨rfl, -⟩ := Quoting.bare_iff.mp ha
    exact List.forall_mem_cons.mpr ⟨bracketless_interior? hopened, ih⟩
  | case3 q a s hopened ih =>
    generalize ofTextFrom (q.step a) s = cut at ih
    obtain ⟨_ | ⟨first, later⟩, tail⟩ := cut
    · exact ih
    · obtain ⟨hfirst, hlater⟩ := List.forall_mem_cons.mp ih
      exact List.forall_mem_cons.mpr ⟨hfirst, hlater⟩

/-- A bracket that a stretch closes is closed there, whatever follows. -/
lemma interior?_append_of_balanced {q : Quoting} {depth : Nat} {s : List α}
    (h : openBrackets q (depth + 1) s = 0) (t : List α) :
    interior? q (s ++ t) = (interior? q s).map fun (inside, rest) => (inside, rest ++ t) := by
  induction s generalizing q with
  | nil => simp [openBrackets] at h
  | cons a s ih =>
    simp only [List.cons_append, interior?]
    split_ifs with hclose hopen
    · rfl
    · rfl
    · simp only [openBrackets, hclose, hopen, Bool.false_eq_true, if_false] at h
      rw [ih h, Option.map_map, Option.map_map]
      rfl

/-- A bracket that opens ends the search for one that closes. -/
lemma interior?_append_opening {q : Quoting} {s : List α} (h : q.run s = .code) (t : List α) :
    interior? q (s ++ Symbol.ofChar '[' :: t) =
      (interior? q s).map fun (inside, rest) => (inside, rest ++ Symbol.ofChar '[' :: t) := by
  induction s generalizing q with
  | nil =>
    obtain rfl : q = .code := h
    have hopen : Quoting.code.bare '[' (Symbol.ofChar '[' : α) = true := Quoting.bare_iff.mpr ⟨rfl, rfl⟩
    have hclose : Quoting.code.bare ']' (Symbol.ofChar '[' : α) = false := by
      simp [Quoting.bare, isChar]
    simp [interior?, hopen, hclose]
  | cons a s ih =>
    simp only [List.cons_append, interior?]
    split_ifs with hclose hopen
    · rfl
    · rfl
    · rw [ih h, Option.map_map, Option.map_map]
      rfl

/-- Behind the bracket that closes a pair, one less is open. -/
lemma openBrackets_of_interior? {q : Quoting} {s inside rest : List α}
    (h : interior? q s = some (inside, rest)) (depth : Nat) :
    openBrackets q depth s = openBrackets .code (depth - 1) rest := by
  have hbare : Quoting.code.bare ']' (Symbol.ofChar ']' : α) = true := Quoting.bare_iff.mpr ⟨rfl, rfl⟩
  have hother : Quoting.code.bare '[' (Symbol.ofChar ']' : α) = false := by
    simp [Quoting.bare, isChar]
  have hstep : Quoting.code.step (Symbol.ofChar ']' : α) = .code := step_code_ofChar (by decide)
  rw [eq_of_interior? h, openBrackets_append, run_interior? h,
    openBrackets_of_bracketless _ (bracketless_interior? h), openBrackets, hother, hbare, hstep]
  rfl

namespace Bracketed

/-- Two cut texts one behind the other. -/
def append {β : Type} (cut later : Bracketed β) : Bracketed β :=
  ⟨cut.pairs ++ (later.prepend cut.tail).pairs, (later.prepend cut.tail).tail⟩

lemma nil_append {β : Type} (cut : Bracketed β) : append ⟨[], []⟩ cut = cut := by
  simp [append]

lemma cons_append {β : Type} (a : β) (cut later : Bracketed β) :
    (cut.cons a).append later = (cut.append later).cons a := by
  obtain ⟨_ | ⟨pair, pairs⟩, tail⟩ := cut
  · rcases later with ⟨_ | ⟨first, more⟩, tail'⟩ <;> rfl
  · rfl

/-- No bracket that opens in the first stretch closes in the second. -/
def Separated (q : Quoting) (s t : List α) : Prop :=
  ∀ front back, s = front ++ Symbol.ofChar '[' :: back → q.run front = .code →
    interior? .code (back ++ t) = (interior? .code back).map fun (inside, rest) => (inside, rest ++ t)

lemma Separated.tail {q : Quoting} {a : α} {s t : List α} (h : Separated q (a :: s) t) :
    Separated (q.step a) s t := by
  rintro front back rfl hfront
  exact h (a :: front) back rfl hfront

lemma Separated.append {q : Quoting} {r s t : List α} (h : Separated q (r ++ s) t) :
    Separated (q.run r) s t := by
  rintro front back rfl hfront
  exact h (r ++ front) back (List.append_assoc _ _ _).symm (by rw [Quoting.run_append, hfront])

/-- Where no bracket reaches across, no innermost pair is cut in two. -/
lemma ofTextFrom_append_of_separated (q : Quoting) (s t : List α) (h : Separated q s t) :
    ofTextFrom q (s ++ t) = (ofTextFrom q s).append (ofTextFrom (q.run s) t) := by
  fun_induction ofTextFrom q s with
  | case1 q => rw [List.nil_append, nil_append, Quoting.run_nil]
  | case2 q a s inside rest hopened later ih =>
    split_ifs at hopened with ha
    obtain ⟨rfl, rfl⟩ := Quoting.bare_iff.mp ha
    have hinterior := h [] s rfl rfl
    have hs := eq_of_interior? hopened
    have hclosed : Quoting.code.run (Symbol.ofChar '[' :: (inside ++ [Symbol.ofChar ']']) : List α) =
        .code := by
      rw [Quoting.run_cons, step_code_ofChar (by decide), Quoting.run_append,
        run_interior? hopened, Quoting.run_cons, step_code_ofChar (by decide), Quoting.run_nil]
    have htext : Symbol.ofChar '[' :: s = Symbol.ofChar '[' :: (inside ++ [Symbol.ofChar ']']) ++ rest := by
      simp [hs]
    have hrest : Separated .code rest t := by
      rw [htext] at h
      simpa only [hclosed] using h.append
    have hrun : Quoting.code.run (Symbol.ofChar '[' :: s) = Quoting.code.run rest := by
      rw [htext, Quoting.run_append, hclosed]
    rw [hopened] at hinterior
    rw [hrun, List.cons_append, ofTextFrom]
    split
    · next inside' rest' heq =>
      rw [if_pos ha, hinterior, Option.map_some, Option.some.injEq, Prod.mk.injEq] at heq
      obtain ⟨rfl, rfl⟩ := heq
      rw [ih hrest]
      rfl
    · next heq =>
      rw [if_pos ha, hinterior] at heq
      simp at heq
  | case3 q a s hopened ih =>
    rw [List.cons_append, ofTextFrom_cons, ← cons_eq_prepend, ih h.tail, cons_append,
      Quoting.run_cons]
    intro ha
    obtain ⟨rfl, rfl⟩ := Quoting.bare_iff.mp ha
    rw [h [] s rfl rfl, show interior? .code s = none by simpa [ha] using hopened]
    rfl

lemma separated_of_balanced {q : Quoting} {depth : Nat} {s : List α}
    (h : openBrackets q depth s = 0) (t : List α) : Separated q s t := by
  rintro front back rfl hfront
  have hopen : Quoting.code.bare '[' (Symbol.ofChar '[' : α) = true := Quoting.bare_iff.mpr ⟨rfl, rfl⟩
  rw [openBrackets_append, hfront, openBrackets, if_pos hopen, step_code_ofChar (by decide)] at h
  exact interior?_append_of_balanced h t

/-- Where no bracket is open, no innermost pair is cut in two. -/
lemma ofTextFrom_append_of_balanced (q : Quoting) (s t : List α) (depth : Nat)
    (h : openBrackets q depth s = 0) :
    ofTextFrom q (s ++ t) = (ofTextFrom q s).append (ofTextFrom (q.run s) t) :=
  ofTextFrom_append_of_separated q s t (separated_of_balanced h t)

lemma separated_of_opening {q : Quoting} {s : List α} (h : q.run s = .code) (t : List α) :
    Separated q s (Symbol.ofChar '[' :: t) := by
  rintro front back rfl hfront
  rw [Quoting.run_append, hfront, Quoting.run_cons, step_code_ofChar (by decide)] at h
  exact interior?_append_opening h t

/-- An innermost pair is found wherever it stands. -/
lemma ofText_append_pair {front interior : List α} (hfront : Closed front) (hinterior : Plain interior)
    (rest : List α) :
    ofText (front ++ Symbol.ofChar '[' :: interior ++ Symbol.ofChar ']' :: rest) =
      ⟨(ofText front).pairs ++ ⟨(ofText front).tail, interior⟩ :: (ofText rest).pairs,
        (ofText rest).tail⟩ := by
  have hcut := ofTextFrom_append_of_separated .code front _
    (separated_of_opening hfront (interior ++ Symbol.ofChar ']' :: rest))
  rw [hfront] at hcut
  have hpair := ofText_pair hinterior rest
  rw [ofText, List.append_assoc, List.cons_append, hcut, ← ofText, ← ofText, ← List.cons_append, hpair]
  simp [append, prepend]

/-- What stands last before the pair is in the text before it or closes the pair before. -/
lemma getLast?_of_ofText (front : List α) :
    front.getLast? = ((ofText front).tail.getLast? <|>
      if (ofText front).pairs = [] then none else some (Symbol.ofChar ']')) := by
  have htext := toText_ofText front
  generalize ofText front = cut at htext ⊢
  rw [toText] at htext
  rw [← htext, List.getLast?_append]
  rcases List.eq_nil_or_concat cut.pairs with hnil | ⟨init, pair, hpairs⟩
  · simp [hnil]
  · have hlast : (cut.pairs.flatMap fun pair => pair.before ++ pair.whole).getLast? =
        some (Symbol.ofChar ']') := by
      rw [hpairs, List.concat_eq_append, List.flatMap_append, List.flatMap_singleton,
        List.getLast?_append, List.getLast?_append, BracketPair.whole, List.getLast?_concat]
      rfl
    have hne : cut.pairs ≠ [] := by simp [hpairs]
    rw [hlast, if_neg hne]
    cases cut.tail.getLast? <;> rfl

end Bracketed

/-! ### Stretches with the same brackets -/

/-- A scan for brackets that begins in code ends in the same way behind either stretch. -/
structure SameBrackets (s s' : List α) : Prop where
  run_eq : Quoting.code.run s' = Quoting.code.run s
  openBrackets_eq : ∀ depth, openBrackets .code depth s' = openBrackets .code depth s

namespace SameBrackets

lemma refl (s : List α) : SameBrackets s s := ⟨rfl, fun _ => rfl⟩

lemma append {s s' t t' : List α} (hs : SameBrackets s s') (hclosed : Closed s)
    (ht : SameBrackets t t') : SameBrackets (s ++ t) (s' ++ t') := by
  have hclosed' : Closed s' := hs.run_eq.trans hclosed
  constructor
  · rw [hclosed.run, hclosed'.run, ht.run_eq]
  · intro depth
    rw [openBrackets_append, openBrackets_append, hclosed, hclosed', hs.openBrackets_eq,
      ht.openBrackets_eq]

end SameBrackets

lemma openBrackets_whole {pair : BracketPair α} (hclosed : Closed pair.interior)
    (hbare : hasBareBracket pair.interior = false) (depth : Nat) :
    openBrackets .code depth pair.whole = depth := by
  have hinterior : interior? .code (pair.interior ++ [Symbol.ofChar ']']) = some (pair.interior, []) :=
    Plain.interior? ⟨hclosed, hbare⟩ []
  have hopen : Quoting.code.bare '[' (Symbol.ofChar '[' : α) = true := Quoting.bare_iff.mpr ⟨rfl, rfl⟩
  rw [BracketPair.whole, List.cons_append, openBrackets, if_pos hopen, step_code_ofChar (by decide),
    openBrackets_of_interior? hinterior]
  rfl

namespace Piece

lemma eq_at_of_roleBehind {a : Option Piece} (h : roleBehind a = .literal) :
    a = some (.char '@') := by
  have hcell := BracketRole.eq_at_of_behind h
  rcases a with _ | c | text
  · cases hcell
  · simpa [cell] using hcell
  · cases hcell

/-- The mark of an array literal is no bracket. -/
lemma sameBrackets_dropLast {s : List Piece} (hs : Closed s) {previous : Option Piece}
    (h : (s.getLast? <|> previous) = some (.char '@')) : SameBrackets s s.dropLast := by
  rcases List.eq_nil_or_concat s with rfl | ⟨init, a, rfl⟩
  · exact .refl []
  · rw [List.concat_eq_append] at *
    obtain rfl : a = .char '@' := by simpa using h
    have hinit : Closed init := hs.of_append_right (by decide)
    have hat : SameBrackets [Piece.char '@'] [] := ⟨rfl, fun _ => rfl⟩
    simpa using (SameBrackets.refl init).append hinit hat

variable {previous : Option Piece} {pair : BracketPair Piece} {pairs : List (BracketPair Piece)}
  {line s s' t t' : List Piece}

lemma sameBrackets_ofPair (hpair : pair.IsClosed) (hbare : hasBareBracket pair.interior = false) :
    SameBrackets (pair.before ++ pair.whole) (ofPair previous pair).1 := by
  have hpart (text : Text) : SameBrackets pair.whole [part text] :=
    ⟨hpair.whole.symm, fun depth => (openBrackets_whole hpair.interior hbare depth).symm⟩
  unfold ofPair
  dsimp only
  split
  · next done hdone =>
    refine .append ?_ hpair.before (hpart _)
    split_ifs with hrole
    · exact sameBrackets_dropLast hpair.before (eq_at_of_roleBehind hrole)
    · exact .refl _
  · exact .refl _

lemma sameBrackets_ofPairs (hpairs : ∀ pair ∈ pairs, pair.IsClosed)
    (hbare : ∀ pair ∈ pairs, hasBareBracket pair.interior = false) :
    SameBrackets (pairs.flatMap fun pair => pair.before ++ pair.whole) (ofPairs previous pairs).1 := by
  induction pairs generalizing previous with
  | nil => exact .refl []
  | cons pair pairs ih =>
    obtain ⟨hpair, hpairs⟩ := List.forall_mem_cons.mp hpairs
    obtain ⟨hbarePair, hbare⟩ := List.forall_mem_cons.mp hbare
    exact (sameBrackets_ofPair hpair hbarePair).append (hpair.before.append hpair.whole)
      (ih hpairs hbare)

/-- A pass takes brackets away by pairs. -/
lemma sameBrackets_pass (line : List Piece) : SameBrackets line (pass line).1 := by
  have hpairs : ∀ pair ∈ (Bracketed.ofText line).pairs, pair.IsClosed :=
    fun pair hpair => Bracketed.isClosed_of_mem hpair
  have hdone : SameBrackets _ (ofPairs none (Bracketed.ofText line).pairs).1 :=
    sameBrackets_ofPairs hpairs (Bracketed.bracketless_ofTextFrom .code line)
  have hpass := hdone.append (BracketPair.closed_flatMap hpairs) (.refl (Bracketed.ofText line).tail)
  rwa [← Bracketed.toText, Bracketed.toText_ofText] at hpass

/-! ### Passes over both parts -/

lemma ofPair_of_unchanged (h : (ofPair previous pair).2 = false) :
    (ofPair previous pair).1 = pair.before ++ pair.whole := by
  cases hpart : (roleBehind (pair.before.getLast? <|> previous)).part? pair.interior with
  | none =>
    unfold ofPair
    dsimp only
    rw [hpart]
  | some done =>
    unfold ofPair at h
    dsimp only at h
    rw [hpart] at h
    cases h

lemma ofPairs_of_unchanged (h : (ofPairs previous pairs).2 = false) :
    (ofPairs previous pairs).1 = pairs.flatMap fun pair => pair.before ++ pair.whole := by
  induction pairs generalizing previous with
  | nil => rfl
  | cons pair pairs ih =>
    obtain ⟨hfirst, hlater⟩ := Bool.or_eq_false_iff.mp h
    rw [ofPairs, List.flatMap_cons, ofPair_of_unchanged hfirst, ih hlater]

/-- A pass that changes nothing leaves the line as it is. -/
lemma pass_of_unchanged (h : (pass line).2 = false) : (pass line).1 = line := by
  rw [pass, ofPairs_of_unchanged h]
  exact Bracketed.toText_ofText line

lemma ofPairs_append (previous : Option Piece) (pairs later : List (BracketPair Piece)) :
    ofPairs previous (pairs ++ later) =
      let first := ofPairs previous pairs
      let second := ofPairs (if pairs = [] then previous else some (.char ']')) later
      (first.1 ++ second.1, first.2 || second.2) := by
  induction pairs generalizing previous with
  | nil => simp [ofPairs]
  | cons pair pairs ih =>
    simp only [List.cons_append, ofPairs, ih, List.append_assoc, Bool.or_assoc, reduceCtorEq,
      if_false, ite_self]

/-- What a pair is and becomes is decided by the text before it, if there is any. -/
lemma ofPair_of_before (previous : Option Piece) (s : List Piece) (h : pair.before ≠ []) :
    ofPair previous { pair with before := s ++ pair.before } =
      (s ++ (ofPair none pair).1, (ofPair none pair).2) := by
  obtain ⟨init, a, hbefore⟩ := (List.eq_nil_or_concat pair.before).resolve_left h
  rw [List.concat_eq_append] at hbefore
  have hlast : ((s ++ pair.before).getLast? <|> previous) = (pair.before.getLast? <|> none) := by
    simp [hbefore]
  have hdrop : (s ++ pair.before).dropLast = s ++ pair.before.dropLast :=
    List.dropLast_append_of_ne_nil h
  have hwhole : BracketPair.whole { pair with before := s ++ pair.before } = pair.whole := rfl
  unfold ofPair
  dsimp only
  rw [hlast, hwhole, hdrop]
  split
  · split_ifs <;> simp
  · simp

/-- The innermost pairs of a line that begins with no bracket all have text before them. -/
lemma before_ne_nil (h : t.head? ≠ some (.char '[')) :
    ∀ pair pairs, (Bracketed.ofText t).pairs = pair :: pairs → pair.before ≠ [] := by
  intro pair pairs hpairs hbefore
  have htext := Bracketed.toText_ofText t
  rw [Bracketed.toText, hpairs, List.flatMap_cons, hbefore, BracketPair.whole] at htext
  rw [← htext] at h
  exact h rfl

/-- A pass over a line is a pass over each of two parts of it, where all brackets are balanced in
the first and the second begins with none. -/
theorem pass_append (hclosed : Closed s) (hbalanced : openBrackets .code 0 s = 0)
    (hhead : t.head? ≠ some (.char '[')) :
    pass (s ++ t) = ((pass s).1 ++ (pass t).1, (pass s).2 || (pass t).2) := by
  have hcut := Bracketed.ofTextFrom_append_of_balanced .code s t 0 hbalanced
  rw [hclosed, ← Bracketed.ofText, ← Bracketed.ofText, ← Bracketed.ofText] at hcut
  have hbefore := before_ne_nil hhead
  rw [pass, pass, pass, hcut]
  generalize Bracketed.ofText s = cut, Bracketed.ofText t = later at hbefore ⊢
  obtain ⟨_ | ⟨pair, pairs⟩, tail⟩ := later
  · simp [Bracketed.append, Bracketed.prepend, ofPairs]
  · have hpair := fun previous => ofPair_of_before previous cut.tail (hbefore pair pairs rfl)
    simp [Bracketed.append, Bracketed.prepend, ofPairs_append, ofPairs, hpair]

/-- A pass puts no bracket at the start of a line. -/
lemma head?_pass (h : t.head? ≠ some (.char '[')) : (pass t).1.head? ≠ some (.char '[') := by
  have hbefore := before_ne_nil h
  have htext := Bracketed.toText_ofText t
  rw [Bracketed.toText] at htext
  rw [pass]
  generalize Bracketed.ofText t = cut at hbefore htext ⊢
  obtain ⟨_ | ⟨pair, pairs⟩, tail⟩ := cut
  · rwa [← htext] at h
  · have hnil := hbefore pair pairs rfl
    obtain ⟨a, rest, hrest⟩ := List.exists_cons_of_ne_nil hnil
    have ha : a ≠ .char '[' := by
      intro ha
      rw [← htext, List.flatMap_cons, hrest, ha] at h
      exact h rfl
    simp only [ofPairs, ofPair, hrest]
    split
    · split_ifs
      · cases rest <;> simp [ha]
      · simp [ha]
    · simp [ha]

/-- The passes over a line are passes over each of its two parts. -/
theorem Settles.append (hs : Settles s s') (ht : Settles t t') (hclosed : Closed s)
    (hbalanced : openBrackets .code 0 s = 0) (hhead : t.head? ≠ some (.char '[')) :
    Settles (s ++ t) (s' ++ t') := by
  induction hs generalizing t with
  | @done s hdone =>
    induction ht with
    | @done t hdone' =>
      have hpass := pass_append hclosed hbalanced hhead
      have hunchanged : (pass (s ++ t)).2 = false := by
        rw [hpass, hdone, hdone']
        rfl
      have hsettles := Settles.done hunchanged
      rwa [hpass] at hsettles
    | @again t t' hagain hlater ih =>
      have hpass := pass_append hclosed hbalanced hhead
      apply Settles.again
      · rw [hpass, hdone, hagain]
        rfl
      · rw [hpass, pass_of_unchanged hdone]
        rw [pass_of_unchanged hdone] at ih
        exact ih (head?_pass hhead)
  | @again s s' hagain hlater ih =>
    have hpass := pass_append hclosed hbalanced hhead
    have hsame := sameBrackets_pass s
    have hclosed' : Closed (pass s).1 := hsame.run_eq.trans hclosed
    have hbalanced' : openBrackets .code 0 (pass s).1 = 0 := (hsame.openBrackets_eq 0).trans hbalanced
    apply Settles.again
    · rw [hpass, hagain]
      rfl
    · rw [hpass]
      cases ht with
      | done hdone =>
        have hunchanged := pass_of_unchanged hdone
        apply ih _ hclosed' hbalanced' (head?_pass hhead)
        rw [hunchanged]
        have hsettles := Settles.done hdone
        rwa [hunchanged] at hsettles
      | again _ hlater' => exact ih hlater' hclosed' hbalanced' (head?_pass hhead)

end Piece

/-- The sends of a line are converted on their own on either side of a place where no literal and
no bracket is open, as long as no bracket follows there. -/
theorem collapseSends_append {u v : Text} (hu : Cell.markOpen ∉ u) (hv : Cell.markOpen ∉ v)
    (hclosed : Closed u) (hbalanced : openBrackets .code 0 u = 0) (hhead : v.head? ≠ some '[') :
    collapseSends (u ++ v) = collapseSends u ++ collapseSends v := by
  have huv : Cell.markOpen ∉ u ++ v := by simp [hu, hv]
  obtain ⟨done, hdone, heq⟩ := collapseSends_eq_textOf huv
  obtain ⟨doneLeft, hleft, heqLeft⟩ := collapseSends_eq_textOf hu
  obtain ⟨doneRight, hright, heqRight⟩ := collapseSends_eq_textOf hv
  have hhead' : (Symbol.ofText v : List Piece).head? ≠ some (.char '[') := by
    cases v with
    | nil => simp
    | cons c v => simpa [Symbol.ofText, Symbol.ofChar] using hhead
  have happend := hleft.append hright (closed_ofText.mpr hclosed)
    ((openBrackets_ofText .code 0 u).trans hbalanced) hhead'
  rw [← Symbol.ofText_append] at happend
  rw [heq, heqLeft, heqRight, hdone.unique happend, Piece.textOf_append]

/-- Code with a send and a subscript, in front of a bracket that is never closed. -/
theorem collapseSends_append_unclosed :
    collapseSends ("[a b] + ".toList ++ "x[0] = [c".toList) =
      collapseSends "[a b] + ".toList ++ collapseSends "x[0] = [c".toList :=
  collapseSends_append (by decide) (by decide) (by decide) (by decide) (by decide)

end Swiftward
