import Swiftward.MessageSend.Collapse
import Swiftward.Proofs.Text.Closed

/-!
# Passes over stretches of a line

A pass over a line goes from left to right, and all it carries along is the cell before the next
one and the table of fragments. So a pass over `s ++ t` is one over `s` followed by one over `t`,
as long as no pair of brackets reaches from `s` into `t` (`Rewrites.append`).
-/

namespace Swiftward

/-! ### The role of a pair -/

/-- The role of a pair that stands behind a stretch of text, itself behind a pair of the given
role. -/
def BracketRole.after (role : BracketRole) (s : Text) : BracketRole :=
  match s.getLast? with
  | none => role
  | some c => behind (some (.char c))

lemma BracketRole.after_ofText (previous : Option Cell) (s : Text) :
    behind ((Symbol.ofText s : List Cell).getLast? <|> previous) = (behind previous).after s := by
  rw [BracketRole.after, Symbol.ofText, List.getLast?_map]
  cases s.getLast? <;> rfl

@[simp] lemma BracketRole.behind_open : behind (some (.char '[')) = .send := by decide

@[simp] lemma BracketRole.behind_close : behind (some (.char ']')) = .trailing := by decide

/-- Only the mark of an array literal makes a pair one. -/
lemma BracketRole.eq_at_of_behind {a : Option Cell} (h : behind a = .literal) :
    a = some (.char '@') := by
  unfold behind at h
  split at h
  · simp at h
  · simp at h
  · next c =>
    split at h
    · next hc => rw [hc]
    · split at h
      · simp at h
      · split at h <;> simp at h

/-- The text that opens a pair, which for an array literal begins with its mark. -/
def opening (literal : Bool) : Text := if literal then ['@', '['] else ['[']

/-- What a pair of the given role is set aside as. Only a send can fail to be set aside. -/
def BracketRole.part? {α : Type} [Symbol α] (role : BracketRole) (interior : List α) :
    Option (List α) :=
  let whole := BracketPair.whole ⟨[], interior⟩
  match role with
  | .literal | .subscript => some whole
  | .trailing => some ((resolveSend interior).getD whole)
  | .send => resolveSend interior

namespace Pass

/-- A pass over a stretch of a line behind `previous`. -/
def ofStretch (previous : Option Cell) (f : Fragments) (s : List Cell) : Pass :=
  let cut := Bracketed.ofText s
  let pass := ofPairs previous f cut.pairs
  { pass with line := pass.line ++ cut.tail }

lemma ofLine_eq (f : Fragments) (line : List Cell) : ofLine f line = ofStretch none f line := rfl

/-- The same pass with what a stretch before it has become. -/
def prepend (s : List Cell) (changed : Bool) (p : Pass) : Pass :=
  { p with line := s ++ p.line, changed := changed || p.changed }

@[simp] lemma prepend_prepend (s t : List Cell) (b c : Bool) (p : Pass) :
    (p.prepend t c).prepend s b = p.prepend (s ++ t) (b || c) := by
  simp [prepend, Bool.or_assoc]

@[simp] lemma prepend_nil (p : Pass) : p.prepend [] false = p := by
  simp [prepend]

@[simp] lemma ofStretch_nil (previous : Option Cell) (f : Fragments) :
    ofStretch previous f [] = ⟨[], f, false⟩ := by
  rw [ofStretch, Bracketed.ofText, Bracketed.ofTextFrom]
  rfl

/-- Text before a pair stays there, unless it is the mark of an array literal. -/
lemma ofPair_prepend (previous : Option Cell) (f : Fragments) {s : List Cell}
    {pair : BracketPair Cell} (h : s.getLast? = some (.char '@') → pair.before ≠ []) :
    ofPair previous f { pair with before := s ++ pair.before } =
      (ofPair (s.getLast? <|> previous) f pair).prepend s false := by
  have hlast : ((s ++ pair.before).getLast? <|> previous) =
      (pair.before.getLast? <|> (s.getLast? <|> previous)) := by
    rw [List.getLast?_append]
    cases pair.before.getLast? <;> rfl
  have hwhole : BracketPair.whole { pair with before := s ++ pair.before } = pair.whole := rfl
  unfold ofPair
  rw [hlast, hwhole]
  split
  · next hrole =>
    have hdrop : (s ++ pair.before).dropLast = s ++ pair.before.dropLast := by
      by_cases hbefore : pair.before = []
      · rw [hbefore] at hrole h ⊢
        cases hs : s.getLast? with
        | none => simp [List.getLast?_eq_none_iff.mp hs]
        | some a =>
          rw [hs] at hrole
          exact absurd rfl (h (hs.trans (BracketRole.eq_at_of_behind hrole)))
      · exact List.dropLast_append_of_ne_nil hbefore
    simp [setAside, prepend, hdrop]
  · simp [setAside, prepend]
  · simp [setAside, prepend]
  · cases resolveSend pair.interior <;> simp [setAside, prepend]

lemma ofStretch_append (previous : Option Cell) (f : Fragments) {s t : List Cell}
    (hcut : Bracketed.ofText (s ++ t) = (Bracketed.ofText t).prepend s)
    (h : s.getLast? ≠ some (.char '@')) :
    ofStretch previous f (s ++ t) =
      (ofStretch (s.getLast? <|> previous) f t).prepend s false := by
  rw [ofStretch, ofStretch, hcut]
  generalize Bracketed.ofText t = cut
  obtain ⟨_ | ⟨pair, pairs⟩, tail⟩ := cut
  · simp [Bracketed.prepend, ofPairs, prepend]
  · have hpair : ofPair previous f { pair with before := s ++ pair.before } =
        (ofPair (s.getLast? <|> previous) f pair).prepend s false := by
      apply ofPair_prepend
      intro hat
      exact absurd hat h
    simp only [Bracketed.prepend, ofPairs, hpair]
    simp [prepend]

/-- A pair that can be set aside is set aside. -/
lemma ofPair_of_part {previous : Option Cell} (f : Fragments) {interior part : List Cell}
    (before : List Cell)
    (h : (BracketRole.behind (before.getLast? <|> previous)).part? interior = some part) :
    ofPair previous f ⟨before, interior⟩ =
      setAside (if BracketRole.behind (before.getLast? <|> previous) = .literal then before.dropLast
        else before) f part := by
  unfold ofPair
  cases hrole : BracketRole.behind (before.getLast? <|> previous) with
  | literal =>
    simp only [hrole, BracketRole.part?, Option.some.injEq] at h ⊢
    rw [← h]
    rfl
  | subscript =>
    simp only [hrole, BracketRole.part?, Option.some.injEq] at h ⊢
    rw [← h]
    rfl
  | trailing =>
    simp only [hrole, BracketRole.part?, Option.some.injEq] at h ⊢
    rw [← h]
    rfl
  | send =>
    simp only [hrole, BracketRole.part?] at h ⊢
    simp [h]

/-- A pair that cannot be set aside stays. -/
lemma ofPair_of_not_part {previous : Option Cell} (f : Fragments) {pair : BracketPair Cell}
    (h : (BracketRole.behind (pair.before.getLast? <|> previous)).part? pair.interior = none) :
    ofPair previous f pair = ⟨pair.before ++ pair.whole, f, false⟩ := by
  unfold ofPair
  generalize BracketRole.behind (pair.before.getLast? <|> previous) = role at h ⊢
  cases role with
  | literal => cases h
  | subscript => cases h
  | trailing => cases h
  | send =>
    dsimp only [BracketRole.part?] at h ⊢
    rw [h]

/-- A pair of brackets around a plain stretch is looked at, and set aside if that can be. -/
lemma ofStretch_pair {previous : Option Cell} {f : Fragments} {literal : Bool}
    {interior part : List Cell} (hi : Plain interior)
    (hpart : (if literal then .literal else BracketRole.behind previous).part? interior = some part)
    (t : List Cell) :
    ofStretch previous f (Symbol.ofText (opening literal) ++ interior ++ .char ']' :: t) =
      (ofStretch (some (.char ']')) (f.insert part) t).prepend [f.next] true := by
  have hcut := Bracketed.ofText_pair hi t
  cases literal with
  | false =>
    have hpair : ofPair previous f ⟨[], interior⟩ = setAside [] f part := by
      rw [ofPair_of_part f [] hpart]
      split <;> rfl
    have hbracket : ofStretch previous f (.char '[' :: interior ++ .char ']' :: t) =
        (ofStretch (some (.char ']')) (f.insert part) t).prepend [f.next] true := by
      rw [ofStretch, ofStretch, ← Cell.ofChar_eq '[', ← Cell.ofChar_eq ']', hcut]
      simp [ofPairs, hpair, setAside, prepend]
    exact hbracket
  | true =>
    have hat : Plain [Cell.char '@'] := by decide
    have hpair : ofPair previous f ⟨[.char '@'], interior⟩ = setAside [] f part :=
      ofPair_of_part f [.char '@'] hpart
    have hbracket : ofStretch previous f ([.char '@'] ++ (.char '[' :: interior ++ .char ']' :: t)) =
        (ofStretch (some (.char ']')) (f.insert part) t).prepend [f.next] true := by
      rw [ofStretch, ofStretch, Bracketed.ofText_append hat, ← Cell.ofChar_eq '[',
        ← Cell.ofChar_eq ']', hcut]
      simp [Bracketed.prepend, ofPairs, hpair, setAside, prepend]
    exact hbracket

end Pass

/-! ### Stretches that a pass rewrites on their own -/

/-- A pass rewrites the stretch `s` behind `previous` to `s'`, whatever follows. -/
def Rewrites (previous : Option Cell) (f : Fragments) (s : List Cell) (changed : Bool)
    (s' : List Cell) (f' : Fragments) : Prop :=
  ∀ t, Pass.ofStretch previous f (s ++ t) =
    (Pass.ofStretch (s.getLast? <|> previous) f' t).prepend s' changed

namespace Rewrites

variable {previous : Option Cell} {f f' f'' : Fragments} {s s' t t' : List Cell} {b c : Bool}

lemma append (hs : Rewrites previous f s b s' f')
    (ht : Rewrites (s.getLast? <|> previous) f' t c t' f'') :
    Rewrites previous f (s ++ t) (b || c) (s' ++ t') f'' := by
  intro rest
  rw [List.append_assoc, hs, ht, Pass.prepend_prepend, List.getLast?_append]
  cases t.getLast? <;> rfl

lemma nil (previous : Option Cell) (f : Fragments) : Rewrites previous f [] false [] f := by
  intro rest
  simp

lemma plain (hs : Plain s) (hat : s.getLast? ≠ some (.char '@')) :
    Rewrites previous f s false s f := by
  intro rest
  exact Pass.ofStretch_append previous f (Bracketed.ofText_append hs rest) hat

lemma close (previous : Option Cell) (f : Fragments) :
    Rewrites previous f [.char ']'] false [.char ']'] f := by
  intro rest
  have hcut : Bracketed.ofText ([Cell.char ']'] ++ rest) =
      (Bracketed.ofText rest).prepend [.char ']'] := by
    apply Bracketed.ofTextFrom_cons
    intro hopen
    exact absurd hopen (by decide)
  exact Pass.ofStretch_append previous f hcut (by simp)

/-- A bracket stays as long as another opens before the next one that closes. -/
lemma opened (literal : Bool) (hinner : ∀ rest, interior? .code (s ++ rest) = none)
    (hs : Rewrites (some (.char '[')) f s c s' f') :
    Rewrites previous f (Symbol.ofText (opening literal) ++ s) c
      (Symbol.ofText (opening literal) ++ s') f' := by
  intro rest
  have hbracket : Bracketed.ofText (.char '[' :: (s ++ rest)) =
      (Bracketed.ofText (s ++ rest)).prepend [.char '['] := by
    apply Bracketed.ofTextFrom_cons
    intro _
    exact hinner rest
  have hopening : Bracketed.ofText (Symbol.ofText (opening literal) ++ (s ++ rest)) =
      (Bracketed.ofText (s ++ rest)).prepend (Symbol.ofText (opening literal)) := by
    cases literal with
    | false => exact hbracket
    | true =>
      have hat : Plain [Cell.char '@'] := by decide
      have := Bracketed.ofText_append hat (.char '[' :: (s ++ rest))
      rw [hbracket, ← Bracketed.cons_eq_prepend, Bracketed.cons_prepend] at this
      exact this
  have hlast : (Symbol.ofText (opening literal) : List Cell).getLast? = some (.char '[') := by
    cases literal <;> rfl
  have hfirst := Pass.ofStretch_append previous f hopening (by simp [hlast])
  have hbehind : ((Symbol.ofText (opening literal)).getLast? <|> previous) = some (.char '[') := by
    rw [hlast]
    rfl
  rw [List.append_assoc, hfirst, hbehind, hs, Pass.prepend_prepend, List.getLast?_append, hlast]
  cases s.getLast? <;> rfl

/-- A pair around a plain stretch becomes a mark if it can be set aside. -/
lemma pair {literal : Bool} {part : List Cell} (hs : Plain s)
    (hpart : (if literal then .literal else BracketRole.behind previous).part? s = some part) :
    Rewrites previous f (Symbol.ofText (opening literal) ++ s ++ [.char ']']) true [f.next]
      (f.insert part) := by
  intro rest
  rw [List.append_assoc, List.singleton_append, Pass.ofStretch_pair hs hpart,
    List.getLast?_append]
  rfl

lemma ofLine (h : Rewrites none f s c s' f') : Pass.ofLine f s = ⟨s', f', c⟩ := by
  simpa [Pass.prepend, Pass.ofLine_eq] using h []

end Rewrites

end Swiftward
