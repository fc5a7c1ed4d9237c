import Swiftward.Proofs.MessageSend.Balance
import Swiftward.Proofs.Text.Brace

/-!
# Braces around sends

What is written anew for a call has no brace, so a call has the balance of what stood between the
brackets. A finished part has that of the pair it is made from, a line keeps its balance in every
pass, and so converting the sends of a line does (`balance_collapseSends`).
-/

namespace Swiftward

lemma IsCallText.braceless {s : Text} (h : IsCallText s) : Braceless s := by
  intro c hc
  rw [isBraceless, isChar_eq_false (h c hc) (by decide), isChar_eq_false (h c hc) (by decide)]
  rfl

section Symbols

variable {α : Type} [Symbol α] {weight : α → Int}

lemma Respells.total_eq (hw : CountsBraces weight) {s t : List α} (h : Respells s t) :
    total weight t = total weight s := by
  induction h with
  | nil => rfl
  | keep a _ ih => rw [total_cons, total_cons, ih]
  | write hu hv _ ih =>
    rw [total_append, total_append, hw.total_ofText, hw.total_ofText, hu.braceless.balance_eq,
      hv.braceless.balance_eq, ih]

/-- The brackets of a pair are no braces. -/
lemma CountsBraces.total_whole (hw : CountsBraces weight) (pair : BracketPair α) :
    total weight pair.whole = total weight pair.interior := by
  have hopen : weight (Symbol.ofChar '[') = 0 := (hw '[').trans (by decide)
  have hclose : weight (Symbol.ofChar ']') = 0 := (hw ']').trans (by decide)
  simp [BracketPair.whole, hopen, hclose]

lemma CountsBraces.total_part? (hw : CountsBraces weight) {role : BracketRole}
    {interior part : List α} (h : role.part? interior = some part) :
    total weight part = total weight interior := by
  have hwhole := hw.total_whole ⟨[], interior⟩
  cases role with
  | literal =>
    obtain rfl := Option.some.inj h
    exact hwhole
  | subscript =>
    obtain rfl := Option.some.inj h
    exact hwhole
  | trailing =>
    obtain rfl := Option.some.inj h
    cases hsend : resolveSend interior with
    | none => exact hwhole
    | some call => exact (respells_of_resolveSend hsend).total_eq hw
  | send => exact (respells_of_resolveSend h).total_eq hw

end Symbols

/-! ### Lines of pieces -/

namespace Piece

/-- The balance of the text that a piece stands for. -/
def balance (a : Piece) : Int := Swiftward.balance a.text

lemma countsBraces_balance : CountsBraces balance := fun _ => rfl

lemma balance_textOf (line : List Piece) : Swiftward.balance (textOf line) = total balance line :=
  balance_flatMap text line

variable {previous : Option Piece} {pair : BracketPair Piece}

/-- The mark of an array literal is no brace. -/
lemma total_dropLast {s : List Piece} (h : (s.getLast? <|> previous) = some (.char '@')) :
    total balance s.dropLast = total balance s := by
  rcases List.eq_nil_or_concat s with rfl | ⟨init, a, rfl⟩
  · rfl
  · rw [List.concat_eq_append] at *
    obtain rfl : a = .char '@' := by simpa using h
    have hat : balance (.char '@') = 0 := by decide
    simp [hat]

lemma total_ofPair (previous : Option Piece) (pair : BracketPair Piece) :
    total balance (ofPair previous pair).1 = total balance (pair.before ++ pair.whole) := by
  unfold ofPair
  dsimp only
  split
  · next done hdone =>
    have hpart : total balance [part (textOf done)] = total balance pair.whole := by
      rw [countsBraces_balance.total_whole, ← countsBraces_balance.total_part? hdone,
        ← balance_textOf done, total_cons, total_nil, add_zero]
      rfl
    rw [total_append, total_append, hpart]
    split_ifs with hrole
    · rw [total_dropLast (eq_at_of_roleBehind hrole)]
    · rfl
  · rfl

lemma total_ofPairs (previous : Option Piece) (pairs : List (BracketPair Piece)) :
    total balance (ofPairs previous pairs).1 =
      total balance (pairs.flatMap fun pair => pair.before ++ pair.whole) := by
  induction pairs generalizing previous with
  | nil => rfl
  | cons pair pairs ih =>
    rw [ofPairs, List.flatMap_cons, total_append, total_append, total_ofPair, ih]

lemma total_pass (line : List Piece) : total balance (pass line).1 = total balance line := by
  have htext := Bracketed.toText_ofText line
  rw [pass, total_append, total_ofPairs, ← total_append, ← Bracketed.toText, htext]

lemma Settles.total_eq {line line' : List Piece} (h : Settles line line') :
    total balance line' = total balance line := by
  induction h with
  | done h => exact total_pass _
  | again h hlater ih => rw [ih, total_pass]

end Piece

/-- Converting the sends of a line keeps the balance of its braces. -/
theorem balance_collapseSends (line : Text) : balance (collapseSends line) = balance line := by
  by_cases hmark : Cell.markOpen ∈ line
  · rw [collapseSends, if_pos (.inr hmark)]
  · obtain ⟨done, hsettles, heq⟩ := collapseSends_eq_textOf hmark
    rw [heq, Piece.balance_textOf, hsettles.total_eq, Piece.countsBraces_balance.total_ofText]

end Swiftward
