import Mathlib.Algebra.Group.Int.Defs
import Mathlib.Data.List.TakeWhile
import Swiftward.Proofs.Text.Closed
import Swiftward.Proofs.Text.Lines

/-!
# The balance of braces

The balance of a text is the number of its opening braces less that of its closing ones. It is the
sum over the characters, so it is kept wherever only braceless characters come and go: when a text
is trimmed, and when it is cut into lines (`balance_lines`).
-/

namespace Swiftward

/-! ### Totals -/

/-- The weight of some items together. -/
def total {β : Type} (weight : β → Int) : List β → Int
  | [] => 0
  | item :: items => weight item + total weight items

section Total

variable {β : Type} (weight : β → Int)

@[simp] lemma total_nil : total weight [] = 0 := rfl

@[simp] lemma total_cons (item : β) (items : List β) :
    total weight (item :: items) = weight item + total weight items := rfl

@[simp] lemma total_append (items more : List β) :
    total weight (items ++ more) = total weight items + total weight more := by
  induction items with
  | nil => simp
  | cons item items ih => rw [List.cons_append, total_cons, total_cons, ih, add_assoc]

variable {weight}

/-- Items have the same weight together if each of them has. -/
lemma total_map {γ : Type} {weight' : γ → Int} {f : γ → β} {items : List γ}
    (h : ∀ item ∈ items, weight (f item) = weight' item) :
    total weight (items.map f) = total weight' items := by
  induction items with
  | nil => rfl
  | cons item items ih =>
    obtain ⟨hitem, hitems⟩ := List.forall_mem_cons.mp h
    rw [List.map_cons, total_cons, total_cons, hitem, ih hitems]

lemma total_congr {weight' : β → Int} {items : List β}
    (h : ∀ item ∈ items, weight item = weight' item) : total weight items = total weight' items := by
  simpa using total_map (f := id) h

lemma total_eq_zero {items : List β} (h : ∀ item ∈ items, weight item = 0) :
    total weight items = 0 := by
  induction items with
  | nil => rfl
  | cons item items ih =>
    obtain ⟨hitem, hitems⟩ := List.forall_mem_cons.mp h
    rw [total_cons, hitem, ih hitems, add_zero]

end Total

/-! ### Braces -/

/-- The number of opening braces less that of closing braces. -/
def balance (s : Text) : Int := s.count '\x7b' - s.count '\x7d'

@[simp] lemma balance_nil : balance [] = 0 := rfl

lemma balance_append (s t : Text) : balance (s ++ t) = balance s + balance t := by
  simp only [balance, List.count_append]
  omega

lemma balance_cons (c : Char) (s : Text) : balance (c :: s) = balance [c] + balance s :=
  balance_append [c] s

/-- Whether a character is no brace. -/
def isBraceless (c : Char) : Bool := !isChar '\x7b' c && !isChar '\x7d' c

/-- The text has no brace. -/
def Braceless (s : Text) : Prop := ∀ c ∈ s, isBraceless c = true

instance (s : Text) : Decidable (Braceless s) :=
  List.decidableBAll (fun c => isBraceless c = true) s

lemma Braceless.append {s t : Text} (hs : Braceless s) (ht : Braceless t) : Braceless (s ++ t) :=
  List.forall_mem_append.mpr ⟨hs, ht⟩

lemma Braceless.balance_eq {s : Text} (h : Braceless s) : balance s = 0 := by
  have hopen : '\x7b' ∉ s := fun hc => absurd (h _ hc) (by decide)
  have hclose : '\x7d' ∉ s := fun hc => absurd (h _ hc) (by decide)
  rw [balance, List.count_eq_zero.mpr hopen, List.count_eq_zero.mpr hclose]
  rfl

lemma balance_of_isBraceless {c : Char} (h : isBraceless c = true) : balance [c] = 0 :=
  Braceless.balance_eq (by simpa [Braceless] using h)

lemma isBraceless_of_isSpace {c : Char} (h : Unicode.isSpace c = true) : isBraceless c = true := by
  rw [isBraceless, isChar_eq_false h (by decide), isChar_eq_false h (by decide)]
  rfl

lemma isBraceless_of_isWord {c : Char} (h : Unicode.isWord c = true) : isBraceless c = true := by
  rw [isBraceless, isChar_eq_false h (by decide), isChar_eq_false h (by decide)]
  rfl

/-! ### Braces among symbols -/

section Symbols

variable {α : Type} [Symbol α] {weight : α → Int}

/-- The weight of each character is its balance. -/
def CountsBraces (weight : α → Int) : Prop := ∀ c, weight (Symbol.ofChar c) = balance [c]

lemma countsBraces_char : CountsBraces fun c : Char => balance [c] := fun _ => rfl

lemma balance_eq_total (s : Text) : balance s = total (fun c => balance [c]) s := by
  induction s with
  | nil => rfl
  | cons c s ih => rw [balance_cons, total_cons, ih]

namespace CountsBraces

lemma total_ofText (hw : CountsBraces weight) (s : Text) :
    total weight (Symbol.ofText s) = balance s := by
  induction s with
  | nil => rfl
  | cons c s ih =>
    rw [Symbol.ofText] at ih ⊢
    rw [List.map_cons, total_cons, hw, ih, ← balance_cons]

/-- Symbols of a class without braces weigh nothing. -/
lemma eq_zero_of_satisfies (hw : CountsBraces weight) {p : Char → Bool}
    (hp : ∀ c, p c = true → isBraceless c = true) {a : α} (ha : Symbol.satisfies p a = true) :
    weight a = 0 := by
  unfold Symbol.satisfies at ha
  split at ha
  · next c hc =>
    rw [Symbol.char?_eq_some_iff.mp hc, hw]
    exact balance_of_isBraceless (hp c ha)
  · simp at ha

lemma eq_zero_of_isSpace (hw : CountsBraces weight) {a : α} (ha : isSpace a = true) : weight a = 0 :=
  hw.eq_zero_of_satisfies (fun _ => isBraceless_of_isSpace) ha

lemma total_trimStart (hw : CountsBraces weight) (s : List α) :
    total weight (trimStart s) = total weight s := by
  have hspace : total weight (s.takeWhile isSpace) = 0 := total_eq_zero fun a ha =>
    hw.eq_zero_of_isSpace (List.mem_takeWhile_imp ha)
  rw [trimStart]
  conv_rhs => rw [← List.takeWhile_append_dropWhile (p := isSpace) (l := s)]
  rw [total_append, hspace, zero_add]

lemma total_trimEnd (hw : CountsBraces weight) (s : List α) :
    total weight (trimEnd s) = total weight s := by
  induction s with
  | nil => rfl
  | cons a s ih =>
    rw [trimEnd]
    split
    · next hnil =>
      rw [hnil, total_nil] at ih
      rw [total_cons, ← ih]
      split_ifs with ha
      · simp [hw.eq_zero_of_isSpace ha]
      · simp
    · next b t hcons => rw [← hcons, total_cons, ih, total_cons]

lemma total_trim (hw : CountsBraces weight) (s : List α) :
    total weight (trim s) = total weight s := by
  rw [trim, hw.total_trimEnd, hw.total_trimStart]

end CountsBraces

end Symbols

@[simp] lemma balance_trimStart (s : Text) : balance (trimStart s) = balance s := by
  rw [balance_eq_total, balance_eq_total, countsBraces_char.total_trimStart]

@[simp] lemma balance_trimEnd (s : Text) : balance (trimEnd s) = balance s := by
  rw [balance_eq_total, balance_eq_total, countsBraces_char.total_trimEnd]

@[simp] lemma balance_trim (s : Text) : balance (trim s) = balance s := by
  rw [balance_eq_total, balance_eq_total, countsBraces_char.total_trim]

lemma balance_flatMap {β : Type} (f : β → Text) (items : List β) :
    balance (items.flatMap f) = total (fun item => balance (f item)) items := by
  induction items with
  | nil => rfl
  | cons item items ih => rw [List.flatMap_cons, balance_append, total_cons, ih]

/-! ### Braces of lines -/

lemma balance_of_before? {c : Char} (hc : isBraceless c = true) {s front : Text}
    (h : before? c s = some front) : balance front = balance s := by
  rw [before?_eq_some_iff.mp h, balance_append, balance_of_isBraceless hc, add_zero]

lemma balance_before?_getD {c : Char} (hc : isBraceless c = true) (s : Text) :
    balance ((before? c s).getD s) = balance s := by
  cases h : before? c s with
  | none => rfl
  | some front => exact balance_of_before? hc h

/-- Pieces between marks that are no braces have all the braces. -/
lemma total_pieces {mark : Char} (hmark : isBraceless mark = true) (s : Text) :
    total balance (pieces mark s) = balance s := by
  induction s with
  | nil => rfl
  | cons c s ih =>
    by_cases hc : c = mark
    · rw [hc, pieces_cons_mark, total_cons, ih, balance_cons, balance_of_isBraceless hmark,
        balance_nil]
    · obtain ⟨piece, rest, hpieces⟩ := exists_pieces_eq_cons mark s
      rw [hpieces, total_cons] at ih
      rw [pieces_cons_of_ne hc hpieces, total_cons, balance_cons, balance_cons c s, ← ih, add_assoc]

/-- The lines of a text have all its braces. -/
theorem balance_lines (s : Text) : total balance (lines s) = balance s := by
  have hreturns (ps : List Text) : total balance (ps.map dropReturn) = total balance ps :=
    total_map fun line _ => balance_before?_getD (by decide) line
  rw [← @total_pieces '\n' (by decide) s, lines, linesOfPieces]
  obtain ⟨init, last, hpieces⟩ : ∃ init last, pieces '\n' s = init ++ [last] := by
    obtain hnil | ⟨init, last, hconcat⟩ := List.eq_nil_or_concat (pieces '\n' s)
    · exact absurd hnil (pieces_ne_nil '\n' s)
    · exact ⟨init, last, by rw [hconcat, List.concat_eq_append]⟩
  rw [hpieces, List.dropLast_concat, List.getLast?_concat, total_append, total_append, hreturns]
  by_cases hlast : last = [] <;> simp [hlast]

lemma balance_unlines (ls : List Text) : balance (unlines ls) = total balance ls := by
  induction ls with
  | nil => rfl
  | cons line ls ih =>
    rw [unlines_cons, balance_append, balance_cons, balance_of_isBraceless (by decide), zero_add, ih,
      total_cons]

end Swiftward
