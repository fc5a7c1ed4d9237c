import Swiftward.Proofs.MessageSend.Literal
import Swiftward.Proofs.MessageSend.Renaming

/-!
# Passes without a table

The number of a mark only tells where its part is found. On a line of *pieces* a finished part is
itself the text that it stands for, and no table is carried along. Since no stage looks into a
mark, a pass does the same to both lines (`Pass.pieces_ofLine`), and converting the sends of a line
is passing over its pieces until nothing changes (`collapseSends_eq_textOf`).
-/

namespace Swiftward

/-- A character, or a finished part as the text that it stands for. -/
inductive Piece where
  | char (c : Char)
  | part (text : Text)
  deriving DecidableEq

instance : Symbol Piece where
  char?
    | .char c => some c
    | .part _ => none
  ofChar := .char
  char?_eq_some_iff {a c} := by cases a <;> simp

namespace Piece

/-- The text that a piece stands for. -/
def text : Piece → Text
  | char c => [c]
  | part text => text

/-- The text that a line of pieces stands for. -/
def textOf (line : List Piece) : Text := line.flatMap text

@[simp] lemma textOf_append (s t : List Piece) : textOf (s ++ t) = textOf s ++ textOf t := by
  simp [textOf]

lemma textOf_ofText (s : Text) : textOf (Symbol.ofText s) = s := by
  rw [textOf, Symbol.ofText, List.flatMap_map]
  exact List.flatMap_singleton' s

/-- A finished part is to a pair behind it what its mark is. -/
def cell : Piece → Cell
  | char c => .char c
  | part _ => .fragment 0

/-- The role of a pair behind the given piece, or at the start of the line. -/
def roleBehind (previous : Option Piece) : BracketRole := .behind (previous.map cell)

/-- What a pass makes of a pair and the text before it, and whether this is a change. -/
def ofPair (previous : Option Piece) (pair : BracketPair Piece) : List Piece × Bool :=
  let role := roleBehind (pair.before.getLast? <|> previous)
  match role.part? pair.interior with
  | some done =>
    ((if role = .literal then pair.before.dropLast else pair.before) ++ [part (textOf done)], true)
  | none => (pair.before ++ pair.whole, false)

/-- What a pass makes of the pairs of a line, the first of them behind `previous`. -/
def ofPairs (previous : Option Piece) : List (BracketPair Piece) → List Piece × Bool
  | [] => ([], false)
  | pair :: pairs =>
    let first := ofPair previous pair
    let later := ofPairs (some (.char ']')) pairs
    (first.1 ++ later.1, first.2 || later.2)

/-- What a pass makes of a line, and whether this is a change. -/
def pass (line : List Piece) : List Piece × Bool :=
  let cut := Bracketed.ofText line
  let done := ofPairs none cut.pairs
  (done.1 ++ cut.tail, done.2)

/-- The passes over the first line end with the second, the last of them without a change. -/
inductive Settles : List Piece → List Piece → Prop where
  | done {line : List Piece} (h : (pass line).2 = false) : Settles line (pass line).1
  | again {line line' : List Piece} (h : (pass line).2 = true) (hlater : Settles (pass line).1 line') :
      Settles line line'

/-- The passes over a line leave no choice. -/
lemma Settles.unique {line s t : List Piece} (hs : Settles line s) (ht : Settles line t) : s = t := by
  induction hs with
  | done h =>
    cases ht with
    | done => rfl
    | again h' => simp [h] at h'
  | again h _ ih =>
    cases ht with
    | done h' => simp [h] at h'
    | again _ hlater => exact ih hlater

/-! ### Classes of pieces -/

/-- What the passes set aside of pieces in the class is itself in the class. -/
def KeepsParts (ok : Piece → Prop) : Prop :=
  ∀ {role : BracketRole} {interior done : List Piece}, (∀ a ∈ interior, ok a) →
    role.part? interior = some done → ok (part (textOf done))

section Classes

variable {ok : Piece → Prop} (hok : KeepsParts ok) {previous : Option Piece}

include hok

lemma forall_ofPair {pair : BracketPair Piece} (h : ∀ a ∈ pair.before ++ pair.whole, ok a) :
    ∀ a ∈ (ofPair previous pair).1, ok a := by
  obtain ⟨hbefore, hwhole⟩ := List.forall_mem_append.mp h
  have hinterior : ∀ a ∈ pair.interior, ok a := fun a ha =>
    hwhole a (by simp [BracketPair.whole, ha])
  unfold ofPair
  dsimp only
  split
  · next done hdone =>
    refine List.forall_mem_append.mpr ⟨?_, List.forall_mem_singleton.mpr (hok hinterior hdone)⟩
    split_ifs
    · exact fun a ha => hbefore a (List.dropLast_subset _ ha)
    · exact hbefore
  · exact h

lemma forall_ofPairs {pairs : List (BracketPair Piece)}
    (h : ∀ a ∈ pairs.flatMap fun pair => pair.before ++ pair.whole, ok a) :
    ∀ a ∈ (ofPairs previous pairs).1, ok a := by
  induction pairs generalizing previous with
  | nil => exact List.forall_mem_nil _
  | cons pair pairs ih =>
    rw [List.flatMap_cons, List.forall_mem_append] at h
    exact List.forall_mem_append.mpr ⟨forall_ofPair hok h.1, ih h.2⟩

/-- A pass over pieces in the class leaves pieces in the class. -/
lemma forall_pass {line : List Piece} (h : ∀ a ∈ line, ok a) : ∀ a ∈ (pass line).1, ok a := by
  rw [← Bracketed.toText_ofText line, Bracketed.toText, List.forall_mem_append] at h
  exact List.forall_mem_append.mpr ⟨forall_ofPairs hok h.1, h.2⟩

lemma Settles.forall {line line' : List Piece} (hsettles : Settles line line')
    (h : ∀ a ∈ line, ok a) : ∀ a ∈ line', ok a := by
  induction hsettles with
  | done _ => exact forall_pass hok h
  | again _ _ ih => exact ih (forall_pass hok h)

end Classes

end Piece

/-! ### Lines of cells as lines of pieces -/

namespace Cell

/-- A cell with the mark it may be replaced by the text of the mark. -/
def piece (values : List Text) : Cell → Piece
  | .char c => .char c
  | .fragment id => .part (Cell.meaning values (.fragment id))

variable {values : List Text}

lemma isRenaming_piece (values : List Text) : IsRenaming (piece values) := by
  intro a
  cases a <;> rfl

lemma textOf_map_piece (line : List Cell) :
    Piece.textOf (line.map (piece values)) = Swiftward.meaning values line := by
  induction line with
  | nil => rfl
  | cons a line ih =>
    rw [meaning_cons, ← ih]
    cases a <;> rfl

/-- More texts change nothing for marks that are in use. -/
lemma map_piece_mono {values' : List Text} {line : List Cell} (h : Known values.length line)
    (hle : values <+: values') : line.map (piece values') = line.map (piece values) := by
  obtain ⟨more, rfl⟩ := hle
  apply List.map_congr_left
  intro a ha
  cases a with
  | char c => rfl
  | fragment id => simp [piece, Cell.meaning, List.getElem?_append_left (h id ha)]

lemma roleBehind_map_piece (a : Option Cell) :
    Piece.roleBehind (a.map (piece values)) = .behind a := by
  rcases a with _ | _ | _ <;> rfl

lemma whole_map_piece (values : List Text) (pair : BracketPair Cell) :
    (pair.map (piece values)).whole = pair.whole.map (piece values) := by
  simp [BracketPair.whole, BracketPair.map, piece, show Symbol.ofChar = Piece.char from rfl]

lemma part?_map_piece (values : List Text) (role : BracketRole) (interior : List Cell) :
    role.part? (interior.map (piece values)) = (role.part? interior).map (List.map (piece values)) := by
  have hsend := (isRenaming_piece values).resolveSend_map interior
  have hwhole := whole_map_piece values ⟨[], interior⟩
  rw [BracketPair.map] at hwhole
  cases role with
  | literal => exact congrArg some hwhole
  | subscript => exact congrArg some hwhole
  | trailing =>
    dsimp only [BracketRole.part?]
    rw [hsend]
    cases resolveSend interior with
    | none => exact congrArg some hwhole
    | some call => rfl
  | send => exact hsend

end Cell

/-! ### A pass over cells and over pieces -/

namespace Pass

open Cell

/-- The pieces that a pass leaves, and whether it changed anything. -/
def pieces (p : Pass) : List Piece × Bool := (p.line.map (piece p.fragments.values), p.changed)

lemma pieces_setAside {f : Fragments} {lead part : List Cell} (hlead : Known f.values.length lead) :
    (setAside lead f part).pieces =
      (lead.map (piece f.values) ++ [.part (Piece.textOf (part.map (piece f.values)))], true) := by
  have hvalues := f.values_insert part
  have hmark : piece (f.insert part).values f.next = .part (meaning f.values part) := by
    simp [Fragments.next, piece, Cell.meaning, hvalues, ← Fragments.length_values]
  have hleads := map_piece_mono hlead ⟨_, hvalues.symm⟩
  simp [pieces, setAside, hmark, hleads, textOf_map_piece]

lemma pieces_ofPair (previous : Option Cell) {f : Fragments} {pair : BracketPair Cell}
    (hknown : Known f.values.length pair.before) :
    (ofPair previous f pair).pieces =
      Piece.ofPair (previous.map (piece f.values)) (pair.map (piece f.values)) := by
  have hlast : ((pair.before.map (piece f.values)).getLast? <|> previous.map (piece f.values)) =
      (pair.before.getLast? <|> previous).map (piece f.values) := by
    rw [List.getLast?_map]
    cases pair.before.getLast? <;> rfl
  have hpart := part?_map_piece f.values
    (.behind (pair.before.getLast? <|> previous)) pair.interior
  rw [Piece.ofPair, whole_map_piece]
  simp only [BracketPair.map, hlast, roleBehind_map_piece, hpart]
  cases hsome : (BracketRole.behind (pair.before.getLast? <|> previous)).part? pair.interior with
  | none =>
    rw [ofPair_of_not_part f hsome]
    simp [pieces]
  | some part =>
    rw [ofPair_of_part f pair.before hsome, pieces_setAside]
    · dsimp only [Option.map_some]
      split_ifs
      · rw [List.map_dropLast]
      · rfl
    · split_ifs
      · exact hknown.subset (List.dropLast_subset _)
      · exact hknown

lemma pieces_ofPairs {previous : Option Cell} (hprevious : previous ≠ some (.char '@'))
    {f : Fragments} (hf : f.Sound) {pairs : List (BracketPair Cell)}
    (hpairs : ∀ pair ∈ pairs, pair.IsClosed)
    (hi : Intact f.values (pairs.flatMap fun pair => pair.before ++ pair.whole)) :
    (ofPairs previous f pairs).pieces =
      Piece.ofPairs (previous.map (piece f.values)) (pairs.map (BracketPair.map (piece f.values))) := by
  induction pairs generalizing previous f with
  | nil => rfl
  | cons pair pairs ih =>
    obtain ⟨hpair, hpairs⟩ := List.forall_mem_cons.mp hpairs
    rw [List.flatMap_cons] at hi
    obtain ⟨hfirst, hlater⟩ := (Intact.append_iff (hpair.before.append hpair.whole)).mp hi
    have hkeeps := keeps_ofPair hprevious hf hpair hfirst
    have hbracket : some (Cell.char ']') ≠ some (.char '@') := by simp
    have hlater' := hlater.mono hkeeps.values_le
    have hrest := keeps_ofPairs hbracket hkeeps.sound hpairs hlater'
    have hsame : pairs.map (BracketPair.map (piece (ofPair previous f pair).fragments.values)) =
        pairs.map (BracketPair.map (piece f.values)) := by
      apply List.map_congr_left
      intro p hp
      have hmem : p.before ++ p.whole ⊆ pairs.flatMap fun pair => pair.before ++ pair.whole :=
        fun a ha => List.mem_flatMap.mpr ⟨p, hp, ha⟩
      have hknown := known_append.mp (hlater.known.subset hmem)
      have hinterior : Known f.values.length p.interior :=
        hknown.2.subset (by simp [BracketPair.whole])
      rw [BracketPair.map, BracketPair.map, map_piece_mono hknown.1 hkeeps.values_le,
        map_piece_mono hinterior hkeeps.values_le]
    have hih := ih hbracket hkeeps.sound hpairs hlater'
    rw [hsame] at hih
    have hpieces := pieces_ofPair previous (known_append.mp hfirst.known).1
    rw [List.map_cons, Piece.ofPairs, ← hpieces]
    have hbehind : some (Piece.char ']') =
        (some (Cell.char ']')).map (piece (ofPair previous f pair).fragments.values) := rfl
    rw [hbehind, ← hih]
    simp [pieces, ofPairs, map_piece_mono hkeeps.intact.known hrest.values_le]

/-- A pass does the same to a line of cells and to its pieces. -/
theorem pieces_ofLine {f : Fragments} (hf : f.Sound) {line : List Cell} (hi : Intact f.values line) :
    (ofLine f line).pieces = Piece.pass (line.map (piece f.values)) := by
  obtain ⟨hpairs, -, hipairs, htail⟩ := hi.cut
  have hstart : (none : Option Cell) ≠ some (.char '@') := by simp
  have hkeeps := keeps_ofPairs hstart hf hpairs hipairs
  have hpieces := pieces_ofPairs hstart hf hpairs hipairs
  rw [Piece.pass, (isRenaming_piece f.values).bracketed_map]
  simp only [Bracketed.map]
  rw [Option.map_none] at hpieces
  rw [← hpieces]
  simp [pieces, ofLine, map_piece_mono htail.known hkeeps.values_le]

end Pass

/-! ### All passes -/

open Cell

lemma settles_settle {f : Fragments} (hf : f.Sound) {line : List Cell} (hi : Intact f.values line) :
    Piece.Settles (line.map (piece f.values))
      ((settle f line).line.map (piece (settle f line).fragments.values)) := by
  fun_induction settle f line with
  | case1 f line pass hchanged ih =>
    have hpass := Pass.keeps_ofLine hf hi
    have hpieces := Pass.pieces_ofLine hf hi
    have hlater := ih hpass.sound hpass.intact
    apply Piece.Settles.again
    · rw [← hpieces]
      exact hchanged
    · rw [← hpieces]
      exact hlater
  | case2 f line pass hunchanged =>
    have hpieces := Pass.pieces_ofLine hf hi
    have hdone : (Piece.pass (line.map (piece f.values))).2 = false := by
      rw [← hpieces]
      simpa [Pass.pieces] using hunchanged
    have hsettles := Piece.Settles.done hdone
    rw [← hpieces] at hsettles
    exact hsettles

lemma Piece.settles_of_not_mem {line : List Piece} (h : .char '[' ∉ line) : Settles line line := by
  have hcut : Bracketed.ofText line = ⟨[], line⟩ := Bracketed.ofText_of_not_mem h
  have hpass : pass line = (line, false) := by rw [pass, hcut]; rfl
  have hdone : (pass line).2 = false := by rw [hpass]
  have hsettles := Settles.done hdone
  rwa [hpass] at hsettles

/-- Converting the sends of a line is passing over its pieces until nothing changes. -/
theorem collapseSends_eq_textOf {line : Text} (hmark : Cell.markOpen ∉ line) :
    ∃ done, Piece.Settles (Symbol.ofText line) done ∧ collapseSends line = Piece.textOf done := by
  have hchars : (Symbol.ofText line : List Cell).map (piece Fragments.empty.values) =
      Symbol.ofText line := (isRenaming_piece _).map_ofText line
  unfold collapseSends
  split
  · next hskip =>
    have hbracket : '[' ∉ line := hskip.resolve_right hmark
    refine ⟨_, Piece.settles_of_not_mem ?_, ?_⟩
    · simpa [Symbol.ofText, Symbol.ofChar] using hbracket
    · rw [← hchars, textOf_map_piece, meaning_ofText]
  · have hline : Intact Fragments.empty.values (Symbol.ofText line) := .ofText line
    have hsettles := settles_settle Fragments.sound_empty hline
    have hkeeps := (passes_settle _ _).sameLiterals Fragments.sound_empty hline
    rw [hchars] at hsettles
    refine ⟨_, hsettles, ?_⟩
    rw [textOf_map_piece]
    exact Fragments.spell_expand hkeeps.sound.ordered (by simpa using hkeeps.intact.known)

/-- Whatever the passes over a line come to is what its sends are converted to. -/
lemma collapseSends_of_settles {line : Text} (hmark : Cell.markOpen ∉ line) {done : List Piece}
    (h : Piece.Settles (Symbol.ofText line) done) : collapseSends line = Piece.textOf done := by
  obtain ⟨done', hdone', heq⟩ := collapseSends_eq_textOf hmark
  rw [heq, hdone'.unique h]

end Swiftward
