import Swiftward.Proofs.MessageSend.Mark
import Swiftward.Proofs.MessageSend.Progress
import Swiftward.Proofs.MessageSend.Spelling

/-!
# Passes with the marks written out

Written out, a mark is a stretch of text like any other: it goes through trimming, splitting at
keywords and cutting at brackets, and in the end it is looked for in the line by its characters.
A mark reads like the symbol that it spells (`Cell.isSpelling_spell`), so the passes over a line in
which marks are written out are the passes over its cells (`Pass.written_ofLine`), and none of them
cuts a mark or merges two. At every pass each character that opens a mark opens one that is in use,
and expanding the marks leaves none (`marks_never_leak`).
-/

namespace Swiftward

open Cell (markOpen markClose)

/-! ### The passes over a text -/

/-- What a pass makes of a stretch of a text, with the marks written out. -/
structure WrittenPass where
  line : Text
  parts : List Text
  changed : Bool

namespace WrittenPass

/-- One pair, with the text before it, behind `previous`. -/
def ofPair (previous : Option Char) (parts : List Text) (pair : BracketPair Char) : WrittenPass :=
  let role := BracketRole.behind ((pair.before.getLast? <|> previous).map Cell.char)
  match role.part? pair.interior with
  | some part =>
    ⟨(if role = .literal then pair.before.dropLast else pair.before) ++
      Cell.spell (.fragment parts.length), parts ++ [part], true⟩
  | none => ⟨pair.before ++ pair.whole, parts, false⟩

/-- The pairs of a line from left to right, the first of them behind `previous`. -/
def ofPairs (previous : Option Char) (parts : List Text) : List (BracketPair Char) → WrittenPass
  | [] => ⟨[], parts, false⟩
  | pair :: pairs =>
    let first := ofPair previous parts pair
    let later := ofPairs (some ']') first.parts pairs
    ⟨first.line ++ later.line, later.parts, first.changed || later.changed⟩

/-- A whole line. -/
def ofLine (parts : List Text) (line : Text) : WrittenPass :=
  let cut := Bracketed.ofText line
  let pass := ofPairs none parts cut.pairs
  { pass with line := pass.line ++ cut.tail }

/-- The passes over a line in order, the first that changes nothing being the last. -/
inductive Run : List Text → Text → List WrittenPass → Prop
  | last {parts : List Text} {line : Text} (h : (ofLine parts line).changed = false) :
      Run parts line [ofLine parts line]
  | more {parts : List Text} {line : Text} {passes : List WrittenPass}
      (h : (ofLine parts line).changed = true)
      (hlater : Run (ofLine parts line).parts (ofLine parts line).line passes) :
      Run parts line (ofLine parts line :: passes)

/-- The passes over a line leave no choice. -/
lemma Run.unique {parts : List Text} {line : Text} {passes passes' : List WrittenPass}
    (h : Run parts line passes) (h' : Run parts line passes') : passes = passes' := by
  induction h generalizing passes' with
  | last hlast =>
    cases h' with
    | last => rfl
    | more hmore => simp [hlast] at hmore
  | more hmore _ ih =>
    cases h' with
    | last hlast => simp [hlast] at hmore
    | more _ hlater => rw [ih hlater]

end WrittenPass

/-- The digits of the mark that a text begins with, and what stands behind the mark. -/
def mark? : Text → Option (Text × Text)
  | [] => none
  | c :: s =>
    match s.takeWhile Char.isDigit, s.dropWhile Char.isDigit with
    | d :: digits, e :: rest =>
      if c = markOpen ∧ e = markClose then some (d :: digits, rest) else none
    | _, _ => none

/-- A mark with its digits, written out. -/
def markText (digits : Text) : Text := markOpen :: digits ++ [markClose]

lemma eq_of_mark? {s digits rest : Text} (h : mark? s = some (digits, rest)) :
    s = markText digits ++ rest := by
  cases s with
  | nil => cases h
  | cons c s =>
    rw [mark?] at h
    split at h
    · next d digits' e rest' htake hdrop =>
      split at h
      · next hends =>
        obtain ⟨rfl, rfl⟩ := hends
        obtain ⟨rfl, rfl⟩ : d :: digits' = digits ∧ rest' = rest := by simpa using h
        rw [← List.takeWhile_append_dropWhile (p := Char.isDigit) (l := s), htake, hdrop]
        simp [markText]
      · cases h
    · cases h

/-- A text in which every mark that has a part is replaced by it. -/
def replaceMarks (parts : List Text) (s : Text) : Text :=
  match s with
  | [] => []
  | c :: s =>
    match _h : mark? (c :: s) with
    | some (digits, rest) =>
      (parts[Nat.ofDigitChars 10 digits 0]?).getD (markText digits) ++ replaceMarks parts rest
    | none => c :: replaceMarks parts s
termination_by s.length
decreasing_by
  · simp [eq_of_mark? _h, markText]
    omega
  · simp

/-- A text in which marks are replaced, over and over, for at most the given number of rounds. -/
def expandMarksFor (parts : List Text) : Nat → Text → Text
  | 0, s => s
  | rounds + 1, s =>
    if markOpen ∈ s then expandMarksFor parts rounds (replaceMarks parts s) else s

/-- A text in which marks are replaced for at most one round for each part, and one more. -/
def expandMarks (parts : List Text) (s : Text) : Text := expandMarksFor parts (parts.length + 1) s

/-! ### Marks in a text -/

/-- Each character of a text that opens a mark opens one with a number below `n`. -/
def MarksBelow (n : Nat) (s : Text) : Prop :=
  ∀ front rest, s = front ++ markOpen :: rest →
    ∃ id < n, ∃ later, rest = Nat.toDigits 10 id ++ markClose :: later

/-- The marks of a line are those of parts in the table, and those of a part are of parts before
it. -/
structure WrittenPass.WellMarked (pass : WrittenPass) : Prop where
  line : MarksBelow pass.parts.length pass.line
  parts : ∀ id part, pass.parts[id]? = some part → MarksBelow id part

/-! ### Marks read like what they spell -/

lemma isInert_of_isDigit {c : Char} (h : c.isDigit = true) : isInert c = true := by
  have hspace : isSpace c = false := by
    have hrange : 48 ≤ c.val ∧ c.val ≤ 57 := by simpa [Char.isDigit] using h
    have hsmall : c.val < 128 := by grind
    have hlarge : ¬ c.val ≤ 13 := by grind
    have hblank : c ≠ ' ' := by
      rintro rfl
      exact absurd hrange.1 (by decide)
    simp [isSpace, Unicode.isSpace, hsmall, hlarge, hblank]
  have hdelimiters : ∀ d ∈ delimiters, isChar d c = false := by
    intro d hd
    have hdigits : delimiters.all (!Char.isDigit ·) = true := by decide
    have hdigit : d.isDigit = false := by simpa using List.all_eq_true.mp hdigits d hd
    exact isChar_eq_false h hdigit
  rw [isInert, hspace, Bool.not_false, Bool.true_and, List.all_eq_true]
  intro d hd
  rw [hdelimiters d hd]
  rfl

lemma isDigit_of_mem_digits {id : Nat} {c : Char} (hc : c ∈ Nat.toDigits 10 id) :
    c.isDigit = true :=
  Nat.isDigit_of_mem_toDigits (by decide) (by decide) hc

lemma getLast?_mark (id : Nat) : (Cell.spell (.fragment id)).getLast? = some markClose :=
  List.getLast?_concat

lemma readsOpaque_mark (id : Nat) : ReadsOpaque (Cell.spell (.fragment id)) := by
  constructor
  · exact List.cons_ne_nil _ _
  · intro c hc
    simp only [Cell.spell, List.cons_append, List.mem_cons, List.mem_append, List.not_mem_nil,
      or_false] at hc
    rcases hc with rfl | hdigit | rfl
    · decide
    · exact isInert_of_isDigit (isDigit_of_mem_digits hdigit)
    · decide
  · intro c hc
    obtain rfl : markOpen = c := by simpa [Cell.spell] using hc
    decide +kernel
  · intro c hc
    obtain rfl : markClose = c := by simpa [getLast?_mark] using hc
    decide +kernel

/-- Written-out marks read like marks. -/
lemma Cell.isSpelling_spell : IsSpelling Cell.spell := by
  constructor
  · intro c
    rfl
  · intro a ha
    cases a with
    | char c => simp at ha
    | fragment id => exact readsOpaque_mark id

/-- A line with its marks written out. -/
def writeMarks (line : List Cell) : Text := line.flatMap Cell.spell

lemma writeMarks_append (s t : List Cell) : writeMarks (s ++ t) = writeMarks s ++ writeMarks t :=
  List.flatMap_append

lemma getLast?_writeMarks_concat (s : List Cell) (a : Cell) :
    (writeMarks (s ++ [a])).getLast? = (Cell.spell a).getLast? := by
  obtain ⟨t, c, hspelled⟩ :=
    List.eq_nil_or_concat (Cell.spell a) |>.resolve_left (Cell.isSpelling_spell.ne_nil a)
  simp [writeMarks, hspelled]

/-- A written-out mark is to a pair behind it what the mark is. -/
lemma BracketRole.behind_writeMarks (s : List Cell) (previous : Option Char) :
    behind (((writeMarks s).getLast? <|> previous).map Cell.char) =
      behind (s.getLast? <|> previous.map Cell.char) := by
  rcases List.eq_nil_or_concat s with rfl | ⟨init, a, rfl⟩
  · rfl
  · rw [List.concat_eq_append, getLast?_writeMarks_concat, List.getLast?_concat]
    cases a with
    | char c => rfl
    | fragment id =>
      have hclose : behind (some (.char markClose)) = .trailing := by decide +kernel
      rw [getLast?_mark]
      exact hclose

lemma BracketRole.part?_writeMarks (role : BracketRole) (interior : List Cell) :
    role.part? (writeMarks interior) = (role.part? interior).map writeMarks := by
  have hwhole : BracketPair.whole ⟨[], writeMarks interior⟩ =
      writeMarks (BracketPair.whole ⟨[], interior⟩) := by
    simp [BracketPair.whole, writeMarks, Cell.spell]
  have hsend : resolveSend (writeMarks interior) = (resolveSend interior).map writeMarks :=
    Cell.isSpelling_spell.resolveSend_flatMap interior
  cases role with
  | literal => exact congrArg some hwhole
  | subscript => exact congrArg some hwhole
  | trailing =>
    rw [part?, part?, hsend, hwhole]
    cases resolveSend interior <;> rfl
  | send => exact hsend

namespace Pass

/-- A pass with all its marks written out. -/
def written (p : Pass) : WrittenPass :=
  ⟨writeMarks p.line, p.fragments.texts.map writeMarks, p.changed⟩

/-- The mark of an array literal is a character, however the marks behind it are written. -/
lemma writeMarks_lead (previous : Option Char) (before : List Cell) :
    writeMarks (if BracketRole.behind (before.getLast? <|> previous.map Cell.char) = .literal then
        before.dropLast else before) =
      if BracketRole.behind (before.getLast? <|> previous.map Cell.char) = .literal then
        (writeMarks before).dropLast else writeMarks before := by
  split_ifs with hrole
  · rcases List.eq_nil_or_concat before with rfl | ⟨init, a, rfl⟩
    · rfl
    · rw [List.concat_eq_append, List.getLast?_concat] at hrole
      obtain rfl : a = .char '@' := by simpa using BracketRole.eq_at_of_behind hrole
      simp [writeMarks, Cell.spell]
  · rfl

lemma written_ofPair (previous : Option Char) (f : Fragments) (pair : BracketPair Cell) :
    (ofPair (previous.map Cell.char) f pair).written =
      WrittenPass.ofPair previous (f.texts.map writeMarks) (pair.spell Cell.spell) := by
  obtain ⟨before, interior⟩ := pair
  have hspelled : BracketPair.spell Cell.spell ⟨before, interior⟩ =
      ⟨writeMarks before, writeMarks interior⟩ := rfl
  rw [hspelled, WrittenPass.ofPair]
  dsimp only
  rw [BracketRole.behind_writeMarks, BracketRole.part?_writeMarks]
  cases hpart : (BracketRole.behind (before.getLast? <|> previous.map Cell.char)).part? interior with
  | none =>
    rw [ofPair_of_not_part f hpart]
    simp [written, BracketPair.whole, writeMarks, Cell.spell]
  | some part =>
    rw [ofPair_of_part f before hpart, ← writeMarks_lead]
    simp [written, setAside, writeMarks, Fragments.next, Fragments.insert]

lemma written_ofPairs (previous : Option Char) (f : Fragments) (pairs : List (BracketPair Cell)) :
    (ofPairs (previous.map Cell.char) f pairs).written =
      WrittenPass.ofPairs previous (f.texts.map writeMarks)
        (pairs.map (BracketPair.spell Cell.spell)) := by
  induction pairs generalizing previous f with
  | nil => rfl
  | cons pair pairs ih =>
    have hfirst := written_ofPair previous f pair
    have hlater := ih (some ']') (ofPair (previous.map Cell.char) f pair).fragments
    rw [List.map_cons, WrittenPass.ofPairs, ← hfirst]
    have hparts : (ofPair (previous.map Cell.char) f pair).written.parts =
        (ofPair (previous.map Cell.char) f pair).fragments.texts.map writeMarks := rfl
    rw [hparts, ← hlater]
    simp [ofPairs, written, writeMarks_append]

/-- A pass over a line with its marks written out is the pass over the line. -/
theorem written_ofLine (f : Fragments) (line : List Cell) :
    (ofLine f line).written = WrittenPass.ofLine (f.texts.map writeMarks) (writeMarks line) := by
  have hcut : Bracketed.ofText (writeMarks line) = (Bracketed.ofText line).spell Cell.spell :=
    Cell.isSpelling_spell.bracketed_flatMap line
  have hpairs := written_ofPairs none f (Bracketed.ofText line).pairs
  rw [WrittenPass.ofLine, hcut, Bracketed.spell, ← hpairs]
  simp [ofLine, written, writeMarks]

end Pass

/-- The passes over a line with its marks written out are the passes over the line. -/
lemma run_written (f : Fragments) (line : List Cell) :
    WrittenPass.Run (f.texts.map writeMarks) (writeMarks line)
      ((passesOver f line).map Pass.written) := by
  fun_induction passesOver f line with
  | case1 f line pass hchanged ih =>
    have hpass : pass.written = WrittenPass.ofLine (f.texts.map writeMarks) (writeMarks line) :=
      Pass.written_ofLine f line
    have hmore : pass.written.changed = true := hchanged
    have hlater : WrittenPass.Run pass.written.parts pass.written.line
        ((passesOver pass.fragments pass.line).map Pass.written) := ih
    rw [List.map_cons]
    rw [hpass] at hmore hlater ⊢
    exact .more hmore hlater
  | case2 f line pass hunchanged =>
    have hpass : pass.written = WrittenPass.ofLine (f.texts.map writeMarks) (writeMarks line) :=
      Pass.written_ofLine f line
    have hlast : pass.written.changed = false := (Bool.not_eq_true pass.changed).mp hunchanged
    rw [List.map_singleton]
    rw [hpass] at hlast ⊢
    exact .last hlast

/-! ### Expanding the marks -/

lemma mark?_spell (id : Nat) (rest : Text) :
    mark? (Cell.spell (.fragment id) ++ rest) = some (Nat.toDigits 10 id, rest) := by
  have hdigits : ∀ c ∈ Nat.toDigits 10 id, c.isDigit = true := fun c hc => isDigit_of_mem_digits hc
  have hclose : ∀ c ∈ (markClose :: rest).head?, c.isDigit = false := by
    rintro c ⟨⟩
    decide
  obtain ⟨htake, hdrop⟩ := takeWhile_dropWhile_append hdigits hclose
  have hnonempty : Nat.toDigits 10 id ≠ [] := Nat.toDigits_ne_nil
  obtain ⟨d, digits, heq⟩ := List.exists_cons_of_ne_nil hnonempty
  have htext : Cell.spell (.fragment id) ++ rest =
      markOpen :: (Nat.toDigits 10 id ++ markClose :: rest) := by simp [Cell.spell]
  rw [htext, mark?, htake, hdrop, heq]
  simp

lemma mark?_cons_of_ne {c : Char} (hc : c ≠ markOpen) (s : Text) : mark? (c :: s) = none := by
  rw [mark?]
  split
  · rw [if_neg (fun h => hc h.1)]
  · rfl

lemma replaceMarks_cons {parts : List Text} {c : Char} (hc : c ≠ markOpen) (s : Text) :
    replaceMarks parts (c :: s) = c :: replaceMarks parts s := by
  rw [replaceMarks]
  split
  · next hmark => simp [mark?_cons_of_ne hc] at hmark
  · rfl

lemma replaceMarks_mark (parts : List Text) (id : Nat) (s : Text) :
    replaceMarks parts (Cell.spell (.fragment id) ++ s) =
      (parts[id]?).getD (Cell.spell (.fragment id)) ++ replaceMarks parts s := by
  have hmark := mark?_spell id s
  have hnumber : Nat.ofDigitChars 10 (Nat.toDigits 10 id) 0 = id :=
    Nat.ofDigitChars_toDigits (by decide) (by decide)
  have hcons : Cell.spell (.fragment id) ++ s =
      markOpen :: (Nat.toDigits 10 id ++ [markClose] ++ s) := rfl
  rw [hcons] at hmark ⊢
  rw [replaceMarks]
  split
  · next digits rest heq =>
    rw [hmark] at heq
    obtain ⟨rfl, rfl⟩ : Nat.toDigits 10 id = digits ∧ s = rest := by simpa using heq
    rw [hnumber]
    rfl
  · next heq =>
    rw [hmark] at heq
    cases heq

/-- Marks are replaced in a text as they are in the line that it writes out. -/
lemma replaceMarks_writeMarks (f : Fragments) {line : List Cell} (hline : MarkFree line) :
    replaceMarks (f.texts.map writeMarks) (writeMarks line) = writeMarks (line.flatMap f.lookUp) := by
  induction line with
  | nil => simp [writeMarks, replaceMarks]
  | cons a line ih =>
    obtain ⟨ha, hline⟩ := markFree_cons.mp hline
    have ih := ih hline
    rw [List.flatMap_cons, writeMarks_append, ← ih]
    cases a with
    | char c =>
      have hc : c ≠ markOpen := by
        rintro rfl
        exact ha rfl
      exact replaceMarks_cons hc _
    | fragment id =>
      have hpart : writeMarks (f.lookUp (.fragment id)) =
          ((f.texts.map writeMarks)[id]?).getD (Cell.spell (.fragment id)) := by
        rw [Fragments.lookUp, List.getElem?_map]
        cases f.texts[id]? with
        | none => simp [writeMarks]
        | some part => rfl
      rw [hpart]
      exact replaceMarks_mark _ id _

lemma markOpen_mem_writeMarks {line : List Cell} (hline : MarkFree line) :
    markOpen ∈ writeMarks line ↔ line.any Cell.isFragment = true := by
  rw [List.any_eq_true, writeMarks, List.mem_flatMap]
  refine exists_congr fun a => and_congr_right fun ha => ?_
  cases a with
  | char c =>
    have hc : markOpen ≠ c := by
      rintro rfl
      exact hline ha
    simpa [Cell.spell, Cell.isFragment] using hc
  | fragment id => simp [Cell.spell, Cell.isFragment]

lemma markFree_lookUp {f : Fragments} (hf : ∀ part ∈ f.texts, MarkFree part) {line : List Cell}
    (hline : MarkFree line) : MarkFree (line.flatMap f.lookUp) := by
  rw [markFree_flatMap]
  intro a ha
  cases a with
  | char c =>
    have hc : Symbol.ofChar markOpen ≠ Cell.char c := by
      intro heq
      exact hline (heq ▸ ha)
    exact markFree_cons.mpr ⟨hc, markFree_nil⟩
  | fragment id =>
    rw [Fragments.lookUp]
    cases hid : f.texts[id]? with
    | none => simp
    | some part => exact hf part (List.mem_of_getElem? hid)

lemma expandMarksFor_writeMarks {f : Fragments} (hf : ∀ part ∈ f.texts, MarkFree part)
    (rounds : Nat) {line : List Cell} (hline : MarkFree line) :
    expandMarksFor (f.texts.map writeMarks) rounds (writeMarks line) =
      writeMarks (f.expandFor rounds line) := by
  induction rounds generalizing line with
  | zero => rfl
  | succ rounds ih =>
    rw [expandMarksFor, Fragments.expandFor]
    by_cases hany : line.any Cell.isFragment = true
    · rw [if_pos ((markOpen_mem_writeMarks hline).mpr hany), if_pos hany,
        replaceMarks_writeMarks f hline, ih (markFree_lookUp hf hline)]
    · rw [if_neg (fun h => hany ((markOpen_mem_writeMarks hline).mp h)), if_neg hany]

/-- Expanding the written-out marks is expanding the marks. -/
lemma expandMarks_writeMarks {f : Fragments} (hf : ∀ part ∈ f.texts, MarkFree part)
    {line : List Cell} (hline : MarkFree line) :
    expandMarks (f.texts.map writeMarks) (writeMarks line) = writeMarks (f.expand line) := by
  rw [expandMarks, List.length_map]
  exact expandMarksFor_writeMarks hf _ hline

/-- Nothing is left to expand, since each round takes the marks down by one level. -/
lemma isFragment_expandFor {f : Fragments} (h : f.Ordered) {rounds n : Nat} {line : List Cell}
    (hk : Known n line) (hn : n ≤ f.texts.length) (hrounds : n ≤ rounds) :
    (f.expandFor rounds line).any Cell.isFragment = false := by
  induction rounds generalizing n line with
  | zero =>
    obtain rfl : n = 0 := by omega
    exact Fragments.not_any_of_known_zero hk
  | succ rounds ih =>
    rw [Fragments.expandFor]
    split
    · next hany =>
      cases n with
      | zero =>
        rw [Fragments.not_any_of_known_zero hk] at hany
        cases hany
      | succ n => exact ih (Fragments.known_lookUp h hk (by omega)) (by omega) (by omega)
    · next hany => exact (Bool.not_eq_true _).mp hany

lemma markFree_expandFor {f : Fragments} (hf : ∀ part ∈ f.texts, MarkFree part) (rounds : Nat)
    {line : List Cell} (hline : MarkFree line) : MarkFree (f.expandFor rounds line) := by
  induction rounds generalizing line with
  | zero => exact hline
  | succ rounds ih =>
    rw [Fragments.expandFor]
    split
    · exact ih (markFree_lookUp hf hline)
    · exact hline

lemma markOpen_notMem_expand {p : Pass} (h : p.fragments.Ordered)
    (hk : Known p.fragments.texts.length p.line) (hfree : p.IsMarkFree) :
    markOpen ∉ writeMarks (p.fragments.expand p.line) := by
  have hnone : (p.fragments.expand p.line).any Cell.isFragment = false :=
    isFragment_expandFor h hk (Nat.le_refl _) (Nat.le_succ _)
  have hexpanded : MarkFree (p.fragments.expand p.line) :=
    markFree_expandFor hfree.parts _ hfree.line
  rw [markOpen_mem_writeMarks hexpanded, hnone]
  decide

/-! ### The marks of a text -/

lemma marksBelow_append_left {n : Nat} {s t : Text} (hs : MarkFree s) (ht : MarksBelow n t) :
    MarksBelow n (s ++ t) := by
  intro front rest hsplit
  rcases List.append_eq_append_iff.mp hsplit with ⟨mid, -, hmid⟩ | ⟨mid, hmid, hrest⟩
  · exact ht mid rest hmid
  · cases mid with
    | nil => exact ht [] rest (by simpa using hrest.symm)
    | cons c mid =>
      obtain ⟨rfl, -⟩ := List.cons.inj hrest
      exact absurd (by simp [hmid]) hs

lemma marksBelow_writeMarks {n : Nat} {line : List Cell} (hknown : Known n line)
    (hline : MarkFree line) : MarksBelow n (writeMarks line) := by
  induction line with
  | nil =>
    intro front rest hsplit
    simp [writeMarks] at hsplit
  | cons a line ih =>
    obtain ⟨ha, hline⟩ := markFree_cons.mp hline
    have hlater : MarksBelow n (writeMarks line) := ih hknown.tail hline
    cases a with
    | char c =>
      have hc : MarkFree [c] := by
        rw [markFree_cons]
        refine ⟨?_, markFree_nil⟩
        rintro rfl
        exact ha rfl
      exact marksBelow_append_left hc hlater
    | fragment id =>
      have hdigits : MarkFree (Nat.toDigits 10 id ++ [markClose]) := by
        intro hmem
        rcases List.mem_append.mp hmem with hdigit | hclose
        · exact absurd (isDigit_of_mem_digits hdigit) (by decide)
        · exact absurd hclose (by decide)
      have hbehind := marksBelow_append_left hdigits hlater
      intro front rest hsplit
      cases front with
      | nil =>
        obtain ⟨-, rfl⟩ := List.cons.inj hsplit
        refine ⟨id, hknown id (by simp), writeMarks line, ?_⟩
        show (Nat.toDigits 10 id ++ [markClose]) ++ writeMarks line = _
        simp
      | cons c front =>
        obtain ⟨-, htail⟩ := List.cons.inj hsplit
        exact hbehind front rest htail

/-! ### All passes -/

lemma passes_of_mem {f : Fragments} {line : List Cell} {p : Pass} (h : p ∈ passesOver f line) :
    Passes f line p.fragments p.line := by
  fun_induction passesOver f line with
  | case1 f line pass hchanged ih =>
    rcases List.mem_cons.mp h with rfl | hlater
    · exact Passes.none.one
    · exact Passes.none.one.trans (ih hlater)
  | case2 f line pass hunchanged =>
    obtain rfl := List.mem_singleton.mp h
    exact Passes.none.one

lemma isMarkFree_of_mem {f : Fragments} {line : List Cell} (hline : MarkFree line)
    (hf : ∀ part ∈ f.texts, MarkFree part) {p : Pass} (h : p ∈ passesOver f line) :
    p.IsMarkFree := by
  fun_induction passesOver f line with
  | case1 f line pass hchanged ih =>
    have hpass : pass.IsMarkFree := Pass.isMarkFree_ofLine hline hf
    rcases List.mem_cons.mp h with rfl | hlater
    · exact hpass
    · exact ih hpass.line hpass.parts hlater
  | case2 f line pass hunchanged =>
    obtain rfl := List.mem_singleton.mp h
    exact Pass.isMarkFree_ofLine hline hf

lemma wellMarked_written {p : Pass} (hordered : p.fragments.Ordered)
    (hknown : Known p.fragments.texts.length p.line) (hfree : p.IsMarkFree) :
    p.written.WellMarked := by
  constructor
  · have hline := marksBelow_writeMarks hknown hfree.line
    simpa [Pass.written] using hline
  · intro id text htext
    obtain ⟨part, hpart, rfl⟩ : ∃ part, p.fragments.texts[id]? = some part ∧
        writeMarks part = text := by
      simpa [Pass.written, List.getElem?_map] using htext
    exact marksBelow_writeMarks (hordered id part hpart)
      (hfree.parts part (List.mem_of_getElem? hpart))

/-- A line without brackets is settled from the start. -/
lemma settle_of_not_mem (f : Fragments) {line : Text} (h : '[' ∉ line) :
    settle f (Symbol.ofText line) = ⟨Symbol.ofText line, f, false⟩ := by
  have hcut : Bracketed.ofText (Symbol.ofText line : List Cell) = ⟨[], Symbol.ofText line⟩ := by
    apply Bracketed.ofText_of_not_mem
    simpa [Symbol.ofText] using h
  have hpass : Pass.ofLine f (Symbol.ofText line) = ⟨Symbol.ofText line, f, false⟩ := by
    rw [Pass.ofLine, hcut]
    rfl
  rw [settle, hpass]
  rfl

/-- The line with its sends in call syntax is what the last pass leaves, expanded. -/
lemma collapseSends_eq_expand {line : Text} (hmark : markOpen ∉ line) :
    collapseSends line = writeMarks ((settle .empty (Symbol.ofText line)).fragments.expand
      (settle .empty (Symbol.ofText line)).line) := by
  unfold collapseSends
  split
  · next hskip =>
    rw [settle_of_not_mem .empty (hskip.resolve_right hmark)]
    have hspell : writeMarks (Symbol.ofText line) = line := by
      rw [writeMarks, Cell.isSpelling_spell.flatMap_ofText, Symbol.ofText_char]
    have hnone : (Symbol.ofText line : List Cell).any Cell.isFragment = false :=
      Fragments.not_any_of_known_zero (known_ofText 0 line)
    simp only [Fragments.expand, Fragments.expandFor, hnone]
    exact hspell.symm
  · rfl

/-- Without the character that opens a mark, the passes over a text with the marks written out are
the passes over its cells. At every pass each such character on the line opens a mark whose part is
in the table, and in a part one whose part is before it; expanding the marks of the last pass gives
the line with its sends in call syntax, which has no such character. A line that has one is left
alone. -/
theorem marks_never_leak (line : Text) :
    (markOpen ∈ line → collapseSends line = line) ∧
      (markOpen ∉ line →
        (∃ passes, WrittenPass.Run [] line passes) ∧
        (∀ passes, WrittenPass.Run [] line passes →
          (∀ pass ∈ passes, pass.WellMarked) ∧
            ∀ last, passes.getLast? = some last →
              expandMarks last.parts last.line = collapseSends line) ∧
        markOpen ∉ collapseSends line) := by
  constructor
  · intro hmark
    exact if_pos (.inr hmark)
  · intro hmark
    have hline : MarkFree (Symbol.ofText line : List Cell) := markFree_ofText.mpr hmark
    have htable : ∀ part ∈ Fragments.empty.texts, MarkFree part := by simp [Fragments.empty]
    have hwell : ∀ p ∈ passesOver .empty (Symbol.ofText line), p.fragments.Ordered ∧
        Known p.fragments.texts.length p.line ∧ p.IsMarkFree := by
      intro p hp
      have hsame := (passes_of_mem hp).sameLiterals Fragments.sound_empty (.ofText line)
      have hknown : Known p.fragments.texts.length p.line := by simpa using hsame.intact.known
      exact ⟨hsame.sound.ordered, hknown, isMarkFree_of_mem hline htable hp⟩
    have hsettled : settle .empty (Symbol.ofText line) ∈ passesOver .empty (Symbol.ofText line) :=
      List.mem_of_getLast? (getLast?_passesOver _ _)
    obtain ⟨hordered, hknown, hfree⟩ := hwell _ hsettled
    have hrun : WrittenPass.Run [] line ((passesOver .empty (Symbol.ofText line)).map Pass.written) := by
      have hcells := run_written .empty (Symbol.ofText line)
      rw [writeMarks, Cell.isSpelling_spell.flatMap_ofText, Symbol.ofText_char] at hcells
      exact hcells
    refine ⟨⟨_, hrun⟩, ?_, ?_⟩
    · intro passes hpasses
      obtain rfl := hpasses.unique hrun
      constructor
      · intro pass hpass
        obtain ⟨p, hp, rfl⟩ := List.mem_map.mp hpass
        obtain ⟨hordered, hknown, hfree⟩ := hwell p hp
        exact wellMarked_written hordered hknown hfree
      · intro last hlast
        rw [List.getLast?_map, getLast?_passesOver] at hlast
        obtain rfl := Option.some.inj hlast
        rw [collapseSends_eq_expand hmark]
        exact expandMarks_writeMarks hfree.parts hfree.line
    · rw [collapseSends_eq_expand hmark]
      exact markOpen_notMem_expand hordered hknown hfree

end Swiftward
