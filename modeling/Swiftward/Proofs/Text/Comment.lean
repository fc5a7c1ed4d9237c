import Swiftward.Proofs.Text.Closed
import Swiftward.Proofs.Text.Trim
import Swiftward.Text.Comment

/-!
# Where comments begin

Whether a comment begins behind some text is told by that text alone (`BeforeComment`), and so is
the code that the comment is cut off from: what the comment says does not matter.
-/

namespace Swiftward

/-! ### Cuts -/

/-- A comment may begin behind the text, read in state `q`, and none begins before. -/
def BeforeComment : Quoting → Text → Prop
  | q, [] => q = .code
  | q, c :: s =>
    ¬(q = .code ∧ c = '/' ∧ (s = [] ∨ s.head? = some '/')) ∧ BeforeComment (q.stepChar c) s

/-- A cut is made behind such a text, and only there. -/
lemma cutAtSlashes_eq_some_iff {q : Quoting} {s front back : Text} :
    cutAtSlashes q s = some (front, back) ↔
      BeforeComment q front ∧ s = front ++ back ∧ ∃ rest, back = '/' :: '/' :: rest := by
  induction s generalizing q front with
  | nil =>
    simp only [cutAtSlashes, reduceCtorEq, false_iff, not_and, List.nil_eq, List.append_eq_nil_iff]
    rintro - ⟨-, rfl⟩ ⟨rest, hrest⟩
    simp at hrest
  | cons c s ih =>
    rw [cutAtSlashes]
    split_ifs with hcut
    · obtain ⟨rfl, rfl, hhead⟩ := hcut
      obtain ⟨s, rfl⟩ : ∃ t, s = '/' :: t := by
        cases s with
        | nil => simp at hhead
        | cons d t => exact ⟨t, by rw [Option.some.inj hhead]⟩
      constructor
      · intro h
        simp only [Option.some.injEq, Prod.mk.injEq] at h
        obtain ⟨rfl, rfl⟩ := h
        exact ⟨rfl, rfl, s, rfl⟩
      · rintro ⟨hfront, hs, rest, rfl⟩
        cases front with
        | nil => rw [hs, List.nil_append]
        | cons d front =>
          rw [List.cons_append, List.cons.injEq] at hs
          obtain ⟨rfl, hs⟩ := hs
          refine absurd ⟨rfl, rfl, ?_⟩ hfront.1
          cases front with
          | nil => exact .inl rfl
          | cons e front =>
            rw [List.cons_append, List.cons.injEq] at hs
            exact .inr (by rw [← hs.1]; rfl)
    · simp only [Option.map_eq_some_iff, Prod.mk.injEq, Prod.exists]
      constructor
      · rintro ⟨front, back, h, rfl, rfl⟩
        obtain ⟨hfront, rfl, rest, rfl⟩ := ih.mp h
        refine ⟨⟨?_, hfront⟩, rfl, rest, rfl⟩
        rintro ⟨rfl, rfl, rfl | hhead⟩
        · exact hcut ⟨rfl, rfl, rfl⟩
        · refine hcut ⟨rfl, rfl, ?_⟩
          rw [List.head?_append, hhead]
          rfl
      · rintro ⟨hfront, hs, rest, rfl⟩
        cases front with
        | nil =>
          rw [List.nil_append, List.cons.injEq] at hs
          obtain ⟨rfl, rfl⟩ := hs
          exact absurd ⟨hfront, rfl, rfl⟩ hcut
        | cons d front =>
          rw [List.cons_append, List.cons.injEq] at hs
          obtain ⟨rfl, rfl⟩ := hs
          exact ⟨front, _, ih.mpr ⟨hfront.2, rfl, rest, rfl⟩, rfl, rfl⟩

namespace BeforeComment

/-- White space before a text does not matter. -/
lemma of_spaces {gap s : Text} (hgap : ∀ c ∈ gap, isSpace c = true)
    (h : BeforeComment .code (gap ++ s)) : BeforeComment .code s := by
  induction gap with
  | nil => exact h
  | cons c gap ih =>
    obtain ⟨hc, hgap⟩ := List.forall_mem_cons.mp hgap
    have hstep : Quoting.code.stepChar c = .code :=
      Quoting.step_code_of_isUnquoted (isUnquoted_of_isSpace hc)
    refine ih hgap ?_
    have := h.2
    rwa [hstep] at this

lemma spaces {gap : Text} (hgap : ∀ c ∈ gap, isSpace c = true) : BeforeComment .code gap := by
  induction gap with
  | nil => rfl
  | cons c gap ih =>
    obtain ⟨hc, hgap⟩ := List.forall_mem_cons.mp hgap
    have hstep : Quoting.code.stepChar c = .code :=
      Quoting.step_code_of_isUnquoted (isUnquoted_of_isSpace hc)
    constructor
    · rintro ⟨-, rfl, -⟩
      exact absurd hc (by decide)
    · rw [hstep]
      exact ih hgap

/-- Behind a text without a comment, in which no literal is left open, a comment may begin, perhaps
after white space. -/
lemma of_uncut {q : Quoting} {s gap : Text} (hcut : cutAtSlashes q s = none)
    (hclosed : q.run s = .code) (hlast : s.getLast? ≠ some '/')
    (hgap : ∀ c ∈ gap, isSpace c = true) : BeforeComment q (s ++ gap) := by
  induction s generalizing q with
  | nil =>
    obtain rfl : q = .code := hclosed
    exact spaces hgap
  | cons c s ih =>
    rw [cutAtSlashes] at hcut
    split_ifs at hcut with hhere
    have hrest : cutAtSlashes (q.stepChar c) s = none := Option.map_eq_none_iff.mp hcut
    constructor
    · rintro ⟨rfl, rfl, hbehind⟩
      cases s with
      | nil => exact hlast rfl
      | cons d s => exact hhere ⟨rfl, rfl, by simpa using hbehind⟩
    · refine ih hrest hclosed ?_
      cases s with
      | nil => simp
      | cons d s => rwa [List.getLast?_cons_cons] at hlast

/-- Up to where a comment may begin, none begins. -/
lemma cutAtSlashes_eq_none {q : Quoting} {s : Text} (h : BeforeComment q s) :
    cutAtSlashes q s = none := by
  induction s generalizing q with
  | nil => rfl
  | cons c s ih =>
    obtain ⟨hhere, hrest⟩ := h
    have hcut : ¬(q = .code ∧ c = '/' ∧ s.head? = some '/') := fun ⟨hq, hc, hs⟩ =>
      hhere ⟨hq, hc, .inr hs⟩
    rw [cutAtSlashes, if_neg hcut, ih hrest]
    rfl

end BeforeComment

/-- Without a slash outside its literals, a text has no comment. -/
lemma cutAtSlashes_of_slashless {q : Quoting} {s : Text} (h : hasBareFrom '/' q s = false) :
    cutAtSlashes q s = none := by
  induction s generalizing q with
  | nil => rfl
  | cons c s ih =>
    rw [hasBareFrom, Bool.or_eq_false_iff] at h
    have hhere : ¬(q = .code ∧ c = '/' ∧ s.head? = some '/') := by
      rintro ⟨rfl, rfl, -⟩
      exact absurd h.1 (by decide)
    rw [cutAtSlashes, if_neg hhere, ← Quoting.step_char, ih h.2]
    rfl

/-! ### Code and comment -/

/-- White space, two slashes and anything behind them. -/
def IsComment (s : Text) : Prop :=
  ∃ gap rest, (∀ c ∈ gap, isSpace c = true) ∧ s = gap ++ '/' :: '/' :: rest

/-- The code of a line is what stands before its comment, without the white space at the end. -/
lemma splitComment_of_beforeComment {front : Text} (h : BeforeComment .code front) (rest : Text) :
    (splitComment (front ++ '/' :: '/' :: rest)).1 = trimEnd front ∧
      IsComment (splitComment (front ++ '/' :: '/' :: rest)).2 := by
  have hcut : cutAtSlashes .code (front ++ '/' :: '/' :: rest) = some (front, '/' :: '/' :: rest) :=
    cutAtSlashes_eq_some_iff.mpr ⟨h, rfl, rest, rfl⟩
  rw [splitComment, hcut]
  refine ⟨rfl, ?_⟩
  obtain ⟨gap, hgap, hfront⟩ := exists_gap front
  have hdrop : (trimEnd front ++ (gap ++ '/' :: '/' :: rest)).drop (trimEnd front).length =
      gap ++ '/' :: '/' :: rest := List.drop_left
  rw [← List.append_assoc, ← hfront] at hdrop
  exact ⟨gap, rest, hgap, hdrop⟩

/-- A line has no comment, or it is cut behind some text. -/
lemma splitComment_cases (line : Text) :
    (cutAtSlashes .code line = none ∧ splitComment line = (line, [])) ∨
      ∃ front rest, BeforeComment .code front ∧ line = front ++ '/' :: '/' :: rest := by
  cases hcut : cutAtSlashes .code line with
  | none => exact .inl ⟨rfl, by rw [splitComment, hcut]⟩
  | some cut =>
    obtain ⟨hfront, hline, rest, hback⟩ := cutAtSlashes_eq_some_iff.mp hcut
    exact .inr ⟨cut.1, rest, hfront, by rw [hline, hback]⟩

/-- A line is its code and its comment. -/
lemma code_append_comment (line : Text) : (splitComment line).1 ++ (splitComment line).2 = line := by
  obtain ⟨-, hcode⟩ | ⟨front, rest, hfront, rfl⟩ := splitComment_cases line
  · rw [hcode, List.append_nil]
  · obtain ⟨gap, -, hgap⟩ := exists_gap front
    have hcut : cutAtSlashes .code (front ++ '/' :: '/' :: rest) = some (front, '/' :: '/' :: rest) :=
      cutAtSlashes_eq_some_iff.mpr ⟨hfront, rfl, rest, rfl⟩
    have hprefix : trimEnd front <+: front ++ '/' :: '/' :: rest := by
      conv_rhs => rw [hgap, List.append_assoc]
      exact List.prefix_append ..
    rw [splitComment, hcut]
    exact List.prefix_iff_eq_append.mp hprefix

lemma cutAtSlashes_of_append {q : Quoting} {s t : Text} (h : cutAtSlashes q (s ++ t) = none) :
    cutAtSlashes q s = none := by
  cases hcut : cutAtSlashes q s with
  | none => rfl
  | some cut =>
    obtain ⟨hfront, hs, rest, hback⟩ := cutAtSlashes_eq_some_iff.mp hcut
    have hlonger : cutAtSlashes q (s ++ t) = some (cut.1, cut.2 ++ t) := by
      refine cutAtSlashes_eq_some_iff.mpr ⟨hfront, ?_, rest ++ t, ?_⟩
      · rw [← List.append_assoc, ← hs]
      · rw [hback]
        rfl
    rw [hlonger] at h
    cases h

/-- The code of a line has no comment. -/
lemma splitComment_code (line : Text) :
    splitComment (splitComment line).1 = ((splitComment line).1, []) := by
  obtain ⟨-, hline⟩ | ⟨front, rest, hfront, rfl⟩ := splitComment_cases line
  · rw [hline]
    exact hline
  · obtain ⟨gap, -, hgap⟩ := exists_gap front
    have hfrontcut : cutAtSlashes .code front = none := hfront.cutAtSlashes_eq_none
    rw [hgap] at hfrontcut
    rw [(splitComment_of_beforeComment hfront rest).1, splitComment,
      cutAtSlashes_of_append hfrontcut]

/-- Whether a line is a closing brace, with or without a comment. -/
def isClosing (line : Text) : Bool := trim (splitComment line).1 = ['\x7d']

lemma IsComment.ne_nil {s : Text} (h : IsComment s) : s ≠ [] := by
  obtain ⟨gap, rest, -, rfl⟩ := h
  simp

/-- Put behind code, a comment is cut off from it again. -/
lemma splitComment_append {code comment : Text} (hclosed : Closed code)
    (hlast : code.getLast? ≠ some '/') (hcomment : IsComment comment) :
    (splitComment (code ++ comment)).1 = trimEnd (splitComment code).1 := by
  obtain ⟨gap, rest, hgap, rfl⟩ := hcomment
  obtain ⟨hcut, hcode⟩ | ⟨front, rest', hfront, rfl⟩ := splitComment_cases code
  · have hbefore := BeforeComment.of_uncut hcut hclosed hlast hgap
    rw [hcode, ← List.append_assoc, (splitComment_of_beforeComment hbefore rest).1,
      trimEnd_append_spaces _ hgap]
  · rw [(splitComment_of_beforeComment hfront rest').1, trimEnd_trimEnd, List.append_assoc]
    exact (splitComment_of_beforeComment hfront _).1

/-- A text that leaves no literal open and has no slash outside its literals. -/
structure Slashless (s : Text) : Prop where
  closed : Closed s
  hasBareFrom_eq : hasBareFrom '/' .code s = false

instance (s : Text) : Decidable (Slashless s) :=
  decidable_of_iff (Closed s ∧ hasBareFrom '/' .code s = false)
    ⟨fun ⟨hc, hb⟩ => ⟨hc, hb⟩, fun ⟨hc, hb⟩ => ⟨hc, hb⟩⟩

lemma Slashless.append {s t : Text} (hs : Slashless s) (ht : Slashless t) : Slashless (s ++ t) where
  closed := hs.closed.append ht.closed
  hasBareFrom_eq := by
    rw [hasBareFrom_append, hs.closed, hs.hasBareFrom_eq, ht.hasBareFrom_eq]
    rfl

lemma Slashless.splitComment {s : Text} (h : Slashless s) : splitComment s = (s, []) := by
  rw [Swiftward.splitComment, cutAtSlashes_of_slashless h.hasBareFrom_eq]

lemma Slashless.cons {s : Text} (h : Slashless s) {c : Char} (hc : Slashless [c]) :
    Slashless (c :: s) := hc.append h

/-- Characters of a class without quotes and the slash. -/
lemma Slashless.of_class {p : Char → Bool} {s : Text} (hs : ∀ c ∈ s, p c = true)
    (hp : p '"' = false ∧ p '\'' = false ∧ p '/' = false) : Slashless s where
  closed := closed_of_forall_isUnquoted fun c hc => by
    rw [isUnquoted, isChar_eq_false (hs c hc) hp.1, isChar_eq_false (hs c hc) hp.2.1]
    rfl
  hasBareFrom_eq := hasBareFrom_of_forall_ne fun c hc => isChar_eq_false (hs c hc) hp.2.2

/-! ### Tests that do not see comments -/

/-- White space that is not ASCII, by its code. -/
def Unicode.wideSpaces : List Nat :=
  [0x85, 0xA0, 0x1680] ++ List.range' 0x2000 11 ++ [0x2028, 0x2029, 0x202F, 0x205F, 0x3000]

/-- White space can be gone through. -/
lemma Unicode.forall_isSpace {p : Char → Bool}
    (hascii : ∀ n < 128, isSpace (Char.ofNat n) = true → p (Char.ofNat n) = true)
    (hwide : ∀ n ∈ wideSpaces, p (Char.ofNat n) = true) {c : Char} (h : isSpace c = true) :
    p c = true := by
  have hcode : Char.ofNat c.toNat = c := Char.ofNat_toNat c
  by_cases hlow : c.val < 128
  · have hp := hascii c.toNat (UInt32.lt_iff_toNat_lt.mp hlow)
    rw [hcode] at hp
    exact hp h
  · rw [← hcode]
    apply hwide
    rw [isSpace, if_neg hlow] at h
    simp [inRanges, wideSpaces] at h ⊢
    omega

lemma Unicode.isWord_of_isSpace {c : Char} (h : isSpace c = true) : isWord c = false := by
  have hword : (!isWord c) = true :=
    forall_isSpace (p := fun c => !isWord c) (by decide +kernel) (by decide +kernel) h
  simpa using hword

lemma IsComment.cons_cases {comment : Text} (h : IsComment comment) :
    ∃ c rest, comment = c :: rest ∧ (isSpace c = true ∨ c = '/') := by
  obtain ⟨gap, rest, hgap, rfl⟩ := h
  cases gap with
  | nil => exact ⟨'/', '/' :: rest, rfl, .inr rfl⟩
  | cons c gap => exact ⟨c, _, rfl, .inl (hgap c (by simp))⟩

lemma IsComment.trimStart {comment : Text} (h : IsComment comment) :
    ∃ rest, Swiftward.trimStart comment = '/' :: '/' :: rest := by
  obtain ⟨gap, rest, hgap, rfl⟩ := h
  refine ⟨rest, ?_⟩
  rw [Swiftward.trimStart, List.dropWhile_append_of_pos hgap]
  exact trimStart_cons (by decide) _

/-- A comment behind a text does not change the outcome of the test. -/
def IgnoresComment (test : Text → Bool) : Prop :=
  ∀ s comment, IsComment comment → test (s ++ comment) = test s

namespace IgnoresComment

variable {test : Text → Bool}

lemma const (b : Bool) : IgnoresComment fun _ => b := fun _ _ _ => rfl

/-- White space and slashes do as the first character what the end of the text does. -/
lemma head? {p : Option Char → Bool} (hspace : ∀ c, isSpace c = true → p (some c) = p none)
    (hslash : p (some '/') = p none) : IgnoresComment fun s => p s.head? := by
  intro s comment hcomment
  cases s with
  | nil =>
    obtain ⟨c, rest, rfl, hc | rfl⟩ := hcomment.cons_cases
    · exact hspace c hc
    · exact hslash
  | cons c s => rfl

lemma after? (h : IgnoresComment test) {lead : String}
    (hlead : (lead.toList.all fun c => !isSpace c && c != '/') = true) :
    IgnoresComment fun s => (Swiftward.after? lead s).any test := by
  intro s comment hcomment
  unfold Swiftward.after?
  generalize lead.toList = lead at hlead
  induction lead generalizing s with
  | nil => exact h s comment hcomment
  | cons c lead ih =>
    simp only [List.all_cons, Bool.and_eq_true, Bool.not_eq_true', bne_iff_ne] at hlead
    obtain ⟨⟨hspace, hslash⟩, hlead⟩ := hlead
    cases s with
    | nil =>
      obtain ⟨d, rest, rfl, hd⟩ := hcomment.cons_cases
      have hne : c ≠ d := by
        rintro rfl
        rcases hd with hd | hd
        · simp [hspace] at hd
        · exact hslash hd
      simp [strip?, hne]
    | cons d s =>
      by_cases heq : c = d
      · simpa [strip?, heq] using ih s hlead
      · simp [strip?, heq]

lemma trimStart (h : IgnoresComment test) :
    IgnoresComment fun s => test (Swiftward.trimStart s) := by
  intro s comment hcomment
  dsimp only
  obtain ⟨rest, hrest⟩ := hcomment.trimStart
  have hslashes : IsComment ('/' :: '/' :: rest) := ⟨[], rest, by simp, rfl⟩
  induction s with
  | nil =>
    rw [List.nil_append, hrest]
    exact h [] _ hslashes
  | cons c s ih =>
    cases hc : isSpace c with
    | true => rw [List.cons_append, trimStart_cons_space hc, trimStart_cons_space hc, ih]
    | false =>
      rw [List.cons_append, trimStart_cons hc, trimStart_cons hc]
      exact h (c :: s) comment hcomment

lemma afterSpace? (h : IgnoresComment test) (hnil : test [] = false) :
    IgnoresComment fun s => (Swiftward.afterSpace? s).any test := by
  intro s comment hcomment
  cases s with
  | nil =>
    have htrim : test (Swiftward.trimStart comment) = test [] := h.trimStart [] comment hcomment
    obtain ⟨c, rest, rfl, -⟩ := hcomment.cons_cases
    cases hc : isSpace c with
    | true =>
      rw [trimStart_cons_space hc, hnil] at htrim
      simpa [Swiftward.afterSpace?, hc] using htrim
    | false => simp [Swiftward.afterSpace?, hc]
  | cons c s =>
    cases hc : isSpace c with
    | true => simpa [Swiftward.afterSpace?, hc] using h.trimStart s comment hcomment
    | false => simp [Swiftward.afterSpace?, hc]

end IgnoresComment

end Swiftward
