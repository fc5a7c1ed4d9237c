import Swiftward.Proofs.Report.Json
import Mathlib.Tactic.IntervalCases

/-!
# Reading back a report in JSON

A report in JSON holds the lines of all files and nothing else. A string is read back to its text,
whatever characters that has, since each of them is read back as it was written and none ends the
string early. The number of a line ends where the comma behind it stands. With this the report falls
into pieces, from which an array with one object for each line is built.
-/

namespace Swiftward

namespace Json

/-! ### Numbers -/

/-- Something is read off the front of a list, so that the rest is left. -/
def Reads {σ α : Type} (reader : Reader σ α) (s : List σ) (value : α) (rest : List σ) : Prop :=
  ∃ h, reader s = some ⟨value, rest, h⟩

lemma literal?_eq_none {c : Char} {s : Text} (h : s.head? ≠ some c) : literal? [c] s = none := by
  rw [literal?, dif_neg]
  rintro ⟨-, rest, rfl⟩
  exact h rfl

/-- Digits are read to their end. -/
lemma reads_digits {digits s : Text} (hne : digits ≠ []) (hdigits : ∀ c ∈ digits, c.isDigit = true)
    (hs : ∀ c, s.head? = some c → c.isDigit = false) : Reads digits? (digits ++ s) digits s := by
  have hrest : s.takeWhile Char.isDigit = [] ∧ s.dropWhile Char.isDigit = s := by
    cases s with
    | nil => exact ⟨rfl, rfl⟩
    | cons c s =>
      have hc := hs c rfl
      exact ⟨List.takeWhile_cons_of_neg (by simp [hc]), List.dropWhile_cons_of_neg (by simp [hc])⟩
  have htake : (digits ++ s).takeWhile Char.isDigit = digits := by
    rw [List.takeWhile_append_of_pos hdigits, hrest.1, List.append_nil]
  have hdrop : (digits ++ s).dropWhile Char.isDigit = s := by
    rw [List.dropWhile_append_of_pos hdigits, hrest.2]
  have hread : digits? (digits ++ s) = some ⟨digits, s, by
      have := List.length_pos_iff.mpr hne
      rw [List.length_append]
      omega⟩ := by
    rw [digits?, dif_neg (by rw [htake]; exact hne)]
    simp only [htake, hdrop]
  exact ⟨_, hread⟩

/-- The digits of a number do not start with a zero, unless that is all there is. -/
lemma head?_toDigits {n : Nat} (hn : 0 < n) : (Nat.toDigits 10 n).head? ≠ some '0' := by
  induction n using Nat.strongRecOn with
  | ind n ih =>
    rcases Nat.lt_or_ge n 10 with hlt | hge
    · rw [Nat.toDigits_of_lt_base hlt]
      interval_cases n <;> decide
    · rw [Nat.toDigits_of_base_le (by decide) hge, List.head?_append,
        Option.or_of_isSome (List.isSome_head?.mpr Nat.toDigits_ne_nil)]
      exact ih (n / 10) (by omega) (by omega)

lemma whole?_of_head {s : Text} (h : s.head? ≠ some '0') : whole? s = digits? s := by
  match s with
  | [] => rfl
  | c :: rest =>
    rw [whole?]
    rintro rest heq
    cases heq
    exact h rfl

lemma reads_whole (n : Nat) {s : Text} (hs : ∀ c, s.head? = some c → c.isDigit = false) :
    Reads whole? (Nat.toDigits 10 n ++ s) (Nat.toDigits 10 n) s := by
  rcases Nat.eq_zero_or_pos n with rfl | hn
  · exact ⟨_, rfl⟩
  · have hhead : (Nat.toDigits 10 n ++ s).head? ≠ some '0' := by
      rw [List.head?_append, Option.or_of_isSome (List.isSome_head?.mpr Nat.toDigits_ne_nil)]
      exact head?_toDigits hn
    have hdigits : ∀ c ∈ Nat.toDigits 10 n, c.isDigit = true := fun c =>
      Nat.isDigit_of_mem_toDigits (by decide) (by decide)
    obtain ⟨h, hread⟩ := reads_digits Nat.toDigits_ne_nil hdigits hs
    exact ⟨h, (whole?_of_head hhead).trans hread⟩

/-- A number is read to its end if what is behind it does not carry it on. -/
lemma reads_number (n : Nat) {s : Text}
    (hs : ∀ c, s.head? = some c → c.isDigit = false ∧ c ∉ ['.', 'e', 'E']) :
    Reads number? (Nat.toDigits 10 n ++ s) (.number n 0) s := by
  obtain ⟨h, hwhole⟩ := reads_whole n fun c hc => (hs c hc).1
  have hhead : ∀ c ∈ ['.', 'e', 'E'], literal? [c] s = none := fun c hmem =>
    literal?_eq_none fun hc => (hs c hc).2 hmem
  have hfraction : fraction? s = none := by
    rw [fraction?, hhead '.' (by decide)]
    rfl
  have hexponent : exponent? s = none := by
    rw [exponent?, hhead 'e' (by decide), hhead 'E' (by decide)]
    rfl
  have hvalue : ofDigits (Nat.toDigits 10 n) = n := by
    rw [ofDigits, Nat.ofDigitChars_ten_toDigits]
  have hdecimal : decimal? (Nat.toDigits 10 n ++ s) = some ⟨(n, 0), s, h⟩ := by
    simp only [decimal?, hwhole, Option.bind_eq_bind, Option.bind_some, hfraction]
    simp only [Read.map, hvalue]
    rfl
  have hsize : magnitude? (Nat.toDigits 10 n ++ s) = some ⟨(n, 0), s, h⟩ := by
    simp only [magnitude?, hdecimal, Option.bind_eq_bind, Option.bind_some, hexponent]
    rfl
  have hminus : literal? ['-'] (Nat.toDigits 10 n ++ s) = none := by
    apply literal?_eq_none
    rw [List.head?_append, Option.or_of_isSome (List.isSome_head?.mpr Nat.toDigits_ne_nil)]
    intro hhead
    have hdigit := Nat.isDigit_of_mem_toDigits (by decide) (by decide) (List.mem_of_mem_head? hhead)
    exact absurd hdigit (by decide)
  refine ⟨h, ?_⟩
  rw [number?, hminus, hsize]
  rfl

/-! ### Strings -/

/-- The two digits of a control character stand for its code. -/
lemma unit?_control {n : Nat} (hn : n < 0x20) (s : Text) :
    Reads unit? ('0' :: '0' :: hexDigit (n / 16) :: hexDigit (n % 16) :: s) n s := by
  have hvalue : ∀ d < 16, hexValue? (hexDigit d) = some d := by decide
  have hzero : hexValue? '0' = some 0 := by decide
  have hn' : ((0 * 16 + 0) * 16 + n / 16) * 16 + n % 16 = n := by omega
  refine ⟨by simp only [List.length_cons]; omega, ?_⟩
  simp only [unit?, hzero, hvalue (n / 16) (by omega), hvalue (n % 16) (by omega),
    Option.bind_eq_bind, Option.bind_some, hn']
  rfl

lemma codeUnits?_of_unit {n : Nat} {s rest : Text} (hn : n < 0xd800) (h : Reads unit? s n rest) :
    Reads codeUnits? s (Char.ofNat n) rest := by
  obtain ⟨hshort, hunit⟩ := h
  refine ⟨hshort, ?_⟩
  simp only [codeUnits?, hunit, Option.bind_eq_bind, Option.bind_some]
  rw [if_neg (by omega), if_neg (by omega)]
  rfl

/-- The characters that a string writes as a letter behind a backslash. -/
def shortEscapes : List Char := ['"', '\\', '\x08', '\x0c', '\n', '\r', '\t']

lemma jsonChar_of_mem_shortEscapes {c : Char} (hc : c ∈ shortEscapes) :
    ∃ d, d ≠ 'u' ∧ escaped? d = some c ∧ jsonChar c = ['\\', d] := by
  have hletters : shortEscapes.all fun c => ['"', '\\', 'b', 'f', 'n', 'r', 't'].any fun d =>
      decide (d ≠ 'u' ∧ escaped? d = some c ∧ jsonChar c = ['\\', d]) := by decide
  obtain ⟨d, -, hd⟩ := List.any_eq_true.mp (List.all_eq_true.mp hletters c hc)
  exact ⟨d, of_decide_eq_true hd⟩

lemma jsonChar_of_not_mem_shortEscapes {c : Char} (hc : c ∉ shortEscapes) :
    jsonChar c = if c.toNat < 0x20 then
      "\\u00".toList ++ [hexDigit (c.toNat / 16), hexDigit (c.toNat % 16)] else [c] := by
  simp only [shortEscapes, List.mem_cons, List.not_mem_nil, or_false, not_or] at hc
  obtain ⟨h₁, h₂, h₃, h₄, h₅, h₆, h₇⟩ := hc
  rw [jsonChar, if_neg h₁, if_neg h₂, if_neg h₃, if_neg h₄, if_neg h₅, if_neg h₆, if_neg h₇]

/-- A character of a string is read back, however it is written. -/
lemma reads_char (c : Char) (s : Text) : Reads char? (jsonChar c ++ s) c s := by
  by_cases hshort : c ∈ shortEscapes
  · obtain ⟨d, hd, hescaped, hchar⟩ := jsonChar_of_mem_shortEscapes hshort
    rw [hchar]
    refine ⟨by simp only [List.length_append, List.length_cons]; omega, ?_⟩
    simp only [List.cons_append, List.nil_append, char?, if_pos, if_neg hd, hescaped]
    rfl
  rw [jsonChar_of_not_mem_shortEscapes hshort]
  split_ifs with hcontrol
  · obtain ⟨h, hread⟩ :=
      codeUnits?_of_unit (Nat.lt_trans hcontrol (by decide)) (unit?_control hcontrol s)
    rw [Char.ofNat_toNat] at hread
    have hcode : "\\u00".toList ++ [hexDigit (c.toNat / 16), hexDigit (c.toNat % 16)] ++ s =
        '\\' :: 'u' :: '0' :: '0' :: hexDigit (c.toNat / 16) :: hexDigit (c.toNat % 16) :: s := rfl
    rw [hcode]
    refine ⟨Nat.lt_succ_of_lt (Nat.lt_succ_of_lt h), ?_⟩
    simp only [char?, if_pos, hread]
    rfl
  · have hquote : c ≠ '"' := by
      rintro rfl
      exact hshort (by decide)
    have hslash : c ≠ '\\' := by
      rintro rfl
      exact hshort (by decide)
    rw [List.singleton_append]
    exact ⟨Nat.lt_succ_self _, by
      simp only [char?, if_neg hslash, if_neg (not_or.mpr ⟨hquote, hcontrol⟩)]⟩

lemma quoted?_of_char {c : Char} {s rest later behind : Text} (hchar : Reads char? s c rest)
    (hlater : Reads quoted? rest later behind) : Reads quoted? s (c :: later) behind := by
  obtain ⟨hshort, hchar⟩ := hchar
  obtain ⟨hlater', hlater⟩ := hlater
  refine ⟨Nat.lt_trans hlater' hshort, ?_⟩
  rw [quoted?]
  · simp only [hchar, Option.bind_eq_bind, Option.bind_some, hlater]
    rfl
  · rintro rest' rfl
    exact absurd hchar (by simp [char?])

/-- The text of a string is read back. -/
lemma reads_quoted (text s : Text) : Reads quoted? (text.flatMap jsonChar ++ '"' :: s) text s := by
  induction text with
  | nil =>
    rw [List.flatMap_nil, List.nil_append]
    exact ⟨Nat.lt_succ_self _, by rw [quoted?]⟩
  | cons c text ih =>
    rw [List.flatMap_cons, List.append_assoc]
    exact quoted?_of_char (reads_char c _) ih

lemma reads_string (text s : Text) : Reads string? (jsonString text ++ s) text s := by
  obtain ⟨h, hread⟩ := reads_quoted text s
  have hstring : jsonString text ++ s = '"' :: (text.flatMap jsonChar ++ '"' :: s) := by
    simp [jsonString]
  rw [hstring]
  exact ⟨Nat.lt_succ_of_lt h, by rw [string?, hread]; rfl⟩

/-! ### Pieces -/

/-- A text is read as certain pieces, whatever is behind it. -/
def Spells (s : Text) (pieces : List Token) : Prop :=
  ∀ rest, tokens? (s ++ rest) = (tokens? rest).map (pieces ++ ·)

lemma tokens?_of_token {s rest : Text} {token : Token}
    (hblank : ∀ c, s.head? = some c → isBlank c = false)
    (h : Reads token? s token rest) : tokens? s = (tokens? rest).map (token :: ·) := by
  obtain ⟨hshort, htoken⟩ := h
  match s with
  | [] => exact absurd hshort (Nat.not_lt_zero _)
  | c :: s =>
    rw [tokens?, if_neg (by simp [hblank c rfl]), htoken]
    simp only [Option.bind_eq_bind, Option.bind_some]
    cases tokens? rest <;> rfl

lemma tokens?_blank {c : Char} (hc : isBlank c = true) (rest : Text) :
    tokens? (c :: rest) = tokens? rest := by
  rw [tokens?, if_pos hc]

/-- A digit is no blank, no mark and no quote. -/
lemma blank_mark_quote_of_isDigit {c : Char} (hc : c.isDigit = true) :
    isBlank c = false ∧ isMark c = false ∧ c ≠ '"' := by
  have hother : ∀ {others : List Char}, others.any Char.isDigit = false → c ∉ others :=
    fun hothers hmem => List.any_eq_false.mp hothers c hmem hc
  refine ⟨decide_eq_false (hother (by decide)), decide_eq_false (hother (by decide)), ?_⟩
  rintro rfl
  exact absurd hc (by decide)

namespace Spells

lemma nil : Spells [] [] := fun rest => by cases h : tokens? rest <;> simp [h]

lemma append {s t : Text} {pieces more : List Token} (hs : Spells s pieces) (ht : Spells t more) :
    Spells (s ++ t) (pieces ++ more) := fun rest => by
  rw [List.append_assoc, hs, ht, Option.map_map]
  simp only [Function.comp_def, List.append_assoc]

lemma of_token {s : Text} {token : Token} (hne : s ≠ [])
    (hblank : ∀ c, s.head? = some c → isBlank c = false)
    (h : ∀ rest, Reads token? (s ++ rest) token rest) : Spells s [token] := fun rest =>
  tokens?_of_token (fun c hc => hblank c (by
    rwa [List.head?_append, Option.or_of_isSome (List.isSome_head?.mpr hne)] at hc)) (h rest)

/-- Marks and the blanks between them. -/
lemma marks {s : Text} (hs : s.all fun c => isBlank c || isMark c) :
    Spells s ((s.filter (! isBlank ·)).map .mark) := by
  induction s with
  | nil => exact nil
  | cons c s ih =>
    rw [List.all_cons, Bool.and_eq_true, Bool.or_eq_true] at hs
    have hrest := ih hs.2
    by_cases hblank : isBlank c = true
    · rw [List.filter_cons_of_neg (by simp [hblank])]
      intro rest
      rw [List.cons_append, tokens?_blank hblank]
      exact hrest rest
    · have hc : isMark c = true := hs.1.resolve_left hblank
      rw [List.filter_cons_of_pos (by simp [hblank])]
      refine append (s := [c]) (of_token (List.cons_ne_nil _ _) ?_ fun rest => ?_) hrest
      · rintro d ⟨⟩
        exact Bool.eq_false_iff.mpr hblank
      · exact ⟨Nat.lt_succ_self _, by
          simp only [token?, List.singleton_append, mark?, if_pos hc]
          rfl⟩

lemma string (text : Text) : Spells (jsonString text) [.scalar (.string text)] := by
  refine of_token (by simp [jsonString]) ?_ fun rest => ?_
  · rintro c ⟨⟩
    rfl
  · obtain ⟨h, hread⟩ := reads_string text rest
    have hmark : mark? (jsonString text ++ rest) = none := rfl
    exact ⟨h, by rw [token?, hmark, hread]; rfl⟩

/-- A number with the comma behind it. -/
lemma number (n : Nat) : Spells (Nat.toDigits 10 n ++ [',']) [.scalar (.number n 0), .mark ','] := by
  have hcomma : Spells [','] [.mark ','] := marks (by decide)
  intro rest
  obtain ⟨h, hread⟩ := reads_number n (s := [','] ++ rest) (by rintro c ⟨⟩; decide)
  obtain ⟨c, digits, hdigits⟩ := List.exists_cons_of_ne_nil (Nat.toDigits_ne_nil (n := n) (b := 10))
  have hc : c.isDigit = true :=
    Nat.isDigit_of_mem_toDigits (by decide) (by decide) (hdigits ▸ List.mem_cons_self ..)
  obtain ⟨hblank, hmark, hquote⟩ := blank_mark_quote_of_isDigit hc
  have hnoMark : mark? (Nat.toDigits 10 n ++ ([','] ++ rest)) = none := by
    rw [hdigits]
    exact if_neg (by simp [hmark])
  have hnoString : string? (Nat.toDigits 10 n ++ ([','] ++ rest)) = none := by
    rw [hdigits, List.cons_append, string?]
    rintro _ ⟨⟩
    exact hquote rfl
  have htoken : Reads token? (Nat.toDigits 10 n ++ ([','] ++ rest)) (.scalar (.number n 0))
      ([','] ++ rest) := ⟨h, by rw [token?, hnoMark, hnoString, hread]; rfl⟩
  have hfront : ∀ d, (Nat.toDigits 10 n ++ ([','] ++ rest)).head? = some d → isBlank d = false := by
    rw [hdigits]
    rintro d ⟨⟩
    exact hblank
  rw [List.append_assoc, tokens?_of_token hfront htoken, hcomma, Option.map_map]
  rfl

/-- Texts with a separator between them. -/
lemma intercalate {α : Type} {separator : Text} {between : List Token} {text : α → Text}
    {pieces : α → List Token} (hseparator : Spells separator between) {items : List α}
    (hitems : ∀ item ∈ items, Spells (text item) (pieces item)) :
    Spells (separator.intercalate (items.map text)) (between.intercalate (items.map pieces)) := by
  induction items with
  | nil => exact nil
  | cons item more ih =>
    have hitem := hitems item (List.mem_cons_self ..)
    have hmore := ih fun other hother => hitems other (List.mem_cons_of_mem item hother)
    cases more with
    | nil => simpa only [List.map_cons, List.map_nil, List.intercalate_singleton] using hitem
    | cons next more =>
      rw [List.map_cons, List.map_cons, List.map_cons, List.map_cons, List.intercalate_cons_cons,
        List.intercalate_cons_cons, ← List.map_cons, ← List.map_cons]
      exact (hitem.append hseparator).append hmore

end Spells

/-! ### Values -/

lemma reads_scalar (value : Json) (rest : List Token) :
    Reads value? (.scalar value :: rest) value rest := ⟨Nat.lt_succ_self _, by rw [value?]⟩

lemma items?_of_comma {tokens middle rest : List Token} {item : Json} {later : List Json}
    (hitem : Reads value? tokens item (.mark ',' :: middle)) (hlater : Reads items? middle later rest) :
    Reads items? tokens (item :: later) rest := by
  obtain ⟨hshort, hitem⟩ := hitem
  obtain ⟨hshort', hlater⟩ := hlater
  rw [List.length_cons] at hshort
  refine ⟨by omega, ?_⟩
  rw [items?]
  simp only [hitem, Option.bind_eq_bind, Option.bind_some, hlater]
  rfl

lemma items?_of_end {tokens rest : List Token} {item : Json}
    (hitem : Reads value? tokens item (.mark ']' :: rest)) : Reads items? tokens [item] rest := by
  obtain ⟨hshort, hitem⟩ := hitem
  rw [List.length_cons] at hshort
  refine ⟨by omega, ?_⟩
  rw [items?]
  simp only [hitem, Option.bind_eq_bind, Option.bind_some]
  rfl

/-- The items of an array with a comma between them. -/
lemma reads_items {α : Type} {pieces : α → List Token} {value : α → Json} {items : List α}
    (hne : items ≠ [])
    (hitems : ∀ item ∈ items, ∀ rest, Reads value? (pieces item ++ rest) (value item) rest)
    (rest : List Token) :
    Reads items? ([Token.mark ','].intercalate (items.map pieces) ++ .mark ']' :: rest)
      (items.map value) rest := by
  induction items with
  | nil => exact absurd rfl hne
  | cons item more ih =>
    have hitem := hitems item (List.mem_cons_self ..)
    cases more with
    | nil =>
      rw [List.map_singleton, List.map_singleton, List.intercalate_singleton]
      exact items?_of_end (hitem _)
    | cons next more =>
      have hmore := ih (List.cons_ne_nil _ _) fun other hother =>
        hitems other (List.mem_cons_of_mem item hother)
      rw [List.map_cons, List.map_cons, List.intercalate_cons_cons, ← List.map_cons,
        List.append_assoc, List.append_assoc]
      exact items?_of_comma (hitem _) hmore

/-- An array of values. -/
lemma reads_array {tokens rest : List Token} {items : List Json} (h : Reads items? tokens items rest) :
    Reads value? (.mark '[' :: tokens) (.array items) rest := by
  obtain ⟨hshort, hitems⟩ := h
  refine ⟨Nat.lt_succ_of_lt hshort, ?_⟩
  rw [value?]
  · rw [hitems]
    rfl
  · rintro later rfl
    have hnone : value? (.mark ']' :: later) = none := by simp [value?]
    rw [items?, hnone] at hitems
    cases hitems

lemma members?_of_comma {tokens middle rest : List Token} {name : Text} {value : Json}
    {later : List (Text × Json)} (hvalue : Reads value? tokens value (.mark ',' :: middle))
    (hlater : Reads members? middle later rest) :
    Reads members? (.scalar (.string name) :: .mark ':' :: tokens) ((name, value) :: later) rest := by
  obtain ⟨hshort, hvalue⟩ := hvalue
  obtain ⟨hshort', hlater⟩ := hlater
  rw [List.length_cons] at hshort
  refine ⟨by simp only [List.length_cons]; omega, ?_⟩
  rw [members?]
  simp only [hvalue, Option.bind_eq_bind, Option.bind_some, hlater]
  rfl

lemma members?_of_end {tokens rest : List Token} {name : Text} {value : Json}
    (hvalue : Reads value? tokens value (.mark '\x7d' :: rest)) :
    Reads members? (.scalar (.string name) :: .mark ':' :: tokens) [(name, value)] rest := by
  obtain ⟨hshort, hvalue⟩ := hvalue
  rw [List.length_cons] at hshort
  refine ⟨by simp only [List.length_cons]; omega, ?_⟩
  rw [members?]
  simp only [hvalue, Option.bind_eq_bind, Option.bind_some]
  rfl

/-- An object with members. -/
lemma reads_object {tokens rest : List Token} {members : List (Text × Json)}
    (h : Reads members? tokens members rest) :
    Reads value? (.mark '\x7b' :: tokens) (.object members) rest := by
  obtain ⟨hshort, hmembers⟩ := h
  refine ⟨Nat.lt_succ_of_lt hshort, ?_⟩
  rw [value?]
  · rw [hmembers]
    rfl
  · rintro later rfl
    have hnone : members? (.mark '\x7d' :: later) = none := by simp [members?]
    rw [hnone] at hmembers
    cases hmembers

/-! ### Reports -/

/-- The pieces of a member of an object. -/
def memberPieces (name : Text) (value : Json) : List Token :=
  [.scalar (.string name), .mark ':', .scalar value]

/-- The object that a line of a file is reported as. -/
def lineObject (path : Text) (line : OutputLine) : Json :=
  .object [("file".toList, .string path), ("line".toList, .number line.source 0),
    ("text".toList, .string line.text)]

/-- The pieces of the record of a line. -/
def recordPieces (path : Text) (line : OutputLine) : List Token :=
  .mark '\x7b' :: memberPieces "file".toList (.string path) ++ .mark ',' ::
    memberPieces "line".toList (.number line.source 0) ++ .mark ',' ::
    memberPieces "text".toList (.string line.text) ++ [.mark '\x7d']

lemma spells_jsonRecord (path : Text) (line : OutputLine) :
    Spells (jsonRecord path line) (recordPieces path line) := by
  have hcolon : Spells ": ".toList [.mark ':'] := Spells.marks (by decide)
  have hopen : Spells "  \x7b\n    ".toList [.mark '\x7b'] := Spells.marks (by decide)
  have hcomma : Spells ",\n    ".toList [.mark ','] := Spells.marks (by decide)
  have hbreak : Spells "\n    ".toList [] := Spells.marks (by decide)
  have hclose : Spells "\n  \x7d".toList [.mark '\x7d'] := Spells.marks (by decide)
  have hrecord : jsonRecord path line =
      "  \x7b\n    ".toList ++ (jsonString "file".toList ++ ": ".toList) ++ jsonString path ++
        (",\n    ".toList ++ (jsonString "line".toList ++ ": ".toList)) ++
        Nat.toDigits 10 line.source ++
        ([','] ++ ("\n    ".toList ++ (jsonString "text".toList ++ ": ".toList))) ++
        jsonString line.text ++ "\n  \x7d".toList := rfl
  simp only [List.append_assoc] at hrecord
  rw [hrecord, ← List.append_assoc (Nat.toDigits 10 line.source) [',']]
  exact hopen.append ((Spells.string _).append (hcolon.append ((Spells.string _).append
    (hcomma.append ((Spells.string _).append (hcolon.append ((Spells.number _).append
    (hbreak.append ((Spells.string _).append (hcolon.append ((Spells.string _).append hclose)))))))))))

lemma reads_recordPieces (path : Text) (line : OutputLine) (rest : List Token) :
    Reads value? (recordPieces path line ++ rest) (lineObject path line) rest := by
  exact reads_object (members?_of_comma (reads_scalar _ _)
    (members?_of_comma (reads_scalar _ _) (members?_of_end (reads_scalar _ _))))

lemma read?_of_pieces {s : Text} {pieces : List Token} {value : Json} (hs : Spells s pieces)
    (hvalue : Reads value? pieces value []) : read? s = some value := by
  obtain ⟨h, hvalue⟩ := hvalue
  have hpieces : tokens? s = some pieces := by
    have hend := hs []
    rw [List.append_nil, tokens?, Option.map_some, List.append_nil] at hend
    exact hend
  rw [read?, hpieces]
  simp only [Option.bind_eq_bind, Option.bind_some, hvalue]
  rfl

lemma jsonArray_of_ne_nil {records : List Text} (hne : records ≠ []) :
    jsonArray records = "[\n".toList ++ ",\n".toList.intercalate records ++ "\n]".toList := by
  rw [jsonArray]
  exact hne

/-- An array of records is read as the array of what these are read as. -/
lemma read?_jsonArray {α : Type} {text : α → Text} {pieces : α → List Token} {value : α → Json}
    {items : List α} (htext : ∀ item ∈ items, Spells (text item) (pieces item))
    (hpieces : ∀ item ∈ items, ∀ rest, Reads value? (pieces item ++ rest) (value item) rest) :
    read? (jsonArray (items.map text)) = some (.array (items.map value)) := by
  cases hitems : items with
  | nil =>
    have hempty : Spells "[]".toList [.mark '[', .mark ']'] := Spells.marks (by decide)
    exact read?_of_pieces hempty ⟨by decide, by rw [value?]; rfl⟩
  | cons item more =>
    rw [← hitems]
    have hne : items ≠ [] := by simp [hitems]
    have harray : jsonArray (items.map text) =
        "[\n".toList ++ (",\n".toList.intercalate (items.map text) ++ "\n]".toList) := by
      rw [jsonArray_of_ne_nil (by simpa using hne), List.append_assoc]
    have hopen : Spells "[\n".toList [.mark '['] := Spells.marks (by decide)
    have hcomma : Spells ",\n".toList [.mark ','] := Spells.marks (by decide)
    have hclose : Spells "\n]".toList [.mark ']'] := Spells.marks (by decide)
    rw [harray]
    exact read?_of_pieces (hopen.append ((hcomma.intercalate htext).append hclose))
      (reads_array (reads_items hne hpieces []))

/-- A report in JSON is an array of the objects of all lines. -/
lemma read?_jsonReport (files : List ConvertedFile) :
    read? (jsonReport files) =
      some (.array (files.flatMap fun file => file.lines.map (lineObject file.path))) := by
  let lines : List (Text × OutputLine) := files.flatMap fun file => file.lines.map (file.path, ·)
  have hrecords : jsonReport files = jsonArray (lines.map fun line => jsonRecord line.1 line.2) := by
    simp [jsonReport, lines, List.map_flatMap, Function.comp_def]
  have hobjects : files.flatMap (fun file => file.lines.map (lineObject file.path)) =
      lines.map fun line => lineObject line.1 line.2 := by
    simp [lines, List.map_flatMap, Function.comp_def]
  rw [hrecords, hobjects]
  exact read?_jsonArray (fun line _ => spells_jsonRecord line.1 line.2)
    fun line _ => reads_recordPieces line.1 line.2

/-- A report in JSON tells of each line of each file, in order, the path, the number and the text
as they are. It ends with the array. -/
theorem report_json_read_back (files : List ConvertedFile) :
    read? (report .json files) =
        some (.array (files.flatMap fun file => file.lines.map fun line =>
          .object [("file".toList, .string file.path), ("line".toList, .number line.source 0),
            ("text".toList, .string line.text)])) ∧
      (report .json files).getLast? = some ']' := by
  refine ⟨read?_jsonReport files, ?_⟩
  by_cases hnone : files.flatMap (fun file => file.lines.map (jsonRecord file.path)) = []
  · rw [report, jsonReport, hnone]
    rfl
  · rw [report, jsonReport, jsonArray_of_ne_nil hnone, List.getLast?_append]
    rfl

end Json

end Swiftward
