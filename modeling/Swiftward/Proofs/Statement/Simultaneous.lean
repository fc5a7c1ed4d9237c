import Mathlib.Data.List.Pairwise
import Swiftward.Proofs.Statement.Substitution
import Swiftward.Proofs.Text.WordRule

/-!
# Substitutions as one rewriting

The substitutions go over a line one after another. All of those on words together are the single
pass of one rule (`lineRule`): each longest run of word characters is looked at once, whatever the
other passes did before. So the line after all substitutions is told by the rule alone
(`substitute_eq_iff_rewrites`), in whatever order the passes on words are made, and a word that only
contains one of the replaced words stays where it is.
-/

namespace Swiftward

/-! ### Markers and the semicolon -/

/-- Whether the character at a place is the `@` before a quote, and no `%` stands before it. -/
def IsMarkerAt (s : Text) (i : Nat) : Prop :=
  s[i]? = some '@' ∧ s[i + 1]? = some '"' ∧ (s.take i).getLast? ≠ some '%'

instance (s : Text) (i : Nat) : Decidable (IsMarkerAt s i) := inferInstanceAs (Decidable (_ ∧ _))

/-- The characters of a line that are no markers. -/
def withoutMarkers (line : Text) : Text :=
  (line.zipIdx.filter fun c => ¬IsMarkerAt line c.2).map Prod.fst

lemma isMarkerAt_append_iff {front s : Text} {c : Char} :
    IsMarkerAt (front ++ c :: s) front.length ↔
      c = '@' ∧ s.head? = some '"' ∧ front.getLast? ≠ some '%' := by
  simp [IsMarkerAt, List.getElem?_append_right, List.head?_eq_getElem?]

/-- What is before a place in the line tells only by its last character whether a marker is there. -/
theorem stripMarkers_eq (line : Text) : stripMarkers line = withoutMarkers line := by
  suffices hrest : ∀ s front : Text, stripMarkersAfter front.getLast? s =
      ((s.zipIdx front.length).filter fun c => ¬IsMarkerAt (front ++ s) c.2).map Prod.fst from
    hrest line []
  intro s
  induction s with
  | nil => exact fun _ => rfl
  | cons c s ih =>
    intro front
    have hrest := ih (front ++ [c])
    rw [List.getLast?_concat, List.length_append, List.length_singleton, List.append_assoc,
      List.singleton_append] at hrest
    rw [stripMarkersAfter, hrest, List.zipIdx_cons, List.filter_cons]
    by_cases hmarker : IsMarkerAt (front ++ c :: s) front.length
    · rw [if_pos (isMarkerAt_append_iff.mp hmarker), if_neg (by simpa using hmarker)]
    · rw [if_neg (mt isMarkerAt_append_iff.mpr hmarker), if_pos (by simpa using hmarker),
        List.map_cons]

/-- The second text is the first without its last semicolon, if only white space follows that. -/
inductive DropsSemicolon : Text → Text → Prop
  | dropped (front : Text) {gap : Text} (hgap : ∀ c ∈ gap, isSpace c = true) :
    DropsSemicolon (front ++ ';' :: gap) front
  | kept {s : Text}
    (hs : ∀ front gap : Text, (∀ c ∈ gap, isSpace c = true) → s ≠ front ++ ';' :: gap) :
    DropsSemicolon s s

theorem dropsSemicolon_iff {s t : Text} : DropsSemicolon s t ↔ dropSemicolon s = t := by
  constructor
  · rintro (⟨front, hgap⟩ | ⟨hs⟩)
    · rw [dropSemicolon, List.append_cons, trimEnd_append_spaces _ hgap,
        trimEnd_append_singleton (by decide), before?_eq_some_iff.mpr rfl, Option.getD_some]
    · have hnone : before? ';' (trimEnd s) = none := by
        rw [Option.eq_none_iff_forall_not_mem]
        intro front hfront
        obtain ⟨gap, hgap, heq⟩ := exists_gap s
        rw [before?_eq_some_iff.mp hfront, List.append_assoc, List.singleton_append] at heq
        exact hs front gap hgap heq
      rw [dropSemicolon, hnone, Option.getD_none]
  · rintro rfl
    obtain ⟨gap, hgap, heq⟩ := exists_gap s
    unfold dropSemicolon
    cases hbefore : before? ';' (trimEnd s) with
    | some front =>
      rw [before?_eq_some_iff.mp hbefore, List.append_assoc, List.singleton_append] at heq
      rw [heq]
      exact .dropped front hgap
    | none =>
      refine .kept ?_
      rintro front gap hgap rfl
      rw [List.append_cons, trimEnd_append_spaces _ hgap, trimEnd_append_singleton (by decide),
        before?_eq_some_iff.mpr rfl] at hbefore
      cases hbefore

/-! ### The passes -/

/-- The storage word goes, other words stay. -/
def blockRule : WordRule where
  drops w := w = "__block".toList
  replace w := w
  isIdentifier_replace hw := hw

lemma drops_blockRule_iff {w : Text} : blockRule.drops w = true ↔ w = "__block".toList :=
  decide_eq_true_iff

/-- No word goes, and those of a list are replaced. -/
def replaceRule (words : List String) (replacement : String)
    (h : IsIdentifier replacement.toList) : WordRule where
  drops _ := false
  replace w := if words.any (·.toList = w) then replacement.toList else w
  isIdentifier_replace hw := by
    split
    · exact h
    · exact hw

section ReplaceRule

variable {words : List String} {replacement : String} (h : IsIdentifier replacement.toList)
  {w : Text}

lemma replace_replaceRule_of_any (hw : words.any (·.toList = w) = true) :
    (replaceRule words replacement h).replace w = replacement.toList :=
  if_pos hw

lemma replace_replaceRule_of_not_any (hw : words.any (·.toList = w) = false) :
    (replaceRule words replacement h).replace w = w :=
  if_neg (ne_true_of_eq_false hw)

end ReplaceRule

/-- White space is dropped up to its end. -/
lemma dropBlockTokens_spaces {gap : Text} (hgap : ∀ c ∈ gap, isSpace c = true) (s : Text) :
    dropBlockTokens true (Token.ofText (gap ++ s)) = dropBlockTokens true (Token.ofText s) := by
  induction gap with
  | nil => rfl
  | cons c gap ih =>
    obtain ⟨hc, hgap⟩ := List.forall_mem_cons.mp hgap
    rw [List.cons_append, ofText_sign (Unicode.isWord_of_isSpace hc), dropBlockTokens,
      if_pos (by simpa using hc), ih hgap]

/-- Nothing else is dropped with the white space. -/
lemma dropBlockTokens_of_head {s : Text} (hs : ∀ c ∈ s.head?, isSpace c = false)
    (dropping : Bool) :
    dropBlockTokens dropping (Token.ofText s) = dropBlockTokens false (Token.ofText s) := by
  have htext : Token.textOf (Token.ofText s) = s := Token.textOf_ofText s
  generalize Token.ofText s = tokens at htext
  obtain _ | ⟨w | c, tokens⟩ := tokens
  · rfl
  · rfl
  · obtain rfl : c :: Token.textOf tokens = s := by simpa [Token.toText] using htext
    have hc : isSpace c = false := hs c rfl
    simp [dropBlockTokens, hc]

/-- The token behind a word tells whether white space follows. -/
lemma any_isSpace_head?_ofText {s : Text} (hs : ∀ c ∈ s.head?, isWord c = false) :
    (Token.ofText s).head?.any (fun t => t.toText.any isSpace) = s.head?.any isSpace := by
  cases s with
  | nil => rfl
  | cons c s =>
    rw [ofText_sign (hs c rfl)]
    simp [Token.toText]

lemma isPass_dropBlock : blockRule.IsPass dropBlock where
  nil := rfl
  sign hc s := dropBlock_cons hc s
  dropped {w gap s} hw hdrops hne hgap hs := by
    obtain rfl := drops_blockRule_iff.mp hdrops
    have hend := head_not_word_spaces_append hgap hne s
    have hspace : (gap ++ s).head?.any isSpace = true := by
      obtain ⟨c, gap, rfl⟩ := List.exists_cons_of_ne_nil hne
      exact hgap c List.mem_cons_self
    rw [dropBlock, hw.ofText_append hend, dropBlockTokens, any_isSpace_head?_ofText hend,
      if_pos ⟨rfl, hspace⟩, dropBlockTokens_spaces hgap, dropBlockTokens_of_head hs]
    rfl
  word {w s} hw hs hstays := by
    have hkept : ¬(w = "__block".toList ∧ s.head?.any isSpace = true) := by
      rintro ⟨hblock, hspace⟩
      have hnot := hstays (drops_blockRule_iff.mpr hblock)
      cases s with
      | nil => simp at hspace
      | cons c s => simp [hnot c rfl] at hspace
    rw [dropBlock, hw.ofText_append hs, dropBlockTokens, any_isSpace_head?_ofText hs,
      if_neg hkept, Token.textOf_cons, Token.toText, Symbol.ofText_char]
    rfl

lemma isPass_replaceWords (words : List String) {replacement : String}
    (h : IsIdentifier replacement.toList) :
    (replaceRule words replacement h).IsPass (replaceWords words replacement) where
  nil := rfl
  sign hc s := replaceWords_cons hc words replacement s
  dropped _ hdrops := absurd hdrops (by simp [replaceRule])
  word {w s} hw hs _ := by
    rw [replaceWords, hw.ofText_append hs, List.flatMap_cons]
    rfl

/-! ### One rule for all passes -/

/-- The words that are replaced. -/
def replacedWords : List Text :=
  ["NO".toList, "YES".toList, "NSLog".toList, "NSAssert".toList, "NSCAssert".toList,
    "NSParameterAssert".toList]

/-- What stands in place of a word. -/
def wordSubstitute (w : Text) : Text :=
  if w = "NO".toList then "false".toList
  else if w = "YES".toList then "true".toList
  else if w = "NSLog".toList then "println".toList
  else if w ∈ ["NSAssert".toList, "NSCAssert".toList, "NSParameterAssert".toList] then
    "assert".toList
  else w

lemma IsIdentifier.wordSubstitute {w : Text} (hw : IsIdentifier w) :
    IsIdentifier (wordSubstitute w) := by
  unfold Swiftward.wordSubstitute
  split_ifs
  · decide
  · decide
  · decide
  · decide
  · exact hw

/-- The storage word goes, the other words are replaced as the table has them. -/
def lineRule : WordRule where
  drops w := w = "__block".toList
  replace := wordSubstitute
  isIdentifier_replace := IsIdentifier.wordSubstitute

lemma wordSubstitute_of_not_mem {w : Text} (hw : w ∉ replacedWords) : wordSubstitute w = w := by
  simp only [replacedWords, List.mem_cons, not_or] at hw
  obtain ⟨hno, hyes, hlog, hasserts⟩ := hw
  have hassert : w ∉ ["NSAssert".toList, "NSCAssert".toList, "NSParameterAssert".toList] := by
    simpa only [List.mem_cons, not_or] using hasserts
  rw [wordSubstitute, if_neg hno, if_neg hyes, if_neg hlog, if_neg hassert]

lemma replace_of_not_mem {words : List String} {replacement : String}
    (h : IsIdentifier replacement.toList) (hwords : ∀ x ∈ words, x.toList ∈ replacedWords)
    {w : Text} (hw : w ∉ replacedWords) : (replaceRule words replacement h).replace w = w := by
  have hany : words.any (·.toList = w) = false := by
    rw [List.any_eq_false]
    rintro x hx hword
    exact hw (of_decide_eq_true hword ▸ hwords x hx)
  exact replace_replaceRule_of_not_any h hany

lemma isIdentifier_false : IsIdentifier "false".toList := by decide
lemma isIdentifier_true : IsIdentifier "true".toList := by decide
lemma isIdentifier_println : IsIdentifier "println".toList := by decide
lemma isIdentifier_assert : IsIdentifier "assert".toList := by decide

/-- The rules of the passes come to the one rule of the line. -/
lemma lineRule_eq :
    lineRule =
      ((((replaceRule ["NSAssert", "NSCAssert", "NSParameterAssert"] "assert"
        isIdentifier_assert).comp
        (replaceRule ["NSLog"] "println" isIdentifier_println)).comp
        (replaceRule ["YES"] "true" isIdentifier_true)).comp
        (replaceRule ["NO"] "false" isIdentifier_false)).comp blockRule := by
  apply WordRule.ext
  · funext w
    simp only [WordRule.comp, lineRule, blockRule, replaceRule, Bool.or_false]
  · funext w
    by_cases hw : w ∈ replacedWords
    · revert w
      decide
    · simp only [WordRule.comp, lineRule, blockRule, wordSubstitute_of_not_mem hw]
      rw [replace_of_not_mem _ (by decide) hw, replace_of_not_mem _ (by decide) hw,
        replace_of_not_mem _ (by decide) hw, replace_of_not_mem _ (by decide) hw]

lemma isPass_substituteWords : lineRule.IsPass substituteWords := by
  have hpasses :=
    ((((isPass_replaceWords ["NSAssert", "NSCAssert", "NSParameterAssert"]
      isIdentifier_assert).comp
      (isPass_replaceWords ["NSLog"] isIdentifier_println)).comp
      (isPass_replaceWords ["YES"] isIdentifier_true)).comp
      (isPass_replaceWords ["NO"] isIdentifier_false)).comp isPass_dropBlock
  have hcomp : substituteWords =
      (((replaceWords ["NSAssert", "NSCAssert", "NSParameterAssert"] "assert" ∘
        replaceWords ["NSLog"] "println") ∘ replaceWords ["YES"] "true") ∘
        replaceWords ["NO"] "false") ∘ dropBlock := by
    funext s
    simp only [substituteWords, Function.comp_apply]
  rw [lineRule_eq, hcomp]
  exact hpasses

/-! ### The order of the passes -/

/-- The passes on the words of a line, in the order in which they are made. -/
def wordPasses : List (Text → Text) :=
  [dropBlock, replaceWords ["NO"] "false", replaceWords ["YES"] "true",
    replaceWords ["NSLog"] "println",
    replaceWords ["NSAssert", "NSCAssert", "NSParameterAssert"] "assert"]

/-- Whether no word of the lists is in both, or takes the place of one in the other. -/
def Apart (words : List String) (replacement : String) (words' : List String)
    (replacement' : String) : Prop :=
  (∀ x ∈ words, ∀ y ∈ words', y.toList ≠ x.toList) ∧
    (∀ x ∈ words, x.toList ≠ replacement'.toList) ∧ ∀ y ∈ words', y.toList ≠ replacement.toList

instance (words : List String) (replacement : String) (words' : List String)
    (replacement' : String) : Decidable (Apart words replacement words' replacement') :=
  inferInstanceAs (Decidable (_ ∧ _))

lemma commute_replaceWords {words words' : List String} {replacement replacement' : String}
    (h : IsIdentifier replacement.toList) (h' : IsIdentifier replacement'.toList)
    (hapart : Apart words replacement words' replacement') :
    Function.Commute (replaceWords words replacement) (replaceWords words' replacement') := by
  obtain ⟨hwords, hreplacement', hreplacement⟩ := hapart
  refine (isPass_replaceWords words h).commute (isPass_replaceWords words' h')
    (WordRule.ext rfl (funext ?_))
  intro w
  have hkept : words.any (·.toList = replacement'.toList) = false := by simpa using hreplacement'
  have hkept' : words'.any (·.toList = replacement.toList) = false := by simpa using hreplacement
  simp only [WordRule.comp]
  cases hw : words.any (·.toList = w) with
  | false =>
    rw [replace_replaceRule_of_not_any h hw]
    cases hw' : words'.any (·.toList = w) with
    | false =>
      rw [replace_replaceRule_of_not_any h' hw', replace_replaceRule_of_not_any h hw]
    | true =>
      rw [replace_replaceRule_of_any h' hw', replace_replaceRule_of_not_any h hkept]
  | true =>
    obtain ⟨x, hx, hword⟩ := List.any_eq_true.mp hw
    obtain rfl := of_decide_eq_true hword
    have hw' : words'.any (·.toList = x.toList) = false := by simpa using hwords x hx
    rw [replace_replaceRule_of_any h hw, replace_replaceRule_of_not_any h' hw',
      replace_replaceRule_of_any h hw, replace_replaceRule_of_not_any h' hkept']

lemma commute_dropBlock {words : List String} {replacement : String}
    (h : IsIdentifier replacement.toList) (hwords : ∀ x ∈ words, x.toList ≠ "__block".toList)
    (hreplacement : replacement.toList ≠ "__block".toList) :
    Function.Commute dropBlock (replaceWords words replacement) := by
  refine isPass_dropBlock.commute (isPass_replaceWords words h) (WordRule.ext (funext ?_) rfl)
  intro w
  simp only [WordRule.comp, replaceRule, blockRule, Bool.or_false, Bool.false_or]
  split_ifs with hw
  · obtain ⟨x, hx, hword⟩ := List.any_eq_true.mp hw
    obtain rfl := of_decide_eq_true hword
    rw [decide_eq_false (hwords x hx), decide_eq_false hreplacement]
  · rfl

lemma pairwise_commute_wordPasses : wordPasses.Pairwise Function.Commute := by
  simp only [wordPasses, List.pairwise_cons, List.forall_mem_cons, List.not_mem_nil, false_imp_iff,
    implies_true, and_true, List.Pairwise.nil]
  refine ⟨⟨?_, ?_, ?_, ?_⟩, ⟨?_, ?_, ?_⟩, ⟨?_, ?_⟩, ?_⟩
  · exact commute_dropBlock isIdentifier_false (by decide) (by decide)
  · exact commute_dropBlock isIdentifier_true (by decide) (by decide)
  · exact commute_dropBlock isIdentifier_println (by decide) (by decide)
  · exact commute_dropBlock isIdentifier_assert (by decide) (by decide)
  · exact commute_replaceWords isIdentifier_false isIdentifier_true (by decide)
  · exact commute_replaceWords isIdentifier_false isIdentifier_println (by decide)
  · exact commute_replaceWords isIdentifier_false isIdentifier_assert (by decide)
  · exact commute_replaceWords isIdentifier_true isIdentifier_println (by decide)
  · exact commute_replaceWords isIdentifier_true isIdentifier_assert (by decide)
  · exact commute_replaceWords isIdentifier_println isIdentifier_assert (by decide)

/-- The passes on words may be made in any order. -/
lemma foldl_of_perm_wordPasses {passes : List (Text → Text)} (hperm : passes.Perm wordPasses)
    (s : Text) : passes.foldl (fun s pass => pass s) s = substituteWords s := by
  have : Std.Symm (Function.Commute (α := Text)) := ⟨fun _ _ h => h.symm⟩
  have hcommute : ∀ pass ∈ wordPasses, ∀ pass' ∈ wordPasses, Function.Commute pass pass' := by
    intro pass hpass pass' hpass'
    exact pairwise_commute_wordPasses.forall_of_forall (fun _ _ => .refl _) hpass hpass'
  have hswap : ∀ pass ∈ passes, ∀ pass' ∈ passes, ∀ s, pass' (pass s) = pass (pass' s) := by
    intro pass hpass pass' hpass'
    exact hcommute pass' (hperm.subset hpass') pass (hperm.subset hpass)
  rw [hperm.foldl_eq' hswap s]
  simp only [wordPasses, substituteWords, List.foldl_cons, List.foldl_nil]

/-! ### The whole line -/

/-- The substitutions are one rewriting of the line. Its markers go, the semicolon at its end goes
with the white space behind it, and then each word is looked at once: the storage word goes with the
white space behind it, those of the table are replaced, and all others stay. So the passes on words
may be made in any order, and a word that is not in the table stays in its place, whatever it
contains. -/
theorem substitute_eq_iff_rewrites (line : Text) :
    (∀ result, substitute line = result ↔
      ∃ s, DropsSemicolon (withoutMarkers line) s ∧ lineRule.Rewrites s result) ∧
    (∀ passes : List (Text → Text), passes.Perm wordPasses →
      passes.foldl (fun s pass => pass s) (dropSemicolon (stripMarkers line)) = substitute line) ∧
    ∀ front w back : Text, DropsSemicolon (withoutMarkers line) (front ++ (w ++ back)) →
      (∀ c ∈ front.getLast?, isWord c = false) → IsIdentifier w →
      (∀ c ∈ back.head?, isWord c = false) → w ≠ "__block".toList → w ∉ replacedWords →
        ∃ before after, lineRule.Rewrites front before ∧ lineRule.Rewrites back after ∧
          substitute line = before ++ (w ++ after) := by
  have hresult (result : Text) : substitute line = result ↔
      ∃ s, DropsSemicolon (withoutMarkers line) s ∧ lineRule.Rewrites s result := by
    rw [substitute_eq, stripMarkers_eq, ← isPass_substituteWords.rewrites_iff]
    constructor
    · exact fun h => ⟨_, dropsSemicolon_iff.mpr rfl, h⟩
    · rintro ⟨s, hs, h⟩
      rwa [dropsSemicolon_iff.mp hs]
  refine ⟨hresult, fun passes hperm => foldl_of_perm_wordPasses hperm _, ?_⟩
  intro front w back hline hlast hw hhead hblock htable
  obtain ⟨before, hbefore⟩ := WordRule.exists_rewrites lineRule front
  obtain ⟨after, hafter⟩ := WordRule.exists_rewrites lineRule back
  refine ⟨before, after, hbefore, hafter, (hresult _).mpr ⟨_, hline, ?_⟩⟩
  have hword : lineRule.Rewrites (w ++ back) (lineRule.replace w ++ after) :=
    .word hw hhead (fun hdrops => absurd (of_decide_eq_true hdrops) hblock) hafter
  rw [show lineRule.replace w = w from wordSubstitute_of_not_mem htable] at hword
  exact hbefore.append hword hlast (hw.head_not_space back)

/-- The theorem on a line with a marker, a storage word, a replaced word and a longer one. -/
theorem substitute_notify :
    DropsSemicolon (withoutMarkers "__block BOOL NOTE = [self notify:@\"%@\" flag:NO]; ".toList)
      ("__block BOOL ".toList ++ ("NOTE".toList ++ " = [self notify:\"%@\" flag:NO]".toList)) ∧
      ∃ before after, lineRule.Rewrites "__block BOOL ".toList before ∧
        lineRule.Rewrites " = [self notify:\"%@\" flag:NO]".toList after ∧
        substitute "__block BOOL NOTE = [self notify:@\"%@\" flag:NO]; ".toList =
          before ++ ("NOTE".toList ++ after) := by
  have hline : DropsSemicolon
      (withoutMarkers "__block BOOL NOTE = [self notify:@\"%@\" flag:NO]; ".toList)
      ("__block BOOL ".toList ++ ("NOTE".toList ++ " = [self notify:\"%@\" flag:NO]".toList)) :=
    dropsSemicolon_iff.mpr (by decide +kernel)
  have hlast : ∀ c ∈ "__block BOOL ".toList.getLast?, isWord c = false := by
    rw [show "__block BOOL ".toList.getLast? = some ' ' by decide +kernel]
    rintro c ⟨⟩
    decide
  have hhead : ∀ c ∈ " = [self notify:\"%@\" flag:NO]".toList.head?, isWord c = false := by
    rw [show " = [self notify:\"%@\" flag:NO]".toList.head? = some ' ' by decide +kernel]
    rintro c ⟨⟩
    decide
  exact ⟨hline, (substitute_eq_iff_rewrites _).2.2 _ _ _ hline hlast (by decide) hhead (by decide)
    (by decide)⟩

end Swiftward
