import Swiftward.Text.Trim

/-!
# Reading from the front of a text

The grammar of a line is read from left to right by small steps. Each step removes something from
the front of a text and fails if it is not there.
-/

namespace Swiftward

/-- The text behind the white space at its start, of which there has to be some. -/
def afterSpace? : Text → Option Text
  | [] => none
  | c :: s => if isSpace c then some (trimStart s) else none

/-- The word at the start of a text, as long as possible, and the rest. -/
def nextWord? (s : Text) : Option (Text × Text) :=
  match s.takeWhile isWord with
  | [] => none
  | word => some (word, s.dropWhile isWord)

/-- Whether a word that stands right before the text ends there. -/
def wordEnds (s : Text) : Bool := !s.head?.any isWord

/-- The part of `s` before `rest`, with which it ends. -/
def before (s rest : Text) : Text := s.take (s.length - rest.length)

theorem length_dropWhile_le {α : Type} (p : α → Bool) (s : List α) :
    (s.dropWhile p).length ≤ s.length :=
  (List.dropWhile_suffix p).length_le

theorem length_trimStart_le (s : Text) : (trimStart s).length ≤ s.length :=
  length_dropWhile_le _ s

theorem length_after?_le {lead : String} {s rest : Text} (h : after? lead s = some rest) :
    rest.length + lead.toList.length = s.length := by
  rw [after?_eq_some_iff.mp h, List.length_append, Nat.add_comm]

theorem length_nextWord?_lt {s word rest : Text} (h : nextWord? s = some (word, rest)) :
    rest.length < s.length := by
  unfold nextWord? at h
  split at h
  · simp at h
  · next w hne =>
    simp only [Option.some.injEq, Prod.mk.injEq] at h
    have := congrArg List.length (List.takeWhile_append_dropWhile (p := isWord) (l := s))
    have hw : 0 < (s.takeWhile isWord).length := List.length_pos_iff.mpr hne
    simp only [List.length_append] at this
    rw [← h.2]
    omega

end Swiftward
