import Swiftward.Proofs.MessageSend.Spelling

/-!
# Renaming of opaque symbols

A map between symbols that keeps every character *renames* the opaque ones, which is to spell each of
them with a single symbol. So every stage commutes with a renaming: sends are read in the same way
(`IsRenaming.resolveSend_map`), and innermost pairs of brackets are found where they were
(`IsRenaming.bracketed_map`).
-/

namespace Swiftward

variable {α β : Type} [Symbol α] [Symbol β]

/-- Characters stay what they are, and opaque symbols stay opaque. -/
def IsRenaming (ρ : α → β) : Prop := ∀ a, Symbol.char? (ρ a) = Symbol.char? a

/-- A pair of brackets with the symbols in it and before it renamed. -/
def BracketPair.map (ρ : α → β) (pair : BracketPair α) : BracketPair β :=
  ⟨pair.before.map ρ, pair.interior.map ρ⟩

/-- A cut text with its symbols renamed. -/
def Bracketed.map (ρ : α → β) (cut : Bracketed α) : Bracketed β :=
  ⟨cut.pairs.map (BracketPair.map ρ), cut.tail.map ρ⟩

/-- A symbol that is no character reads like one. -/
lemma readsOpaque_singleton {b : β} (h : Symbol.char? b = none) : ReadsOpaque [b] := by
  have hword : isWord b = false := Symbol.satisfies_eq_false h _
  have hinert : isInert b = true := by
    simp [isInert, delimiters, isSpace, isChar, Symbol.satisfies_eq_false h]
  constructor
  · exact List.cons_ne_nil b []
  · simpa using hinert
  · simpa using hword
  · simpa using hword

namespace IsRenaming

variable {ρ : α → β} (hρ : IsRenaming ρ)

include hρ

lemma isSpelling : IsSpelling fun a => [ρ a] := by
  constructor
  · intro c
    have hchar : ρ (Symbol.ofChar c) = Symbol.ofChar c := by
      apply Symbol.char?_eq_some_iff.mp
      rw [hρ, Symbol.char?_ofChar]
    rw [hchar]
  · intro a ha
    exact readsOpaque_singleton ((hρ a).trans ha)

lemma map_ofText (t : Text) : (Symbol.ofText t).map ρ = Symbol.ofText t := by
  rw [List.map_eq_flatMap]
  exact hρ.isSpelling.flatMap_ofText t

/-- A send is resolved to the same call, whatever the opaque symbols in it are. -/
theorem resolveSend_map (s : List α) : resolveSend (s.map ρ) = (resolveSend s).map (List.map ρ) := by
  have hmap : List.map ρ = List.flatMap fun a => [ρ a] := by
    funext t
    exact List.map_eq_flatMap
  rw [hmap]
  exact hρ.isSpelling.resolveSend_flatMap s

/-- The innermost pairs are where they were, whatever the opaque symbols are. -/
theorem bracketed_map (s : List α) : Bracketed.ofText (s.map ρ) = (Bracketed.ofText s).map ρ := by
  have hspelled := hρ.isSpelling.bracketed_flatMap s
  have hpair : BracketPair.spell (fun a => [ρ a]) = BracketPair.map ρ := by
    funext pair
    simp [BracketPair.spell, BracketPair.map, List.map_eq_flatMap]
  rwa [Bracketed.spell, hpair, ← List.map_eq_flatMap, ← List.map_eq_flatMap] at hspelled

end IsRenaming

end Swiftward
