import Mathlib.Data.List.TakeWhile
import Mathlib.Tactic.Common
import Swiftward.CommandLine.Run
import Swiftward.Proofs.Text.Lines

/-!
# Reading standard input

Standard input is cut into lines while it is still bytes. As the byte of a line feed is part of no
other symbol, this gives the lines of the text that the bytes hold (`readableLines_encodeText`).
-/

namespace Swiftward

lemma toList_loop_eq (bytes : ByteArray) (i : Nat) (read : List UInt8) :
    ByteArray.toList.loop bytes i read = read.reverse ++ bytes.data.toList.drop i := by
  fun_induction ByteArray.toList.loop bytes i read with
  | case1 i read h ih =>
    have hi : i < bytes.data.toList.length := h
    have hget : bytes.get! i = bytes.data.toList[i] := getElem!_pos bytes.data i h
    rw [ih, List.drop_eq_getElem_cons hi, hget]
    simp
  | case2 i read h =>
    have hi : bytes.data.toList.length ≤ i := Nat.le_of_not_lt h
    rw [List.drop_eq_nil_of_le hi, List.append_nil]

/-- The bytes of a text are those of its symbols. -/
lemma toList_encodeText (text : Text) :
    (encodeText text).toList = text.flatMap String.utf8EncodeChar := by
  rw [ByteArray.toList, toList_loop_eq, encodeText, String.toByteArray_ofList, List.utf8Encode,
    List.data_toByteArray]
  rfl

/-- The bytes of a text can be read again as that text. -/
lemma decodeText?_utf8 (text : Text) :
    decodeText? ⟨(text.flatMap String.utf8EncodeChar).toArray⟩ = some text := by
  have hbytes : (⟨(text.flatMap String.utf8EncodeChar).toArray⟩ : ByteArray) = encodeText text := by
    rw [encodeText, String.toByteArray_ofList, List.utf8Encode]
    exact ByteArray.ext List.data_toByteArray.symm
  rw [hbytes, decodeText?_encodeText]

lemma feed_ne_ofNat {n : Nat} (hn : n ≠ 10) (hlt : n < 256) : (10 : UInt8) ≠ UInt8.ofNat n := by
  intro h
  have htoNat : 10 = (UInt8.ofNat n).toNat := congrArg UInt8.toNat h
  rw [UInt8.toNat_ofNat', Nat.mod_eq_of_lt hlt] at htoNat
  exact hn htoNat.symm

/-- No other symbol has the byte of a line feed in it. -/
lemma feed_not_mem_utf8EncodeChar {c : Char} (hc : c ≠ '\n') : 10 ∉ String.utf8EncodeChar c := by
  have hne : c.val.toNat ≠ 10 := by
    intro h
    apply hc
    exact Char.ext (UInt32.toNat_inj.mp h)
  unfold String.utf8EncodeChar
  dsimp only
  -- In a symbol of several bytes each is at least 128.
  split_ifs
  all_goals
    simp only [List.mem_cons, List.not_mem_nil, or_false, not_or]
    and_intros
    all_goals apply feed_ne_ofNat <;> omega

/-- A text can be cut at its line feeds before or after it is written in bytes. -/
lemma pieces_utf8 (text : Text) :
    pieces 10 (text.flatMap String.utf8EncodeChar) =
      (pieces '\n' text).map fun piece => piece.flatMap String.utf8EncodeChar := by
  induction text with
  | nil => rfl
  | cons c text ih =>
    obtain ⟨piece, rest, hpieces⟩ := exists_pieces_eq_cons '\n' text
    rw [hpieces, List.map_cons] at ih
    rw [List.flatMap_cons]
    by_cases hc : c = '\n'
    · subst hc
      have hfeed : String.utf8EncodeChar '\n' = [10] := rfl
      rw [hfeed, pieces_cons_mark, hpieces, List.singleton_append, pieces_cons_mark, ih]
      rfl
    · rw [pieces_append_of_not_mem (feed_not_mem_utf8EncodeChar hc) ih,
        pieces_cons_of_ne hc hpieces, List.map_cons, List.flatMap_cons]

/-- The lines of a text can be read from its bytes. -/
theorem readableLines_encodeText (text : Text) : readableLines (encodeText text) = lines text := by
  have hdecoded : ((pieces 10 (encodeText text).toList).map fun piece =>
      decodeText? ⟨piece.toArray⟩) = (pieces '\n' text).map some := by
    rw [toList_encodeText, pieces_utf8, List.map_map]
    apply List.map_congr_left
    intro piece _
    exact decodeText?_utf8 piece
  have hall : ((pieces '\n' text).map some).takeWhile Option.isSome = (pieces '\n' text).map some :=
    List.takeWhile_eq_self_iff.mpr (by simp)
  have hvalues : ((pieces '\n' text).map some).map (·.getD []) = pieces '\n' text := by
    rw [List.map_map]
    exact List.map_id _
  rw [readableLines, hdecoded, hall, hvalues, List.length_map, if_pos rfl, lines]

end Swiftward
