import Mathlib.Data.List.Forall2
import Mathlib.Data.List.TakeWhile
import Swiftward.Declaration.Method
import Swiftward.Proofs.Text.Trim

/-!
# Where continued parameters stand

The first parameter of a header stands right behind the opening parenthesis. Continued parameters
have lines of their own, indented by a number that is made from the bytes of the name, with room for
`func ` and the parenthesis. So they stand below the first one in initializers, and in those other
methods whose name and declarator take up that room: in instance methods with a name of ASCII
characters, but not in class methods, for which `class ` comes before the name
(`MethodHeader.isAligned_iff`).
-/

namespace Swiftward

/-- The parameter stands in the line right behind `front`. -/
def Param.StandsBehind (front : Text) (p : Param) (line : Text) : Prop :=
  ∃ behind, line = front ++ (p.render ++ behind)

namespace MethodHeader

/-- Behind the first line of the header, each line has a continued parameter at the column of the
first parameter, which is the number of characters up to and with the opening parenthesis. -/
def IsAligned (header : MethodHeader) : Prop :=
  List.Forall₂
    (fun k line => k.param.StandsBehind (List.replicate header.opening.length ' ') line)
    header.continued header.render.tail

end MethodHeader

/-! ### Indentation -/

/-- The spaces before a text that has some other character can be counted. -/
lemma replicate_append_inj {m n : Nat} {text behind behind' : Text} (htext : ∃ c ∈ text, c ≠ ' ')
    (h : List.replicate m ' ' ++ (text ++ behind) = List.replicate n ' ' ++ (text ++ behind')) :
    m = n := by
  have hcount : ∀ (k : Nat) (rest : Text),
      ((List.replicate k ' ' ++ (text ++ rest)).takeWhile (· == ' ')).length =
        k + (text.takeWhile (· == ' ')).length := by
    intro k rest
    have hspaces : ∀ c ∈ List.replicate k ' ' ++ text.takeWhile (· == ' '), (c == ' ') = true := by
      intro c hc
      obtain hc | hc := List.mem_append.mp hc
      · rw [(List.mem_replicate.mp hc).2, beq_self_eq_true]
      · exact List.mem_takeWhile_imp (p := (· == ' ')) hc
    have hother : ∀ c ∈ (text.dropWhile (· == ' ') ++ rest).head?, (c == ' ') = false := by
      obtain ⟨c, hc, hne⟩ := htext
      have hdrop : text.dropWhile (· == ' ') ≠ [] := by
        intro hnil
        rw [List.dropWhile_eq_nil_iff] at hnil
        exact hne (eq_of_beq (hnil c hc))
      intro d hd
      rw [List.head?_append_of_ne_nil _ hdrop] at hd
      have hnot := List.head?_dropWhile_not (· == ' ') text
      rwa [Option.mem_def.mp hd] at hnot
    have htake := (takeWhile_dropWhile_append hspaces hother).1
    rw [List.append_assoc, ← List.append_assoc (text.takeWhile _), List.takeWhile_append_dropWhile]
      at htake
    rw [htake, List.length_append, List.length_replicate]
  have hlength := congrArg (fun line => (line.takeWhile (· == ' ')).length) h
  simp only [hcount] at hlength
  omega

lemma Param.exists_ne_space (p : Param) : ∃ c ∈ p.render, c ≠ ' ' := by
  refine ⟨':', ?_, by decide⟩
  unfold render
  split_ifs <;> simp

namespace MethodHeader

/-! ### The lines of a header -/

lemma labelledParams_ne_nil {header : MethodHeader} (h : header.params ≠ []) :
    header.labelledParams ≠ [] := by
  unfold labelledParams
  split
  · exact List.cons_ne_nil _ _
  · exact h

lemma render_eq_linesFrom {header : MethodHeader} (h : header.params ≠ []) :
    header.render = header.linesFrom
      (header.opening ++ ", ".toList.intercalate (header.labelledParams.map Param.render)) []
      header.continued :=
  if_neg h

/-- A line begins with what it is made from. -/
lemma exists_linesFrom_eq (header : MethodHeader) (current comment : Text)
    (continued : List Continuation) :
    ∃ behind rest, header.linesFrom current comment continued = (current ++ behind) :: rest := by
  cases continued with
  | nil => exact ⟨header.closing ++ comment, [], by rw [linesFrom, List.append_assoc]⟩
  | cons k more => exact ⟨',' :: comment, _, rfl⟩

/-- Each continued parameter stands behind the indentation of its line. -/
lemma forall₂_tail_linesFrom (header : MethodHeader) (current comment : Text)
    (continued : List Continuation) :
    List.Forall₂
      (fun k line => k.param.StandsBehind (List.replicate header.indentation ' ') line)
      continued (header.linesFrom current comment continued).tail := by
  induction continued generalizing current comment with
  | nil => exact .nil
  | cons k more ih =>
    obtain ⟨behind, rest, heq⟩ := header.exists_linesFrom_eq
      (List.replicate header.indentation ' ' ++ k.param.render) k.comment more
    have hmore := ih (List.replicate header.indentation ' ' ++ k.param.render) k.comment
    rw [heq, List.tail_cons] at hmore
    rw [linesFrom, List.tail_cons, heq]
    exact .cons ⟨behind, List.append_assoc ..⟩ hmore

/-- The first parameter stands behind the opening parenthesis. -/
lemma exists_first_standsBehind {header : MethodHeader} (h : header.params ≠ []) :
    ∃ first line, header.labelledParams.head? = some first ∧ header.render.head? = some line ∧
      first.StandsBehind header.opening line := by
  obtain ⟨first, more, hparams⟩ := List.exists_cons_of_ne_nil (labelledParams_ne_nil h)
  obtain ⟨behind, rest, heq⟩ := header.exists_linesFrom_eq
    (header.opening ++ ", ".toList.intercalate (header.labelledParams.map Param.render)) []
    header.continued
  refine ⟨first, _, by rw [hparams, List.head?_cons], by rw [render_eq_linesFrom h, heq]; rfl, ?_⟩
  rw [hparams, List.map_cons]
  cases more with
  | nil => exact ⟨behind, by rw [List.map_nil, List.intercalate_singleton, List.append_assoc]⟩
  | cons p more =>
    rw [List.map_cons, List.intercalate_cons_cons]
    simp only [List.append_assoc]
    exact ⟨_, rfl⟩

/-- The indentation is the column of the first parameter just where the name has as many bytes as
`class ` and the name have characters. -/
lemma indentation_eq_iff (header : MethodHeader) :
    header.indentation = header.opening.length ↔
      header.isInitializer = true ∨
        byteSize header.name =
          header.name.length + if header.isClassMethod then "class ".toList.length else 0 := by
  unfold indentation opening declarator
  cases header.isInitializer <;> cases header.isClassMethod <;> simp

lemma forall₂_standsBehind_iff {m n : Nat} {continued : List Continuation} {lines : List Text}
    (h : List.Forall₂ (fun k line => k.param.StandsBehind (List.replicate m ' ') line)
      continued lines) :
    List.Forall₂ (fun k line => k.param.StandsBehind (List.replicate n ' ') line)
      continued lines ↔ continued = [] ∨ m = n := by
  constructor
  · intro h'
    cases h with
    | nil => exact .inl rfl
    | cons hfirst hmore =>
      cases h' with
      | cons hfirst' hmore' =>
        rename_i k continued line lines
        obtain ⟨behind, rfl⟩ := hfirst
        obtain ⟨behind', heq⟩ := hfirst'
        exact .inr (replicate_append_inj k.param.exists_ne_space heq)
  · rintro (rfl | rfl)
    · cases h
      exact .nil
    · exact h

/-- The first parameter of a header stands behind the opening parenthesis. The continued ones, if
there are any, stand below it just in initializers and in methods whose name has as many bytes as it
has characters, together with `class ` in a class method. -/
theorem isAligned_iff {header : MethodHeader} (h : header.params ≠ []) :
    (∃ first line, header.labelledParams.head? = some first ∧ header.render.head? = some line ∧
      first.StandsBehind header.opening line ∧ header.opening.getLast? = some '(') ∧
    (header.IsAligned ↔ header.continued = [] ∨ header.isInitializer = true ∨
      byteSize header.name =
        header.name.length + if header.isClassMethod then "class ".toList.length else 0) := by
  constructor
  · obtain ⟨first, line, hfirst, hline, hstands⟩ := exists_first_standsBehind h
    refine ⟨first, line, hfirst, hline, hstands, ?_⟩
    unfold opening
    split_ifs
    · rfl
    · exact List.getLast?_concat
  · have hstands := header.forall₂_tail_linesFrom
      (header.opening ++ ", ".toList.intercalate (header.labelledParams.map Param.render)) []
      header.continued
    rw [← render_eq_linesFrom h] at hstands
    rw [IsAligned, forall₂_standsBehind_iff hstands, indentation_eq_iff]

/-- A class method with a parameter on a line of its own. -/
def continuedClassMethod : MethodHeader where
  isClassMethod := true
  returnType := "void".toList
  name := "moveTo".toList
  params := [⟨[], "int".toList, ['x']⟩]
  continued := [⟨⟨"andY".toList, "int".toList, ['y']⟩, false, []⟩]
  hasBrace := false

theorem isAligned_iff_classMethod :
    continuedClassMethod.params ≠ [] ∧
      continuedClassMethod.render =
        ["class func moveTo(x: Int,".toList, "            andY y: Int)".toList] ∧
      ¬continuedClassMethod.IsAligned := by
  have hparams : continuedClassMethod.params ≠ [] := by decide
  refine ⟨hparams, by decide, ?_⟩
  rw [(isAligned_iff hparams).2]
  decide

end MethodHeader

end Swiftward
