import Swiftward.Declaration.Import
import Swiftward.Proofs.Text.LineFeed

/-!
# The grammar of imports

An import is white space, `#import`, white space and a text, and no other line is read as one
(`Import.parse?_eq_none_iff`). What becomes of it is decided by the first header inside a framework in
its text (`findFrameworkHeader?_eq_some_iff`).
-/

namespace Swiftward

/-! ### Headers inside frameworks -/

/-- A header inside a framework. -/
structure FrameworkHeader where
  framework : Text
  name : Text
  isIdentifier_framework : IsIdentifier framework
  isIdentifier_name : IsIdentifier name

namespace FrameworkHeader

/-- The header as an import writes it. -/
def text (header : FrameworkHeader) : Text :=
  '<' :: header.framework ++ '/' :: header.name ++ ".h>".toList

/-- No other header inside a framework begins further to the left in the text. -/
def IsFirstIn (header : FrameworkHeader) (s : Text) : Prop :=
  ∃ front back, s = front ++ header.text ++ back ∧
    ∀ (header' : FrameworkHeader) (front' back' : Text), s = front' ++ header'.text ++ back' →
      front.length ≤ front'.length

end FrameworkHeader

lemma frameworkHeader?_eq_some_iff {s name : Text} :
    frameworkHeader? s = some name ↔
      ∃ header : FrameworkHeader, header.name = name ∧ header.text <+: s := by
  constructor
  · intro h
    obtain ⟨s₁, hopen, h⟩ := Option.bind_eq_some_iff.mp h
    obtain ⟨⟨framework, s₂⟩, hfirst, h⟩ := Option.bind_eq_some_iff.mp h
    obtain ⟨s₃, hslash, h⟩ := Option.bind_eq_some_iff.mp h
    obtain ⟨⟨header, s₄⟩, hsecond, h⟩ := Option.bind_eq_some_iff.mp h
    obtain ⟨s₅, hclose, h⟩ := Option.bind_eq_some_iff.mp h
    obtain rfl := Option.some.inj h
    obtain rfl := after?_eq_some_iff.mp hopen
    obtain ⟨hframework, -, rfl⟩ := nextWord?_eq_some_iff.mp hfirst
    obtain rfl := after?_eq_some_iff.mp hslash
    obtain ⟨hheader, -, rfl⟩ := nextWord?_eq_some_iff.mp hsecond
    obtain rfl := after?_eq_some_iff.mp hclose
    exact ⟨⟨framework, header, hframework, hheader⟩, rfl, s₅, by simp [FrameworkHeader.text]⟩
  · rintro ⟨header, rfl, back, rfl⟩
    have hopen : after? "<" (header.text ++ back) =
        some (header.framework ++ ('/' :: header.name ++ ".h>".toList ++ back)) :=
      after?_eq_some_iff.mpr (by simp [FrameworkHeader.text])
    have hframework : nextWord? (header.framework ++ ('/' :: header.name ++ ".h>".toList ++ back)) =
        some (header.framework, '/' :: header.name ++ ".h>".toList ++ back) :=
      nextWord?_eq_some_iff.mpr ⟨header.isIdentifier_framework, by simp; decide, rfl⟩
    have hslash : after? "/" ('/' :: header.name ++ ".h>".toList ++ back) =
        some (header.name ++ (".h>".toList ++ back)) :=
      after?_eq_some_iff.mpr (by simp)
    have hname : nextWord? (header.name ++ (".h>".toList ++ back)) =
        some (header.name, ".h>".toList ++ back) :=
      nextWord?_eq_some_iff.mpr ⟨header.isIdentifier_name, by simp; decide, rfl⟩
    have hclose : after? ".h>" (".h>".toList ++ back) = some back := after?_eq_some_iff.mpr rfl
    simp only [frameworkHeader?, Option.bind_eq_bind, hopen, hframework, hslash, hname, hclose,
      Option.bind_some]

lemma frameworkHeader?_eq_none_iff {s : Text} :
    frameworkHeader? s = none ↔ ∀ header : FrameworkHeader, ¬header.text <+: s := by
  rw [Option.eq_none_iff_forall_ne_some]
  constructor
  · intro h header hheader
    exact h header.name (frameworkHeader?_eq_some_iff.mpr ⟨header, rfl, hheader⟩)
  · intro h name hname
    obtain ⟨header, -, hheader⟩ := frameworkHeader?_eq_some_iff.mp hname
    exact h header hheader

/-- Where none begins with the text, the first header is the first of what follows. -/
lemma FrameworkHeader.isFirstIn_cons {header : FrameworkHeader} {c : Char} {s : Text}
    (h : frameworkHeader? (c :: s) = none) : header.IsFirstIn (c :: s) ↔ header.IsFirstIn s := by
  rw [frameworkHeader?_eq_none_iff] at h
  have hlater {header' : FrameworkHeader} {front back : Text}
      (heq : c :: s = front ++ header'.text ++ back) :
      ∃ front', front = c :: front' ∧ s = front' ++ header'.text ++ back := by
    cases front with
    | nil => exact absurd ⟨back, heq.symm⟩ (h header')
    | cons d front =>
      obtain ⟨rfl, htail⟩ := List.cons.inj heq
      exact ⟨front, rfl, htail⟩
  constructor
  · rintro ⟨front, back, heq, hfirst⟩
    obtain ⟨front, rfl, hs⟩ := hlater heq
    refine ⟨front, back, hs, fun header' front' back' heq' => ?_⟩
    have hle := hfirst header' (c :: front') back' (by rw [heq']; rfl)
    simpa using hle
  · rintro ⟨front, back, rfl, hfirst⟩
    refine ⟨c :: front, back, rfl, fun header' front' back' heq' => ?_⟩
    obtain ⟨front', rfl, hs⟩ := hlater heq'
    simpa using hfirst header' front' back' hs

/-- The name that is found is that of the first header inside a framework. -/
lemma findFrameworkHeader?_eq_some_iff {s name : Text} :
    findFrameworkHeader? s = some name ↔
      ∃ header : FrameworkHeader, header.name = name ∧ header.IsFirstIn s := by
  induction s with
  | nil =>
    simp only [findFrameworkHeader?, reduceCtorEq, false_iff, not_exists, not_and]
    rintro header - ⟨front, back, heq, -⟩
    simp [FrameworkHeader.text] at heq
  | cons c s ih =>
    rw [findFrameworkHeader?]
    cases hhere : frameworkHeader? (c :: s) with
    | none =>
      refine ih.trans ?_
      exact exists_congr fun header =>
        and_congr_right fun _ => (FrameworkHeader.isFirstIn_cons hhere).symm
    | some found =>
      constructor
      · intro hname
        obtain rfl : found = name := by simpa using hname
        obtain ⟨header, hname, back, heq⟩ := frameworkHeader?_eq_some_iff.mp hhere
        exact ⟨header, hname, [], back, heq.symm, fun _ _ _ _ => Nat.zero_le _⟩
      · rintro ⟨header, rfl, front, back, heq, hfirst⟩
        obtain ⟨header', -, back', heq'⟩ := frameworkHeader?_eq_some_iff.mp hhere
        obtain rfl : front = [] :=
          List.eq_nil_of_length_eq_zero (Nat.le_zero.mp (hfirst header' [] back' heq'.symm))
        have hread := frameworkHeader?_eq_some_iff.mpr ⟨header, rfl, back, heq.symm⟩
        rw [hhere] at hread
        rw [Option.some.inj hread]
        rfl

lemma findFrameworkHeader?_eq_none {s : Text} (h : ∀ header : FrameworkHeader, ¬header.text <:+: s) :
    findFrameworkHeader? s = none := by
  rw [Option.eq_none_iff_forall_ne_some]
  intro name hname
  obtain ⟨header, -, front, back, heq, -⟩ := findFrameworkHeader?_eq_some_iff.mp hname
  exact h header ⟨front, back, heq.symm⟩

lemma findFrameworkHeader?_spaces {gap : Text} (hgap : ∀ c ∈ gap, isSpace c = true) (s : Text) :
    findFrameworkHeader? (gap ++ s) = findFrameworkHeader? s := by
  induction gap with
  | nil => rfl
  | cons c gap ih =>
    obtain ⟨hc, hgap⟩ := List.forall_mem_cons.mp hgap
    have hhere : frameworkHeader? (c :: (gap ++ s)) = none := by
      rw [frameworkHeader?_eq_none_iff]
      rintro header ⟨back, heq⟩
      obtain ⟨rfl, -⟩ := List.cons.inj heq
      exact absurd hc (by decide)
    rw [List.cons_append, findFrameworkHeader?, hhere]
    exact ih hgap

/-! ### Import lines -/

/-- The line is an import, and the text is what stands behind `#import` and white space. -/
inductive IsImportLine : Text → Text → Prop where
  | mk {lead gap text : Text} (hlead : ∀ c ∈ lead, isSpace c = true)
      (hgap : ∀ c ∈ gap, isSpace c = true) (hne : gap ≠ []) (htext : Unbroken text) :
      IsImportLine (lead ++ "#import".toList ++ gap ++ text) text

lemma IsImportLine.unbroken {line text : Text} (h : IsImportLine line text) : Unbroken text := by
  obtain ⟨-, -, -, htext⟩ := h
  exact htext

/-- What is read of an import is decided by the first header inside a framework. -/
lemma IsImportLine.parse?_eq {line text : Text} (h : IsImportLine line text) :
    Import.parse? line = some (((findFrameworkHeader? text).map Import.module).getD .dropped) := by
  obtain @⟨lead, gap, text, hlead, hgap, hne, htext⟩ := h
  obtain ⟨c, gap, rfl⟩ := List.exists_cons_of_ne_nil hne
  obtain ⟨hc, hgap⟩ := List.forall_mem_cons.mp hgap
  have hstart : trimStart (lead ++ "#import".toList ++ c :: gap ++ text) =
      "#import".toList ++ (c :: (gap ++ text)) := by
    simp only [List.append_assoc, List.cons_append]
    exact trimStart_append hlead (by simp; decide)
  have hbehind : trimStart (gap ++ text) = trimStart text := List.dropWhile_append_of_pos hgap
  have hunbroken : Unbroken (trimStart text) := htext.subset (trimStart_subset text)
  obtain ⟨skipped, hskipped, heq⟩ := exists_lead text
  have hfind : findFrameworkHeader? text = findFrameworkHeader? (trimStart text) := by
    conv_lhs => rw [heq, findFrameworkHeader?_spaces hskipped]
  rw [Import.parse?, hstart, after?_eq_some_iff.mpr rfl, hfind]
  simp only [Option.bind_eq_bind, Option.bind_some, afterSpace?, hc, if_true, hbehind]
  rw [if_neg hunbroken]
  cases findFrameworkHeader? (trimStart text) <;> rfl

lemma Import.parse?_eq_none_iff {line : Text} :
    parse? line = none ↔ ∀ text, ¬IsImportLine line text := by
  constructor
  · intro hnone text hline
    rw [hline.parse?_eq] at hnone
    cases hnone
  · intro hnone
    rw [Option.eq_none_iff_forall_ne_some]
    intro what hwhat
    obtain ⟨s, hlead, hwhat⟩ := Option.bind_eq_some_iff.mp hwhat
    obtain ⟨text, hspace, hwhat⟩ := Option.bind_eq_some_iff.mp hwhat
    split_ifs at hwhat with hbroken
    obtain ⟨lead, hspaces, hline⟩ := exists_lead line
    obtain ⟨gap, hgap, hne, rfl⟩ := exists_of_afterSpace? hspace
    rw [after?_eq_some_iff.mp hlead, ← List.append_assoc, ← List.append_assoc] at hline
    rw [hline] at hnone
    exact hnone text (.mk hspaces hgap hne hbroken)

lemma IsImportLine.parse?_of_isFirstIn {line text : Text} (h : IsImportLine line text)
    {header : FrameworkHeader} (hfirst : header.IsFirstIn text) :
    Import.parse? line = some (.module header.name) := by
  rw [h.parse?_eq, findFrameworkHeader?_eq_some_iff.mpr ⟨header, rfl, hfirst⟩]
  rfl

/-- The name of a module is that of a header. -/
lemma Import.exists_of_parse?_module {line name : Text} (h : parse? line = some (.module name)) :
    ∃ header : FrameworkHeader, header.name = name := by
  have hsome : ∃ text, IsImportLine line text := by
    by_contra hnone
    rw [parse?_eq_none_iff.mpr (not_exists.mp hnone)] at h
    cases h
  obtain ⟨text, hline⟩ := hsome
  rw [hline.parse?_eq, Option.some.injEq] at h
  cases hfind : findFrameworkHeader? text with
  | none =>
    rw [hfind] at h
    cases h
  | some found =>
    rw [hfind] at h
    obtain ⟨header, hname, -⟩ := findFrameworkHeader?_eq_some_iff.mp hfind
    exact ⟨header, hname.trans (Import.module.inj h)⟩

end Swiftward
