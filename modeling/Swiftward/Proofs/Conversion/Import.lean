import Swiftward.Proofs.Conversion.Account
import Swiftward.Proofs.Conversion.Reattachment
import Swiftward.Proofs.Declaration.Import

/-!
# Imported modules

The header that an import names is the first one inside a framework in the text behind `#import`.
The module that becomes of it has the name of the header, so the import names the framework only if
the header has the same name (`Import.names_header`). That holds of each line by itself and of all
lines together, whatever headers of one framework they import.
-/

namespace Swiftward

/-! ### Lines that import headers -/

/-- The line, as it is fetched, is an import, perhaps with a comment, of the given header. -/
def FrameworkHeader.IsImportedBy (header : FrameworkHeader) (line : Text) : Prop :=
  ∃ text, IsImportLine (splitComment (trimEnd line)).1 text ∧ header.IsFirstIn text

/-- A line of Swift that imports a module, with the comment of the line it is made from. -/
def importText (name line : Text) : Text :=
  "import ".toList ++ name ++ (splitComment (trimEnd line)).2

lemma importText_inj {name name' line : Text} :
    importText name line = importText name' line ↔ name = name' := by
  unfold importText
  constructor
  · intro h
    exact List.append_cancel_left (List.append_cancel_right h)
  · rintro rfl
    rfl

lemma FrameworkHeader.IsImportedBy.isConstruct {header : FrameworkHeader} {line : Text}
    (h : header.IsImportedBy line) :
    IsConstruct (trimEnd line) (.imported (.module header.name)) (splitComment (trimEnd line)).2 := by
  obtain ⟨text, hline, hfirst⟩ := h
  refine ⟨?_, ?_, rfl⟩
  · intro hnil
    rw [hnil] at hline
    exact Import.parse?_eq_none_iff.mp rfl text hline
  · rw [Construct.ofCode, hline.parse?_of_isFirstIn hfirst]

/-- Lines that import headers become imports of the modules with the names of these headers. -/
lemma textsOf_convertUnits_imports {headers : List FrameworkHeader} {lines : List Text}
    (h : List.Forall₂ FrameworkHeader.IsImportedBy headers lines) {s : LineSource}
    (hs : s.texts = lines.map trimEnd) :
    textsOf (convertUnits s).flatten =
      List.zipWith (fun header line => importText header.name line) headers lines := by
  induction h generalizing s with
  | nil =>
    have hunread : s.unread = 0 := by rw [← LineSource.length_texts, hs, List.map_nil, List.length_nil]
    rw [convertUnits_of_unread_eq_zero hunread]
    rfl
  | @cons header line headers lines hline _ ih =>
    obtain ⟨-, hnone⟩ | ⟨text, t, hnext, -⟩ := s.next?_cases
    · rw [LineSource.texts_eq_nil hnone] at hs
      cases hs
    · rw [LineSource.texts_of_next? hnext, List.map_cons, List.cons.injEq] at hs
      obtain ⟨rfl, ht⟩ := hs
      have hunit : Converts (.unit (trimEnd line)) t _ t := .alone (.imported hline.isConstruct)
      rw [convertUnits_of_converts hnext hunit, List.flatten_cons, textsOf, List.map_append,
        List.zipWith_cons_cons, ← ih ht]
      rfl

namespace Import

/-- A line that is no import is not read as one. An import becomes that of the module with the name
of the first header inside a framework, which is the framework only if the two have one name, or it is
dropped if there is no such header. So lines that import headers of a framework become imports of the
framework exactly if all these headers have its name. -/
theorem names_header (line : Text) :
    (parse? line = none ↔ ∀ text, ¬IsImportLine line text) ∧
      (∀ text, IsImportLine line text →
        (∀ header : FrameworkHeader, header.IsFirstIn text →
          parse? line = some (.module header.name) ∧
            (parse? line = some (.module header.framework) ↔ header.name = header.framework)) ∧
        ((∀ header : FrameworkHeader, ¬header.text <:+: text) → parse? line = some .dropped)) ∧
      ∀ (width : Nat) (headers : List FrameworkHeader) (lines : List Text),
        List.Forall₂ FrameworkHeader.IsImportedBy headers lines →
          textsOf (convertLines width lines) =
              List.zipWith (fun header line => importText header.name line) headers lines ∧
            ∀ framework, textsOf (convertLines width lines) = lines.map (importText framework) ↔
              ∀ header ∈ headers, header.name = framework := by
  refine ⟨parse?_eq_none_iff, fun text hline => ⟨fun header hfirst => ?_, fun hnone => ?_⟩, ?_⟩
  · have hread := hline.parse?_of_isFirstIn hfirst
    refine ⟨hread, ?_⟩
    rw [hread, Option.some.injEq, Import.module.injEq]
  · rw [hline.parse?_eq, findFrameworkHeader?_eq_none hnone]
    rfl
  · intro width headers lines h
    have htexts := textsOf_convertUnits_imports h (LineSource.texts_ofLines width lines)
    refine ⟨htexts, fun framework => ?_⟩
    rw [show textsOf (convertLines width lines) = _ from htexts]
    clear htexts
    induction h with
    | nil => simp
    | cons _ _ ih =>
      rw [List.zipWith_cons_cons, List.map_cons, List.cons.injEq, importText_inj, ih,
        List.forall_mem_cons]

/-- The header of a view, and that of the whole framework that it is in. -/
def viewHeader : FrameworkHeader := ⟨"UIKit".toList, "UIView".toList, by decide, by decide⟩

def frameworkHeader : FrameworkHeader := ⟨"UIKit".toList, "UIKit".toList, by decide, by decide⟩

lemma isFirstIn_self (header : FrameworkHeader) : header.IsFirstIn header.text :=
  ⟨[], [], by simp, fun _ _ _ _ => Nat.zero_le _⟩

/-- Of two headers of one framework, only one is imported as the framework. -/
theorem names_header_view :
    viewHeader.framework = frameworkHeader.framework ∧
      parse? "#import <UIKit/UIView.h>".toList = some (.module "UIView".toList) ∧
      parse? "#import <UIKit/UIView.h>".toList ≠ some (.module "UIKit".toList) ∧
      textsOf (convertLines 4 ["#import <UIKit/UIView.h> // views".toList,
          "  #import\t<UIKit/UIKit.h>".toList]) =
        ["import UIView // views".toList, "import UIKit".toList] ∧
      parse? "#import \"UIView.h\"".toList = some .dropped := by
  have hview : IsImportLine "#import <UIKit/UIView.h>".toList viewHeader.text :=
    @IsImportLine.mk [] [' '] viewHeader.text (List.forall_mem_nil _)
      (List.forall_mem_singleton.mpr (by decide)) (by simp) (by decide)
  have hframework : IsImportLine "  #import\t<UIKit/UIKit.h>".toList frameworkHeader.text :=
    @IsImportLine.mk [' ', ' '] ['\t'] frameworkHeader.text (List.all_eq_true.mp (by decide))
      (List.forall_mem_singleton.mpr (by decide)) (by simp) (by decide)
  have hlocal : IsImportLine "#import \"UIView.h\"".toList "\"UIView.h\"".toList :=
    @IsImportLine.mk [] [' '] "\"UIView.h\"".toList (List.forall_mem_nil _)
      (List.forall_mem_singleton.mpr (by decide)) (by simp) (by decide)
  have hnone (header : FrameworkHeader) : ¬header.text <:+: "\"UIView.h\"".toList := fun hwithin =>
    absurd (hwithin.subset (show '<' ∈ header.text by simp [FrameworkHeader.text])) (by decide)
  have hlines : List.Forall₂ FrameworkHeader.IsImportedBy [viewHeader, frameworkHeader]
      ["#import <UIKit/UIView.h> // views".toList, "  #import\t<UIKit/UIKit.h>".toList] :=
    .cons ⟨_, hview, isFirstIn_self _⟩ (.cons ⟨_, hframework, isFirstIn_self _⟩ .nil)
  obtain ⟨hread, hsame⟩ := ((names_header _).2.1 _ hview).1 viewHeader (isFirstIn_self _)
  refine ⟨rfl, hread, mt hsame.mp (by decide), ?_, ((names_header _).2.1 _ hlocal).2 hnone⟩
  rw [((names_header []).2.2 4 _ _ hlines).1]
  decide +kernel

end Import

end Swiftward
