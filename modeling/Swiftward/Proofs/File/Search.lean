import Mathlib.Tactic.Common
import Swiftward.File.Directory
import Swiftward.File.Wildcard.Search

/-!
# Searching changes nothing

A search looks at a directory tree in many places and writes nothing to it: the tree is the same
when the arguments of a run have been expanded (`lookingOnly_expandPatterns`).
-/

namespace Swiftward

/-- The action leaves the directory tree as it is. -/
def LookingOnly {α : Type} (x : StateM Directory α) : Prop := ∀ d, (x.run d).2 = d

namespace LookingOnly

variable {α β : Type}

protected lemma pure (a : α) : LookingOnly (pure a) := fun _ => rfl

protected lemma bind {x : StateM Directory α} {f : α → StateM Directory β} (hx : LookingOnly x)
    (hf : ∀ a, LookingOnly (f a)) : LookingOnly (x >>= f) := by
  intro d
  show ((f (x.run d).1).run (x.run d).2).2 = d
  rw [hf, hx]

protected lemma ite {p : Prop} [Decidable p] {x y : StateM Directory α} (hx : LookingOnly x)
    (hy : LookingOnly y) : LookingOnly (if p then x else y) := by
  split_ifs
  · exact hx
  · exact hy

protected lemma mapM {f : α → StateM Directory β} (hf : ∀ a, LookingOnly (f a)) (as : List α) :
    LookingOnly (as.mapM f) := by
  induction as with
  | nil => exact .pure []
  | cons a as ih =>
    rw [List.mapM_cons]
    exact (hf a).bind fun b => ih.bind fun bs => .pure (b :: bs)

protected lemma filterM {p : α → StateM Directory Bool} (hp : ∀ a, LookingOnly (p a))
    (as : List α) : LookingOnly (as.filterM p) := by
  have hfrom (as kept : List α) : LookingOnly (as.filterAuxM p kept) := by
    induction as generalizing kept with
    | nil => exact .pure kept
    | cons a as ih =>
      rw [List.filterAuxM]
      exact (hp a).bind fun b => ih _
  rw [List.filterM]
  exact (hfrom as []).bind fun kept => .pure kept.reverse

lemma isDirectory (path : Text) : LookingOnly (FileSystem.isDirectory path) := fun _ => rfl

lemma isPresent (path : Text) : LookingOnly (FileSystem.isPresent path) := fun _ => rfl

lemma isFile (path : Text) : LookingOnly (FileSystem.isFile path) := fun _ => rfl

lemma sortedEntries (path : Text) : LookingOnly (Swiftward.sortedEntries path) := fun _ => rfl

end LookingOnly

mutual

lemma lookingOnly_searchBelow (directoriesOnly : Bool) (depth : Nat) (components : List Pattern)
    (path : Text) : LookingOnly (searchBelow directoriesOnly depth components path) := by
  rw [searchBelow.eq_def]
  cases components with
  | nil => exact .ite ((LookingOnly.isDirectory path).bind fun found => .pure _) (.pure [path])
  | cons pattern rest =>
    dsimp only
    split
    · next name hname =>
      have hfound (found : Bool) : LookingOnly
          (if found then searchBelow directoriesOnly depth rest (childPath path name)
            else pure []) :=
        .ite (lookingOnly_searchBelow directoriesOnly depth rest _) (.pure [])
      exact .ite ((LookingOnly.isDirectory path).bind hfound)
        ((LookingOnly.isPresent _).bind hfound)
    · refine (LookingOnly.isDirectory path).bind fun found => ?_
      refine .ite (.bind (.mapM (fun name => ?_) _) fun dots => ?_) (.pure [])
      · exact lookingOnly_searchBelow directoriesOnly depth rest _
      · refine (LookingOnly.sortedEntries path).bind fun names => ?_
        refine .bind (.mapM (fun name => ?_) _) fun children => .pure _
        exact lookingOnly_searchAt directoriesOnly depth (pattern :: rest) _
termination_by (depth, components.length, 1)

lemma lookingOnly_searchAt (directoriesOnly : Bool) (depth : Nat) (components : List Pattern)
    (path : Text) : LookingOnly (searchAt directoriesOnly depth components path) := by
  rw [searchAt.eq_def]
  cases components with
  | nil => exact .pure []
  | cons pattern rest =>
    apply LookingOnly.ite
    · cases depth with
      | zero => exact .pure []
      | succ depth =>
        refine (LookingOnly.isDirectory path).bind fun found => ?_
        generalize rest.dropWhile Pattern.isRecursive = later
        -- What lies below is searched for whatever the path itself is.
        have hbelow (own : List Text) : LookingOnly (do
            let below ← if found then searchBelow directoriesOnly depth (pattern :: later) path
              else pure []
            pure (own ++ below)) :=
          .ite ((lookingOnly_searchBelow directoriesOnly depth _ path).bind fun below => .pure _)
            (.pure _)
        cases later with
        | nil => exact hbelow _
        | cons next rest =>
          exact (lookingOnly_searchNamed directoriesOnly depth next rest path).bind hbelow
    · exact lookingOnly_searchNamed directoriesOnly depth pattern rest path
termination_by (depth, components.length, 0)

lemma lookingOnly_searchNamed (directoriesOnly : Bool) (depth : Nat) (pattern : Pattern)
    (rest : List Pattern) (path : Text) :
    LookingOnly (searchNamed directoriesOnly depth pattern rest path) := by
  rw [searchNamed.eq_def]
  cases fileName? path with
  | none => exact .pure []
  | some name =>
    apply LookingOnly.ite
    · exact .pure []
    · cases rest with
      | nil => exact .ite ((LookingOnly.isDirectory path).bind fun found => .pure _) (.pure [path])
      | cons next more => exact lookingOnly_searchBelow directoriesOnly depth (next :: more) path
termination_by (depth, rest.length, 2)

end

lemma lookingOnly_search (pattern : Text) : LookingOnly (search pattern) := by
  rw [search]
  split
  · exact lookingOnly_searchBelow _ _ _ _
  · exact .pure []

/-- The arguments of a run are expanded without a change to any file. -/
theorem lookingOnly_expandPatterns (arguments : List Text) :
    LookingOnly (expandPatterns arguments) := by
  refine .bind (.mapM (fun argument => ?_) arguments) fun expanded => .pure _
  refine .ite ?_ (.pure [argument])
  exact (lookingOnly_search argument).bind fun found => .filterM LookingOnly.isFile found

end Swiftward
