import Mathlib.Tactic.Common
import Swiftward.File.Directory

/-!
# Writing in a directory tree

A write puts a file where there is no directory, so the tree keeps its directories and paths lead
where they led (`SameDirectories.resolve_iff`). When several files have been written, each path reads
what was written last to the location that it leads to (`read_writeAll_last`). So all contents are in
place if and only if no two files with different contents went to one location
(`forall_read_writeAll_iff`).
-/

namespace Swiftward

/-- An action that may fail goes on with the value of another. -/
lemma Except.bind_eq_ok_iff {ε α β : Type} {x : Except ε α} {f : α → Except ε β} {b : β} :
    (x >>= f) = .ok b ↔ ∃ a, x = .ok a ∧ f a = .ok b := by
  cases x with
  | error e => simp [bind, Except.bind]
  | ok a => simp [bind, Except.bind]

/-- Of the members of a list with some property, one is the last. -/
lemma exists_last_of_mem {α : Type} {p : α → Prop} {l : List α} {a : α} (ha : a ∈ l) (hp : p a) :
    ∃ front b back, l = front ++ b :: back ∧ p b ∧ ∀ c ∈ back, ¬ p c := by
  induction l generalizing a with
  | nil => simp at ha
  | cons x l ih =>
    by_cases hlater : ∃ c ∈ l, p c
    · obtain ⟨c, hc, hpc⟩ := hlater
      obtain ⟨front, b, back, rfl, hb, hback⟩ := ih hc hpc
      exact ⟨x :: front, b, back, rfl, hb, hback⟩
    · have hnone : ∀ c ∈ l, ¬ p c := fun c hc hpc => hlater ⟨c, hc, hpc⟩
      rcases List.mem_cons.mp ha with rfl | ha
      · exact ⟨[], a, l, rfl, hp, hnone⟩
      · exact absurd hp (hnone a ha)

namespace Directory

variable {d d' : Directory} {path : Text} {place : Location} {content : ByteArray}

/-! ### Locations -/

lemma find?_of_isAbove (d : Directory) (h : place.isAbove = true) :
    d.find? place = some .directory := by
  rw [find?, if_pos h]

/-- At a location that was set there is what was put there, and elsewhere what was there before. -/
lemma find?_set (h : place.isAbove = false) (entry : Entry) (other : Location) :
    (d.set place entry).find? other = if other = place then some entry else d.find? other := by
  split_ifs with heq
  · subst heq
    have hnone : (d.table.filter (·.1 ≠ other)).find? (·.1 = other) = none := by
      simp [List.find?_eq_none]
    simp only [find?, h, set, List.find?_append, hnone]
    simp
  · by_cases habove : other.isAbove = true
    · rw [find?_of_isAbove _ habove, find?_of_isAbove _ habove]
    · have hfilter : (d.table.filter (·.1 ≠ place)).find? (·.1 = other) =
          d.table.find? (·.1 = other) := by
        rw [List.find?_filter]
        congr 1
        funext pair
        by_cases hpair : pair.1 = other
        · simp [hpair, heq]
        · simp [hpair]
      have hlast : [(place, entry)].find? (·.1 = other) = none := by simp [Ne.symm heq]
      simp only [find?, habove, set, List.find?_append, hfilter, hlast, Option.or_none]

/-! ### Trees with the same directories -/

/-- There are directories at the same locations. -/
def SameDirectories (d d' : Directory) : Prop :=
  ∀ place, d'.find? place = some .directory ↔ d.find? place = some .directory

lemma SameDirectories.refl (d : Directory) : SameDirectories d d := fun _ => Iff.rfl

lemma SameDirectories.trans {d'' : Directory} (h : SameDirectories d d')
    (h' : SameDirectories d' d'') : SameDirectories d d'' :=
  fun place => (h' place).trans (h place)

lemma enter_eq_ok_iff {here : Location} :
    d.enter place = .ok here ↔ d.find? place = some .directory ∧ place = here := by
  unfold enter
  split <;> simp_all

lemma follow_eq_ok_iff {piece : Text} {next : Location} :
    d.follow place piece = .ok next ↔ d.find? place = some .directory ∧
      (if piece = [] ∨ piece = ['.'] then place
        else if piece = ['.', '.'] ∧ !place.isAbove then place.dropLast
        else place ++ [piece]) = next := by
  simp only [follow, Except.bind_eq_ok_iff, enter_eq_ok_iff, pure, Except.pure, Except.ok.injEq]
  constructor
  · rintro ⟨here, ⟨hdirectory, rfl⟩, hnext⟩
    exact ⟨hdirectory, hnext⟩
  · rintro ⟨hdirectory, hnext⟩
    exact ⟨place, ⟨hdirectory, rfl⟩, hnext⟩

/-- Paths are followed through directories alone. -/
lemma SameDirectories.resolve_iff (h : SameDirectories d d') (path : Text) (place : Location) :
    d'.resolve path = .ok place ↔ d.resolve path = .ok place := by
  have hfold (ps : List Text) (start : Location) :
      ps.foldlM d'.follow start = .ok place ↔ ps.foldlM d.follow start = .ok place := by
    induction ps generalizing start with
    | nil => rfl
    | cons piece ps ih =>
      rw [List.foldlM_cons, List.foldlM_cons, Except.bind_eq_ok_iff, Except.bind_eq_ok_iff]
      simp only [follow_eq_ok_iff, h start, ih]
  rw [resolve, resolve]
  split_ifs
  · simp
  · exact hfold _ []

/-! ### Single writes -/

lemma write_eq_ok_iff : d.write path content = .ok d' ↔
    ∃ place, d.resolve path = .ok place ∧ d.find? place ≠ some .directory ∧
      d' = d.set place (.file content) := by
  simp only [write, Except.bind_eq_ok_iff]
  refine exists_congr fun place => and_congr_right fun _ => ?_
  rcases d.find? place with _ | (_ | _)
  · simp [eq_comm]
  · simp [Entry.isDirectory, eq_comm]
  · simp [Entry.isDirectory]

lemma read_of_find? (hpath : d.resolve path = .ok place)
    (hfile : d.find? place = some (.file content)) : d.read path = .ok content := by
  rw [read, hpath]
  simp [bind, Except.bind, hfile]

/-- A write keeps the directories, and changes what is found at one location only. -/
lemma write_spec (h : d.write path content = .ok d') : ∃ place, d.resolve path = .ok place ∧
    SameDirectories d d' ∧
    ∀ other, d'.find? other = if other = place then some (.file content) else d.find? other := by
  obtain ⟨place, hpath, hfree, rfl⟩ := write_eq_ok_iff.mp h
  have hbelow : place.isAbove = false := by
    by_contra habove
    exact hfree (find?_of_isAbove d ((Bool.not_eq_false _).mp habove))
  refine ⟨place, hpath, ?_, find?_set hbelow _⟩
  intro other
  rw [find?_set hbelow]
  split_ifs with hother
  · subst hother
    simp [hfree]
  · rfl

/-! ### Several writes -/

/-- The tree with a content for the file at each of some paths, written in order. -/
def writeAll (d : Directory) (files : List (Text × ByteArray)) : Except Fault Directory :=
  files.foldlM (fun d file => d.write file.1 file.2) d

lemma writeAll_cons {file : Text × ByteArray} {files : List (Text × ByteArray)} :
    d.writeAll (file :: files) = .ok d' ↔
      ∃ mid, d.write file.1 file.2 = .ok mid ∧ mid.writeAll files = .ok d' := by
  rw [writeAll, List.foldlM_cons, Except.bind_eq_ok_iff]
  rfl

/-- Writes keep the directories, each of them leads to a location, and what is found at any other
location stays. -/
lemma writeAll_spec {files : List (Text × ByteArray)} (h : d.writeAll files = .ok d') :
    SameDirectories d d' ∧ (∀ file ∈ files, ∃ place, d.resolve file.1 = .ok place) ∧
      ∀ other, (∀ file ∈ files, d.resolve file.1 ≠ .ok other) → d'.find? other = d.find? other := by
  induction files generalizing d with
  | nil =>
    obtain rfl : d = d' := Except.ok.inj h
    exact ⟨.refl d, by simp, fun _ _ => rfl⟩
  | cons file files ih =>
    obtain ⟨mid, hfirst, hlater⟩ := writeAll_cons.mp h
    obtain ⟨place, hpath, hsame, hfound⟩ := write_spec hfirst
    obtain ⟨hsame', hplaces, hother⟩ := ih hlater
    refine ⟨hsame.trans hsame', ?_, ?_⟩
    · refine List.forall_mem_cons.mpr ⟨⟨place, hpath⟩, fun file' hfile' => ?_⟩
      obtain ⟨place', hplace'⟩ := hplaces file' hfile'
      exact ⟨place', (hsame.resolve_iff _ _).mp hplace'⟩
    · intro other hnone
      obtain ⟨hne, hnone⟩ := List.forall_mem_cons.mp hnone
      have hmid : mid.find? other = d.find? other := by
        rw [hfound, if_neg]
        rintro rfl
        exact hne hpath
      rw [hother other fun file' hfile' => ?_, hmid]
      rw [ne_eq, hsame.resolve_iff]
      exact hnone file' hfile'

/-- After several writes a location is as it was, or holds what one of them put there. -/
lemma find?_writeAll {files : List (Text × ByteArray)} (h : d.writeAll files = .ok d')
    (place : Location) :
    d'.find? place = d.find? place ∨
      ∃ file ∈ files, d.resolve file.1 = .ok place ∧ d'.find? place = some (.file file.2) := by
  induction files generalizing d with
  | nil =>
    obtain rfl : d = d' := Except.ok.inj h
    exact .inl rfl
  | cons file files ih =>
    obtain ⟨mid, hfirst, hlater⟩ := writeAll_cons.mp h
    obtain ⟨written, hpath, hsame, hfound⟩ := write_spec hfirst
    obtain hkept | ⟨file', hfile', hpath', hfound'⟩ := ih hlater
    · rw [hkept, hfound]
      split_ifs with hplace
      · subst hplace
        exact .inr ⟨file, List.mem_cons_self, hpath, rfl⟩
      · exact .inl rfl
    · exact .inr ⟨file', List.mem_cons_of_mem _ hfile', (hsame.resolve_iff _ _).mp hpath', hfound'⟩

lemma writeAll_append {front back : List (Text × ByteArray)} :
    d.writeAll (front ++ back) = .ok d' ↔
      ∃ mid, d.writeAll front = .ok mid ∧ mid.writeAll back = .ok d' := by
  rw [writeAll, List.foldlM_append, Except.bind_eq_ok_iff]
  rfl

/-- A path reads what was written last to the location that it leads to. -/
theorem read_writeAll_last {front back : List (Text × ByteArray)} {path' : Text}
    (h : d.writeAll (front ++ (path, content) :: back) = .ok d')
    (hpath : d.resolve path' = d.resolve path)
    (hlast : ∀ file ∈ back, d.resolve file.1 ≠ d.resolve path) : d'.read path' = .ok content := by
  obtain ⟨mid, hfront, hrest⟩ := writeAll_append.mp h
  obtain ⟨after, hwrite, hback⟩ := writeAll_cons.mp hrest
  obtain ⟨hsame, -, -⟩ := writeAll_spec hfront
  obtain ⟨place, hplace, hsame', hfound⟩ := write_spec hwrite
  obtain ⟨hsame'', -, hother⟩ := writeAll_spec hback
  have hstart : d.resolve path = .ok place := (hsame.resolve_iff _ _).mp hplace
  have hkept : d'.find? place = some (.file content) := by
    rw [hother place fun file hfile => ?_, hfound, if_pos rfl]
    rw [ne_eq, hsame'.resolve_iff, hsame.resolve_iff, ← hstart]
    exact hlast file hfile
  apply read_of_find? _ hkept
  rw [((hsame.trans hsame').trans hsame'').resolve_iff, hpath, hstart]

/-- All contents are in place in the end if and only if files that were written to one location
have one content. -/
theorem forall_read_writeAll_iff {files : List (Text × ByteArray)} (h : d.writeAll files = .ok d') :
    (∀ file ∈ files, d'.read file.1 = .ok file.2) ↔
      ∀ file ∈ files, ∀ file' ∈ files, d.resolve file.1 = d.resolve file'.1 → file.2 = file'.2 := by
  obtain ⟨hsame, hplaces, -⟩ := writeAll_spec h
  constructor
  · intro hall file hfile file' hfile' hpaths
    obtain ⟨place, hplace⟩ := hplaces file hfile
    have hread : d'.read file.1 = d'.read file'.1 := by
      rw [read, read, (hsame.resolve_iff _ _).mpr hplace,
        (hsame.resolve_iff _ _).mpr (hpaths.symm.trans hplace)]
    rw [hall file hfile, hall file' hfile', Except.ok.injEq] at hread
    exact hread
  · intro hagree file hfile
    obtain ⟨front, ⟨path, content⟩, back, rfl, hpath, hlast⟩ :=
      exists_last_of_mem (p := fun file' => d.resolve file'.1 = d.resolve file.1) hfile rfl
    have hcontent := hagree file hfile (path, content) (by simp) hpath.symm
    rw [hcontent]
    refine read_writeAll_last h hpath.symm fun file' hfile' => ?_
    rw [hpath]
    exact hlast file' hfile'

end Directory

end Swiftward
