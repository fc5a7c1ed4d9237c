import Swiftward.File.Target
import Swiftward.Proofs.File.Directory
import Swiftward.Proofs.Text.Lines

/-!
# Where targets lie

The target of a source is a file beside it whose name ends in `.swift`, so it is no source itself
(`Directory.resolve_swiftPath`). The exception is a name of two dots and an extension: what is left
of it leads to a directory, to which nothing can be written.
-/

namespace Swiftward

/-! ### Names of sources and targets -/

/-- A name is cut at the last dot in it. -/
lemma eq_of_splitExtension? {name stem ext : Text} (h : splitExtension? name = some (stem, ext)) :
    name = stem ++ '.' :: ext := by
  unfold splitExtension? at h
  dsimp only at h
  have hname : name.reverse.takeWhile (· ≠ '.') ++ name.reverse.dropWhile (· ≠ '.') =
      name.reverse := List.takeWhile_append_dropWhile
  have hhead := List.head?_dropWhile_not (fun c : Char => decide (c ≠ '.')) name.reverse
  cases hdrop : name.reverse.dropWhile (fun c => decide (c ≠ '.')) with
  | nil =>
    rw [hdrop] at h
    cases h
  | cons c back =>
    rw [hdrop] at h hname hhead
    obtain rfl : c = '.' := by simpa using hhead
    rw [List.drop_one, List.tail_cons] at h
    split at h
    · cases h
    · obtain ⟨rfl, rfl⟩ := Prod.mk.inj (Option.some.inj h)
      rw [← List.reverse_inj, List.reverse_append, List.reverse_cons, List.reverse_reverse,
        List.reverse_reverse, List.append_assoc, List.singleton_append]
      exact hname.symm

/-- A path is cut between its last name and the slash before it. -/
lemma NamedPath.exists_front {path : Text} {named : NamedPath} (h : ofPath? path = some named) :
    ∃ front : List Text, named.lead = front.flatMap (· ++ ['/']) ∧
      (∀ piece ∈ front, '/' ∉ piece) ∧ '/' ∉ named.name := by
  have hmem {piece : Text} (hpiece : piece ∈ (pieces '/' path).reverse) : '/' ∉ piece :=
    not_mem_of_mem_pieces (List.mem_reverse.mp hpiece)
  unfold ofPath? at h
  dsimp only at h
  split at h
  · cases h
  · next name front hdrop =>
    have hsuffix := List.dropWhile_suffix (fun piece => decide (piece = [] ∨ piece = ['.']))
      (l := (pieces '/' path).reverse)
    rw [hdrop] at hsuffix
    split_ifs at h
    obtain rfl := Option.some.inj h
    refine ⟨front.reverse, rfl, ?_, hmem (hsuffix.subset List.mem_cons_self)⟩
    intro piece hpiece
    exact hmem (hsuffix.subset (List.mem_cons_of_mem _ (List.mem_reverse.mp hpiece)))

/-- The target of a source is spelled with the pieces before its name and a new name. -/
lemma exists_swiftPath_eq {path : Text} (h : isSource path = true) :
    ∃ (front : List Text) (name : Text), swiftPath path = front.flatMap (· ++ ['/']) ++ name ∧
      (∀ piece ∈ front, '/' ∉ piece) ∧ '/' ∉ name ∧
      (name = ['.', '.'] ∨ ∃ stem, name = stem ++ ".swift".toList) := by
  obtain ⟨ext, hext, -⟩ := (Option.any_eq_true _ _).mp h
  obtain ⟨name, hname, hsplit⟩ := Option.bind_eq_some_iff.mp hext
  obtain ⟨named, hnamed, rfl⟩ := Option.map_eq_some_iff.mp hname
  obtain ⟨⟨stem, ext⟩, hsplit, -⟩ := Option.bind_eq_some_iff.mp hsplit
  obtain ⟨front, hlead, hfront, hslash⟩ := NamedPath.exists_front hnamed
  rw [eq_of_splitExtension? hsplit, List.mem_append, not_or] at hslash
  rw [swiftPath, hnamed]
  dsimp only
  rw [hsplit, hlead]
  dsimp only
  split_ifs
  · exact ⟨front, ['.', '.'], rfl, hfront, by decide, .inl rfl⟩
  · refine ⟨front, stem ++ ".swift".toList, List.append_assoc .., hfront, ?_, .inr ⟨stem, rfl⟩⟩
    rw [List.mem_append, not_or]
    exact ⟨hslash.1, by decide⟩

/-- The name of a target is not that of a source. -/
lemma swift_ne_source {ext : String} (h : ext ∈ sourceExtensions) (stem stem' : Text) :
    stem ++ ".swift".toList ≠ stem' ++ '.' :: ext.toList := by
  have hends : ∀ ext ∈ sourceExtensions,
      ('.' :: ext.toList).getLast? = some 'm' ∨ ('.' :: ext.toList).getLast? = some 'h' := by
    decide
  intro heq
  have hlast := congrArg List.getLast? heq
  rw [List.getLast?_append, List.getLast?_append] at hlast
  obtain hend | hend := hends ext h
  · rw [hend] at hlast
    exact absurd (Option.some.inj hlast) (by decide)
  · rw [hend] at hlast
    exact absurd (Option.some.inj hlast) (by decide)

/-! ### Locations of targets -/

namespace Directory

variable {d : Directory} {place next : Location} {piece path name : Text}

/-- All locations above a location are directories. -/
def Enclosed (d : Directory) (place : Location) : Prop :=
  ∀ above, above <+: place → above ≠ place → d.find? above = some .directory

lemma Enclosed.follow (h : d.Enclosed place) (hfollow : d.follow place piece = .ok next) :
    d.Enclosed next := by
  obtain ⟨hdirectory, rfl⟩ := follow_eq_ok_iff.mp hfollow
  split_ifs with hstay hback
  · exact h
  · intro above hunder hne
    refine h above (hunder.trans (List.dropLast_prefix place)) ?_
    rintro rfl
    exact hne (hunder.eq_of_length_le (by simp))
  · intro above hunder hne
    obtain hall | hunder := List.prefix_concat_iff.mp hunder
    · exact absurd hall hne
    · by_cases hsame : above = place
      · rwa [hsame]
      · exact h above hunder hsame

lemma Enclosed.foldlM {ps : List Text} (h : d.Enclosed place)
    (hfollow : ps.foldlM d.follow place = .ok next) : d.Enclosed next := by
  induction ps generalizing place with
  | nil =>
    obtain rfl : place = next := Except.ok.inj hfollow
    exact h
  | cons piece ps ih =>
    rw [List.foldlM_cons, Except.bind_eq_ok_iff] at hfollow
    obtain ⟨mid, hfirst, hlater⟩ := hfollow
    exact ih (h.follow hfirst) hlater

/-- A path is resolved up to its last piece, and that piece is followed from there. -/
lemma exists_follow {front : List Text} (hfront : ∀ piece ∈ front, '/' ∉ piece) (hname : '/' ∉ name)
    (h : d.resolve (front.flatMap (· ++ ['/']) ++ name) = .ok place) :
    ∃ folder, d.Enclosed folder ∧ d.follow folder name = .ok place := by
  rw [resolve] at h
  split_ifs at h
  rw [pieces_flatMap_append hfront, pieces_of_not_mem hname, List.foldlM_append,
    Except.bind_eq_ok_iff] at h
  obtain ⟨folder, hfolder, hlast⟩ := h
  rw [List.foldlM_cons, Except.bind_eq_ok_iff] at hlast
  obtain ⟨last, hlast, hend⟩ := hlast
  obtain rfl : last = place := Except.ok.inj hend
  have hstart : d.Enclosed [] := fun above hunder hne =>
    absurd (List.prefix_nil.mp hunder) hne
  exact ⟨folder, hstart.foldlM hfolder, hlast⟩

lemma find?_of_follow_parent (h : d.Enclosed place) (hfollow : d.follow place ['.', '.'] = .ok next) :
    d.find? next = some .directory := by
  obtain ⟨hdirectory, hnext⟩ := follow_eq_ok_iff.mp hfollow
  rw [if_neg (by decide)] at hnext
  subst hnext
  split_ifs with hback
  · have hpos : 0 < place.length := by
      rw [List.length_pos_iff]
      rintro rfl
      exact absurd hback (by decide)
    refine h _ (List.dropLast_prefix place) ?_
    intro heq
    have hlength := congrArg List.length heq
    rw [List.length_dropLast] at hlength
    omega
  · apply find?_of_isAbove
    have habove : place.isAbove = true := by simpa using hback
    simpa [Location.isAbove] using habove

/-- The target of a source is a directory or a file whose name ends in `.swift`. -/
theorem resolve_swiftPath (hsource : isSource path = true)
    (h : d.resolve (swiftPath path) = .ok place) :
    d.find? place = some .directory ∨ ∃ folder stem, place = folder ++ [stem ++ ".swift".toList] := by
  obtain ⟨front, name, hpath, hfront, hslash, hname⟩ := exists_swiftPath_eq hsource
  rw [hpath] at h
  obtain ⟨folder, henclosed, hfollow⟩ := exists_follow hfront hslash h
  obtain rfl | ⟨stem, rfl⟩ := hname
  · exact .inl (find?_of_follow_parent henclosed hfollow)
  · obtain ⟨-, hplace⟩ := follow_eq_ok_iff.mp hfollow
    refine .inr ⟨folder, stem, ?_⟩
    have hdots (dots : Text) (hlength : dots.length < 6) : stem ++ ".swift".toList ≠ dots := by
      rintro rfl
      rw [List.length_append] at hlength
      exact absurd (Nat.lt_of_le_of_lt (Nat.le_add_left _ _) hlength) (by decide)
    have hone := hdots ['.'] (by decide)
    have htwo := hdots ['.', '.'] (by decide)
    rw [if_neg (not_or.mpr ⟨hdots [] (by decide), hone⟩), if_neg (not_and_of_not_left _ htwo)]
      at hplace
    exact hplace.symm

end Directory

end Swiftward
