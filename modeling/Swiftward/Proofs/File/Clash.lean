import Mathlib.Data.List.Forall2
import Mathlib.Data.List.Infix
import Mathlib.Data.List.Nodup
import Swiftward.Proofs.File.Target

/-!
# One source for each target

Sources that go to one target, however its path is spelled, form a group, and the groups come in the
order of their first sources. A target can be written if its group has a single source that is no
header, or is a single header; every other header gives way. What the sources are resolved to is
told by the groups alone (`resolveTargets_of_groups`): one source for each group, or the first group
that has no such source.
-/

namespace Swiftward

/-- Where the translation of a source goes, however the path is spelled. -/
def targetParts (source : Text) : List PathPart := pathParts (swiftPath source)

/-- The sources that come first for their target, in their order. -/
def leaders : List Text → List Text
  | [] => []
  | source :: sources =>
    source :: (leaders sources).filter (targetParts · ≠ targetParts source)

/-- The sources that go where `leader` goes, in their order. -/
def groupOf (sources : List Text) (leader : Text) : List Text :=
  sources.filter (targetParts · = targetParts leader)

/-- The sources of a group that are no headers. -/
def nonHeaders (group : List Text) : List Text := group.filter (!isHeader ·)

/-- A group goes on with its only source that is no header, or, if it has none, with its only
header. -/
inductive Keeps (group : List Text) (source : Text) : Prop where
  | nonHeader (h : nonHeaders group = [source])
  | header (hnone : nonHeaders group = []) (h : group.filter isHeader = [source])

/-- The sources that keep a target from being written: those that are no headers, or the headers if
there are no others. -/
def contenders (group : List Text) : List Text :=
  if nonHeaders group = [] then group.filter isHeader else nonHeaders group

/-! ### Sources by target -/

section Groups

variable {sources : List Text} {source leader f : Text}

/-- Each source goes where the first of its group goes. -/
lemma exists_leader (h : f ∈ sources) :
    ∃ leader ∈ leaders sources, targetParts leader = targetParts f := by
  induction sources with
  | nil => exact absurd h List.not_mem_nil
  | cons source sources ih =>
    rw [List.mem_cons] at h
    by_cases hsame : targetParts source = targetParts f
    · exact ⟨source, List.mem_cons_self, hsame⟩
    · obtain rfl | h := h
      · exact absurd rfl hsame
      · obtain ⟨leader, hleader, htarget⟩ := ih h
        refine ⟨leader, List.mem_cons_of_mem _ (List.mem_filter.mpr ⟨hleader, ?_⟩), htarget⟩
        rw [decide_eq_true_iff, htarget]
        exact Ne.symm hsame

/-- No two groups have the same target. -/
lemma nodup_targets (sources : List Text) : ((leaders sources).map targetParts).Nodup := by
  induction sources with
  | nil => exact List.nodup_nil
  | cons source sources ih =>
    rw [leaders, List.map_cons, List.nodup_cons]
    constructor
    · intro hmem
      obtain ⟨leader, hleader, htarget⟩ := List.mem_map.mp hmem
      exact of_decide_eq_true (List.mem_filter.mp hleader).2 htarget
    · exact ih.sublist (List.filter_sublist.map targetParts)

lemma mem_groupOf :
    f ∈ groupOf sources leader ↔ f ∈ sources ∧ targetParts f = targetParts leader := by
  rw [groupOf, List.mem_filter, decide_eq_true_iff]

lemma groupOf_concat (sources : List Text) (f leader : Text) :
    groupOf (sources ++ [f]) leader =
      if targetParts f = targetParts leader then groupOf sources leader ++ [f]
      else groupOf sources leader := by
  simp only [groupOf, List.filter_append, List.filter_cons, List.filter_nil, decide_eq_true_iff]
  split_ifs
  · rfl
  · rw [List.append_nil]

/-- One more source leads a group of its own unless it goes where another one goes. -/
lemma leaders_concat (sources : List Text) (f : Text) :
    leaders (sources ++ [f]) =
      if targetParts f ∈ (leaders sources).map targetParts then leaders sources
      else leaders sources ++ [f] := by
  induction sources with
  | nil => rfl
  | cons source sources ih =>
    have hmem : targetParts f ∈ (leaders (source :: sources)).map targetParts ↔
        targetParts source = targetParts f ∨ targetParts f ∈ (leaders sources).map targetParts := by
      simp only [leaders, List.map_cons, List.mem_cons, List.mem_map, List.mem_filter,
        decide_eq_true_iff]
      constructor
      · rintro (hsame | ⟨leader, ⟨hleader, -⟩, htarget⟩)
        · exact .inl hsame.symm
        · exact .inr ⟨leader, hleader, htarget⟩
      · rintro (hsame | ⟨leader, hleader, htarget⟩)
        · exact .inl hsame.symm
        · by_cases hsame : targetParts f = targetParts source
          · exact .inl hsame
          · exact .inr ⟨leader, ⟨hleader, htarget ▸ hsame⟩, htarget⟩
    rw [List.cons_append, leaders, ih]
    simp only [hmem]
    by_cases hlater : targetParts f ∈ (leaders sources).map targetParts
    · rw [if_pos hlater, if_pos (.inr hlater), leaders]
    · rw [if_neg hlater, List.filter_append, leaders]
      by_cases hsame : targetParts source = targetParts f
      · simp [hsame]
      · have hkept : [f].filter (targetParts · ≠ targetParts source) = [f] :=
          List.filter_eq_self.mpr (by simpa using Ne.symm hsame)
        rw [if_neg (not_or.mpr ⟨hsame, hlater⟩), hkept, List.cons_append]

end Groups

namespace TargetGroup

/-- The group with the given sources, under the target of the first of them. -/
def ledBy (sources : List Text) (leader : Text) : TargetGroup :=
  ⟨swiftPath leader, groupOf sources leader⟩

lemma add_cons_of_same {group : TargetGroup} {f : Text}
    (h : pathParts group.target = targetParts f) (rest : List TargetGroup) :
    add (group :: rest) f = { group with sources := group.sources ++ [f] } :: rest :=
  if_pos h

lemma add_cons_of_ne {group : TargetGroup} {f : Text}
    (h : pathParts group.target ≠ targetParts f) (rest : List TargetGroup) :
    add (group :: rest) f = group :: add rest f :=
  if_neg h

/-- A source is put to the one group with its target, or makes a group of its own. -/
lemma add_map_ledBy (sources : List Text) (f : Text) {first : List Text}
    (hfirst : (first.map targetParts).Nodup) :
    add (first.map (ledBy sources)) f =
      if targetParts f ∈ first.map targetParts then first.map (ledBy (sources ++ [f]))
      else first.map (ledBy (sources ++ [f])) ++ [⟨swiftPath f, [f]⟩] := by
  induction first with
  | nil => rfl
  | cons leader first ih =>
    rw [List.map_cons, List.nodup_cons] at hfirst
    have hother {leader : Text} (hne : targetParts f ≠ targetParts leader) :
        ledBy (sources ++ [f]) leader = ledBy sources leader := by
      rw [ledBy, groupOf_concat, if_neg hne, ledBy]
    have hled : pathParts (ledBy sources leader).target = targetParts leader := rfl
    simp only [List.map_cons, List.mem_cons]
    by_cases hsame : targetParts leader = targetParts f
    · have hrest : first.map (ledBy (sources ++ [f])) = first.map (ledBy sources) := by
        apply List.map_congr_left
        intro other hmem
        apply hother
        rw [← hsame]
        intro heq
        exact hfirst.1 (heq ▸ List.mem_map_of_mem hmem)
      rw [add_cons_of_same (hled.trans hsame), if_pos (.inl hsame.symm), hrest,
        ledBy.eq_1 (sources ++ [f]),
        groupOf_concat, if_pos hsame.symm, ledBy]
    · have hmem : (targetParts f = targetParts leader ∨ targetParts f ∈ first.map targetParts) ↔
          targetParts f ∈ first.map targetParts := or_iff_right (Ne.symm hsame)
      rw [add_cons_of_ne (hled.trans_ne hsame), ih hfirst.2, hother (Ne.symm hsame)]
      simp only [hmem]
      split_ifs <;> rfl

/-- The groups are those of the sources that lead them. -/
lemma ofSources_eq (sources : List Text) :
    ofSources sources = (leaders sources).map (ledBy sources) := by
  induction sources using List.reverseRecOn with
  | nil => rfl
  | append_singleton sources f ih =>
    have hfold : ofSources (sources ++ [f]) = add (ofSources sources) f := by
      rw [ofSources, List.foldl_append, List.foldl_cons, List.foldl_nil, ofSources]
    rw [hfold, ih, add_map_ledBy sources f (nodup_targets sources), leaders_concat]
    split_ifs with hmem
    · rfl
    · have halone : groupOf (sources ++ [f]) f = [f] := by
        have hnil : groupOf sources f = [] := by
          rw [List.eq_nil_iff_forall_not_mem]
          intro other hother
          obtain ⟨hother, htarget⟩ := mem_groupOf.mp hother
          obtain ⟨leader, hleader, hled⟩ := exists_leader hother
          exact hmem (List.mem_map.mpr ⟨leader, hleader, hled.trans htarget⟩)
        rw [groupOf_concat, if_pos rfl, hnil, List.nil_append]
      rw [List.map_append, List.map_singleton, ledBy, halone]

/-- A group goes on with its contenders. -/
lemma candidates_eq (group : TargetGroup) : group.candidates = contenders group.sources := by
  have hheaders (hnone : nonHeaders group.sources = []) :
      group.sources.filter isHeader = group.sources := by
    rw [List.filter_eq_self]
    intro f hf
    simpa using List.filter_eq_nil_iff.mp hnone f hf
  unfold candidates
  split
  · next source hone =>
    rw [hone]
    cases hheader : isHeader source <;> simp [contenders, nonHeaders, hheader]
  · unfold contenders
    split
    · next hnone =>
      have hnone : nonHeaders group.sources = [] := hnone
      rw [if_pos hnone, hheaders hnone]
    · next hsome =>
      have hsome : nonHeaders group.sources ≠ [] := hsome
      rw [if_neg hsome, nonHeaders]

end TargetGroup

/-! ### What a group goes on with -/

section Keeps

variable {group : List Text} {f : Text}

lemma contenders_eq_singleton_iff : contenders group = [f] ↔ Keeps group f := by
  unfold contenders
  split_ifs with hnone
  · constructor
    · exact .header hnone
    · rintro (h | ⟨-, h⟩)
      · rw [hnone] at h
        cases h
      · exact h
  · constructor
    · exact .nonHeader
    · rintro (h | ⟨h, -⟩)
      · exact h
      · exact absurd h hnone

lemma mem_nonHeaders : f ∈ nonHeaders group ↔ f ∈ group ∧ isHeader f = false := by
  rw [nonHeaders, List.mem_filter, Bool.not_eq_true']

lemma mem_headers : f ∈ group.filter isHeader ↔ f ∈ group ∧ isHeader f = true := List.mem_filter

lemma Keeps.mem (h : Keeps group f) : f ∈ group := by
  cases h with
  | nonHeader h => exact (mem_nonHeaders.mp (h ▸ List.mem_singleton_self f)).1
  | header hnone h => exact (mem_headers.mp (h ▸ List.mem_singleton_self f)).1

/-- The kept source is there once. -/
lemma Keeps.count_eq (h : Keeps group f) : group.count f = 1 := by
  cases h with
  | nonHeader h =>
    have hf : isHeader f = false := (mem_nonHeaders.mp (h ▸ List.mem_singleton_self f)).2
    rw [← List.count_filter (p := (!isHeader ·)) (by simpa using hf)]
    rw [nonHeaders] at h
    rw [h, List.count_singleton_self]
  | header hnone h =>
    have hf : isHeader f = true := (mem_headers.mp (h ▸ List.mem_singleton_self f)).2
    rw [← List.count_filter (p := isHeader) hf, h, List.count_singleton_self]

/-- The other sources of a group are headers, and the kept one is not. -/
lemma Keeps.of_ne (h : Keeps group f) {g : Text} (hg : g ∈ group) (hne : g ≠ f) :
    isHeader g = true ∧ isHeader f = false := by
  cases h with
  | nonHeader h =>
    refine ⟨?_, (mem_nonHeaders.mp (h ▸ List.mem_singleton_self f)).2⟩
    by_contra hheader
    have hmem : g ∈ nonHeaders group := mem_nonHeaders.mpr ⟨hg, by simpa using hheader⟩
    rw [h] at hmem
    exact hne (List.mem_singleton.mp hmem)
  | header hnone h =>
    cases hheader : isHeader g with
    | false =>
      have hmem : g ∈ nonHeaders group := mem_nonHeaders.mpr ⟨hg, hheader⟩
      rw [hnone] at hmem
      exact absurd hmem List.not_mem_nil
    | true =>
      have hmem : g ∈ group.filter isHeader := mem_headers.mpr ⟨hg, hheader⟩
      rw [h] at hmem
      exact absurd (List.mem_singleton.mp hmem) hne

end Keeps

namespace TargetGroup

/-- The source that a group goes on with, or the contenders if there is not just one. -/
def keep (group : TargetGroup) : Except TargetGroup Text :=
  match group.candidates with
  | [source] => .ok source
  | candidates => .error { group with sources := candidates }

lemma keep_eq_ok_iff {group : TargetGroup} {f : Text} :
    group.keep = .ok f ↔ Keeps group.sources f := by
  rw [← contenders_eq_singleton_iff, ← candidates_eq, keep]
  split
  · next source hone => simp [hone]
  · next hmany =>
    constructor
    · rintro ⟨⟩
    · exact fun h => absurd h (hmany f)

lemma keep_eq_error_iff {group clash : TargetGroup} :
    group.keep = .error clash ↔
      (¬∃ f, Keeps group.sources f) ∧
        clash = { group with sources := contenders group.sources } := by
  rw [← candidates_eq]
  constructor
  · intro h
    refine ⟨?_, ?_⟩
    · rintro ⟨f, hf⟩
      rw [keep_eq_ok_iff.mpr hf] at h
      cases h
    · rw [keep] at h
      split at h
      · cases h
      · exact (Except.error.inj h).symm
  · rintro ⟨hnone, rfl⟩
    rw [keep]
    split
    · next source hone =>
      rw [candidates_eq, contenders_eq_singleton_iff] at hone
      exact absurd ⟨source, hone⟩ hnone
    · rfl

end TargetGroup

/-! ### Results in order -/

section Except

variable {ε α β : Type} {g : α → Except ε β}

lemma Except.mapM_eq_ok_iff {as : List α} {bs : List β} :
    as.mapM g = .ok bs ↔ List.Forall₂ (fun a b => g a = .ok b) as bs := by
  induction as generalizing bs with
  | nil =>
    rw [List.mapM_nil, List.forall₂_nil_left_iff]
    exact ⟨fun h => (Except.ok.inj h).symm, fun h => h ▸ rfl⟩
  | cons a as ih =>
    rw [List.mapM_cons, Except.bind_eq_ok_iff, List.forall₂_cons_left_iff]
    refine exists_congr fun b => ?_
    rw [Except.bind_eq_ok_iff]
    constructor
    · rintro ⟨hb, rest, hrest, hall⟩
      exact ⟨rest, hb, ih.mp hrest, (Except.ok.inj hall).symm⟩
    · rintro ⟨rest, hb, hrest, rfl⟩
      exact ⟨hb, rest, ih.mpr hrest, rfl⟩

/-- The first failure in a list is that of the whole list. -/
lemma Except.mapM_eq_error_iff {as : List α} {e : ε} :
    as.mapM g = .error e ↔
      ∃ front a back, as = front ++ a :: back ∧ (∀ x ∈ front, ∃ b, g x = .ok b) ∧
        g a = .error e := by
  induction as with
  | nil =>
    constructor
    · rintro ⟨⟩
    · rintro ⟨front, a, back, hnil, -⟩
      exact absurd hnil (by simp)
  | cons a as ih =>
    rw [List.mapM_cons]
    cases ha : g a with
    | error fault =>
      constructor
      · rintro ⟨⟩
        exact ⟨[], a, as, rfl, List.forall_mem_nil _, ha⟩
      · rintro ⟨front, a', back, heq, hfront, ha'⟩
        cases front with
        | nil =>
          obtain ⟨rfl, -⟩ := List.cons.inj heq
          rw [ha'] at ha
          exact ha ▸ rfl
        | cons first front =>
          obtain ⟨rfl, -⟩ := List.cons.inj heq
          obtain ⟨b, hb⟩ := hfront a List.mem_cons_self
          rw [ha] at hb
          cases hb
    | ok b =>
      have hrest : (Except.ok b >>= fun first => as.mapM g >>= fun rest =>
          pure (first :: rest) : Except ε (List β)) = .error e ↔ as.mapM g = .error e := by
        show (as.mapM g >>= fun rest => pure (b :: rest)) = _ ↔ _
        cases as.mapM g with
        | error fault => exact ⟨fun h => Except.error.inj h ▸ rfl, fun h => Except.error.inj h ▸ rfl⟩
        | ok rest => exact ⟨nofun, nofun⟩
      rw [hrest, ih]
      constructor
      · rintro ⟨front, a', back, rfl, hfront, ha'⟩
        exact ⟨a :: front, a', back, rfl, List.forall_mem_cons.mpr ⟨⟨b, ha⟩, hfront⟩, ha'⟩
      · rintro ⟨front, a', back, heq, hfront, ha'⟩
        cases front with
        | nil =>
          obtain ⟨rfl, -⟩ := List.cons.inj heq
          rw [ha] at ha'
          cases ha'
        | cons first front =>
          obtain ⟨rfl, rfl⟩ := List.cons.inj heq
          exact ⟨front, a', back, rfl, fun x hx => hfront x (List.mem_cons_of_mem _ hx), ha'⟩

end Except

/-! ### What sources are resolved to -/

section Kept

variable {sources first kept : List Text} {f : Text}

/-- For each leader one source of its group is kept, in the order of the leaders. -/
def KeepsEach (sources first kept : List Text) : Prop :=
  List.Forall₂ (fun leader f => Keeps (groupOf sources leader) f) first kept

namespace KeepsEach

lemma map_targetParts (h : KeepsEach sources first kept) :
    kept.map targetParts = first.map targetParts := by
  induction h with
  | nil => rfl
  | cons hkeeps _ ih => rw [List.map_cons, List.map_cons, ih, (mem_groupOf.mp hkeeps.mem).2]

lemma exists_kept (h : KeepsEach sources first kept) {leader : Text} (hleader : leader ∈ first) :
    ∃ f ∈ kept, Keeps (groupOf sources leader) f := by
  induction h with
  | nil => exact absurd hleader List.not_mem_nil
  | cons hkeeps _ ih =>
    obtain rfl | hleader := List.mem_cons.mp hleader
    · exact ⟨_, List.mem_cons_self, hkeeps⟩
    · obtain ⟨f, hf, hlater⟩ := ih hleader
      exact ⟨f, List.mem_cons_of_mem _ hf, hlater⟩

lemma exists_leader (h : KeepsEach sources first kept) (hf : f ∈ kept) :
    ∃ leader ∈ first, Keeps (groupOf sources leader) f := by
  induction h with
  | nil => exact absurd hf List.not_mem_nil
  | cons hkeeps _ ih =>
    obtain rfl | hf := List.mem_cons.mp hf
    · exact ⟨_, List.mem_cons_self, hkeeps⟩
    · obtain ⟨leader, hleader, hlater⟩ := ih hf
      exact ⟨leader, List.mem_cons_of_mem _ hleader, hlater⟩

lemma nodup_targets (h : KeepsEach sources (leaders sources) kept) :
    (kept.map targetParts).Nodup := by
  rw [h.map_targetParts]
  exact Swiftward.nodup_targets sources

/-- Every source is kept or dropped, as often as it was selected. -/
lemma perm (h : KeepsEach sources (leaders sources) kept) :
    (kept ++ sources.filter (· ∉ kept)).Perm sources := by
  rw [List.perm_iff_count]
  intro f
  rw [List.count_append]
  by_cases hf : f ∈ kept
  · obtain ⟨leader, -, hkeeps⟩ := h.exists_leader hf
    have htarget : targetParts f = targetParts leader := (mem_groupOf.mp hkeeps.mem).2
    have honce : sources.count f = 1 := by
      rw [← hkeeps.count_eq, groupOf, List.count_filter (by simpa using htarget)]
    have hdropped : f ∉ sources.filter (· ∉ kept) := by simp [hf]
    rw [List.count_eq_one_of_mem h.nodup_targets.of_map hf, List.count_eq_zero.mpr hdropped, honce]
  · rw [List.count_eq_zero.mpr hf, List.count_filter (by simpa using hf), Nat.zero_add]

/-- Only headers are dropped, for a source that is none. -/
lemma of_not_mem (h : KeepsEach sources (leaders sources) kept) (hf : f ∈ sources)
    (hdropped : f ∉ kept) :
    isHeader f = true ∧ ∃ g ∈ kept, isHeader g = false ∧ targetParts g = targetParts f := by
  obtain ⟨leader, hleader, htarget⟩ := Swiftward.exists_leader hf
  obtain ⟨g, hg, hkeeps⟩ := h.exists_kept hleader
  have hne : f ≠ g := fun heq => hdropped (heq ▸ hg)
  obtain ⟨hheader, hsource⟩ := hkeeps.of_ne (mem_groupOf.mpr ⟨hf, htarget.symm⟩) hne
  exact ⟨hheader, g, hg, hsource, (mem_groupOf.mp hkeeps.mem).2.trans htarget⟩

end KeepsEach

lemma resolveTargets_eq (sources : List Text) :
    resolveTargets sources =
      ((leaders sources).map (TargetGroup.ledBy sources)).mapM TargetGroup.keep := by
  rw [← TargetGroup.ofSources_eq]
  rfl

lemma resolveTargets_eq_ok_iff :
    resolveTargets sources = .ok kept ↔ KeepsEach sources (leaders sources) kept := by
  rw [resolveTargets_eq, Except.mapM_eq_ok_iff, List.forall₂_map_left_iff]
  simp only [TargetGroup.keep_eq_ok_iff]
  rfl

/-- Telling targets apart adds no source. -/
theorem mem_of_resolveTargets (h : resolveTargets sources = .ok kept) (hf : f ∈ kept) :
    f ∈ sources := by
  obtain ⟨leader, -, hkeeps⟩ := (resolveTargets_eq_ok_iff.mp h).exists_leader hf
  exact (mem_groupOf.mp hkeeps.mem).1

end Kept

/-- Sources are resolved to the one source that each group goes on with, in the order in which the
groups come, if every group has one; so all of them have targets of their own, and only headers are
dropped, each for a source with the same target. Otherwise the first group that has no such source
is refused, with those of its sources that clash. -/
theorem resolveTargets_of_groups (sources : List Text) :
    ((∃ kept, resolveTargets sources = .ok kept) ↔
        ∀ leader ∈ leaders sources, ∃ f, Keeps (groupOf sources leader) f) ∧
      (∀ kept, resolveTargets sources = .ok kept →
        List.Forall₂ (fun leader f => Keeps (groupOf sources leader) f) (leaders sources) kept ∧
          kept.map targetParts = (leaders sources).map targetParts ∧
          (kept.map targetParts).Nodup ∧
          ∃ dropped, (kept ++ dropped).Perm sources ∧ ∀ f ∈ dropped, isHeader f = true ∧
            ∃ g ∈ kept, isHeader g = false ∧ targetParts g = targetParts f) ∧
      ∀ clash, resolveTargets sources = .error clash ↔
        ∃ front leader back, leaders sources = front ++ leader :: back ∧
          (∀ earlier ∈ front, ∃ f, Keeps (groupOf sources earlier) f) ∧
          (¬∃ f, Keeps (groupOf sources leader) f) ∧
          clash = ⟨swiftPath leader, contenders (groupOf sources leader)⟩ := by
  refine ⟨⟨?_, ?_⟩, ?_, ?_⟩
  · rintro ⟨kept, hkept⟩ leader hleader
    obtain ⟨f, -, hkeeps⟩ := (resolveTargets_eq_ok_iff.mp hkept).exists_kept hleader
    exact ⟨f, hkeeps⟩
  · intro h
    cases hresult : resolveTargets sources with
    | ok kept => exact ⟨kept, rfl⟩
    | error clash =>
      rw [resolveTargets_eq, Except.mapM_eq_error_iff] at hresult
      obtain ⟨front, group, back, hgroups, -, hclash⟩ := hresult
      have hgroup : group ∈ (leaders sources).map (TargetGroup.ledBy sources) := by simp [hgroups]
      obtain ⟨leader, hleader, rfl⟩ := List.mem_map.mp hgroup
      exact absurd (h leader hleader) (TargetGroup.keep_eq_error_iff.mp hclash).1
  · intro kept hkept
    have hkeeps := resolveTargets_eq_ok_iff.mp hkept
    refine ⟨hkeeps, hkeeps.map_targetParts, hkeeps.nodup_targets, _, hkeeps.perm, ?_⟩
    intro f hf
    obtain ⟨hf, hdropped⟩ := List.mem_filter.mp hf
    exact hkeeps.of_not_mem hf (of_decide_eq_true hdropped)
  · intro clash
    rw [resolveTargets_eq, Except.mapM_eq_error_iff]
    simp only [TargetGroup.keep_eq_ok_iff, TargetGroup.keep_eq_error_iff]
    constructor
    · rintro ⟨front, group, back, hgroups, hfront, hnone, rfl⟩
      obtain ⟨first, more, hleaders, rfl, hmore⟩ := List.map_eq_append_iff.mp hgroups
      obtain ⟨leader, later, rfl, rfl, -⟩ := List.map_eq_cons_iff.mp hmore
      refine ⟨first, leader, later, hleaders, ?_, hnone, rfl⟩
      intro earlier hearlier
      exact hfront _ (List.mem_map_of_mem hearlier)
    · rintro ⟨front, leader, back, hleaders, hfront, hnone, rfl⟩
      refine ⟨front.map (TargetGroup.ledBy sources), TargetGroup.ledBy sources leader,
        back.map (TargetGroup.ledBy sources), by rw [hleaders, List.map_append, List.map_cons],
        ?_, hnone, rfl⟩
      intro group hgroup
      obtain ⟨earlier, hearlier, rfl⟩ := List.mem_map.mp hgroup
      exact hfront earlier hearlier

/-- A header that is selected twice, its implementation under another spelling of the directory, and
a header without one. -/
def headedSources : List Text :=
  ["a//W.h".toList, "V.h".toList, "a/W.m".toList, "a/./W.h".toList]

theorem resolveTargets_of_groups_headed :
    (resolveTargets headedSources = .ok ["a/W.m".toList, "V.h".toList] ∧
      ["a/W.m".toList, "V.h".toList].map targetParts = (leaders headedSources).map targetParts) ∧
      resolveTargets (headedSources ++ ["V.h".toList, "a/W.mm".toList]) =
        .error ⟨"a//W.swift".toList, ["a/W.m".toList, "a/W.mm".toList]⟩ := by
  have hkept : resolveTargets headedSources = .ok ["a/W.m".toList, "V.h".toList] := by
    decide +kernel
  obtain ⟨-, hok, -⟩ := resolveTargets_of_groups headedSources
  obtain ⟨-, -, herror⟩ :=
    resolveTargets_of_groups (headedSources ++ ["V.h".toList, "a/W.mm".toList])
  have hclash : contenders
      (groupOf (headedSources ++ ["V.h".toList, "a/W.mm".toList]) "a//W.h".toList) =
        ["a/W.m".toList, "a/W.mm".toList] := by
    decide +kernel
  refine ⟨⟨hkept, (hok _ hkept).2.1⟩, (herror _).mpr
    ⟨[], "a//W.h".toList, ["V.h".toList], by decide +kernel, List.forall_mem_nil _, ?_, ?_⟩⟩
  · rintro ⟨f, hkeeps⟩
    rw [← contenders_eq_singleton_iff, hclash] at hkeeps
    exact absurd hkeeps (by simp)
  · rw [hclash]
    decide +kernel

end Swiftward
