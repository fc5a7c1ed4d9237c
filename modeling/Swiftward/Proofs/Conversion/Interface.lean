import Swiftward.Proofs.Conversion.Restart
import Swiftward.Proofs.Conversion.Stream

/-!
# Skipped interfaces

An interface is skipped from its header to its end, with the blank lines behind it. Whatever its
lines look like, none of them is read as anything but the end or not the end, and what follows is
converted as if it stood alone (`Converter.interface_leaves_no_trace`).
-/

namespace Swiftward

/-! ### Scans over lines that are read as they are -/

namespace LineSource

/-- A scan stops behind the next line, or goes on from there. -/
lemma readUntil_of_next? {s t : LineSource} {line : Text} (h : s.next? = some (line, t))
    (stop : Text → Bool) :
    s.readUntil stop =
      if stop line then ([], t)
      else ((t.lineNumber, line) :: (t.readUntil stop).1, (t.readUntil stop).2) := by
  rw [readUntil]
  split
  · next hnone => simp [hnone] at h
  · next line' t' h' =>
    rw [h, Option.some.injEq, Prod.mk.injEq] at h'
    obtain ⟨rfl, rfl⟩ := h'
    rfl

lemma readUntil_of_none {s : LineSource} (h : s.next? = none) (stop : Text → Bool) :
    s.readUntil stop = ([], s) := by
  rw [readUntil]
  split
  · rfl
  · next hnext => simp [h] at hnext

namespace Faces

variable {width consumed : Nat} {line : Text} {body blanks rest : List Text} {s : LineSource}
  {p stop : Text → Bool}

lemma readUntil_of_stops (h : s.Faces width consumed (line :: rest))
    (hstop : stop (trimEnd line) = true) :
    (s.readUntil stop).2.Faces width (consumed + 1) rest := by
  obtain ⟨t, hnext, ht⟩ := h.next?
  rwa [readUntil_of_next? hnext, if_pos hstop]

/-- A scan for the last line reads over all lines before it. -/
lemma exists_readUntil (h : s.Faces width consumed (body ++ rest))
    (hbody : ∀ line ∈ body, stop (trimEnd line) = false) :
    ∃ t : LineSource, t.Faces width (consumed + body.length) rest ∧
      (s.readUntil stop).2 = (t.readUntil stop).2 := by
  induction body generalizing s consumed with
  | nil => exact ⟨s, h, rfl⟩
  | cons line body ih =>
    rw [List.forall_mem_cons] at hbody
    obtain ⟨t, hnext, ht⟩ := h.next?
    obtain ⟨u, hu, hread⟩ := ih ht hbody.2
    refine ⟨u, ?_, ?_⟩
    · rwa [List.length_cons, Nat.add_comm body.length, ← Nat.add_assoc]
    · rw [readUntil_of_next? hnext, if_neg (by simp [hbody.1]), hread]

lemma readUntil_of_nil (h : s.Faces width consumed []) :
    (s.readUntil stop).2.Faces width consumed [] := by
  rwa [readUntil_of_none (h.stands.next?_eq_none.mpr rfl)]

/-- Lines that pass the test are skipped up to the first that fails. -/
lemma skipWhile (h : s.Faces width consumed (blanks ++ rest))
    (hblanks : ∀ blank ∈ blanks, p (trimEnd blank) = true)
    (hrest : ∀ line ∈ rest.head?, p (trimEnd line) = false) :
    (s.skipWhile p).Faces width (consumed + blanks.length) rest := by
  induction blanks generalizing s consumed with
  | nil =>
    have hskip : (s.skipIf p).1 = false ∧ (s.skipIf p).2.Faces width consumed rest := by
      cases rest with
      | nil => exact h.skipIf_of_nil p
      | cons line rest => exact h.skipIf (hrest line rfl)
    rw [LineSource.skipWhile, dif_neg (by simp [hskip.1])]
    exact hskip.2
  | cons blank blanks ih =>
    rw [List.forall_mem_cons] at hblanks
    obtain ⟨hpass, hbehind⟩ := h.skipIf_of_passes hblanks.1
    rw [LineSource.skipWhile, dif_pos hpass, List.length_cons, Nat.add_comm blanks.length,
      ← Nat.add_assoc]
    exact ih hbehind hblanks.2

end Faces

end LineSource

/-! ### The lines of an interface -/

/-- What is read as the header of an interface is nothing else. -/
lemma InterfaceHeader.ofCode {code : Text} {header : InterfaceHeader}
    (h : InterfaceHeader.parse? code = some header) : Construct.ofCode code = .interface header := by
  obtain ⟨behind, hlead, -⟩ := Option.bind_eq_some_iff.mp h
  obtain rfl := after?_eq_some_iff.mp hlead
  have himport : Import.parse? ("@interface".toList ++ behind) = none := rfl
  have himplementation : ImplementationHeader.parse? ("@interface".toList ++ behind) = none := rfl
  rw [Construct.ofCode, himport, himplementation, h]

lemma InterfaceHeader.isConstruct {line : Text} {header : InterfaceHeader}
    (h : InterfaceHeader.parse? (splitComment line).1 = some header) :
    IsConstruct line (.interface header) (splitComment line).2 := by
  refine ⟨?_, InterfaceHeader.ofCode h, rfl⟩
  intro hnil
  rw [hnil] at h
  cases h

section Interface

variable {width n : Nat} {header last : Text} {body blanks rest : List Text} {s : LineSource}

/-- Behind its header an interface ends with a line for its end and the blank lines behind it. -/
lemma faces_skipInterface (h : s.Faces width 1 (body ++ last :: (blanks ++ rest)))
    (hbody : ∀ line ∈ body, isBlockEnd (trimEnd line) = false)
    (hlast : isBlockEnd (trimEnd last) = true) (hblanks : ∀ blank ∈ blanks, trimEnd blank = [])
    (hrest : ∀ line ∈ rest.head?, trimEnd line ≠ []) :
    (skipInterface s).source.Faces width (header :: (body ++ last :: blanks)).length rest := by
  obtain ⟨t, ht, hread⟩ := h.exists_readUntil hbody
  have hbehind := ht.readUntil_of_stops hlast
  rw [← hread] at hbehind
  have hskip : (skipInterface s).source.Faces width (1 + body.length + 1 + blanks.length) rest := by
    refine hbehind.skipWhile ?_ ?_
    · intro blank hblank
      rw [hblanks blank hblank, List.isEmpty_nil]
    · intro line hline
      rw [List.isEmpty_eq_false_iff]
      exact hrest line hline
  have hlength : (header :: (body ++ last :: blanks)).length =
      1 + body.length + 1 + blanks.length := by
    simp only [List.length_cons, List.length_append]
    omega
  rwa [hlength]

/-- An interface that does not end takes all lines. -/
lemma faces_skipInterface_of_not (h : s.Faces width 1 body)
    (hbody : ∀ line ∈ body, isBlockEnd (trimEnd line) = false) :
    (skipInterface s).source.Faces width (1 + body.length) [] := by
  rw [← List.append_nil body] at h
  obtain ⟨t, ht, hread⟩ := h.exists_readUntil hbody
  have hbehind : (s.readUntil isBlockEnd).2.Faces width (1 + body.length) ([] ++ []) := by
    rw [hread]
    exact ht.readUntil_of_nil
  exact hbehind.skipWhile nofun nofun

/-- The units of a text that begins with an interface are nothing, and those of what is behind the
interface. -/
lemma convertUnits_interface {lines : List Text}
    (hheader : (InterfaceHeader.parse? (splitComment (trimEnd header)).1).isSome)
    (hbehind : ∀ s : LineSource, s.Faces width 1 lines →
      (skipInterface s).source.Faces width n rest) :
    convertUnits (.ofLines width (header :: lines)) =
      [] :: (convertUnits (.ofLines width rest)).map (List.map (·.shift n)) := by
  obtain ⟨interface, hheader⟩ := Option.isSome_iff_exists.mp hheader
  have hstart : (LineSource.ofLines width (header :: lines)).Faces width 0 (header :: lines) :=
    .behind _ _
  obtain ⟨s, hnext, hs⟩ := hstart.next?
  have hunit : Converts (.unit (trimEnd header)) s [] (skipInterface s).source :=
    .alone (.interface (InterfaceHeader.isConstruct hheader))
  rw [convertUnits_of_converts hnext hunit, convertUnits_shift (hbehind s hs).alikeNext]

end Interface

lemma Step.ofLines_shift (n : Nat) (lines : List OutputLine) :
    ofLines (lines.map (·.shift n)) = (ofLines lines).shift n := by
  cases lines <;> rfl

namespace Converter

/-- A skipped interface leaves no trace. Whatever the lines between its header and its end, they are
dropped in one step with the blank lines behind it, and the lines that follow are converted as they
are on their own, only that they carry the numbers of the lines they stand at. Without an end there
is no output. -/
theorem interface_leaves_no_trace (width : Nat) {header : Text} {body : List Text}
    (hheader : (InterfaceHeader.parse? (splitComment (trimEnd header)).1).isSome)
    (hbody : ∀ line ∈ body, isBlockEnd (trimEnd line) = false) :
    (∀ (last : Text) (blanks rest : List Text), isBlockEnd (trimEnd last) = true →
        (∀ blank ∈ blanks, trimEnd blank = []) → (∀ line ∈ rest.head?, trimEnd line ≠ []) →
        let skipped := header :: (body ++ last :: blanks)
        convertLines width (skipped ++ rest) =
            (convertLines width rest).map (·.shift skipped.length) ∧
          (ofLines width (skipped ++ rest)).step.1 = .nothing ∧
          ∀ k, ((ofLines width (skipped ++ rest)).after (k + 1)).step.1 =
            (((ofLines width rest).after k).step.1).shift skipped.length) ∧
      convertLines width (header :: body) = [] := by
  constructor
  · intro last blanks rest hlast hblanks hrest skipped
    have happend : skipped ++ rest = header :: (body ++ last :: (blanks ++ rest)) := by
      simp [skipped]
    have hunits : convertUnits (ofLines width (skipped ++ rest)).source =
        [] :: (convertUnits (ofLines width rest).source).map (List.map (·.shift skipped.length)) := by
      rw [happend]
      exact convertUnits_interface hheader fun s hs =>
        faces_skipInterface hs hbody hlast hblanks hrest
    refine ⟨?_, ?_, ?_⟩
    · show (convertUnits (ofLines width (skipped ++ rest)).source).flatten = _
      rw [hunits, List.flatten_cons, List.nil_append, ← List.map_flatten]
      rfl
    · rw [(convertUnits_of_step _).1, hunits]
      rfl
    · intro k
      rw [step_after_eq, step_after_eq, hunits, List.getElem?_cons_succ, List.getElem?_map]
      cases (convertUnits (ofLines width rest).source)[k]? with
      | none => rfl
      | some unit => exact Step.ofLines_shift _ unit
  · have hunits : convertUnits (.ofLines width (header :: body)) =
        [] :: (convertUnits (.ofLines width [])).map (List.map (·.shift (1 + body.length))) :=
      convertUnits_interface hheader fun s hs => faces_skipInterface_of_not hs hbody
    have hnil : convertUnits (.ofLines width []) = [] := by
      rw [convertUnits_eq_nil_iff, convertNext]
      rfl
    rw [convertLines, hunits, hnil]
    rfl

/-- Lines of an interface, most of which look like something else. -/
def misleadingBody : List Text :=
  ["@interface Bar".toList, "- (id)init \x7b".toList, "    if (self) \x7b".toList,
    "#import <UIKit/UIKit.h>".toList, "\x7d  // @end".toList, "    @end".toList, "@ending;".toList]

theorem interface_leaves_no_trace_misleading :
    convertLines 4 (("@interface Foo : NSObject // @end".toList ::
        (misleadingBody ++ "@end // Foo".toList :: ["  ".toList, []])) ++
          ["@implementation Foo".toList, "@end".toList]) =
        [⟨12, "class Foo \x7b".toList⟩, ⟨13, "\x7d".toList⟩] ∧
      convertLines 4 ("@interface Foo : NSObject // @end".toList :: misleadingBody) = [] := by
  have hheader : (InterfaceHeader.parse?
      (splitComment (trimEnd "@interface Foo : NSObject // @end".toList)).1).isSome := by
    decide +kernel
  have hbody : ∀ line ∈ misleadingBody, isBlockEnd (trimEnd line) = false := by decide +kernel
  obtain ⟨hskipped, hnone⟩ := interface_leaves_no_trace 4 hheader hbody
  refine ⟨?_, hnone⟩
  rw [(hskipped "@end // Foo".toList ["  ".toList, []] ["@implementation Foo".toList, "@end".toList]
    (by decide +kernel) (by decide +kernel) (by decide +kernel)).1]
  decide +kernel

end Converter

end Swiftward
