import Swiftward.Proofs.Conversion.Stream

/-!
# Delivery of units

A converter can be asked for whole units and for single lines, in any order. Either request pulls
the next units from the source: a unit that is asked for whole is handed out at once, and the lines
of a unit that is pulled for the sake of a line wait until they are asked for. Nothing is lost or
handed out twice, and the units that are pulled are those that steps alone would hand out, in their
order (`Converter.answers_deliver`).
-/

namespace Swiftward

/-- What a converter is asked for: the next unit as a whole, or the next line. -/
inductive Request where
  | unit
  | line
  deriving DecidableEq, Repr

/-- What a converter hands out. -/
inductive Answer where
  | unit (step : Step)
  | line (next : Option OutputLine)
  deriving DecidableEq, Repr

namespace Answer

/-- The unit that is handed out as a whole. -/
def unit? : Answer → Option Step
  | unit .exhausted => none
  | unit step => some step
  | line _ => none

/-- The line that is handed out on its own. -/
def line? : Answer → Option OutputLine
  | unit _ => none
  | line next => next

@[simp] lemma line?_unit (step : Step) : (unit step).line? = none := rfl

@[simp] lemma unit?_ofLines (lines : List OutputLine) :
    (unit (.ofLines lines)).unit? = some (.ofLines lines) := by
  cases lines <;> rfl

end Answer

lemma Step.ofLines_ne_exhausted (lines : List OutputLine) : Step.ofLines lines ≠ .exhausted := by
  cases lines <;> nofun

namespace Converter

/-- The answer to a request, and the converter behind it. -/
def answer (c : Converter) : Request → Answer × Converter
  | .unit => (.unit c.step.1, c.step.2)
  | .line => (.line c.next.1, c.next.2)

/-- The answers to requests in their order. -/
def answers (c : Converter) : List Request → List Answer
  | [] => []
  | request :: requests => (c.answer request).1 :: (c.answer request).2.answers requests

/-- The converter behind all of the requests. -/
def afterRequests (c : Converter) (requests : List Request) : Converter :=
  requests.foldl (fun c request => (c.answer request).2) c

@[simp] lemma afterRequests_nil (c : Converter) : c.afterRequests [] = c := rfl

@[simp] lemma afterRequests_cons (c : Converter) (request : Request) (requests : List Request) :
    c.afterRequests (request :: requests) = (c.answer request).2.afterRequests requests := rfl

/-! ### Units that are pulled -/

/-- The units that are ahead of the first source and no longer ahead of the second. -/
def unitsBetween (s t : LineSource) : List (List OutputLine) :=
  (convertUnits s).take ((convertUnits s).length - (convertUnits t).length)

lemma unitsBetween_eq {s t : LineSource} {units : List (List OutputLine)}
    (h : convertUnits s = units ++ convertUnits t) : unitsBetween s t = units := by
  have hlength : (convertUnits s).length - (convertUnits t).length = units.length := by
    rw [h, List.length_append, Nat.add_sub_cancel]
  rw [unitsBetween, hlength, h, List.take_left]

/-- The units that are pulled in the course of the requests, each with the request that pulled
it. -/
def pulled (c : Converter) : List Request → List (Request × List OutputLine)
  | [] => []
  | request :: requests =>
    (unitsBetween c.source (c.answer request).2.source).map (request, ·) ++
      (c.answer request).2.pulled requests

/-- The units that are pulled by requests of one kind. -/
def pulledBy (c : Converter) (kind : Request) (requests : List Request) :
    List (List OutputLine) :=
  ((c.pulled requests).filter (·.1 = kind)).map (·.2)

/-- The first converter has pulled the given units when it has become the second. -/
structure Pulls (c : Converter) (units : List (List OutputLine)) (c' : Converter) : Prop where
  convertUnits_eq : convertUnits c.source = units ++ convertUnits c'.source
  source_eq : c'.source = (c.after units.length).source

/-- What a step does to the source does not depend on the lines that wait. -/
lemma source_after_congr {c c' : Converter} (h : c.source = c'.source) (k : Nat) :
    (c.after k).source = (c'.after k).source := by
  induction k with
  | zero => exact h
  | succ k ih =>
    rw [after, after]
    generalize c.after k = d, c'.after k = d' at ih
    obtain ⟨source, ready⟩ := d
    obtain ⟨_, ready'⟩ := d'
    obtain rfl : source = _ := ih
    rw [step, step]
    dsimp only
    cases convertNext source with
    | none => rfl
    | some unit =>
      dsimp only
      cases unit.lines <;> rfl

namespace Pulls

variable {c c' c'' : Converter} {units more : List (List OutputLine)}

lemma nil (h : c'.source = c.source) : c.Pulls [] c' := ⟨by rw [h, List.nil_append], h⟩

lemma trans (h : c.Pulls units c') (h' : c'.Pulls more c'') : c.Pulls (units ++ more) c'' where
  convertUnits_eq := by rw [h.convertUnits_eq, h'.convertUnits_eq, List.append_assoc]
  source_eq := by
    rw [h'.source_eq, source_after_congr h.source_eq, List.length_append, after_add]

/-- One unit is pulled by a step. -/
lemma of_convertNext {unit : Conversion c.source.unread} (h : convertNext c.source = some unit)
    (ready : List OutputLine) : c.Pulls [unit.lines] ⟨unit.source, ready⟩ where
  convertUnits_eq := by
    rw [convertUnits, h]
    rfl
  source_eq := by
    rw [List.length_singleton, after, after, (step_of_some h).2.2]

end Pulls

/-- As many steps as there are units pulled hand out just these units. -/
lemma Pulls.map_ofLines_eq {c c' : Converter} {units : List (List OutputLine)}
    (h : c.Pulls units c') :
    units.map Step.ofLines = (List.range units.length).map fun i => (c.after i).step.1 := by
  apply List.ext_getElem
  · simp
  · intro i hi _
    rw [List.length_map] at hi
    rw [List.getElem_map, List.getElem_map, List.getElem_range, step_after_eq, h.convertUnits_eq,
      List.getElem?_append_left hi, List.getElem?_eq_getElem hi]
    rfl

/-! ### One request -/

/-- A request pulls the given units. A unit that is asked for is handed out whole; for a line, the
lines of the units join those that wait, and the first of all is handed out. -/
structure Delivers (c : Converter) (request : Request) (units : List (List OutputLine)) : Prop where
  pulls : c.Pulls units (c.answer request).2
  whole : (c.answer request).1.unit?.toList =
    if request = .unit then units.map Step.ofLines else []
  in_order : (c.answer request).1.line?.toList ++ (c.answer request).2.ready =
    c.ready ++ if request = .line then units.flatten else []
  no_unit : (c.answer request).1 = .unit .exhausted ∨ (c.answer request).1 = .line none →
    convertUnits (c.answer request).2.source = []
  no_line : (c.answer request).1 = .line none → (c.answer request).2.ready = []

/-- A step pulls one unit, if there is one. -/
lemma exists_delivers_unit (c : Converter) : ∃ units, c.Delivers .unit units := by
  cases hnext : convertNext c.source with
  | none =>
    have hanswer : c.answer .unit = (.unit .exhausted, c) := by rw [answer, step_of_none hnext]
    refine ⟨[], ?_, ?_, ?_, ?_, ?_⟩
    · exact .nil (by rw [hanswer])
    · rw [hanswer]
      rfl
    · simp [hanswer]
    · rw [hanswer]
      intro
      exact convertUnits_eq_nil_iff.mpr hnext
    · rw [hanswer]
      nofun
  | some unit =>
    have hanswer : c.answer .unit = (.unit (.ofLines unit.lines), ⟨unit.source, c.ready⟩) := by
      rw [answer, step_eq_ofLines hnext, (step_of_some hnext).2.2]
    refine ⟨[unit.lines], ?_, ?_, ?_, ?_, ?_⟩
    · rw [hanswer]
      exact .of_convertNext hnext c.ready
    · simp [hanswer]
    · simp [hanswer]
    · rw [hanswer]
      rintro (hend | hend)
      · exact absurd (Answer.unit.inj hend) (Step.ofLines_ne_exhausted _)
      · cases hend
    · rw [hanswer]
      nofun

/-- If no line waits, `next` pulls units up to the first that has lines. -/
lemma exists_delivers_line (c : Converter) : ∃ units, c.Delivers .line units := by
  have hnext : ∃ units, c.Pulls units c.next.2 ∧
      c.next.1.toList ++ c.next.2.ready = c.ready ++ units.flatten ∧
      (c.next.1 = none → convertUnits c.next.2.source = [] ∧ c.next.2.ready = []) := by
    fun_induction next c with
    | case1 c line ready hready =>
      refine ⟨[], .nil rfl, ?_, ?_⟩
      · rw [hready, List.flatten_nil, List.append_nil]
        rfl
      · intro hnone
        cases hnone
    | case2 c hready hnone =>
      refine ⟨[], .nil rfl, ?_, fun _ => ⟨convertUnits_eq_nil_iff.mpr hnone, hready⟩⟩
      rw [List.flatten_nil, List.append_nil]
      rfl
    | case3 c hready unit hunit hlt ih =>
      obtain ⟨units, hpulls, hlines, hend⟩ := ih
      refine ⟨unit.lines :: units, (Pulls.of_convertNext hunit unit.lines).trans hpulls, ?_, hend⟩
      rw [hready, List.nil_append, List.flatten_cons]
      exact hlines
  obtain ⟨units, hpulls, hlines, hend⟩ := hnext
  refine ⟨units, hpulls, rfl, ?_, ?_, ?_⟩
  · rw [if_pos rfl]
    exact hlines
  · rintro (hnone | hnone)
    · cases hnone
    · exact (hend (Answer.line.inj hnone)).1
  · intro hnone
    exact (hend (Answer.line.inj hnone)).2

lemma delivers (c : Converter) (request : Request) :
    c.Delivers request (unitsBetween c.source (c.answer request).2.source) := by
  have hunits : ∃ units, c.Delivers request units := by
    cases request with
    | unit => exact c.exists_delivers_unit
    | line => exact c.exists_delivers_line
  obtain ⟨units, h⟩ := hunits
  rwa [unitsBetween_eq h.pulls.convertUnits_eq]

/-! ### Requests in any order -/

section Requests

variable (c : Converter) (requests : List Request)

/-- The units that are pulled are the next ones of the source. -/
lemma pulls_afterRequests :
    c.Pulls ((c.pulled requests).map (·.2)) (c.afterRequests requests) := by
  induction requests generalizing c with
  | nil => exact .nil rfl
  | cons request requests ih =>
    rw [pulled, List.map_append, List.map_map]
    show c.Pulls (List.map id _ ++ _) _
    rw [List.map_id]
    exact (c.delivers request).pulls.trans (ih _)

lemma pulledBy_cons (kind request : Request) :
    c.pulledBy kind (request :: requests) =
      (if request = kind then unitsBetween c.source (c.answer request).2.source else []) ++
        (c.answer request).2.pulledBy kind requests := by
  rw [pulledBy, pulled, List.filter_append, List.map_append, ← pulledBy, List.filter_map]
  congr 1
  split_ifs with hkind
  · simp [hkind, Function.comp_def]
  · simp [hkind, Function.comp_def]

lemma filterMap_answers_cons {α : Type} (f : Answer → Option α) (request : Request) :
    (c.answers (request :: requests)).filterMap f =
      (f (c.answer request).1).toList ++ ((c.answer request).2.answers requests).filterMap f := by
  rw [answers, List.filterMap_eq_flatMap_toList, List.flatMap_cons,
    ← List.filterMap_eq_flatMap_toList]

/-- What is asked for as a whole is handed out as it was pulled. -/
lemma filterMap_unit?_answers :
    (c.answers requests).filterMap Answer.unit? = (c.pulledBy .unit requests).map Step.ofLines := by
  induction requests generalizing c with
  | nil => rfl
  | cons request requests ih =>
    rw [filterMap_answers_cons, (c.delivers request).whole, ih, pulledBy_cons, List.map_append]
    split_ifs <;> rfl

/-- The lines that are handed out on their own, and those that still wait, are the lines that waited
before and those of the units that were pulled for them. -/
lemma filterMap_line?_answers :
    (c.answers requests).filterMap Answer.line? ++ (c.afterRequests requests).ready =
      c.ready ++ (c.pulledBy .line requests).flatten := by
  induction requests generalizing c with
  | nil => simp [answers, pulledBy, pulled]
  | cons request requests ih =>
    rw [filterMap_answers_cons, List.append_assoc, afterRequests_cons, ih, ← List.append_assoc,
      (c.delivers request).in_order, pulledBy_cons, List.flatten_append, List.append_assoc]
    split_ifs <;> rfl

lemma convertUnits_afterRequests (h : convertUnits c.source = []) :
    convertUnits (c.afterRequests requests).source = [] ∧ c.pulledBy .line requests = [] := by
  have hunits := (c.pulls_afterRequests requests).convertUnits_eq
  rw [h, eq_comm, List.append_eq_nil_iff, List.map_eq_nil_iff] at hunits
  refine ⟨hunits.2, ?_⟩
  rw [pulledBy, hunits.1]
  rfl

/-- Once a request found no unit left, there is none any more. -/
lemma convertUnits_of_end
    (h : .unit .exhausted ∈ c.answers requests ∨ .line none ∈ c.answers requests) :
    convertUnits (c.afterRequests requests).source = [] := by
  induction requests generalizing c with
  | nil => simp [answers] at h
  | cons request requests ih =>
    rw [answers, List.mem_cons, List.mem_cons] at h
    by_cases hfirst : (c.answer request).1 = .unit .exhausted ∨ (c.answer request).1 = .line none
    · exact (convertUnits_afterRequests _ requests ((c.delivers request).no_unit hfirst)).1
    · exact ih _ (h.imp (·.resolve_left fun heq => hfirst (.inl heq.symm))
        (·.resolve_left fun heq => hfirst (.inr heq.symm)))

/-- Once a request found no line left, none waits any more. -/
lemma ready_of_end (h : .line none ∈ c.answers requests) :
    (c.afterRequests requests).ready = [] := by
  induction requests generalizing c with
  | nil => simp [answers] at h
  | cons request requests ih =>
    rw [answers, List.mem_cons] at h
    obtain hfirst | hlater := h
    · have hdelivers := c.delivers request
      have hnone := (convertUnits_afterRequests _ requests
        (hdelivers.no_unit (.inr hfirst.symm))).2
      have hlines := filterMap_line?_answers (c.answer request).2 requests
      rw [hdelivers.no_line hfirst.symm, hnone] at hlines
      exact (List.append_eq_nil_iff.mp hlines).2
    · exact ih _ hlater

end Requests

/-- However requests for units and for lines are mixed, the units that they pull, in the order in
which they are pulled, are what as many steps alone hand out, and the source goes on behind them.
The units asked for as a whole are handed out as they are. The lines handed out on their own and
those that still wait are the lines of the other units, in their order. If a request finds nothing,
all units are pulled, and if it was for a line, none waits. -/
theorem answers_deliver (width : Nat) (lines : List Text) (requests : List Request) :
    let c := ofLines width lines
    let pulled := c.pulled requests
    pulled.map (Step.ofLines ·.2) = (List.range pulled.length).map (fun i => (c.after i).step.1) ∧
      (c.afterRequests requests).source = (c.after pulled.length).source ∧
      (c.answers requests).filterMap Answer.unit? =
        (c.pulledBy .unit requests).map Step.ofLines ∧
      (c.answers requests).filterMap Answer.line? ++ (c.afterRequests requests).ready =
        (c.pulledBy .line requests).flatten ∧
      (.unit .exhausted ∈ c.answers requests ∨ .line none ∈ c.answers requests →
        (c.after pulled.length).step.1 = .exhausted) ∧
      (.line none ∈ c.answers requests → (c.afterRequests requests).ready = []) := by
  intro c pulled
  have hpulls := c.pulls_afterRequests requests
  have hsteps := hpulls.map_ofLines_eq
  have hsource := hpulls.source_eq
  rw [List.length_map] at hsteps hsource
  rw [List.map_map] at hsteps
  refine ⟨hsteps, hsource, c.filterMap_unit?_answers requests, c.filterMap_line?_answers requests,
    ?_, c.ready_of_end requests⟩
  intro hend
  have hnone := convertUnits_eq_nil_iff.mp (c.convertUnits_of_end requests hend)
  rw [hsource] at hnone
  rw [step_of_none hnone]

end Converter

end Swiftward
