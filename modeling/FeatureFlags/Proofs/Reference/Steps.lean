import FeatureFlags.Proofs.Reference.Refinement
import Mathlib.Computability.StateTransition

/-!
# Resolution step by step

`Resolution.step` replaces one marker, enters an evaluator or leaves one. It does not recurse, and
nothing bounds how often it is taken: where an evaluator is entered, the walk at hand is kept in a
frame, and the name is pushed onto `inProgress`, from which it is popped again when the evaluator is
left, after a fault too. Whatever marker comes next, some steps later the walk is delivered what
`Resolver.fragment` answers (`fragment_steps`). So the steps from any value come to an end, and to
what `Session.resolve` comes to (`resolve_steps`).
-/

namespace FeatureFlags

/-- A value whose markers are being replaced: those to come, and what the others were replaced by. -/
structure Walk where
  value : Json
  todo : List Site
  copies : List Json

namespace Walk

def start (v : Json) (path : Pointer) : Walk := ⟨v, v.sites path, []⟩

/-- What has become of the value. -/
def result (w : Walk) : Json := w.value.fill w.copies

end Walk

/-- An evaluator that is being resolved for a marker at a pointer, the session before that, and the
walk that waits for it. -/
structure Frame where
  name : String
  path : Pointer
  before : Session
  outer : Walk

/-- The state of a resolution: next to the session, the evaluators being resolved, innermost first,
and all those that were entered so far. -/
structure Resolution where
  session : Session
  inProgress : List String
  entered : List String
  walk : Walk
  frames : List Frame
  fault? : Option ReferenceError

namespace Resolution

def start (s : Session) (inProgress : List String) (v : Json) (path : Pointer) : Resolution :=
  ⟨s, inProgress, [], .start v path, [], none⟩

/-- Gives the walk what its marker is replaced by, or stops. -/
def deliver (r : Resolution) (answer : Except ReferenceError Json × Session) : Resolution :=
  match Session.countMarker answer with
  | (.ok v, s) => { r with session := s, walk := { r.walk with copies := r.walk.copies ++ [v] } }
  | (.error e, s) => { r with session := s, fault? := some e }

/-- Starts on an evaluator, for a marker of the walk. -/
def enter (r : Resolution) (name : String) (raw : Json) (path : Pointer) : Resolution :=
  { r with
    inProgress := name :: r.inProgress
    entered := r.entered ++ [name]
    walk := .start raw (evaluatorPointer name)
    frames := ⟨name, path, r.session, r.walk⟩ :: r.frames }

/-- Goes back to the walk that waits for the evaluator. -/
def leave (r : Resolution) (frame : Frame) (rest : List Frame) : Resolution :=
  { r with inProgress := r.inProgress.tail, walk := frame.outer, frames := rest }

/-- Takes up a marker. -/
def take (evaluators : Members) (r : Resolution) (site : Site) : Resolution :=
  match site.name? with
  | .error fault => r.deliver (.error (.malformed site.path fault), r.session)
  | .ok name =>
    match r.session.fragment? name with
    | some f => r.deliver (r.session.reuse f name site.path)
    | none =>
      match evaluators.get? name with
      | none => r.deliver (.error (.unresolved name site.path), r.session)
      | some raw =>
        if name ∈ r.inProgress then
          r.deliver (.error (.circular (name :: r.inProgress).reverse), r.session)
        else r.enter name raw site.path

/-- The next state, unless all is done. -/
def step (evaluators : Members) (r : Resolution) : Option Resolution :=
  match r.fault?, r.walk.todo, r.frames with
  | none, site :: more, _ =>
    some (take evaluators { r with walk := { r.walk with todo := more } } site)
  | none, [], frame :: rest =>
    some ((r.leave frame rest).deliver
      (frame.before.store r.session r.walk.result frame.name frame.path))
  | some _, _, frame :: rest => some (r.leave frame rest)
  | _, _, [] => none

/-- Any number of steps. -/
abbrev Steps (evaluators : Members) : Resolution → Resolution → Prop :=
  Relation.ReflTransGen fun r r' => step evaluators r = some r'

/-- What has become of the value of a walk that is the outermost one. -/
def outcome (r : Resolution) : Walked Session Json :=
  ⟨r.walk.result, r.fault?, r.session⟩

variable {evaluators : Members} {r r' final : Resolution} {stack : List String}

theorem Steps.eq_of_halted (halted : step evaluators r = none) (h : Steps evaluators r r') :
    r' = r := by
  rcases h.cases_head with same | ⟨_, next, -⟩
  · exact same.symm
  · simp [halted] at next

/-- Every state has one next state at most, so the steps from each on the way lead to the last. -/
theorem Steps.to_final (h : Steps evaluators r r') (run : Steps evaluators r final)
    (halted : step evaluators final = none) : Steps evaluators r' final := by
  rcases StateTransition.reaches_total h run with on | back
  · exact on
  · rw [Steps.eq_of_halted halted back]

theorem step_marker {site : Site} {more : List Site} (fine : r.fault? = none)
    (todo : r.walk.todo = site :: more) : step evaluators r =
      some (take evaluators { r with walk := { r.walk with todo := more } } site) := by
  simp [step, fine, todo]

/-! ## From one marker to a value -/

/-- The steps from a marker lead to where its answer is delivered. -/
def Asks (evaluators : Members) (stack : List String) (name : String) (path : Pointer)
    (s : Session) (answer : Except ReferenceError Json × Session) : Prop :=
  ∀ (r : Resolution) (more : List Site), r.fault? = none → r.inProgress = stack → r.session = s →
    r.walk.todo = ⟨path, .ok name⟩ :: more →
    ∃ log, Steps evaluators r
      (deliver { r with entered := log, walk := { r.walk with todo := more } } answer)

/-- The state once markers of the walk were served, whatever came of them. -/
def served (r : Resolution) (log : List String) (rest : List Site)
    (w : Walked Session (List Json)) : Resolution :=
  { r with
    session := w.state
    entered := log
    walk := ⟨r.walk.value, rest, r.walk.copies ++ w.value⟩
    fault? := w.error? }

/-- The steps from a walk lead to where its markers are served. -/
theorem serve_steps (asks : ∀ name path s, Asks evaluators stack name path s
      (Resolver.fragment evaluators stack name path s))
    (xs : List Site) (r : Resolution) (fine : r.fault? = none) (on : r.inProgress = stack)
    (todo : r.walk.todo = xs) :
    ∃ log rest, ((serve (Resolver.marker evaluators stack) xs r.session).error? = none → rest = []) ∧
      Steps evaluators r
        (r.served log rest (serve (Resolver.marker evaluators stack) xs r.session)) := by
  induction xs generalizing r with
  | nil =>
    have same : r.served r.entered [] (serve (Resolver.marker evaluators stack) [] r.session) = r := by
      simp only [served, serve, List.append_nil, ← todo, ← fine]
    refine ⟨r.entered, [], fun _ => rfl, ?_⟩
    rw [same]
  | cons site more ih =>
    obtain ⟨path, name?⟩ := site
    cases name? with
    | error fault =>
      exact ⟨r.entered, more, by simp [serve, Site.answer], .single (by
        simp [step_marker fine todo, take, deliver, Session.countMarker, served, serve, Site.answer])⟩
    | ok name =>
      obtain ⟨log, asked⟩ := asks name path r.session r more fine on rfl todo
      simp only [serve, Site.answer, Resolver.marker]
      cases answered : Resolver.fragment evaluators stack name path r.session with
      | mk answer s =>
        rw [answered] at asked
        cases answer with
        | error e =>
          refine ⟨log, more, by simp [Session.countMarker], ?_⟩
          simpa [deliver, Session.countMarker, served] using asked
        | ok v =>
          let next :=
            deliver { r with entered := log, walk := { r.walk with todo := more } } (.ok v, s)
          obtain ⟨log', rest, emptied, run⟩ := ih next fine on rfl
          refine ⟨log', rest, emptied, asked.trans ?_⟩
          simpa [served, next, deliver, Session.countMarker, Walked.map] using run

/-- The steps from a marker lead to where its answer is delivered. -/
theorem fragment_steps (stack : List String) (name : String) (path : Pointer) (s : Session) :
    Asks evaluators stack name path s (Resolver.fragment evaluators stack name path s) := by
  refine Resolver.fragment_induct (motive := fun stack name path s answer =>
    Asks evaluators stack name path s answer) ?_ ?_ ?_ ?_ stack name path s
  · intro stack name path s f hf r more fine on same todo
    subst on same
    exact ⟨r.entered, .single (by simp [step_marker fine todo, take, hf])⟩
  · intro stack name path s hf known r more fine on same todo
    subst on same
    exact ⟨r.entered, .single (by simp [step_marker fine todo, take, hf, known])⟩
  · intro stack name path s raw hf known on_stack r more fine on same todo
    subst on same
    exact ⟨r.entered, .single (by simp [step_marker fine todo, take, hf, known, on_stack])⟩
  · intro stack name path s raw hf known new ih r more fine on same todo
    subst on same
    let entered := enter { r with walk := { r.walk with todo := more } } name raw path
    have first : Steps evaluators r entered :=
      .single (by simp [step_marker fine todo, take, hf, known, new, entered])
    have ran := serve_steps ih (raw.sites (evaluatorPointer name)) entered fine rfl rfl
    rw [show entered.session = r.session from rfl] at ran
    rw [Json.walk_eq_serve]
    generalize serve (Resolver.marker evaluators (name :: r.inProgress))
      (raw.sites (evaluatorPointer name)) r.session = w at ran ⊢
    obtain ⟨log, rest, emptied, run⟩ := ran
    refine ⟨log, first.trans (run.trans (.single ?_))⟩
    -- the evaluator is left, whether a fault was met in it or not
    obtain ⟨vs, _ | e, after⟩ := w
    · obtain rfl := emptied rfl
      simp only [step, entered, served, enter, leave, fine, Walked.map, Walk.start, Walk.result,
        List.nil_append, List.tail_cons]
      obtain ⟨e | v, kept⟩ := r.session.store after (raw.fill vs) name path <;> rfl
    · rfl

/-- The steps from a value end in what resolving it comes to, with no evaluator in progress. -/
theorem resolve_steps (evaluators : Members) (s : Session) (v : Json) (path : Pointer) :
    ∃ final, Steps evaluators (start s [] v path) final ∧ step evaluators final = none ∧
      final.inProgress = [] ∧ final.outcome = s.resolve evaluators v path := by
  obtain ⟨log, rest, emptied, run⟩ := serve_steps (fragment_steps []) (v.sites path)
    (start s [] v path) rfl rfl rfl
  refine ⟨_, run, ?_, rfl, ?_⟩
  · change ((serve _ _ s).error? = none → rest = []) at emptied
    change step evaluators ((start s [] v path).served log rest (serve _ _ s)) = none
    generalize serve (Resolver.marker evaluators []) (v.sites path) s = w at emptied ⊢
    obtain ⟨vs, _ | e, after⟩ := w
    · obtain rfl := emptied rfl
      rfl
    · rfl
  · rw [Session.resolve, Json.walk_eq_serve]
    rfl

end Resolution

end FeatureFlags
