import FeatureFlags.Proofs.Reference.Attempt

/-!
# The moments of a resolution

`Resolver.fragmentMoments` lists every state that the resolution of a marker goes through, in order:
after each addition to a counter, when an evaluator comes on the stack and when it leaves it, and
when it is remembered. `Run` says that none is left out: each moment is the one before it but for a
single such change, from the state that a resolution starts in to the one it ends in (`fragment_run`,
`resolve_run`).
-/

namespace FeatureFlags

/-- The state of a resolution: the evaluators being resolved, innermost first, and the session. -/
structure Moment where
  stack : List String
  session : Session

/-- One change of the state, or none. -/
inductive Tick (evaluators : Members) : Moment → Moment → Prop
  | idle (m : Moment) : Tick evaluators m m
  | charge (stack : List String) (s : Session) (nodes : Nat) : Tick evaluators ⟨stack, s⟩
      ⟨stack, { s with expandedNodes := s.expandedNodes + nodes }⟩
  | count (stack : List String) (s : Session) (markers : Nat) : Tick evaluators ⟨stack, s⟩
      ⟨stack, { s with substitutions := s.substitutions + markers }⟩
  | remember (stack : List String) (s : Session) (name : String) (f : Fragment) :
      Tick evaluators ⟨stack, s⟩ ⟨stack, { s with resolved := s.resolved ++ [(name, f)] }⟩
  | push {stack : List String} {name : String} {raw : Json} (s : Session)
      (known : evaluators.get? name = some raw) (new : name ∉ stack) :
      Tick evaluators ⟨stack, s⟩ ⟨name :: stack, s⟩
  | pop (stack : List String) (s : Session) (name : String) :
      Tick evaluators ⟨name :: stack, s⟩ ⟨stack, s⟩

/-- Moments after a first one, each a tick after the one before, up to a last one. -/
inductive Run (evaluators : Members) : Moment → List Moment → Moment → Prop
  | refl (m : Moment) : Run evaluators m [] m
  | tick {m m₁ m₂ : Moment} {ms : List Moment} :
      Tick evaluators m m₁ → Run evaluators m₁ ms m₂ → Run evaluators m (m₁ :: ms) m₂

namespace Run

variable {evaluators : Members} {m m₁ m₂ : Moment} {ms ns : List Moment}

theorem single (h : Tick evaluators m m₁) : Run evaluators m [m₁] m₁ := .tick h (.refl m₁)

theorem append (first : Run evaluators m ms m₁) (second : Run evaluators m₁ ns m₂) :
    Run evaluators m (ms ++ ns) m₂ := by
  induction first with
  | refl => exact second
  | tick h _ ih => exact .tick h (ih second)

end Run

/-- The moments of serving some markers, up to the first fault. -/
def serveMoments (handler : Handler Session) (moments : String → Pointer → Session → List Moment) :
    List Site → Session → List Moment
  | [], _ => []
  | site :: more, s =>
    match site.name? with
    | .error _ => []
    | .ok name =>
      moments name site.path s ++
        match handler name site.path s with
        | (.ok _, s) => serveMoments handler moments more s
        | (.error _, _) => []

namespace Resolver

/-- The moments of `fragment`. -/
def fragmentMoments (evaluators : Members) (stack : List String) (name : String) (path : Pointer)
    (s : Session) : List Moment :=
  match s.fragment? name with
  | some f => [⟨stack, (s.charge f.nodes name path).2⟩, ⟨stack, (s.reuse f name path).2⟩]
  | none =>
    match _known : evaluators.get? name with
    | none => []
    | some raw =>
      if _new : name ∈ stack then []
      else
        let inside := serveMoments (marker evaluators (name :: stack))
          (fun inner at' s' => fragmentMoments evaluators (name :: stack) inner at' s' ++
            [⟨name :: stack, (marker evaluators (name :: stack) inner at' s').2⟩])
          (raw.sites (evaluatorPointer name)) s
        let last := match raw.walk (marker evaluators (name :: stack)) (evaluatorPointer name) s with
          | ⟨_, some _, after⟩ => [⟨stack, after⟩]
          | ⟨value, none, after⟩ =>
            [⟨stack, after⟩, ⟨stack, (after.charge value.nodes name path).2⟩,
              ⟨stack, (s.store after value name path).2⟩]
        ⟨name :: stack, s⟩ :: (inside ++ last)
termination_by free evaluators stack
decreasing_by exact free_cons_lt (by assumption) (by assumption)

/-- The moments of `marker`. -/
def markerMoments (evaluators : Members) (stack : List String) (name : String) (path : Pointer)
    (s : Session) : List Moment :=
  fragmentMoments evaluators stack name path s ++ [⟨stack, (marker evaluators stack name path s).2⟩]

theorem fragmentMoments_eq (evaluators : Members) (stack : List String) (name : String)
    (p : Pointer) (s : Session) : fragmentMoments evaluators stack name p s =
      match s.fragment? name with
      | some f => [⟨stack, (s.charge f.nodes name p).2⟩, ⟨stack, (s.reuse f name p).2⟩]
      | none =>
        match evaluators.get? name with
        | none => []
        | some raw =>
          if name ∈ stack then []
          else
            ⟨name :: stack, s⟩ ::
              (serveMoments (marker evaluators (name :: stack)) (markerMoments evaluators (name :: stack))
                (raw.sites (evaluatorPointer name)) s ++
              match raw.walk (marker evaluators (name :: stack)) (evaluatorPointer name) s with
              | ⟨_, some _, after⟩ => [⟨stack, after⟩]
              | ⟨v, none, after⟩ => [⟨stack, after⟩, ⟨stack, (after.charge v.nodes name p).2⟩,
                  ⟨stack, (s.store after v name p).2⟩]) := by
  rw [fragmentMoments]
  cases s.fragment? name with
  | some f => rfl
  | none =>
    dsimp only
    split
    next unknown => rw [unknown]
    next raw known => rw [known]; rfl

end Resolver

/-- The moments of a resolution. -/
def Session.moments (evaluators : Members) (s : Session) (v : Json) (p : Pointer) : List Moment :=
  serveMoments (Resolver.marker evaluators []) (Resolver.markerMoments evaluators []) (v.sites p) s

namespace Session

/-- Resolves one value after another, up to the first fault; the values behind it stay as they are. -/
def resolveAll (evaluators : Members) :
    List (Json × Pointer) → Session → Walked Session (List Json)
  | [], s => ⟨[], none, s⟩
  | (v, p) :: more, s =>
    match s.resolve evaluators v p with
    | ⟨w, some e, s⟩ => ⟨w :: more.map (·.1), some e, s⟩
    | ⟨w, none, s⟩ => (resolveAll evaluators more s).map (w :: ·)

/-- The moments of `resolveAll`. -/
def allMoments (evaluators : Members) : List (Json × Pointer) → Session → List Moment
  | [], _ => []
  | (v, p) :: more, s =>
    s.moments evaluators v p ++
      match s.resolve evaluators v p with
      | ⟨_, some _, _⟩ => []
      | ⟨_, none, s⟩ => allMoments evaluators more s

end Session

/-! ## No change is left out -/

section

variable {evaluators : Members} {stack : List String} {name : String} {p : Pointer} {s : Session}

theorem Session.charge_tick (s : Session) (nodes : Nat) :
    Tick evaluators ⟨stack, s⟩ ⟨stack, (s.charge nodes name p).2⟩ := by
  unfold charge
  dsimp only
  split
  · exact .charge stack s nodes
  · exact .charge stack s nodes

theorem Session.reuse_tick (s : Session) (f : Fragment) :
    Tick evaluators ⟨stack, (s.charge f.nodes name p).2⟩ ⟨stack, (s.reuse f name p).2⟩ := by
  rw [reuse_eq]
  obtain ⟨e | a, s₁⟩ := s.charge f.nodes name p
  · exact .idle _
  · exact .count stack s₁ f.markers

theorem Session.store_tick (before s : Session) (v : Json) :
    Tick evaluators ⟨stack, (s.charge v.nodes name p).2⟩ ⟨stack, (before.store s v name p).2⟩ := by
  rw [store_eq]
  obtain ⟨e | a, s₁⟩ := s.charge v.nodes name p
  · exact .idle _
  · exact .remember stack s₁ name _

theorem Session.countMarker_tick (r : Attempt ReferenceError Json) :
    Tick evaluators ⟨stack, r.2⟩ ⟨stack, (countMarker r).2⟩ := by
  rw [countMarker_eq]
  obtain ⟨e | v, s₁⟩ := r
  · exact .idle _
  · exact .count stack s₁ 1

theorem serve_run {handler : Handler Session} {moments : String → Pointer → Session → List Moment}
    (step : ∀ name p s, Run evaluators ⟨stack, s⟩ (moments name p s) ⟨stack, (handler name p s).2⟩)
    (xs : List Site) (s : Session) :
    Run evaluators ⟨stack, s⟩ (serveMoments handler moments xs s)
      ⟨stack, (serve handler xs s).state⟩ := by
  induction xs generalizing s with
  | nil => exact .refl _
  | cons site more ih =>
    simp only [serveMoments, serve, Site.answer]
    cases hn : site.name? with
    | error fault => exact .refl _
    | ok name =>
      have first := step name site.path s
      dsimp only
      cases hr : handler name site.path s with
      | mk answer s₁ =>
        rw [hr] at first
        cases answer with
        | error e =>
          rw [List.append_nil]
          exact first
        | ok v => exact first.append (ih s₁)

namespace Resolver

theorem fragment_run (stack : List String) (name : String) (p : Pointer) (s : Session) :
    Run evaluators ⟨stack, s⟩ (fragmentMoments evaluators stack name p s)
      ⟨stack, (fragment evaluators stack name p s).2⟩ := by
  refine fragment_induct (motive := fun stack name p s r => Run evaluators ⟨stack, s⟩
    (fragmentMoments evaluators stack name p s) ⟨stack, r.2⟩) ?_ ?_ ?_ ?_ stack name p s
  · intro stack name p s f hf
    simp only [fragmentMoments_eq, hf]
    exact .tick (s.charge_tick f.nodes) (.single (s.reuse_tick f))
  · intro stack name p s hf known
    simp only [fragmentMoments_eq, hf, known]
    exact .refl _
  · intro stack name p s raw hf known on_stack
    simp only [fragmentMoments_eq, hf, known, if_pos on_stack]
    exact .refl _
  · intro stack name p s raw hf known new ih
    simp only [fragmentMoments_eq, hf, known, if_neg new]
    have inside := serve_run (fun inner q s' => (ih inner q s').append
      (.single (Session.countMarker_tick _))) (raw.sites (evaluatorPointer name)) s
    refine .tick (.push s known new) (inside.append ?_)
    rw [Json.walk_eq_serve]
    change Run evaluators ⟨name :: stack,
      (serve (marker evaluators (name :: stack)) (raw.sites (evaluatorPointer name)) s).state⟩ _ _
    obtain ⟨vs, _ | e, after⟩ :=
      serve (marker evaluators (name :: stack)) (raw.sites (evaluatorPointer name)) s
    · exact .tick (.pop stack after name)
        (.tick (after.charge_tick _) (.single (s.store_tick after _)))
    · exact .single (.pop stack after name)

theorem marker_run (stack : List String) (name : String) (p : Pointer) (s : Session) :
    Run evaluators ⟨stack, s⟩ (markerMoments evaluators stack name p s)
      ⟨stack, (marker evaluators stack name p s).2⟩ :=
  (fragment_run stack name p s).append (.single (Session.countMarker_tick _))

end Resolver

theorem Session.resolve_run (s : Session) (v : Json) (p : Pointer) :
    Run evaluators ⟨[], s⟩ (s.moments evaluators v p) ⟨[], (s.resolve evaluators v p).state⟩ := by
  rw [resolve, Json.walk_eq_serve]
  exact serve_run (Resolver.marker_run []) (v.sites p) s

theorem Session.resolveAll_run (values : List (Json × Pointer)) (s : Session) :
    Run evaluators ⟨[], s⟩ (allMoments evaluators values s)
      ⟨[], (resolveAll evaluators values s).state⟩ := by
  induction values generalizing s with
  | nil => exact .refl _
  | cons value more ih =>
    have first := @resolve_run evaluators s value.1 value.2
    simp only [allMoments, resolveAll]
    cases hw : s.resolve evaluators value.1 value.2 with
    | mk w error? s₁ =>
      rw [hw] at first
      cases error? with
      | some e =>
        rw [List.append_nil]
        exact first
      | none => exact first.append (ih s₁)

end

end FeatureFlags
