import FeatureFlags.Proofs.Reference.Refinement

/-!
# Steps of a session

An `Attempt` is what a step of a session comes to, from one charge to a whole value; the session
goes on also after an error. Whatever a session does is steps one after the other, up to the first
error (`Attempt.andThen`), so what is to be said of every step is said of a charge and of
`Attempt.andThen`.
-/

namespace FeatureFlags

variable {ε δ α β : Type}

/-- What a step of a session comes to: an error or a result, and the session after it. -/
abbrev Attempt (ε α : Type) : Type := Except ε α × Session

namespace Attempt

/-- One step after the other, up to the first error. -/
def andThen (r : Attempt ε α) (next : α → Session → Attempt ε β) : Attempt ε β :=
  match r with
  | (.ok a, s) => next a s
  | (.error e, s) => (.error e, s)

/-- The same with another error. -/
def mapError (f : ε → δ) (r : Attempt ε α) : Attempt δ α := (r.1.mapError f, r.2)

theorem andThen_eq_ok {r : Attempt ε α} {next : α → Session → Attempt ε β} {b : β} :
    (r.andThen next).1 = .ok b ↔ ∃ a s, r = (.ok a, s) ∧ (next a s).1 = .ok b := by
  obtain ⟨e | a, s⟩ := r
  · simp [andThen]
  · constructor
    · intro h
      exact ⟨a, s, rfl, h⟩
    · rintro ⟨_, _, same, h⟩
      cases same
      exact h

end Attempt

/-- What a walk comes to, with nothing of the value after a fault. -/
def Walked.attempt (w : Walked Session α) : Attempt ReferenceError α :=
  (match w.error? with
    | some e => .error e
    | none => .ok w.value, w.state)

theorem Walked.attempt_of_done {w : Walked Session α} (done : w.error? = none) :
    w.attempt = (.ok w.value, w.state) := by
  rw [attempt, done]

theorem Walked.attempt_map (f : α → β) (w : Walked Session α) :
    (w.map f).attempt = w.attempt.andThen fun a s => (.ok (f a), s) := by
  obtain ⟨v, _ | e, s⟩ := w <;> rfl

variable {handler : Handler Session}

theorem attempt_serve_cons (site : Site) (more : List Site) (s : Session) :
    (serve handler (site :: more) s).attempt =
      Attempt.andThen (site.answer handler s) fun v s => (serve handler more s).attempt.andThen
        fun vs s => (.ok (v :: vs), s) := by
  simp only [serve]
  obtain ⟨e | v, s'⟩ := site.answer handler s
  · rfl
  · exact Walked.attempt_map _ _

theorem attempt_walk (v : Json) (p : Pointer) (s : Session) : (v.walk handler p s).attempt =
    (serve handler (v.sites p) s).attempt.andThen fun vs s => (.ok (v.fill vs), s) := by
  rw [Json.walk_eq_serve, Walked.attempt_map]

namespace Session

theorem reuse_eq (s : Session) (f : Fragment) (name : String) (p : Pointer) :
    s.reuse f name p = Attempt.andThen (s.charge f.nodes name p) fun _ s =>
      (.ok f.value, { s with substitutions := s.substitutions + f.markers }) := by
  unfold reuse
  obtain ⟨_ | _, _⟩ := charge s f.nodes name p <;> rfl

theorem store_eq (before s : Session) (v : Json) (name : String) (p : Pointer) :
    before.store s v name p = Attempt.andThen (s.charge v.nodes name p) fun _ s => (.ok v, { s with
      resolved := s.resolved ++
        [(name, ⟨v, v.nodes, s.substitutions - before.substitutions⟩)] }) := by
  unfold store
  obtain ⟨_ | _, _⟩ := charge s v.nodes name p <;> rfl

theorem countMarker_eq (r : Attempt ReferenceError Json) :
    countMarker r = r.andThen fun v s =>
      (.ok v, { s with substitutions := s.substitutions + 1 }) := by
  obtain ⟨_ | _, _⟩ := r <;> rfl

end Session

theorem Resolver.fragment_eq_attempt (evaluators : Members) (stack : List String) (name : String)
    (p : Pointer) (s : Session) : fragment evaluators stack name p s =
      match s.fragment? name with
      | some f => s.reuse f name p
      | none =>
        match evaluators.get? name with
        | none => (.error (.unresolved name p), s)
        | some raw =>
          if name ∈ stack then (.error (.circular (name :: stack).reverse), s)
          else (raw.walk (marker evaluators (name :: stack)) (evaluatorPointer name) s).attempt.andThen
            fun v after => s.store after v name p := by
  rw [fragment_eq]
  cases s.fragment? name with
  | some f => rfl
  | none =>
    cases evaluators.get? name with
    | none => rfl
    | some raw =>
      dsimp only
      split
      · rfl
      · obtain ⟨v, _ | e, after⟩ := raw.walk (marker evaluators (name :: stack))
          (evaluatorPointer name) s <;> rfl

end FeatureFlags
