import FeatureFlags.Proofs.Reference.Attempt

/-!
# Resolving without one evaluator

With one evaluator taken away, a session goes the same way as before up to the first marker that
asks for it, and there it ends (`resolve_erase`). So a resolution that never remembers the evaluator
has no need of it, and one that does cannot do without.
-/

namespace FeatureFlags

variable {ε δ α β : Type} {evaluators : Members} {missing : String}

/-- A step without the evaluator is the same as one with it, which then does not remember it, or it
ends at an error that blames the evaluator. -/
def Attempt.Without (missing : String) (blames : ε → Prop) (r r' : Attempt ε α) : Prop :=
  (r' = r ∧ ¬ r.2.Remembers missing) ∨ ∃ e, r'.1 = .error e ∧ blames e

/-- The error says that the evaluator is missing. -/
def ReferenceError.Misses (missing : String) (e : ReferenceError) : Prop :=
  ∃ p, e = .unresolved missing p

namespace Attempt.Without

variable {blames : ε → Prop} {blames' : δ → Prop} {r r' : Attempt ε α}

theorem refl (fresh : ¬ r.2.Remembers missing) : Without missing blames r r := .inl ⟨rfl, fresh⟩

theorem andThen {next next' : α → Session → Attempt ε β} (first : Without missing blames r r')
    (rest : ∀ a s, ¬ s.Remembers missing → Without missing blames (next a s) (next' a s)) :
    Without missing blames (r.andThen next) (r'.andThen next') := by
  rcases first with ⟨rfl, fresh⟩ | ⟨e, refused, blamed⟩
  · obtain ⟨e | a, s⟩ := r'
    · exact .refl fresh
    · exact rest a s fresh
  · obtain ⟨_, s⟩ := r'
    obtain rfl := refused
    exact .inr ⟨e, rfl, blamed⟩

theorem mapError {f : ε → δ} (h : Without missing blames r r')
    (same : ∀ e, blames e → blames' (f e)) :
    Without missing blames' (r.mapError f) (r'.mapError f) := by
  rcases h with ⟨rfl, fresh⟩ | ⟨e, refused, blamed⟩
  · exact .refl fresh
  · refine .inr ⟨f e, ?_, same e blamed⟩
    rw [Attempt.mapError, refused]
    rfl

theorem count {r r' : Attempt ReferenceError Json}
    (h : Without missing (ReferenceError.Misses missing) r r') :
    Without missing (ReferenceError.Misses missing) (Session.countMarker r)
      (Session.countMarker r') := by
  rw [Session.countMarker_eq, Session.countMarker_eq]
  exact h.andThen fun _ _ fresh => .refl fresh

end Attempt.Without

open Attempt

theorem serve_without {handler handler' : Handler Session}
    (step : ∀ name p s, ¬ s.Remembers missing →
      Without missing (ReferenceError.Misses missing) (handler name p s) (handler' name p s))
    (xs : List Site) {s : Session} (h : ¬ s.Remembers missing) :
    Without missing (ReferenceError.Misses missing) (serve handler xs s).attempt
      (serve handler' xs s).attempt := by
  induction xs generalizing s with
  | nil => exact .refl h
  | cons site more ih =>
    have first : Without missing (ReferenceError.Misses missing) (site.answer handler s)
        (site.answer handler' s) := by
      unfold Site.answer
      cases site.name? with
      | error fault => exact .refl h
      | ok name => exact step name site.path s h
    rw [attempt_serve_cons, attempt_serve_cons]
    exact first.andThen fun _ _ fresh => (ih fresh).andThen fun _ _ fresh' => .refl fresh'

theorem walk_without {handler handler' : Handler Session}
    (step : ∀ name p s, ¬ s.Remembers missing →
      Without missing (ReferenceError.Misses missing) (handler name p s) (handler' name p s))
    (v : Json) (p : Pointer) {s : Session} (h : ¬ s.Remembers missing) :
    Without missing (ReferenceError.Misses missing) (v.walk handler p s).attempt
      (v.walk handler' p s).attempt := by
  rw [attempt_walk, attempt_walk]
  exact (serve_without step (v.sites p) h).andThen fun _ _ fresh => .refl fresh

namespace Resolver

theorem fragment_erase (stack : List String) (name : String) (p : Pointer) {s : Session}
    (h : ¬ s.Remembers missing) :
    Without missing (ReferenceError.Misses missing) (fragment evaluators stack name p s)
      (fragment (evaluators.erase missing) stack name p s) := by
  induction hn : free evaluators stack using Nat.strongRecOn generalizing stack name p s with
  | ind n ih =>
    rw [fragment_eq_attempt, fragment_eq_attempt, Members.get?_erase]
    cases hf : s.fragment? name with
    | some f =>
      obtain ⟨s', same, e | e⟩ := s.reuse_cases f name p
      all_goals
        refine .refl ?_
        dsimp only
        rwa [e, Session.remembers_congr same]
    | none =>
      dsimp only
      by_cases asked : name = missing
      · subst asked
        exact .inr ⟨.unresolved name p, by simp, p, rfl⟩
      · rw [if_neg asked]
        cases known : evaluators.get? name with
        | none => exact .refl h
        | some raw =>
          dsimp only
          by_cases on_stack : name ∈ stack
          · rw [if_pos on_stack, if_pos on_stack]
            exact .refl h
          · rw [if_neg on_stack, if_neg on_stack]
            -- inside the evaluator one more name is on the stack
            have fewer := free_cons_lt known on_stack
            refine (walk_without (fun inner q _ h' =>
              (ih _ (hn ▸ fewer) (name :: stack) inner q h' rfl).count) raw _ h).andThen ?_
            intro v after fresh
            refine .refl ?_
            rcases s.store_cases after v name p with ⟨s', f, grown, -, e⟩ | ⟨s', same, e⟩
            · rw [e, Session.remembers_append grown]
              rintro (there | rfl)
              · exact fresh there
              · exact asked rfl
            · rwa [e, Session.remembers_congr same]

end Resolver

/-- Without an evaluator that is not remembered, a resolution is the same and leaves it unknown, or
ends because it is missing. -/
theorem Session.resolve_erase (v : Json) (p : Pointer) {s : Session} (h : ¬ s.Remembers missing) :
    Without missing (ReferenceError.Misses missing) (s.resolve evaluators v p).attempt
      (s.resolve (evaluators.erase missing) v p).attempt :=
  walk_without (fun name p _ h => (Resolver.fragment_erase [] name p h).count) v p h

end FeatureFlags
