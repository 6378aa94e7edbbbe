import FeatureFlags.Proofs.Reference.Refinement

/-!
# When resolution succeeds

Short of the limit, a resolution on a fresh session succeeds if the value is resolvable: no cycle
of any length is missed, and sharing an evaluator makes none up. Evaluators out of reach of the
value take no part in it (`resolve_congr`).
-/

namespace FeatureFlags

section

variable {σ : Type} {handler handler' : Handler σ}

theorem serve_congr {xs : List Site} {s : σ}
    (agree : ∀ site ∈ xs, ∀ name, site.name? = .ok name →
      ∀ s, handler name site.path s = handler' name site.path s) :
    serve handler xs s = serve handler' xs s := by
  induction xs generalizing s with
  | nil => rfl
  | cons site more ih =>
    have first : site.answer handler s = site.answer handler' s := by
      unfold Site.answer
      cases hn : site.name? with
      | error fault => rfl
      | ok name => exact agree site List.mem_cons_self name hn s
    simp only [serve, first]
    obtain ⟨e | v, s'⟩ := site.answer handler' s
    · rfl
    · simp only [ih fun x hx => agree x (List.mem_cons_of_mem _ hx)]

/-- A walk only asks its handler about names that the value mentions. -/
theorem Json.walk_congr {v : Json} {p : Pointer} {s : σ}
    (agree : ∀ name, v.Mentions name → ∀ q s, handler name q s = handler' name q s) :
    v.walk handler p s = v.walk handler' p s := by
  rw [walk_eq_serve, walk_eq_serve, serve_congr]
  intro site hs name hn
  exact agree name (mentions_of_mem_sites hs hn) site.path

end

namespace Resolver

variable {evaluators evaluators' : Members} {v : Json}

theorem fragment_congr
    (agree : ∀ name, evaluators.Reaches v name → evaluators'.get? name = evaluators.get? name)
    {stack : List String} {name : String} (reached : evaluators.Reaches v name) (p : Pointer)
    (s : Session) : fragment evaluators' stack name p s = fragment evaluators stack name p s := by
  induction hn : free evaluators stack using Nat.strongRecOn generalizing stack name p s with
  | ind n ih =>
    rw [fragment_eq, fragment_eq, agree name reached]
    cases known : evaluators.get? name with
    | none => rfl
    | some raw =>
      by_cases on_stack : name ∈ stack
      · simp only [if_pos on_stack]
      · -- what the evaluator mentions is in reach of the value too
        have same : raw.walk (marker evaluators' (name :: stack)) (evaluatorPointer name) s =
            raw.walk (marker evaluators (name :: stack)) (evaluatorPointer name) s := by
          apply Json.walk_congr
          intro inner m q s'
          apply congrArg Session.countMarker
          have fewer := free_cons_lt known on_stack
          exact ih _ (hn ▸ fewer) (.through reached known m) q s' rfl
        simp only [if_neg on_stack, same]

end Resolver

namespace Session

/-- Evaluators that a value does not reach have no effect on it. -/
theorem resolve_congr {evaluators evaluators' : Members} {v : Json}
    (agree : ∀ name, evaluators.Reaches v name → evaluators'.get? name = evaluators.get? name)
    (s : Session) (p : Pointer) : s.resolve evaluators' v p = s.resolve evaluators v p := by
  apply Json.walk_congr
  intro name m q s
  apply congrArg Session.countMarker
  exact Resolver.fragment_congr agree (.mentioned m) q s

/-- A resolution on a fresh session that does not end at the limit succeeds exactly if the value is
resolvable. Whatever evaluators are out of its reach, it comes to the same. -/
theorem resolve_done_iff_resolvable (evaluators : Members) (limit : Nat) (v : Json) (p : Pointer)
    (within : ∀ e ∈ (resolve evaluators { limit } v p).error?, e.isLimit = false) :
    ((resolve evaluators { limit } v p).error? = none ↔ evaluators.Resolvable v) ∧
      ∀ evaluators' : Members,
        (∀ name, evaluators.Reaches v name → evaluators'.get? name = evaluators.get? name) →
        resolve evaluators' { limit } v p = resolve evaluators { limit } v p := by
  refine ⟨?_, fun evaluators' agree => resolve_congr agree { limit } p⟩
  have same := (Resolver.resolve_mirrors v p (faithful_fresh limit)).result within
  have plainly := @Resolver.expand_done_iff_resolvable evaluators [] v p
  rw [← same] at plainly
  rw [plainly]
  simp

/-- An evaluator that uses another twice, beside one that refers to itself. -/
def diamondEvaluators : Members :=
  [("a", .arr [Json.marker "b", Json.marker "b"]), ("b", .null), ("c", Json.marker "c")]

theorem diamond_resolvable :
    (∀ e ∈ (resolve diamondEvaluators { limit := 9 } (Json.marker "a") "").error?,
      e.isLimit = false) ∧
    (resolve diamondEvaluators { limit := 9 } (Json.marker "a") "").error? = none ∧
    Members.Resolvable diamondEvaluators (Json.marker "a") := by
  have done : (resolve diamondEvaluators { limit := 9 } (Json.marker "a") "").error? = none := by
    decide +kernel
  have within : ∀ e ∈ (resolve diamondEvaluators { limit := 9 } (Json.marker "a") "").error?,
      e.isLimit = false := by
    simp [done]
  exact ⟨within, done, (resolve_done_iff_resolvable diamondEvaluators 9 _ "" within).1.1 done⟩

end Session

end FeatureFlags
