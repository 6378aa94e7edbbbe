import FeatureFlags.Proofs.Reference.Memory
import FeatureFlags.Proofs.Reference.Refinement

/-!
# What a fault points at

A resolution that ends with a fault has met a marker in the value, or in an evaluator in its reach,
and the fault has the pointer to it (`Session.resolve_blames`). The pointer is the one at which the
marker stands in the document, also when it is met while copies are made: an evaluator is always
walked at its own place.
-/

namespace FeatureFlags

/-- The pointer leads to the part in the value, which stands at `p`, or in an evaluator in its
reach. -/
def Members.Locates (evaluators : Members) (v : Json) (p q : Pointer) (u : Json) : Prop :=
  v.Leads p q u ∨ ∃ via raw, evaluators.Reaches v via ∧ evaluators.get? via = some raw ∧
    raw.Leads (evaluatorPointer via) q u

/-- The fault points at what it complains about, in the value or in an evaluator in its reach. A
cycle has no pointer of its own, but there is an evaluator in it. -/
def ReferenceError.BlamedOn (evaluators : Members) (v : Json) (p : Pointer) : ReferenceError → Prop
  | .malformed q fault => ∃ ms : Members, evaluators.Locates v p q (.obj ms) ∧ ms.isMarker = true ∧
      ms.markerName? = .error fault
  | .unresolved name q => evaluators.Locates v p q (.marker name) ∧ evaluators.get? name = none
  | .circular _ => ∃ name raw, evaluators.get? name = some raw
  | .tooLarge name _ q => evaluators.Locates v p q (.marker name)

variable {evaluators : Members} {v u raw : Json} {p p' q : Pointer} {name : String}
  {e : ReferenceError}

namespace ReferenceError

theorem BlamedOn.mono (wider : ∀ q u, evaluators.Locates v p q u → evaluators.Locates raw p' q u)
    (h : e.BlamedOn evaluators v p) : e.BlamedOn evaluators raw p' := by
  cases e with
  | malformed => exact h.imp fun _ there => ⟨wider _ _ there.1, there.2⟩
  | unresolved => exact ⟨wider _ _ h.1, h.2⟩
  | circular => exact h
  | tooLarge => exact wider _ _ h

/-- A fault in an evaluator is one at a marker of it. -/
theorem BlamedOn.through (known : evaluators.get? name = some raw)
    (h : e.BlamedOn evaluators raw (evaluatorPointer name)) :
    e.BlamedOn evaluators (.marker name) p := by
  have reach : evaluators.Reaches (.marker name) name := .mentioned (.self _)
  refine h.mono ?_
  rintro q u (leads | ⟨via, inner, hr, hk, leads⟩)
  · exact .inr ⟨name, raw, reach, known, leads⟩
  · exact .inr ⟨via, inner, reach.trans known hr, hk, leads⟩

end ReferenceError

/-! ## Walks -/

theorem exists_answer_of_serve {σ : Type} {handler : Handler σ} {xs : List Site} {s : σ}
    (h : (serve handler xs s).error? = some e) :
    ∃ site ∈ xs, ∃ s', (site.answer handler s').1 = .error e := by
  induction xs generalizing s with
  | nil => cases h
  | cons site more ih =>
    simp only [serve] at h
    cases answered : site.answer handler s with
    | mk answer s' =>
      cases answer with
      | error e' =>
        rw [answered] at h
        cases h
        exact ⟨site, List.mem_cons_self, s, by rw [answered]⟩
      | ok w =>
        rw [answered] at h
        obtain ⟨other, hs, later⟩ := ih h
        exact ⟨other, List.mem_cons_of_mem _ hs, later⟩

/-- A walk ends with a fault at a malformed marker in the value, or with one that its handler finds
at a marker there. -/
theorem Json.walk_error {σ : Type} {handler : Handler σ} {s : σ}
    (h : (v.walk handler p s).error? = some e) :
    (∃ (q : Pointer) (ms : Members) (fault : MarkerFault), v.Leads p q (.obj ms) ∧
        ms.isMarker = true ∧ ms.markerName? = .error fault ∧ e = .malformed q fault) ∨
      ∃ name q s', v.Leads p q (.marker name) ∧ (handler name q s').1 = .error e := by
  rw [walk_eq_serve] at h
  obtain ⟨site, hs, s', answered⟩ := exists_answer_of_serve h
  unfold Site.answer at answered
  cases hn : site.name? with
  | error fault =>
    rw [hn] at answered
    cases answered
    obtain ⟨ms, leads, marker, hm⟩ := mem_sites hs
    exact .inl ⟨site.path, ms, fault, leads, marker, hm ▸ hn, rfl⟩
  | ok name =>
    rw [hn] at answered
    exact .inr ⟨name, site.path, s', leads_of_mem_sites hs hn, answered⟩

/-- A walk ends with a fault that points into the value, if its handler blames the markers. -/
theorem Json.walk_blames {σ : Type} {handler : Handler σ} {s : σ}
    (step : ∀ name q s e, (handler name q s).1 = .error e → e.BlamedOn evaluators (.marker name) q)
    (h : (v.walk handler p s).error? = some e) : e.BlamedOn evaluators v p := by
  rcases walk_error h with
    ⟨q, ms, fault, leads, marker, hm, rfl⟩ | ⟨name, q, s', leads, answered⟩
  · exact ⟨ms, .inl leads, marker, hm⟩
  · refine (step name q s' e answered).mono ?_
    rintro q u (inner | ⟨via, raw, hr, hk, inner⟩)
    · exact .inl (leads.trans inner)
    · exact .inr ⟨via, raw, hr.of_inside leads.inside, hk, inner⟩

/-! ## Resolutions -/

namespace Resolver

theorem fragment_blames {stack : List String} {s : Session}
    (h : (fragment evaluators stack name p s).1 = .error e) :
    e.BlamedOn evaluators (.marker name) p := by
  revert h
  refine fragment_induct (motive := fun _ name p _ r => ∀ e, r.1 = .error e →
    e.BlamedOn evaluators (.marker name) p) ?_ ?_ ?_ ?_ stack name p s e
  · intro stack name p s f _ e h
    obtain ⟨s', -, done | stopped⟩ := s.reuse_cases f name p
    · rw [done] at h
      cases h
    · rw [stopped] at h
      cases h
      exact .inl (.self _ _)
  · intro stack name p s _ unknown e h
    cases h
    exact ⟨.inl (.self _ _), unknown⟩
  · intro stack name p s raw _ known _ e h
    cases h
    exact ⟨name, raw, known⟩
  · intro stack name p s raw _ known _ ih e h
    cases hw : raw.walk (marker evaluators (name :: stack)) (evaluatorPointer name) s with
    | mk v error? after =>
      rw [hw] at h
      cases error? with
      | some e' =>
        cases h
        refine .through known (Json.walk_blames (fun inner q s' e answered => ?_)
          (congrArg Walked.error? hw))
        rw [marker, Session.countMarker_fst] at answered
        exact ih inner q s' e answered
      | none =>
        dsimp only at h
        rcases s.store_cases after v name p with ⟨s', f, -, -, stored⟩ | ⟨s', -, stopped⟩
        · rw [stored] at h
          cases h
        · rw [stopped] at h
          cases h
          exact .inl (.self _ _)

end Resolver

/-- A fault that ends a resolution points at a marker in the value or in its reach. -/
theorem Session.resolve_blames {s : Session}
    (h : (s.resolve evaluators v p).error? = some e) : e.BlamedOn evaluators v p := by
  refine Json.walk_blames (fun name q s' e answered => ?_) h
  rw [Resolver.marker, countMarker_fst] at answered
  exact Resolver.fragment_blames answered

end FeatureFlags
