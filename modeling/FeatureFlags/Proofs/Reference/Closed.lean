import FeatureFlags.Proofs.Reference.Expansion

/-!
# Values without markers

A value is closed if a walk stops nowhere in it; then there is nothing to replace, and nothing is
asked of any evaluator. What an expansion leaves in place is closed (`closed_of_expand_done`): the
copies are, by induction on the names that are not being expanded yet, and filling the holes of a
value with closed values leaves none (`closed_fill`).
-/

namespace FeatureFlags

namespace Json

/-- There are no markers in the value, well-formed or not. -/
def Closed (v : Json) : Prop := v.holes = 0

theorem Closed.sites_eq {v : Json} (h : v.Closed) (p : Pointer) : v.sites p = [] :=
  List.eq_nil_of_length_eq_zero ((length_sites v p).trans h)

theorem closed_of_sites {v : Json} {p : Pointer} (h : v.sites p = []) : v.Closed :=
  (length_sites v p).symm.trans (congrArg List.length h)

theorem isMarker_fillMembers (ms : Members) (vs : List Json) :
    Members.isMarker (fillMembers ms vs) = ms.isMarker := by
  induction ms generalizing vs with
  | nil => rfl
  | cons m more ih =>
    have rest := ih (vs.drop m.2.holes)
    simp only [Members.isMarker, Members.has] at rest
    simp only [Members.isMarker, Members.has, fillMembers, List.any_cons, rest]

mutual

theorem sites_fill : ∀ (v : Json) (vs : List Json) (p : Pointer), vs.length = (v.sites p).length →
    (∀ w ∈ vs, w.Closed) → (v.fill vs).sites p = []
  | .obj ms, vs, p, full, closed => by
    cases marker : Members.isMarker ms with
    | true =>
      simp only [sites, marker, if_true, List.length_singleton] at full
      obtain ⟨w, rfl⟩ := List.length_eq_one_iff.1 full
      simp only [fill, marker, if_true, List.headD_cons]
      exact (closed w (List.mem_singleton_self w)).sites_eq p
    | false =>
      simp only [sites, marker, Bool.false_eq_true, if_false] at full
      simp only [fill, sites, marker, isMarker_fillMembers, Bool.false_eq_true, if_false]
      exact sites_fillMembers ms vs p full closed
  | .arr items, vs, p, full, closed => by
    simp only [sites] at full
    simp only [fill, sites]
    exact sites_fillItems items vs p 0 full closed
  | .null, _, _, _, _ | .bool _, _, _, _, _ | .num _, _, _, _, _ | .str _, _, _, _, _ => by
    simp [fill, sites]

theorem sites_fillItems : ∀ (items : List Json) (vs : List Json) (p : Pointer) (i : Nat),
    vs.length = (sitesInItems items p i).length → (∀ w ∈ vs, w.Closed) →
      sitesInItems (fillItems items vs) p i = []
  | [], _, _, _, _, _ => by simp [fillItems, sitesInItems]
  | v :: more, vs, p, i, full, closed => by
    simp only [sitesInItems, List.length_append, length_sites] at full
    simp only [fillItems, sitesInItems, List.append_eq_nil_iff]
    constructor
    · refine sites_fill v _ _ ?_ fun w hw => closed w (List.mem_of_mem_take hw)
      rw [length_sites, List.length_take]
      omega
    · refine sites_fillItems more _ p _ ?_ fun w hw => closed w (List.mem_of_mem_drop hw)
      rw [List.length_drop]
      omega

theorem sites_fillMembers : ∀ (ms : List (String × Json)) (vs : List Json) (p : Pointer),
    vs.length = (sitesInMembers ms p).length → (∀ w ∈ vs, w.Closed) →
      sitesInMembers (fillMembers ms vs) p = []
  | [], _, _, _, _ => by simp [fillMembers, sitesInMembers]
  | (k, v) :: more, vs, p, full, closed => by
    simp only [sitesInMembers, List.length_append, length_sites] at full
    simp only [fillMembers, sitesInMembers, List.append_eq_nil_iff]
    constructor
    · refine sites_fill v _ _ ?_ fun w hw => closed w (List.mem_of_mem_take hw)
      rw [length_sites, List.length_take]
      omega
    · refine sites_fillMembers more _ p ?_ fun w hw => closed w (List.mem_of_mem_drop hw)
      rw [List.length_drop]
      omega

end

/-- Once its holes are filled with closed values, a value is closed. -/
theorem closed_fill {v : Json} {vs : List Json} (full : vs.length = v.holes)
    (closed : ∀ w ∈ vs, w.Closed) : (v.fill vs).Closed :=
  closed_of_sites (sites_fill v vs "" full closed)

/-- A walk of a closed value asks for nothing. -/
theorem Closed.walk_eq {σ : Type} {v : Json} (h : v.Closed) (handler : Handler σ) (p : Pointer)
    (s : σ) : v.walk handler p s = ⟨v, none, s⟩ := by
  rw [walk_eq_serve, h.sites_eq]
  simp [serve, Walked.map, fill_nil]

end Json

/-- What was served was an answer to one of the markers. -/
theorem mem_value_serve {handler : Handler Unit} {xs : List Site} {w : Json}
    (h : w ∈ (serve handler xs ()).value) : ∃ site ∈ xs, site.answer handler () = (.ok w, ()) := by
  induction xs with
  | nil => cases h
  | cons site more ih =>
    simp only [serve] at h
    cases hr : site.answer handler () with
    | mk answer s =>
      rw [hr] at h
      cases answer with
      | error e => cases h
      | ok v =>
        rcases List.mem_cons.1 h with rfl | h
        · exact ⟨site, List.mem_cons_self, hr⟩
        · obtain ⟨x, hx, answered⟩ := ih h
          exact ⟨x, List.mem_cons_of_mem _ hx, answered⟩

namespace Resolver

variable {evaluators : Members} {stack : List String} {v w : Json} {p : Pointer}

/-- What an expansion leaves in place is closed, unless a fault ends it. -/
theorem closed_of_expand_done (h : expand evaluators stack v p = ⟨w, none⟩) : w.Closed := by
  induction hn : free evaluators stack using Nat.strongRecOn generalizing stack v p w with
  | ind n ih =>
    have filled := @fill_serve_plain evaluators stack v p
    have done := @error_serve_plain evaluators stack v p
    rw [h] at filled done
    obtain rfl := filled
    refine Json.closed_fill ?_ ?_
    · rw [← Json.length_sites v p]
      exact length_serve (congrArg (Walked.mk _ · ()) done)
    · intro u hu
      obtain ⟨site, -, answered⟩ := mem_value_serve hu
      unfold Site.answer at answered
      cases hname : site.name? with
      | error fault => simp [hname] at answered
      | ok name =>
        simp only [hname, plain, Prod.mk.injEq, and_true] at answered
        obtain ⟨raw, known, new, hx⟩ := copy_eq_ok_iff.1 answered
        have fewer := free_cons_lt known new
        exact ih _ (hn ▸ fewer) hx rfl

theorem expand_of_closed (h : v.Closed) : expand evaluators stack v p = ⟨v, none⟩ := by
  have walked := @walk_plain evaluators stack v p
  rw [h.walk_eq, Walked.mk.injEq] at walked
  obtain ⟨value, error, -⟩ := walked
  exact congr (congrArg Expansion.mk value.symm) error.symm

end Resolver

/-- A closed value is left as it is, and so is the session. -/
theorem Session.resolve_of_closed {evaluators : Members} {v : Json} (h : v.Closed) (s : Session)
    (p : Pointer) : s.resolve evaluators v p = ⟨v, none, s⟩ :=
  h.walk_eq _ p s

end FeatureFlags
