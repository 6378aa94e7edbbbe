import FeatureFlags.Proofs.Reference.Places
import FeatureFlags.Proofs.Reference.Resolvable
import FeatureFlags.Reference.Reachable

/-!
# References found without resolving

`Json.references` also finds the texts under `$ref` beside other keys and below other markers, and
`collectReachable` follows them all. In a value that is resolvable there are no others than its
markers (`mentions_of_refersTo`), so nothing is collected that is out of reach, and nothing that is
found is unknown.
-/

namespace FeatureFlags

namespace Members

variable {evaluators : Members} {v : Json} {p : Pointer} {r : Reference} {via name : String}

/-- A resolvable value refers to nothing but by its markers. -/
theorem Resolvable.mentions_of_refersTo (h : evaluators.Resolvable v) (refers : v.RefersTo name) :
    v.Mentions name := by
  obtain ⟨ms, inside, there⟩ := refers
  obtain ⟨only, rfl⟩ := h.sole ms (.inl inside) (has_iff.2 ⟨_, there⟩)
  obtain rfl : only = name := by simpa using there
  exact inside

theorem Resolvable.mentions_of_mem_references (h : evaluators.Resolvable v)
    (hr : r ∈ v.references p) : v.Mentions r.name :=
  h.mentions_of_refersTo ((Json.exists_reference_iff p).1 ⟨r, hr, rfl⟩)

theorem Resolvable.has_of_mem_references (h : evaluators.Resolvable v)
    (hr : r ∈ v.references p) : evaluators.has r.name = true :=
  h.known r.name (.inl (h.mentions_of_mem_references hr))

/-! ## The evaluators in use -/

theorem mem_namesIn_iff : name ∈ evaluators.namesIn via ↔
    ∃ raw, evaluators.get? via = some raw ∧ raw.RefersTo name := by
  unfold namesIn
  cases evaluators.get? via with
  | none => simp
  | some raw => simp [← Json.exists_reference_iff ""]

/-- The name that is worked off next is known and new. -/
theorem next_of_dropWhile {queue used more : List String} {next : String}
    (dropped : queue.dropWhile (fun name => !evaluators.has name || used.contains name) =
      next :: more) : evaluators.has next = true ∧ next ∉ used := by
  have head := List.head?_dropWhile_not (fun name => !evaluators.has name || used.contains name)
    queue
  rw [dropped] at head
  simpa using head

/-- A property of the names in the queue that evaluators hand on holds of all that is collected, and
all of that is known. -/
theorem collectReachable_subset {P : String → Prop}
    (closed : ∀ name, evaluators.has name = true → P name →
      ∀ inner ∈ evaluators.namesIn name, P inner)
    {fuel : Nat} {queue used : List String} (pending : ∀ name ∈ queue, P name)
    (done : ∀ name ∈ used, evaluators.has name = true ∧ P name) :
    ∀ name ∈ evaluators.collectReachable fuel queue used, evaluators.has name = true ∧ P name := by
  induction fuel generalizing queue used with
  | zero => exact done
  | succ fuel ih =>
    unfold collectReachable
    split
    · exact done
    next name more dropped =>
      -- what is left of the queue was in it before
      have rest : name :: more ⊆ queue := dropped ▸ List.dropWhile_subset _
      have next : evaluators.has name = true ∧ P name :=
        ⟨(next_of_dropWhile dropped).1, pending name (rest List.mem_cons_self)⟩
      refine ih ?_ (List.forall_mem_cons.2 ⟨next, done⟩)
      intro inner hi
      rcases List.mem_append.1 hi with hi | hi
      · exact pending inner (rest (List.mem_cons_of_mem _ hi))
      · exact closed name next.1 next.2 inner hi

/-- The evaluators in use from some references are in reach of resolvable values that make them. -/
theorem reachable_subset {vs : List Json} (resolvable : ∀ v ∈ vs, evaluators.Resolvable v)
    {roots : List Reference} (from_values : ∀ r ∈ roots, ∃ v ∈ vs, ∃ q, r ∈ v.references q) :
    ∀ name ∈ evaluators.reachable roots, ∃ v ∈ vs, evaluators.Reaches v name := by
  suffices subset : ∀ name ∈ evaluators.reachable roots,
      evaluators.has name = true ∧ ∃ v ∈ vs, evaluators.Reaches v name from
    fun name hn => (subset name hn).2
  refine collectReachable_subset ?_ ?_ (by simp)
  · rintro name - ⟨v, hv, hr⟩ inner hi
    obtain ⟨raw, known, refers⟩ := mem_namesIn_iff.1 hi
    have inner_resolvable := (resolvable v hv).through hr known
    exact ⟨v, hv, .through hr known (inner_resolvable.mentions_of_refersTo refers)⟩
  · intro name hn
    obtain ⟨r, hr, rfl⟩ := List.mem_map.1 hn
    obtain ⟨v, hv, q, hq⟩ := from_values r hr
    exact ⟨v, hv, .mentioned ((resolvable v hv).mentions_of_mem_references hq)⟩

end Members

end FeatureFlags
