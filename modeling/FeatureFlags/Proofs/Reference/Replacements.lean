import FeatureFlags.Proofs.Reference.Accounting

/-!
# How many markers an expansion replaces

A marker that is replaced brings with it the markers of its evaluator, which are replaced too, and
so on: `Resolver.replacements` counts them all, a shared evaluator as often as it is copied. Where a
value expands, the stack does not matter (`replacements_restack`), and the count is what the markers
in the value come to one by one (`replacements_eq_sum`).
-/

namespace FeatureFlags

/-- The names in those of some markers that are well-formed, in order. -/
def Site.names (xs : List Site) : List String :=
  xs.filterMap (·.name?.toOption)

/-- The names in the markers of a value, in document order and as often as they occur. -/
def Json.markerNames (v : Json) : List String :=
  Site.names (v.sites "")

theorem Site.names_cons {site : Site} {name : String} (named : site.name? = .ok name)
    (more : List Site) : names (site :: more) = name :: names more := by
  simp [names, named, Except.toOption]

theorem Site.names_cons_malformed {site : Site} {fault : MarkerFault}
    (malformed : site.name? = .error fault) (more : List Site) :
    names (site :: more) = names more := by
  simp [names, malformed, Except.toOption]

theorem Site.mem_names {xs : List Site} {name : String} :
    name ∈ names xs ↔ ∃ site ∈ xs, site.name? = .ok name := by
  simp only [names, List.mem_filterMap]
  refine exists_congr fun site => and_congr_right fun _ => ?_
  cases site.name? <;> simp [Except.toOption]

/-- Where a value stands does not matter. -/
theorem Json.names_sites_eq (v : Json) (p : Pointer) : Site.names (v.sites p) = v.markerNames := by
  have same := congrArg (List.filterMap Except.toOption) (names_sites v p "")
  rwa [List.filterMap_map, List.filterMap_map] at same

namespace Resolver

/-- The number of markers replaced when a value is expanded while the names on the stack are being
expanded: those in the value, and those in each copy. -/
def replacements (evaluators : Members) (stack : List String) (v : Json) : Nat :=
  (v.markerNames.map fun name =>
    match _known : evaluators.get? name with
    | none => 0
    | some raw =>
      if _new : name ∈ stack then 0 else 1 + replacements evaluators (name :: stack) raw).sum
termination_by free evaluators stack
decreasing_by exact free_cons_lt (by assumption) (by assumption)

variable {evaluators : Members} {stack stack' : List String} {v : Json} {p q : Pointer}

/-- A name in a value that expands is that of an evaluator, which expands in turn. -/
theorem exists_expand_of_mem_markerNames (done : (expand evaluators stack v p).error? = none)
    {name : String} (h : name ∈ v.markerNames) :
    ∃ raw w, evaluators.get? name = some raw ∧ name ∉ stack ∧
      expand evaluators (name :: stack) raw (evaluatorPointer name) = ⟨w, none⟩ := by
  rw [← Json.names_sites_eq v p] at h
  obtain ⟨site, hs, named⟩ := Site.mem_names.1 h
  obtain ⟨name', w, named', copied⟩ := expand_done_iff.1 done site hs
  obtain rfl := Except.ok.inj (named.symm.trans named')
  obtain ⟨raw, known, new, hx⟩ := copy_eq_ok_iff.1 copied
  exact ⟨raw, w, known, new, hx⟩

theorem replacements_congr {f : String → Nat} (same : ∀ name ∈ v.markerNames, ∃ raw,
    evaluators.get? name = some raw ∧ name ∉ stack ∧
      1 + replacements evaluators (name :: stack) raw = f name) :
    replacements evaluators stack v = (v.markerNames.map f).sum := by
  rw [replacements]
  congr 1
  refine List.map_congr_left fun name hn => ?_
  obtain ⟨raw, known, new, value⟩ := same name hn
  split
  next unknown => simp [unknown] at known
  next raw' known' =>
    obtain rfl := Option.some.inj (known.symm.trans known')
    rw [dif_neg new, value]

/-- Which names are being expanded already does not matter, where the value expands. -/
theorem replacements_restack (h : (expand evaluators stack v p).error? = none)
    (h' : (expand evaluators stack' v q).error? = none) :
    replacements evaluators stack v = replacements evaluators stack' v := by
  induction hn : free evaluators stack using Nat.strongRecOn
    generalizing stack stack' v p q with
  | ind n ih =>
    let inside : String → Nat := fun name =>
      (evaluators.get? name).elim 0 fun raw => 1 + replacements evaluators (name :: stack) raw
    have left : replacements evaluators stack v = (v.markerNames.map inside).sum := by
      refine replacements_congr fun name hname => ?_
      obtain ⟨raw, w, known, new, -⟩ := exists_expand_of_mem_markerNames h hname
      exact ⟨raw, known, new, by simp [inside, known]⟩
    have right : replacements evaluators stack' v = (v.markerNames.map inside).sum := by
      refine replacements_congr fun name hname => ?_
      obtain ⟨raw, w, known, new, hx⟩ := exists_expand_of_mem_markerNames h hname
      obtain ⟨raw', w', known', new', hx'⟩ := exists_expand_of_mem_markerNames h' hname
      obtain rfl := Option.some.inj (known.symm.trans known')
      -- one more name is on the stack, so fewer evaluators are free
      have fewer := free_cons_lt known new
      have same := ih _ (hn ▸ fewer) (congrArg Expansion.error? hx) (congrArg Expansion.error? hx') rfl
      exact ⟨raw, known, new', by simp [inside, known, same]⟩
    rw [left, right]

end Resolver

/-- The number of markers replaced when an evaluator is expanded. -/
def Members.replaced (evaluators : Members) (name : String) : Nat :=
  match evaluators.get? name with
  | some raw => Resolver.replacements evaluators [] raw
  | none => 0

/-- Each marker in a value that expands counts once, with those in its evaluator. -/
theorem Resolver.replacements_eq_sum {evaluators : Members} {stack : List String} {v : Json}
    {p : Pointer} (done : (expand evaluators stack v p).error? = none) :
    replacements evaluators stack v =
      (v.markerNames.map fun name => 1 + evaluators.replaced name).sum := by
  refine replacements_congr fun name hname => ?_
  obtain ⟨raw, w, known, new, hx⟩ := exists_expand_of_mem_markerNames done hname
  refine ⟨raw, known, new, ?_⟩
  have alone : expand evaluators [] raw (evaluatorPointer name) = ⟨w, none⟩ :=
    expand_restack hx fun _ none => by cases none
  rw [Members.replaced, known]
  exact congrArg (1 + ·)
    (replacements_restack (congrArg Expansion.error? hx) (congrArg Expansion.error? alone))

/-- So do the markers in an evaluator that can be copied. -/
theorem Members.replaced_eq_sum {evaluators : Members} {name : String} {raw : Json} {p : Pointer}
    {w : Json} (known : evaluators.get? name = some raw)
    (copied : Resolver.copy evaluators [] name p = .ok w) :
    evaluators.replaced name =
      (raw.markerNames.map fun inner => 1 + evaluators.replaced inner).sum := by
  obtain ⟨raw', known', -, hx⟩ := Resolver.copy_eq_ok_iff.1 copied
  obtain rfl := Option.some.inj (known.symm.trans known')
  have alone : Resolver.expand evaluators [] raw (evaluatorPointer name) = ⟨w, none⟩ :=
    Resolver.expand_restack hx fun _ none => by cases none
  rw [replaced, known]
  exact Resolver.replacements_eq_sum (congrArg Expansion.error? alone)

end FeatureFlags
