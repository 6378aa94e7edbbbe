import FeatureFlags.Proofs.Json.Pointee
import FeatureFlags.Proofs.Reference.Sites

/-!
# Which evaluators a value refers to

A value mentions the names whose markers stand inside it, and `Members.Reaches` closes that under
the evaluators named. Neither knows about walks; `mem_sites` and `exists_site` tie them to the
markers that a walk stops at.
-/

namespace FeatureFlags

/-- The marker of a name. -/
def Json.marker (name : String) : Json := .obj [(refKey, .str name)]

/-- The marker of a name stands inside the value. -/
def Json.Mentions (v : Json) (name : String) : Prop := (marker name).Inside v

/-- The names that a value mentions, and those that the evaluators of such names mention, and so
on. -/
inductive Members.Reaches (evaluators : Members) (v : Json) : String → Prop
  | mentioned {name : String} : v.Mentions name → Reaches evaluators v name
  | through {via name : String} {raw : Json} : Reaches evaluators v via →
      evaluators.get? via = some raw → raw.Mentions name → Reaches evaluators v name

/-- What an evaluator in reach reaches is in reach. -/
theorem Members.Reaches.trans {evaluators : Members} {v raw : Json} {via name : String}
    (h : evaluators.Reaches v via) (known : evaluators.get? via = some raw)
    (inner : evaluators.Reaches raw name) : evaluators.Reaches v name := by
  induction inner with
  | mentioned m => exact .through h known m
  | through _ known' m ih => exact .through ih known' m

/-- What a part of a value reaches is in reach of the value. -/
theorem Members.Reaches.of_inside {evaluators : Members} {u v : Json} {name : String}
    (h : evaluators.Reaches u name) (inside : u.Inside v) : evaluators.Reaches v name := by
  induction h with
  | mentioned m => exact .mentioned (Json.Inside.trans m inside)
  | through _ known m ih => exact .through ih known m

/-! ## Markers -/

theorem Members.isMarker_marker (name : String) :
    Members.isMarker [(refKey, .str name)] = true := by
  simp [isMarker, has]

theorem Members.markerName?_eq_ok {ms : Members} {name : String} (marker : ms.isMarker = true)
    (h : ms.markerName? = .ok name) : ms = [(refKey, .str name)] := by
  unfold markerName? at h
  split at h
  next k n =>
    simp [isMarker, has] at marker
    cases h
    rw [marker]
  next => cases h
  next => cases h

namespace Json

theorem mem_sitesInItems {site : Site} {items : List Json} {p : Pointer} {i : Nat}
    (h : site ∈ sitesInItems items p i) :
    ∃ (j : Nat) (v : Json), items[j]? = some v ∧ site ∈ v.sites (p.item (i + j)) := by
  induction items generalizing i with
  | nil => simp [sitesInItems] at h
  | cons v more ih =>
    simp only [sitesInItems, List.mem_append] at h
    rcases h with h | h
    · exact ⟨0, v, rfl, h⟩
    · obtain ⟨j, u, hj, hs⟩ := ih h
      exact ⟨j + 1, u, hj, by rwa [Nat.add_right_comm] at hs⟩

theorem sitesInItems_subset {v : Json} {items : List Json} (h : v ∈ items) (p : Pointer) (i : Nat) :
    ∃ q, v.sites q ⊆ sitesInItems items p i := by
  induction items generalizing i with
  | nil => cases h
  | cons u more ih =>
    simp only [sitesInItems]
    rcases List.mem_cons.1 h with rfl | h
    · exact ⟨_, List.subset_append_left _ _⟩
    · obtain ⟨q, hq⟩ := ih h (i + 1)
      exact ⟨q, List.subset_append_of_subset_right _ hq⟩

theorem mem_sitesInMembers {site : Site} {ms : List (String × Json)} {p : Pointer}
    (h : site ∈ sitesInMembers ms p) :
    ∃ (k : String) (v : Json), (k, v) ∈ ms ∧ site ∈ v.sites (p.child k) := by
  induction ms with
  | nil => simp [sitesInMembers] at h
  | cons m more ih =>
    simp only [sitesInMembers, List.mem_append] at h
    rcases h with h | h
    · exact ⟨m.1, m.2, List.mem_cons_self, h⟩
    · obtain ⟨k, u, hu, hs⟩ := ih h
      exact ⟨k, u, List.mem_cons_of_mem _ hu, hs⟩

theorem sitesInMembers_subset {k : String} {v : Json} {ms : List (String × Json)} (h : (k, v) ∈ ms)
    (p : Pointer) : ∃ q, v.sites q ⊆ sitesInMembers ms p := by
  induction ms with
  | nil => cases h
  | cons m more ih =>
    simp only [sitesInMembers]
    rcases List.mem_cons.1 h with rfl | h
    · exact ⟨_, List.subset_append_left _ _⟩
    · obtain ⟨q, hq⟩ := ih h
      exact ⟨q, List.subset_append_of_subset_right _ hq⟩

/-- A walk stops where objects inside the value stand that have the key of a marker. -/
theorem mem_sites {site : Site} {v : Json} {p : Pointer} (h : site ∈ v.sites p) :
    ∃ ms : Members, v.Leads p site.path (.obj ms) ∧ ms.isMarker = true ∧
      site.name? = ms.markerName? := by
  induction v using nested generalizing p with
  | null | bool | num | str => simp [sites] at h
  | arr items ih =>
    simp only [sites] at h
    obtain ⟨j, v, hj, hs⟩ := mem_sitesInItems h
    obtain ⟨ms, leads, h'⟩ := ih v (List.mem_of_getElem? hj) hs
    exact ⟨ms, .item hj (by simpa using leads), h'⟩
  | obj ms ih =>
    simp only [sites] at h
    split at h
    next marker =>
      obtain rfl := List.mem_singleton.1 h
      exact ⟨ms, .self _ _, marker, rfl⟩
    next =>
      obtain ⟨k, v, hm, hs⟩ := mem_sitesInMembers h
      obtain ⟨ms', leads, h'⟩ := ih k v hm hs
      exact ⟨ms', .member hm leads, h'⟩

/-- A walk that meets no malformed marker stops at every object that has the key of one: below a
marker there is only the text of a name. -/
theorem exists_site {ms : Members} {v : Json} (inside : Inside (.obj ms) v)
    (marker : ms.isMarker = true) {p : Pointer} (ok : ∀ site ∈ v.sites p, ∃ n, site.name? = .ok n) :
    ∃ site ∈ v.sites p, site.name? = ms.markerName? := by
  induction inside generalizing p with
  | self => exact ⟨⟨p, ms.markerName?⟩, by simp [sites, marker], rfl⟩
  | item hm _ ih =>
    simp only [sites] at ok ⊢
    obtain ⟨q, hq⟩ := sitesInItems_subset hm p 0
    obtain ⟨site, hs, hn⟩ := ih fun site hs => ok site (hq hs)
    exact ⟨site, hq hs, hn⟩
  | member hm inside ih =>
    simp only [sites] at ok ⊢
    split
    next outer =>
      simp only [outer, if_true, List.mem_singleton, forall_eq] at ok
      obtain ⟨n, hn⟩ := ok
      rw [Members.markerName?_eq_ok outer hn, List.mem_singleton, Prod.mk.injEq] at hm
      obtain ⟨rfl, rfl⟩ := hm
      cases inside
    next outer =>
      simp only [outer] at ok
      obtain ⟨q, hq⟩ := sitesInMembers_subset hm p
      obtain ⟨site, hs, hn⟩ := ih fun site hs => ok site (hq hs)
      exact ⟨site, hq hs, hn⟩

/-- The markers that a walk stops at with a name are those of evaluators. -/
theorem leads_of_mem_sites {site : Site} {v : Json} {p : Pointer} {name : String}
    (h : site ∈ v.sites p) (hn : site.name? = .ok name) : v.Leads p site.path (marker name) := by
  obtain ⟨ms, leads, marker, hm⟩ := mem_sites h
  rw [Members.markerName?_eq_ok marker (hm ▸ hn)] at leads
  exact leads

theorem mentions_of_mem_sites {site : Site} {v : Json} {p : Pointer} {name : String}
    (h : site ∈ v.sites p) (hn : site.name? = .ok name) : v.Mentions name :=
  (leads_of_mem_sites h hn).inside

end Json

end FeatureFlags
