import FeatureFlags.Reference.Walk

/-!
# A walk serves a list of markers

`Json.sites` lists where a walk stops, in document order. `serve` runs a handler over such a list
up to the first fault, and `Json.fill` puts values in place of the first markers of a value.
`walk_eq_serve` says that a walk serves its sites and fills in what came back: whatever a handler
does along a walk is then shown by induction over a list, and not over the value again.
-/

namespace FeatureFlags

/-- Where a walk stops: the pointer to a marker, with the name in it or what is wrong with it. -/
structure Site where
  path : Pointer
  name? : Except MarkerFault String

namespace Json

mutual

/-- The markers that a walk of a value stops at, in document order. -/
def sites : Json → Pointer → List Site
  | .obj ms, path =>
    if Members.isMarker ms then [⟨path, Members.markerName? ms⟩] else sitesInMembers ms path
  | .arr items, path => sitesInItems items path 0
  | _, _ => []

/-- The markers inside the items of an array from an index on. -/
def sitesInItems : List Json → Pointer → Nat → List Site
  | [], _, _ => []
  | v :: more, path, i => sites v (path.item i) ++ sitesInItems more path (i + 1)

/-- The markers inside the members of an object. -/
def sitesInMembers : List (String × Json) → Pointer → List Site
  | [], _ => []
  | (k, v) :: more, path => sites v (path.child k) ++ sitesInMembers more path

end

/-- The number of markers that a walk of a value stops at. -/
def holes (v : Json) : Nat := (v.sites "").length

mutual

/-- Puts values in place of the first markers of a value, one each. -/
def fill : Json → List Json → Json
  | .obj ms, vs => if Members.isMarker ms then vs.headD (.obj ms) else .obj (fillMembers ms vs)
  | .arr items, vs => .arr (fillItems items vs)
  | v, _ => v

/-- Puts values in place of the first markers inside the items of an array. -/
def fillItems : List Json → List Json → List Json
  | [], _ => []
  | v :: more, vs => fill v (vs.take v.holes) :: fillItems more (vs.drop v.holes)

/-- Puts values in place of the first markers inside the members of an object. -/
def fillMembers : List (String × Json) → List Json → Members
  | [], _ => []
  | (k, v) :: more, vs => (k, fill v (vs.take v.holes)) :: fillMembers more (vs.drop v.holes)

end

/-! ## What a value asks for does not depend on where it stands -/

mutual

theorem names_sites : ∀ (v : Json) (p q : Pointer),
    (v.sites p).map (·.name?) = (v.sites q).map (·.name?)
  | .obj ms, p, q => by
    simp only [sites]
    split
    · rfl
    · exact names_sitesInMembers ms p q
  | .arr items, p, q => by
    simp only [sites]
    exact names_sitesInItems items p q 0 0
  | .null, _, _ | .bool _, _, _ | .num _, _, _ | .str _, _, _ => by simp [sites]

theorem names_sitesInItems : ∀ (items : List Json) (p q : Pointer) (i j : Nat),
    (sitesInItems items p i).map (·.name?) = (sitesInItems items q j).map (·.name?)
  | [], _, _, _, _ => rfl
  | v :: more, p, q, i, j => by
    simp only [sitesInItems, List.map_append]
    rw [names_sites v (p.item i) (q.item j), names_sitesInItems more p q (i + 1) (j + 1)]

theorem names_sitesInMembers : ∀ (ms : List (String × Json)) (p q : Pointer),
    (sitesInMembers ms p).map (·.name?) = (sitesInMembers ms q).map (·.name?)
  | [], _, _ => rfl
  | (k, v) :: more, p, q => by
    simp only [sitesInMembers, List.map_append]
    rw [names_sites v (p.child k) (q.child k), names_sitesInMembers more p q]

end

theorem length_sites (v : Json) (p : Pointer) : (v.sites p).length = v.holes := by
  simpa [holes] using congrArg List.length (names_sites v p "")

mutual

theorem fill_nil : ∀ v : Json, v.fill [] = v
  | .obj ms => by
    simp only [fill]
    split
    · rfl
    · rw [fillMembers_nil ms]
  | .arr items => by rw [fill, fillItems_nil items]
  | .null | .bool _ | .num _ | .str _ => by simp [fill]

theorem fillItems_nil : ∀ items : List Json, fillItems items [] = items
  | [] => rfl
  | v :: more => by simp only [fillItems, List.take_nil, List.drop_nil, fill_nil v, fillItems_nil more]

theorem fillMembers_nil : ∀ ms : List (String × Json), fillMembers ms [] = ms
  | [] => rfl
  | (k, v) :: more => by
    simp only [fillMembers, List.take_nil, List.drop_nil, fill_nil v, fillMembers_nil more]

end

end Json

/-! ## Serving sites -/

section Serve

variable {σ : Type}

/-- What comes back for one marker; a handler is not asked about a malformed one. -/
def Site.answer (handler : Handler σ) (site : Site) (s : σ) : Except ReferenceError Json × σ :=
  match site.name? with
  | .error fault => (.error (.malformed site.path fault), s)
  | .ok name => handler name site.path s

/-- Runs a handler on one marker after another, up to the first fault. -/
def serve (handler : Handler σ) : List Site → σ → Walked σ (List Json)
  | [], s => ⟨[], none, s⟩
  | site :: more, s =>
    match site.answer handler s with
    | (.error e, s) => ⟨[], some e, s⟩
    | (.ok v, s) => (serve handler more s).map (v :: ·)

variable (handler : Handler σ)

theorem serve_append (xs ys : List Site) (s : σ) :
    serve handler (xs ++ ys) s =
      match serve handler xs s with
      | ⟨vs, some e, s⟩ => ⟨vs, some e, s⟩
      | ⟨vs, none, s⟩ => (serve handler ys s).map (vs ++ ·) := by
  induction xs generalizing s with
  | nil => rfl
  | cons site more ih =>
    simp only [List.cons_append, serve]
    obtain ⟨e | v, s'⟩ := site.answer handler s
    · rfl
    · simp only [ih s']
      obtain ⟨vs, _ | e, s''⟩ := serve handler more s' <;> rfl

theorem serve_cons_done {site : Site} {more : List Site} {s s' : σ} {vs : List Json} :
    serve handler (site :: more) s = ⟨vs, none, s'⟩ ↔
      ∃ v s₁ vs', site.answer handler s = (.ok v, s₁) ∧
        serve handler more s₁ = ⟨vs', none, s'⟩ ∧ vs = v :: vs' := by
  simp only [serve]
  obtain ⟨e | v, s₁⟩ := site.answer handler s
  · simp
  · dsimp only
    constructor
    · intro h
      cases hw : serve handler more s₁ with
      | mk vs' error? s₂ =>
        simp only [hw, Walked.map, Walked.mk.injEq] at h
        obtain ⟨rfl, rfl, rfl⟩ := h
        exact ⟨v, s₁, vs', rfl, hw, rfl⟩
    · rintro ⟨_, _, vs', h₁, h₂, rfl⟩
      cases h₁
      simp [h₂, Walked.map]

theorem length_serve_le (xs : List Site) (s : σ) :
    (serve handler xs s).value.length ≤ xs.length := by
  induction xs generalizing s with
  | nil => simp [serve]
  | cons site more ih =>
    simp only [serve]
    obtain ⟨e | v, s₁⟩ := site.answer handler s
    · simp
    · simpa [Walked.map] using ih s₁

variable {handler}

theorem length_serve {xs : List Site} {s s' : σ} {vs : List Json}
    (h : serve handler xs s = ⟨vs, none, s'⟩) : vs.length = xs.length := by
  induction xs generalizing s vs with
  | nil => simp_all [serve]
  | cons site more ih =>
    obtain ⟨v, s₁, vs', -, h', rfl⟩ := (serve_cons_done handler).1 h
    simp [ih h']

/-- Without a state to thread, serving meets no fault if no marker by itself does. -/
theorem serve_done_iff {handler : Handler Unit} {xs : List Site} :
    (serve handler xs ()).error? = none ↔
      ∀ site ∈ xs, ∃ v, site.answer handler () = (.ok v, ()) := by
  induction xs with
  | nil => simp [serve]
  | cons site more ih =>
    simp only [serve, List.forall_mem_cons]
    obtain ⟨e | v, ⟨⟩⟩ := site.answer handler ()
    · simp
    · simpa [Walked.map] using ih

/-- Two handlers that agree on the copies they make, wherever the markers stand, make the same
copies for two lists of the same markers. -/
theorem serve_value_congr {h k : Handler Unit} {xs ys : List Site}
    (names : xs.map (·.name?) = ys.map (·.name?))
    (hx : (serve h xs ()).error? = none) (hy : (serve k ys ()).error? = none)
    (agree : ∀ name p q v w, h name p () = (.ok v, ()) → k name q () = (.ok w, ()) → v = w) :
    (serve h xs ()).value = (serve k ys ()).value := by
  induction xs generalizing ys with
  | nil =>
    cases ys with
    | nil => rfl
    | cons => simp at names
  | cons x xs ih =>
    cases ys with
    | nil => simp at names
    | cons y ys =>
      simp only [List.map_cons, List.cons.injEq] at names
      obtain ⟨v, hv⟩ := serve_done_iff.1 hx x List.mem_cons_self
      obtain ⟨w, hw⟩ := serve_done_iff.1 hy y List.mem_cons_self
      simp only [serve, hv, hw, Walked.map] at hx hy ⊢
      rw [ih names.2 hx hy]
      congr 1
      cases hn : x.name? with
      | error fault => simp [Site.answer, hn] at hv
      | ok name =>
        have hn' : y.name? = .ok name := names.1 ▸ hn
        simp only [Site.answer, hn, hn'] at hv hw
        exact agree name _ _ v w hv hw

end Serve

/-! ## A walk serves its sites -/

namespace Json

variable {σ : Type} (handler : Handler σ)

theorem walkMarker_eq_serve (ms : Members) (p : Pointer) (s : σ) :
    walkMarker handler ms p s =
      (serve handler [⟨p, ms.markerName?⟩] s).map (·.headD (.obj ms)) := by
  simp only [walkMarker, serve, Site.answer]
  cases Members.markerName? ms with
  | error fault => rfl
  | ok name =>
    simp only
    obtain ⟨e | v, s'⟩ := handler name p s <;> rfl

mutual

/-- A walk serves the markers in the value and fills in what came back for them. -/
theorem walk_eq_serve : ∀ (v : Json) (p : Pointer) (s : σ),
    v.walk handler p s = (serve handler (v.sites p) s).map v.fill
  | .obj ms, p, s => by
    simp only [walk, sites]
    split
    next marker => simp [walkMarker_eq_serve, fill, marker, Walked.map]
    next other => simp [walkMembers_eq_serve ms p s, fill, other, Walked.map]
  | .arr items, p, s => by
    simp only [walk, sites, walkItems_eq_serve items p 0 s]
    rfl
  | .null, _, _ | .bool _, _, _ | .num _, _, _ | .str _, _, _ => by
    simp [walk, sites, serve, Walked.map, fill]

theorem walkItems_eq_serve : ∀ (items : List Json) (p : Pointer) (i : Nat) (s : σ),
    walkItems handler items p i s = (serve handler (sitesInItems items p i) s).map (fillItems items)
  | [], _, _, _ => rfl
  | v :: more, p, i, s => by
    simp only [walkItems, sitesInItems, serve_append, walk_eq_serve v (p.item i) s]
    cases hw : serve handler (v.sites (p.item i)) s with
    | mk vs error? s' =>
      cases error? with
      | none =>
        have full := length_serve hw
        rw [length_sites] at full
        simp [Walked.map, walkItems_eq_serve more p (i + 1) s', fillItems, ← full]
      | some e =>
        -- too few values came back to reach the items behind
        have short := length_serve_le handler (v.sites (p.item i)) s
        rw [hw, length_sites] at short
        simp [Walked.map, fillItems, List.take_of_length_le short, List.drop_of_length_le short,
          fillItems_nil]

theorem walkMembers_eq_serve : ∀ (ms : List (String × Json)) (p : Pointer) (s : σ),
    walkMembers handler ms p s = (serve handler (sitesInMembers ms p) s).map (fillMembers ms)
  | [], _, _ => rfl
  | (k, v) :: more, p, s => by
    simp only [walkMembers, sitesInMembers, serve_append, walk_eq_serve v (p.child k) s]
    cases hw : serve handler (v.sites (p.child k)) s with
    | mk vs error? s' =>
      cases error? with
      | none =>
        have full := length_serve hw
        rw [length_sites] at full
        simp [Walked.map, walkMembers_eq_serve more p s', fillMembers, ← full]
      | some e =>
        have short := length_serve_le handler (v.sites (p.child k)) s
        rw [hw, length_sites] at short
        simp [Walked.map, fillMembers, List.take_of_length_le short, List.drop_of_length_le short,
          fillMembers_nil]

end

end Json

end FeatureFlags
