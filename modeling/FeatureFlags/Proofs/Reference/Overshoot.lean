import FeatureFlags.Proofs.Reference.Growth
import FeatureFlags.Proofs.Reference.Moments

/-!
# How far past the limit

The limit is looked at only when a copy was made, so the count may pass it. As long as no step has
failed a session is afloat (`Session.Afloat`): it is within its limit, and no fragment is larger
than what was counted so far. A copy is then no larger than the limit and the largest raw evaluator
together, which bounds the count at the step that fails. Markers cannot outrun the values copied in
by more than the number of evaluators, at any moment (`resolveAll_bounded`).
-/

namespace FeatureFlags

namespace Session

variable {evaluators : Members} {stack : List String} {limit : Nat} {s s₁ s₂ : Session}
  {name : String} {raw : Json} {f : Fragment} {n k : Nat}

/-- What holds of a session under a limit as long as no step has failed. -/
structure Afloat (evaluators : Members) (stack : List String) (limit : Nat) (s : Session) :
    Prop where
  sound : s.Sound evaluators stack
  limited : s.limit = limit
  within : s.expandedNodes ≤ limit
  /-- An evaluator was copied in once when it came to be remembered. -/
  paid : ∀ name f, s.fragment? name = some f → f.nodes ≤ s.expandedNodes
  ratio : s.substitutions ≤ evaluators.length * s.expandedNodes
  idle : evaluators = [] → s.expandedNodes = 0

/-- What holds of a session at every moment, the step that fails included. -/
structure Bounded (evaluators : Members) (limit : Nat) (s : Session) : Prop where
  overshoot : s.expandedNodes ≤ 2 * limit + evaluators.largest
  ratio : s.substitutions ≤ evaluators.length * s.expandedNodes
  idle : evaluators = [] → s.expandedNodes = 0

theorem afloat_fresh (limit : Nat) : Afloat evaluators [] limit { limit } where
  sound := sound_fresh limit
  limited := rfl
  within := Nat.zero_le _
  paid _ _ hf := by cases hf
  ratio := Nat.zero_le _
  idle _ := rfl

theorem Afloat.bounded (h : s.Afloat evaluators stack limit) : s.Bounded evaluators limit := by
  refine ⟨?_, h.ratio, h.idle⟩
  have within := h.within
  omega

theorem Afloat.push (h : s.Afloat evaluators stack limit) (new : ¬ s.Remembers name) :
    s.Afloat evaluators (name :: stack) limit :=
  { h with sound := ⟨h.sound.faithful.push new, h.sound.tidy, h.sound.counted⟩ }

theorem Afloat.pop (h : s.Afloat evaluators (name :: stack) limit) :
    s.Afloat evaluators stack limit :=
  { h with sound := ⟨h.sound.faithful.pop, h.sound.tidy, h.sound.counted⟩ }

/-- A charge may pass the limit, by no more than the charge. -/
theorem Afloat.bounded_charge (h : s.Afloat evaluators stack limit)
    (known : evaluators.get? name = some raw) (small : n ≤ limit + evaluators.largest) :
    Bounded evaluators limit { s with expandedNodes := s.expandedNodes + n } := by
  refine ⟨?_, ?_, ?_⟩
  · have within := h.within
    dsimp only
    omega
  · exact h.ratio.trans (Nat.mul_le_mul_left _ (Nat.le_add_right _ _))
  · rintro rfl
    cases known

/-- A charge within the limit. -/
theorem Afloat.charge (h : s.Afloat evaluators stack limit)
    (known : evaluators.get? name = some raw) (fits : s.expandedNodes + n ≤ s.limit) :
    Afloat evaluators stack limit { s with expandedNodes := s.expandedNodes + n } where
  sound := h.sound.of_resolved_eq rfl
  limited := h.limited
  within := h.limited ▸ fits
  paid other g hg := (h.paid other g hg).trans (Nat.le_add_right _ _)
  ratio := h.ratio.trans (Nat.mul_le_mul_left _ (Nat.le_add_right _ _))
  idle none := by
    subst none
    cases known

theorem Afloat.count (h : s.Afloat evaluators stack limit)
    (room : s.substitutions + k ≤ evaluators.length * s.expandedNodes) :
    Afloat evaluators stack limit { s with substitutions := s.substitutions + k } :=
  { h with sound := h.sound.of_resolved_eq rfl, ratio := room }

theorem Afloat.remember (h : s.Afloat evaluators stack limit) (paid : f.nodes ≤ s.expandedNodes)
    (sound : Sound evaluators stack { s with resolved := s.resolved ++ [(name, f)] }) :
    Afloat evaluators stack limit { s with resolved := s.resolved ++ [(name, f)] } where
  sound := sound
  limited := h.limited
  within := h.within
  paid other g hg := by
    rw [fragment?_append rfl, Option.or_eq_some_iff] at hg
    rcases hg with hg | ⟨-, hg⟩
    · exact h.paid other g hg
    · rw [Option.ite_none_right_eq_some] at hg
      obtain rfl := Option.some.inj hg.2
      exact paid
  ratio := h.ratio
  idle := h.idle

/-- A session came to another without a fault, and so many values at least were copied in. -/
structure Grows (evaluators : Members) (stack : List String) (limit : Nat) (s : Session)
    (copied : Nat) (s' : Session) : Prop where
  afloat : s'.Afloat evaluators stack limit
  counted : s.expandedNodes + copied ≤ s'.expandedNodes

theorem Afloat.grows (h : s.Afloat evaluators stack limit) : Grows evaluators stack limit s 0 s :=
  ⟨h, Nat.le_refl _⟩

theorem Grows.trans (first : Grows evaluators stack limit s n s₁)
    (second : Grows evaluators stack limit s₁ k s₂) : Grows evaluators stack limit s (n + k) s₂ := by
  refine ⟨second.afloat, ?_⟩
  have counted := first.counted
  have counted' := second.counted
  omega

/-- What was copied in without a fault is within the limit. -/
theorem Grows.within (h : Grows evaluators stack limit s n s₁) : s.expandedNodes + n ≤ limit :=
  h.counted.trans h.afloat.within

end Session

variable {evaluators : Members} {stack : List String} {limit : Nat} {s : Session} {name : String}

/-! ## One marker -/

/-- What a marker answered from a session afloat comes to: so many markers may still be counted. -/
structure Affords (evaluators : Members) (stack : List String) (limit : Nat) (s : Session)
    (left : Nat) (moments : List Moment) (r : Attempt ReferenceError Json) : Prop where
  grows : ∀ v, r.1 = .ok v → s.Grows evaluators stack limit v.nodes r.2
  room : ∀ v, r.1 = .ok v → r.2.substitutions + left ≤ evaluators.length * r.2.expandedNodes
  moments : ∀ m ∈ moments, m.session.Bounded evaluators limit
  bounded : r.2.Bounded evaluators limit

namespace Affords

variable {left : Nat} {moments : List Moment} {r : Attempt ReferenceError Json}

/-- A step that ends at a fault has only to be bounded. -/
theorem fault {e : ReferenceError} (moments_bounded : ∀ m ∈ moments, m.session.Bounded evaluators limit)
    (bounded : s.Bounded evaluators limit) {s₀ : Session} :
    Affords evaluators stack limit s₀ left moments (.error e, s) :=
  ⟨fun _ h => (by cases h), fun _ h => (by cases h), moments_bounded, bounded⟩

theorem count (h : Affords evaluators stack limit s 1 moments r) :
    Affords evaluators stack limit s 0 (moments ++ [⟨stack, (Session.countMarker r).2⟩])
      (Session.countMarker r) := by
  have bounded : (Session.countMarker r).2.Bounded evaluators limit := by
    rw [Session.countMarker_eq]
    obtain ⟨e | v, s₁⟩ := r
    · exact h.bounded
    · exact ⟨h.bounded.overshoot, h.room v rfl, h.bounded.idle⟩
  have moments_bounded : ∀ m ∈ moments ++ [⟨stack, (Session.countMarker r).2⟩],
      m.session.Bounded evaluators limit := by
    simpa [or_imp, forall_and] using ⟨h.moments, bounded⟩
  rw [Session.countMarker_eq] at bounded moments_bounded ⊢
  obtain ⟨e | v, s₁⟩ := r
  · exact .fault moments_bounded bounded
  · refine ⟨fun w hw => ?_, fun w hw => ?_, moments_bounded, bounded⟩
    · obtain rfl := Except.ok.inj hw
      have grows := h.grows v rfl
      exact ⟨grows.afloat.count (h.room v rfl), grows.counted⟩
    · exact h.room v rfl

end Affords

/-! ## Markers one after another -/

/-- What some markers served from a session afloat come to: the copies made before a fault are
within the limit. -/
structure AffordsAll {α : Type} (evaluators : Members) (stack : List String) (limit : Nat)
    (s : Session) (copied : Nat) (moments : List Moment) (w : Walked Session α) : Prop where
  grows : w.error? = none → s.Grows evaluators stack limit copied w.state
  within : s.expandedNodes + copied ≤ limit
  moments : ∀ m ∈ moments, m.session.Bounded evaluators limit
  bounded : w.state.Bounded evaluators limit

namespace Resolver

theorem serve_affords {handler : Handler Session}
    {moments : String → Pointer → Session → List Moment}
    (step : ∀ name p s, s.Afloat evaluators stack limit →
      Affords evaluators stack limit s 0 (moments name p s) (handler name p s))
    (xs : List Site) (h : s.Afloat evaluators stack limit) :
    AffordsAll evaluators stack limit s (Json.nodesOfItems (serve handler xs s).value)
      (serveMoments handler moments xs s) (serve handler xs s) := by
  induction xs generalizing s with
  | nil => exact ⟨fun _ => h.grows, h.within, by simp [serveMoments], h.bounded⟩
  | cons site more ih =>
    simp only [serve, serveMoments, Site.answer]
    cases hn : site.name? with
    | error fault => exact ⟨fun failed => (by cases failed), h.within, by simp, h.bounded⟩
    | ok name =>
      have one := step name site.path s h
      dsimp only
      cases hr : handler name site.path s with
      | mk answer s₁ =>
        rw [hr] at one
        cases answer with
        | error e =>
          rw [List.append_nil]
          exact ⟨fun failed => (by cases failed), h.within, one.moments, one.bounded⟩
        | ok v =>
          have first := one.grows v rfl
          have rest := ih first.afloat
          refine ⟨fun done => first.trans (rest.grows done), ?_, ?_, rest.bounded⟩
          · have counted := first.counted
            have within := rest.within
            simp only [Walked.map, Json.nodesOfItems]
            dsimp only at counted within
            omega
          · rw [List.forall_mem_append]
            exact ⟨one.moments, rest.moments⟩

/-- A copy of a fragment is no larger than what was counted so far. -/
theorem reuse_affords {f : Fragment} (h : s.Afloat evaluators stack limit)
    (hf : s.fragment? name = some f) (p : Pointer) :
    Affords evaluators stack limit s 1
      [⟨stack, (s.charge f.nodes name p).2⟩, ⟨stack, (s.reuse f name p).2⟩]
      (s.reuse f name p) := by
  have copied := h.sound.faithful.sound name f hf
  have size : f.nodes = f.value.nodes := h.sound.tidy.nodes_eq hf
  obtain ⟨raw, known, -, -⟩ := copy_eq_ok_iff.1 copied
  have small : f.nodes ≤ limit + evaluators.largest :=
    (h.paid name f hf).trans (h.within.trans (Nat.le_add_right _ _))
  have bounded := h.bounded_charge known small
  rw [Session.reuse_eq]
  unfold Session.charge
  by_cases exceeded : s.limit < s.expandedNodes + f.nodes
  · simp only [if_pos exceeded]
    refine .fault ?_ bounded
    simpa [Attempt.andThen] using bounded
  · simp only [if_neg exceeded]
    -- its markers and its own are no more than its values times the evaluators
    have room : s.substitutions + f.markers + 1 ≤
        evaluators.length * (s.expandedNodes + f.nodes) := by
      have each := Members.replaced_lt copied
      rw [← size, ← h.sound.counted name f hf] at each
      have ratio := h.ratio
      rw [Nat.mul_add]
      omega
    have charged := h.charge known (Nat.not_lt.1 exceeded)
    have afloat := charged.count (k := f.markers) (Nat.le_of_succ_le room)
    refine ⟨?_, fun _ _ => room, ?_, afloat.bounded⟩
    · rintro v hv
      obtain rfl := Except.ok.inj hv
      exact ⟨afloat, size ▸ Nat.le_refl _⟩
    · simp only [List.forall_mem_cons]
      exact ⟨bounded, afloat.bounded, by simp⟩

/-- A copy of an evaluator that was walked without a fault is no larger than the evaluator and what
was copied into it. -/
theorem store_affords {after : Session} {raw v : Json} {n : Nat} {p : Pointer}
    (known : evaluators.get? name = some raw)
    (walked : s.Grows evaluators (name :: stack) limit n after) (size : v.nodes ≤ raw.nodes + n)
    (sound : (s.store after v name p).2.Sound evaluators stack) :
    Affords evaluators stack limit s 1
      [⟨stack, after⟩, ⟨stack, (after.charge v.nodes name p).2⟩,
        ⟨stack, (s.store after v name p).2⟩] (s.store after v name p) := by
  have popped := walked.afloat.pop
  have small : v.nodes ≤ limit + evaluators.largest := by
    have within := walked.within
    have largest := Members.nodes_le_largest known
    omega
  have bounded := popped.bounded_charge known small
  rw [Session.store_eq] at sound ⊢
  unfold Session.charge at sound ⊢
  by_cases exceeded : after.limit < after.expandedNodes + v.nodes
  · simp only [if_pos exceeded]
    refine .fault ?_ bounded
    simp only [List.forall_mem_cons]
    exact ⟨popped.bounded, bounded, bounded, by simp⟩
  · simp only [if_neg exceeded] at sound ⊢
    have charged := popped.charge known (Nat.not_lt.1 exceeded)
    have afloat := charged.remember (Nat.le_add_left _ _) sound
    refine ⟨?_, fun _ _ => ?_, ?_, afloat.bounded⟩
    · rintro w hw
      obtain rfl := Except.ok.inj hw
      refine ⟨afloat, Nat.add_le_add_right ?_ _⟩
      exact (Nat.le_add_right _ _).trans walked.counted
    · -- the copy has at least one value, and there is at least one evaluator
      have one : 1 ≤ evaluators.length := List.length_pos_of_mem (Members.mem_of_get? known)
      have more : 1 ≤ evaluators.length * v.nodes := Nat.mul_pos one v.nodes_pos
      have ratio := popped.ratio
      simp only [Attempt.andThen, Nat.mul_add]
      omega
    · simp only [List.forall_mem_cons]
      exact ⟨popped.bounded, bounded, afloat.bounded, by simp⟩

theorem fragment_affords (name : String) (p : Pointer) (h : s.Afloat evaluators stack limit) :
    Affords evaluators stack limit s 1 (fragmentMoments evaluators stack name p s)
      (fragment evaluators stack name p s) := by
  refine fragment_induct (motive := fun stack name p s r => s.Afloat evaluators stack limit →
    r.2.Sound evaluators stack →
    Affords evaluators stack limit s 1 (fragmentMoments evaluators stack name p s) r)
    ?_ ?_ ?_ ?_ stack name p s h (h.sound.fragment name p)
  · intro stack name p s f hf h _
    simp only [fragmentMoments_eq, hf]
    exact reuse_affords h hf p
  · intro stack name p s hf known h _
    simp only [fragmentMoments_eq, hf, known]
    exact .fault (by simp) h.bounded
  · intro stack name p s raw hf known on_stack h _
    simp only [fragmentMoments_eq, hf, known, if_pos on_stack]
    exact .fault (by simp) h.bounded
  · intro stack name p s raw hf known new ih h sound
    simp only [fragmentMoments_eq, hf, known, if_neg new]
    have pushed := h.push (Session.not_remembers hf)
    have step : ∀ inner q s', s'.Afloat evaluators (name :: stack) limit →
        Affords evaluators (name :: stack) limit s' 0
          (markerMoments evaluators (name :: stack) inner q s')
          (marker evaluators (name :: stack) inner q s') :=
      fun inner q s' h' => (ih inner q s' h' (h'.sound.fragment inner q)).count
    have inside := serve_affords step (raw.sites (evaluatorPointer name)) pushed
    rw [Json.walk_eq_serve] at sound ⊢
    have start : ∀ m ∈ ⟨name :: stack, s⟩ :: serveMoments (marker evaluators (name :: stack))
        (markerMoments evaluators (name :: stack)) (raw.sites (evaluatorPointer name)) s,
        m.session.Bounded evaluators limit :=
      List.forall_mem_cons.2 ⟨pushed.bounded, inside.moments⟩
    cases hw : serve (marker evaluators (name :: stack)) (raw.sites (evaluatorPointer name)) s with
    | mk vs error? after =>
      rw [hw] at sound inside
      cases error? with
      | some e =>
        refine .fault ?_ inside.bounded
        rw [← List.cons_append, List.forall_mem_append]
        exact ⟨start, by simpa [Walked.map] using inside.bounded⟩
      | none =>
        have stored := store_affords known (inside.grows rfl) (raw.nodes_fill_le vs) sound
        refine ⟨stored.grows, stored.room, ?_, stored.bounded⟩
        rw [← List.cons_append, List.forall_mem_append]
        exact ⟨start, stored.moments⟩

theorem marker_affords (name : String) (p : Pointer) (h : s.Afloat evaluators stack limit) :
    Affords evaluators stack limit s 0 (markerMoments evaluators stack name p s)
      (marker evaluators stack name p s) :=
  (fragment_affords name p h).count

end Resolver

namespace Session

/-! ## Whole values -/

theorem resolve_affords (v : Json) (p : Pointer) (h : s.Afloat evaluators [] limit) :
    ∃ copied, AffordsAll evaluators [] limit s copied (s.moments evaluators v p)
        (s.resolve evaluators v p) ∧
      (s.resolve evaluators v p).value.nodes ≤ v.nodes + copied := by
  have served := Resolver.serve_affords (fun name q _ h' => Resolver.marker_affords name q h')
    (v.sites p) h
  rw [resolve, Json.walk_eq_serve]
  exact ⟨_, ⟨served.grows, served.within, served.moments, served.bounded⟩, v.nodes_fill_le _⟩

theorem resolveAll_affords (values : List (Json × Pointer)) (h : s.Afloat evaluators [] limit) :
    ∃ copied, AffordsAll evaluators [] limit s copied (allMoments evaluators values s)
        (resolveAll evaluators values s) ∧
      Json.nodesOfItems (resolveAll evaluators values s).value ≤
        Json.nodesOfItems (values.map (·.1)) + copied := by
  induction values generalizing s with
  | nil => exact ⟨0, ⟨fun _ => h.grows, h.within, by simp [allMoments], h.bounded⟩, Nat.le_refl _⟩
  | cons value more ih =>
    obtain ⟨copied, first, size⟩ := resolve_affords value.1 value.2 h
    simp only [resolveAll, allMoments]
    cases hw : s.resolve evaluators value.1 value.2 with
    | mk w error? s₁ =>
      rw [hw] at first size
      cases error? with
      | some e =>
        rw [List.append_nil]
        refine ⟨copied, ⟨fun failed => (by cases failed), first.within, first.moments, first.bounded⟩, ?_⟩
        simp only [List.map_cons, Json.nodesOfItems]
        dsimp only at size
        omega
      | none =>
        have grows := first.grows rfl
        obtain ⟨copied', rest, size'⟩ := ih grows.afloat
        refine ⟨copied + copied', ⟨fun done => grows.trans (rest.grows done), ?_, ?_, rest.bounded⟩, ?_⟩
        · have counted := grows.counted
          have within := rest.within
          dsimp only at counted within
          omega
        · rw [List.forall_mem_append]
          exact ⟨first.moments, rest.moments⟩
        · simp only [Walked.map, List.map_cons, Json.nodesOfItems]
          dsimp only at size size'
          omega

/-- A counter that never passes this bound is never too large for a machine word. -/
theorem Bounded.lt_of_lt {bound : Nat} (h : s.Bounded evaluators limit)
    (small : evaluators.length * (2 * limit + evaluators.largest) < bound) :
    s.substitutions < bound ∧ s.expandedNodes < bound := by
  have least : s.expandedNodes ≤ evaluators.length * (2 * limit + evaluators.largest) := by
    cases evaluators with
    | nil => simp [h.idle rfl]
    | cons m more =>
      have one : 1 ≤ (m :: more).length := by simp
      exact h.overshoot.trans (Nat.le_mul_of_pos_left _ one)
  have most := h.ratio.trans (Nat.mul_le_mul_left _ h.overshoot)
  omega

/-- Values resolved one after another on a fresh session, up to the first fault: without one the
count of values copied in is within the limit, and with one it is past it by no more than the limit
and the largest evaluator; what is left in place, a value that is partly resolved included, has grown
by no more than the limit. At every moment the markers replaced are no more than the values copied
in times the evaluators, so for small limits no counter leaves 64 bits. -/
theorem resolveAll_bounded (evaluators : Members) (limit : Nat) (values : List (Json × Pointer)) :
    ((resolveAll evaluators values { limit }).error? = none →
      (resolveAll evaluators values { limit }).state.expandedNodes ≤ limit) ∧
    (resolveAll evaluators values { limit }).state.expandedNodes ≤ 2 * limit + evaluators.largest ∧
    Json.nodesOfItems (resolveAll evaluators values { limit }).value ≤
      Json.nodesOfItems (values.map (·.1)) + limit ∧
    Run evaluators ⟨[], { limit }⟩ (allMoments evaluators values { limit })
      ⟨[], (resolveAll evaluators values { limit }).state⟩ ∧
    (∀ m ∈ allMoments evaluators values { limit },
      m.session.substitutions ≤ evaluators.length * m.session.expandedNodes) ∧
    (evaluators.length * (2 * limit + evaluators.largest) < 2 ^ 64 →
      ∀ m ∈ allMoments evaluators values { limit },
        m.session.substitutions < 2 ^ 64 ∧ m.session.expandedNodes < 2 ^ 64) := by
  obtain ⟨copied, affords, size⟩ := resolveAll_affords values (@afloat_fresh evaluators limit)
  refine ⟨fun done => (affords.grows done).afloat.within, affords.bounded.overshoot, ?_,
    resolveAll_run values _, fun m hm => (affords.moments m hm).ratio, ?_⟩
  · have within := affords.within
    dsimp only at within
    omega
  · intro small m hm
    exact (affords.moments m hm).lt_of_lt small

/-- Values of which the second copies what the first one did, and more. -/
def sampleValues : List (Json × Pointer) :=
  [(Json.marker "b", "/x"), (.arr [Json.marker "b", Json.marker "a"], "/y")]

/-- They need five values copied in, so a limit of two stops them on the way. -/
theorem sampleValues_bounded :
    ((resolveAll sampleEvaluators sampleValues { limit := 5 }).error? = none ∧
      (resolveAll sampleEvaluators sampleValues { limit := 5 }).state.expandedNodes ≤ 5) ∧
    (resolveAll sampleEvaluators sampleValues { limit := 2 }).error?.isSome = true ∧
      ∀ m ∈ allMoments sampleEvaluators sampleValues { limit := 2 },
        m.session.substitutions < 2 ^ 64 ∧ m.session.expandedNodes < 2 ^ 64 := by
  constructor
  · have done : (resolveAll sampleEvaluators sampleValues { limit := 5 }).error? = none := by
      decide +kernel
    exact ⟨done, (resolveAll_bounded sampleEvaluators 5 sampleValues).1 done⟩
  · have failed : (resolveAll sampleEvaluators sampleValues { limit := 2 }).error?.isSome = true := by
      decide +kernel
    have small : sampleEvaluators.length * (2 * 2 + sampleEvaluators.largest) < 2 ^ 64 := by
      decide +kernel
    exact ⟨failed, (resolveAll_bounded sampleEvaluators 2 sampleValues).2.2.2.2.2 small⟩

end Session

end FeatureFlags
