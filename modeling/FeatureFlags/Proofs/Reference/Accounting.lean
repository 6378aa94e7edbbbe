import FeatureFlags.Proofs.Reference.Budget
import Mathlib.Algebra.Order.BigOperators.Group.List
import Mathlib.Algebra.Order.Ring.Nat
import Mathlib.Data.List.Perm.Subperm

/-!
# What a session has copied

Every marker costs a copy of its evaluator, as large as the evaluator expanded. The markers of a
value are paid for whenever the value is resolved, and those of an evaluator once, when it comes to
be remembered. `Accounts.balance` says just that of a step that meets no fault: what was counted,
less what is paid for the evaluators remembered, grows by the cost of the markers served. Since a
step remembers nothing that is out of reach (`Accounts.origin`), the count after several values
depends only on the values and on what they reach.
-/

namespace FeatureFlags

namespace Members

variable {evaluators : Members} {name : String}

/-- The number of values in a copy of an evaluator; one that cannot be copied has none. -/
def size (evaluators : Members) (name : String) : Nat :=
  match Resolver.copy evaluators [] name "" with
  | .ok v => v.nodes
  | .error _ => 0

theorem size_eq {p : Pointer} {v : Json} (h : Resolver.copy evaluators [] name p = .ok v) :
    evaluators.size name = v.nodes := by
  unfold size
  rw [(Resolver.copy_eq_ok_congr "").1 h]

/-- The number of values copied in for some markers. -/
def cost (evaluators : Members) (xs : List Site) : Nat :=
  (xs.map fun site => match site.name? with
    | .ok name => evaluators.size name
    | .error _ => 0).sum

@[simp]
theorem cost_nil : evaluators.cost [] = 0 := rfl

@[simp]
theorem cost_append (xs ys : List Site) :
    evaluators.cost (xs ++ ys) = evaluators.cost xs + evaluators.cost ys := by
  simp [cost]

theorem cost_cons {site : Site} (named : site.name? = .ok name) (more : List Site) :
    evaluators.cost (site :: more) = evaluators.size name + evaluators.cost more := by
  simp [cost, named]

/-- Where a value stands does not matter. -/
theorem cost_sites (v : Json) (p q : Pointer) :
    evaluators.cost (v.sites p) = evaluators.cost (v.sites q) := by
  have names := congrArg (List.map fun name? : Except MarkerFault String => match name? with
    | .ok name => evaluators.size name
    | .error _ => 0) (Json.names_sites v p q)
  rw [List.map_map, List.map_map] at names
  exact congrArg List.sum names

/-- What the markers in an evaluator cost. -/
def ownCost (evaluators : Members) (name : String) : Nat :=
  match evaluators.get? name with
  | some raw => evaluators.cost (raw.sites "")
  | none => 0

/-- A marker reaches the evaluator it names, and what that reaches. -/
theorem reaches_marker {raw : Json} {inner : String} (known : evaluators.get? name = some raw)
    (h : evaluators.Reaches raw inner) : evaluators.Reaches (Json.marker name) inner :=
  Reaches.trans (.mentioned (.self _)) known h

theorem reaches_marker_self : evaluators.Reaches (Json.marker name) name := .mentioned (.self _)

end Members

namespace Session

variable {s s' : Session} {name : String} {f : Fragment}

/-- Each evaluator is remembered once, with its size. -/
structure Tidy (s : Session) : Prop where
  distinct : (s.resolved.map (·.1)).Nodup
  sized : ∀ m ∈ s.resolved, m.2.nodes = m.2.value.nodes

theorem tidy_fresh (limit : Nat) : Tidy { limit } := ⟨List.nodup_nil, by simp⟩

theorem Tidy.of_resolved_eq (h : s.Tidy) (same : s'.resolved = s.resolved) : s'.Tidy :=
  ⟨same ▸ h.distinct, same ▸ h.sized⟩

theorem remembers_iff_mem : s.Remembers name ↔ name ∈ s.resolved.map (·.1) := by
  unfold Remembers fragment?
  induction s.resolved with
  | nil => simp
  | cons m more ih =>
    by_cases same : m.1 = name
    · simp [same]
    · simpa [same, Ne.symm same] using ih

theorem Tidy.nodes_eq (h : s.Tidy) (hf : s.fragment? name = some f) : f.nodes = f.value.nodes := by
  obtain ⟨m, found, rfl⟩ := Option.map_eq_some_iff.1 hf
  exact h.sized m (List.mem_of_find?_eq_some found)

theorem Tidy.append (h : s.Tidy) (new : ¬ s.Remembers name) (sized : f.nodes = f.value.nodes)
    (grown : s'.resolved = s.resolved ++ [(name, f)]) : s'.Tidy := by
  rw [remembers_iff_mem] at new
  refine ⟨?_, ?_⟩
  · rw [grown, List.map_append, List.nodup_append]
    refine ⟨h.distinct, by simp, ?_⟩
    intro k hk k' hk' same
    simp only [List.map_cons, List.map_nil, List.mem_singleton] at hk'
    exact new (hk' ▸ same ▸ hk)
  · intro m hm
    rw [grown, List.mem_append, List.mem_singleton] at hm
    rcases hm with hm | rfl
    · exact h.sized m hm
    · exact sized

/-- What was paid for the markers in the evaluators that are remembered. -/
def spent (evaluators : Members) (s : Session) : Nat :=
  (s.resolved.map fun m => evaluators.ownCost m.1).sum

theorem spent_congr (evaluators : Members) (same : s'.resolved = s.resolved) :
    s'.spent evaluators = s.spent evaluators := by
  unfold spent
  rw [same]

theorem spent_append (evaluators : Members) (grown : s'.resolved = s.resolved ++ [(name, f)]) :
    s'.spent evaluators = s.spent evaluators + evaluators.ownCost name := by
  simp [spent, grown]

theorem spent_eq_sum (evaluators : Members) (s : Session) :
    s.spent evaluators = ((s.resolved.map (·.1)).map evaluators.ownCost).sum := by
  rw [spent, List.map_map]
  rfl

/-- A session that remembers less has paid less for it. -/
theorem Tidy.spent_le (evaluators : Members) (h : s.Tidy)
    (fewer : ∀ name, s.Remembers name → s'.Remembers name) :
    s.spent evaluators ≤ s'.spent evaluators := by
  have sub : s.resolved.map (·.1) ⊆ s'.resolved.map (·.1) := by
    intro name hn
    exact remembers_iff_mem.1 (fewer name (remembers_iff_mem.2 hn))
  obtain ⟨names, perm, sublist⟩ := h.distinct.subperm sub
  rw [spent_eq_sum, spent_eq_sum, ← (perm.map evaluators.ownCost).sum_nat]
  exact (sublist.map evaluators.ownCost).sum_le_sum fun _ _ => Nat.zero_le _

end Session

/-- What a step from a session is to have counted and remembered, where the markers served reach
some names and come to some cost. -/
structure Accounts {ε α : Type} (evaluators : Members) (s : Session) (reach : String → Prop)
    (cost : Nat) (r : Attempt ε α) : Prop where
  tidy : r.2.Tidy
  origin : ∀ name, r.2.Remembers name → s.Remembers name ∨ reach name
  balance : ∀ a, r.1 = .ok a →
    r.2.expandedNodes + s.spent evaluators = s.expandedNodes + cost + r.2.spent evaluators

namespace Accounts

variable {ε δ α β : Type} {evaluators : Members} {s s' : Session} {reach reach' : String → Prop}
  {cost cost' : Nat} {r : Attempt ε α}

/-- A step that ends at a fault has only to remember nothing else. -/
theorem fault {e : ε} (tidy : s.Tidy) :
    Accounts evaluators s reach cost ((.error e, s) : Attempt ε α) :=
  ⟨tidy, fun _ hr => .inl hr, fun _ h => by cases h⟩

/-- A step that only counts, and pays for just that. -/
theorem counts {answer : Except ε α} (tidy : s.Tidy) (same : s'.resolved = s.resolved)
    (paid : ∀ a, answer = .ok a → s'.expandedNodes = s.expandedNodes + cost) :
    Accounts evaluators s reach cost ((answer, s') : Attempt ε α) := by
  refine ⟨tidy.of_resolved_eq same, fun name hr => .inl ((Session.remembers_congr same name).1 hr), ?_⟩
  intro a ha
  rw [Session.spent_congr evaluators same, paid a ha]

theorem mono (h : Accounts evaluators s reach cost r) (wider : ∀ name, reach name → reach' name) :
    Accounts evaluators s reach' cost r :=
  ⟨h.tidy, fun name hr => (h.origin name hr).imp id (wider name), h.balance⟩

/-- Steps one after the other pay for what both cost. -/
theorem andThen {next : α → Session → Attempt ε β} (first : Accounts evaluators s reach cost r)
    (rest : ∀ a s', r = (.ok a, s') → s'.Tidy → Accounts evaluators s' reach cost' (next a s')) :
    Accounts evaluators s reach (cost + cost') (r.andThen next) := by
  obtain ⟨e | a, s'⟩ := r
  · exact ⟨first.tidy, first.origin, fun _ h => by cases h⟩
  · have second := rest a s' rfl first.tidy
    refine ⟨second.tidy, ?_, ?_⟩
    · intro name hr
      rcases second.origin name hr with hr | hr
      · exact first.origin name hr
      · exact .inr hr
    · intro b hb
      have before := first.balance a rfl
      have after := second.balance b hb
      dsimp only [Attempt.andThen] at before after ⊢
      omega

/-- What is done with a result, and with the other counter, costs nothing more. -/
theorem finish {next : α → Session → Attempt ε β} (h : Accounts evaluators s reach cost r)
    (free : ∀ a s, (next a s).2.resolved = s.resolved ∧
      (next a s).2.expandedNodes = s.expandedNodes) :
    Accounts evaluators s reach cost (r.andThen next) := by
  have both : Accounts evaluators s reach (cost + 0) (r.andThen next) :=
    h.andThen fun a s₁ _ tidy => .counts tidy (free a s₁).1 fun _ _ => (free a s₁).2
  exact both

/-- An outcome that leaves the session alone costs nothing. -/
theorem outcome {x : Except ε α} (tidy : s.Tidy) :
    Accounts evaluators s reach 0 ((x, s) : Attempt ε α) :=
  .counts tidy rfl fun _ _ => rfl

theorem mapError (f : ε → δ) (h : Accounts evaluators s reach cost r) :
    Accounts evaluators s reach cost (r.mapError f) := by
  refine ⟨h.tidy, h.origin, fun a ha => h.balance a ?_⟩
  obtain ⟨e | b, s'⟩ := r
  · cases ha
  · cases ha
    rfl

theorem count {r : Attempt ReferenceError Json} (h : Accounts evaluators s reach cost r) :
    Accounts evaluators s reach cost (Session.countMarker r) := by
  rw [Session.countMarker_eq]
  exact h.finish fun _ _ => ⟨rfl, rfl⟩

end Accounts

namespace Resolver

variable {evaluators : Members} {stack : List String} {s : Session} {name : String}

/-- What some markers reach. -/
def ServedReach (evaluators : Members) (xs : List Site) (inner : String) : Prop :=
  ∃ site ∈ xs, ∃ name, site.name? = .ok name ∧ evaluators.Reaches (Json.marker name) inner

section

variable (step : ∀ name p s, s.Faithful evaluators stack → s.Tidy →
  Accounts evaluators s (evaluators.Reaches (Json.marker name)) (evaluators.size name)
    (marker evaluators stack name p s))

include step

theorem serve_accounts (xs : List Site) (h : s.Faithful evaluators stack) (tidy : s.Tidy) :
    Accounts evaluators s (ServedReach evaluators xs) (evaluators.cost xs)
      (serve (marker evaluators stack) xs s).attempt := by
  induction xs generalizing s with
  | nil => exact .counts tidy rfl fun _ _ => rfl
  | cons site more ih =>
    rw [attempt_serve_cons]
    unfold Site.answer
    cases hn : site.name? with
    | error fault => exact .fault tidy
    | ok name =>
      rw [Members.cost_cons hn]
      have one := step name site.path s h tidy
      have faithful := (marker_answers name site.path s h).faithful
      refine (one.mono fun inner reach => ⟨site, List.mem_cons_self, name, hn, reach⟩).andThen ?_
      intro v s₁ hr tidy'
      rw [show marker evaluators stack name site.path s = (.ok v, s₁) from hr] at faithful
      have rest : Accounts evaluators s₁ (ServedReach evaluators (site :: more)) (evaluators.cost more)
          (serve (marker evaluators stack) more s₁).attempt :=
        (ih faithful tidy').mono fun inner ⟨x, hx, there⟩ => ⟨x, List.mem_cons_of_mem _ hx, there⟩
      exact rest.finish fun _ _ => ⟨rfl, rfl⟩

theorem walk_accounts (v : Json) (p : Pointer) (h : s.Faithful evaluators stack) (tidy : s.Tidy) :
    Accounts evaluators s (evaluators.Reaches v) (evaluators.cost (v.sites ""))
      (v.walk (marker evaluators stack) p s).attempt := by
  have all := serve_accounts step (v.sites p) h tidy
  rw [attempt_walk, Members.cost_sites v "" p]
  have reached : Accounts evaluators s (evaluators.Reaches v) (evaluators.cost (v.sites p))
      (serve (marker evaluators stack) (v.sites p) s).attempt :=
    all.mono fun inner ⟨site, hs, name, hn, reach⟩ =>
      Members.Reaches.of_inside reach (Json.mentions_of_mem_sites hs hn)
  exact reached.finish fun _ _ => ⟨rfl, rfl⟩

end

theorem charge_accounts {reach : String → Prop} (tidy : s.Tidy) (nodes : Nat) (name : String)
    (p : Pointer) : Accounts evaluators s reach nodes (s.charge nodes name p) := by
  unfold Session.charge
  dsimp only
  split
  · exact .counts tidy rfl fun _ h => by cases h
  · exact .counts tidy rfl fun _ _ => rfl

/-- A copy of an evaluator that is remembered costs its size. -/
theorem reuse_accounts {reach : String → Prop} {f : Fragment} (h : s.Faithful evaluators stack)
    (tidy : s.Tidy) (hf : s.fragment? name = some f) (p : Pointer) :
    Accounts evaluators s reach (evaluators.size name) (s.reuse f name p) := by
  rw [Members.size_eq (h.sound name f hf), ← tidy.nodes_eq hf, Session.reuse_eq]
  exact (charge_accounts tidy f.nodes name p).finish fun _ _ => ⟨rfl, rfl⟩

/-- Once the markers in an evaluator were served, a copy of it costs its size. -/
theorem store_accounts {before after : Session} {reach : String → Prop} {v : Json}
    (tidy : after.Tidy) (origin : ∀ other, after.Remembers other → s.Remembers other ∨ reach other)
    (paid : after.expandedNodes + s.spent evaluators =
      s.expandedNodes + evaluators.ownCost name + after.spent evaluators)
    (new : ¬ after.Remembers name) (reached : reach name) (p : Pointer) :
    Accounts evaluators s reach v.nodes (before.store after v name p) := by
  unfold Session.store Session.charge
  dsimp only
  split
  next e s' exceeded =>
    have same : s'.resolved = after.resolved := by
      split at exceeded
      · cases exceeded
        rfl
      · cases exceeded
    refine ⟨tidy.of_resolved_eq same, fun other hr => ?_, fun _ h => by cases h⟩
    exact origin other ((Session.remembers_congr same other).1 hr)
  next s' charged =>
    obtain ⟨same, counted⟩ : s'.resolved = after.resolved ∧
        s'.expandedNodes = after.expandedNodes + v.nodes := by
      split at charged
      · cases charged
      · cases charged
        exact ⟨rfl, rfl⟩
    let f : Fragment := ⟨v, v.nodes, s'.substitutions - before.substitutions⟩
    let s'' : Session := { s' with resolved := s'.resolved ++ [(name, f)] }
    have grown : s''.resolved = after.resolved ++ [(name, f)] := by rw [← same]
    change Accounts evaluators s reach v.nodes ((.ok v, s'') : Attempt ReferenceError Json)
    refine ⟨tidy.append new rfl grown, fun other hr => ?_, fun _ _ => ?_⟩
    · rcases (Session.remembers_append grown other).1 hr with hr | rfl
      · exact origin other hr
      · exact .inr reached
    · have counted' : s''.expandedNodes = after.expandedNodes + v.nodes := counted
      have more := Session.spent_append evaluators grown
      dsimp only
      omega

theorem fragment_accounts (p : Pointer) (h : s.Faithful evaluators stack) (tidy : s.Tidy) :
    Accounts evaluators s (evaluators.Reaches (Json.marker name)) (evaluators.size name)
      (fragment evaluators stack name p s) := by
  refine fragment_induct (motive := fun stack name _ s r => s.Faithful evaluators stack → s.Tidy →
    Accounts evaluators s (evaluators.Reaches (Json.marker name)) (evaluators.size name) r)
    ?_ ?_ ?_ ?_ stack name p s h tidy
  · intro stack name p s f hf h tidy
    exact reuse_accounts h tidy hf p
  · intro stack name p s hf known h tidy
    exact .fault tidy
  · intro stack name p s raw hf known on_stack h tidy
    exact .fault tidy
  · intro stack name p s raw hf known new ih h tidy
    have pushed := h.push (Session.not_remembers hf)
    have walked := walk_accounts (fun inner q s' h' tidy' => (ih inner q s' h' tidy').count)
      raw (evaluatorPointer name) pushed tidy
    have mirrors := walk_mirrors marker_answers raw (evaluatorPointer name) pushed
    have origin := (walked.mono fun _ => Members.reaches_marker known).origin
    cases hw : raw.walk (marker evaluators (name :: stack)) (evaluatorPointer name) s with
    | mk v error? after =>
      rw [hw] at walked mirrors origin
      cases error? with
      | some e => exact ⟨walked.tidy, origin, fun _ h => by cases h⟩
      | none =>
        have expanded := mirrors.result (by simp)
        have own : evaluators.ownCost name = evaluators.cost (raw.sites "") := by
          simp [Members.ownCost, known]
        rw [Members.size_eq (copy_of_expand known expanded.symm p)]
        exact store_accounts walked.tidy origin (own ▸ walked.balance v rfl)
          (mirrors.faithful.apart name List.mem_cons_self) Members.reaches_marker_self p

theorem resolve_accounts (v : Json) (p : Pointer) (h : s.Faithful evaluators []) (tidy : s.Tidy) :
    Accounts evaluators s (evaluators.Reaches v) (evaluators.cost (v.sites ""))
      (s.resolve evaluators v p).attempt :=
  walk_accounts (fun _ q _ h' tidy' => (fragment_accounts q h' tidy').count) v p h tidy

end Resolver

end FeatureFlags
