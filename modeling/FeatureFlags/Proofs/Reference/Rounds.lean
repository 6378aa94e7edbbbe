import FeatureFlags.Proofs.Reference.InUse
import Mathlib.Algebra.Order.BigOperators.Group.List
import Mathlib.Algebra.Order.Ring.Nat
import Mathlib.Computability.StateTransition
import Mathlib.Data.List.Chain
import Mathlib.Data.List.TakeWhile
import Mathlib.Order.Bounds.Defs

/-!
# The worklist round by round

`Worklist.step` takes the first name off the queue and, if an evaluator not yet in use has that
name, puts all that the evaluator refers to at the end. It does not recurse, and nothing bounds how
often it is taken: the queue grows on the way and may hold a name many times. `Round` says once what
a step does, and whatever it does, there is less `left`, where what evaluators not yet in use refer
to counts as if it were in the queue already. So the steps from any state come to an end, and to
what `Members.reachable` collects (`collectReachable_reaches`). That is the least set of evaluators
that holds all that the given references name and all that its own refer to
(`isLeast_reachable`), and references were looked for once in each of them (`Once`).
-/

namespace FeatureFlags

namespace Members

variable {evaluators : Members} {roots : List Reference} {used : List String} {name : String}
  {raw : Json}

/-! ## The least closed set -/

/-- The names are those of evaluators; all that the references name are among them, and all that one
of them refers to. -/
structure ClosedFrom (evaluators : Members) (roots : List Reference) (names : Set String) :
    Prop where
  known : ∀ name ∈ names, evaluators.has name = true
  named : ∀ r ∈ roots, evaluators.has r.name = true → r.name ∈ names
  closed : ∀ via ∈ names, ∀ raw, evaluators.get? via = some raw →
    ∀ name, raw.RefersTo name → evaluators.has name = true → name ∈ names

theorem InUse.mem_of_closedFrom {names : Set String} (use : evaluators.InUse roots name)
    (h : evaluators.ClosedFrom roots names) : name ∈ names := by
  induction use with
  | root hr known => exact h.named _ hr known
  | through _ hi known ih =>
    obtain ⟨raw, there, refers⟩ := mem_namesIn_iff.1 hi
    exact h.closed _ ih raw there _ refers known

/-- What is collected is closed, and contained in all that is. -/
theorem isLeast_reachable (evaluators : Members) (roots : List Reference) :
    IsLeast {names : Set String | evaluators.ClosedFrom roots names}
      {name | name ∈ evaluators.reachable roots} := by
  constructor
  · refine ⟨fun name hn => (mem_reachable_iff.1 hn).has,
      fun r hr known => mem_reachable_iff.2 (.root hr known), ?_⟩
    intro via hv raw there name refers known
    exact mem_reachable_iff.2
      (.through (mem_reachable_iff.1 hv) (mem_namesIn_iff.2 ⟨raw, there, refers⟩) known)
  · exact fun names h name hn => (mem_reachable_iff.1 hn).mem_of_closedFrom h

-- the evaluators refer to each other and to themselves, and names are repeated or unknown
example : reachable
    [("a", .arr [.marker "b", .marker "none"]), ("b", .arr [.marker "a", .marker "b"]),
      ("c", .marker "a")]
    [⟨"a", ""⟩, ⟨"none", ""⟩, ⟨"a", ""⟩] = ["b", "a"] := by
  decide

/-! ## References that are not looked for yet -/

/-- The number of references in the evaluators that are not in use. -/
def unread (evaluators : Members) (used : List String) : Nat :=
  (evaluators.map fun m => if m.1 ∈ used then 0 else (m.2.references "").length).sum

theorem unread_cons (m : String × Json) (more : Members) (used : List String) :
    unread (m :: more) used =
      (if m.1 ∈ used then 0 else (m.2.references "").length) + unread more used := by
  simp [unread]

theorem unread_none (evaluators : Members) :
    evaluators.unread [] = (evaluators.map fun m => (m.2.references "").length).sum := by
  simp [unread]

/-- There are the fewer the more evaluators are in use. -/
theorem unread_use_le (evaluators : Members) (name : String) (used : List String) :
    evaluators.unread (name :: used) ≤ evaluators.unread used := by
  refine List.sum_le_sum fun m _ => ?_
  by_cases there : m.1 ∈ used
  · simp [there]
  · simp only [List.mem_cons, there, or_false, if_false]
    split <;> omega

/-- Those of an evaluator that comes into use no longer count. -/
theorem unread_use_add_le (known : evaluators.get? name = some raw) (new : name ∉ used) :
    evaluators.unread (name :: used) + (raw.references "").length ≤ evaluators.unread used := by
  induction evaluators with
  | nil => cases known
  | cons m more ih =>
    rw [unread_cons, unread_cons]
    rw [get?_cons] at known
    split at known
    next same =>
      obtain rfl := Option.some.inj known
      rw [same, if_pos List.mem_cons_self, if_neg new]
      have fewer := unread_use_le more name used
      omega
    next other =>
      have rest := ih known
      simp only [List.mem_cons, other, false_or]
      omega

end Members

/-! ## What a step does -/

/-- The names to look at, the evaluators found to be in use, and those in which references were
looked for, in this order. -/
structure Worklist where
  queue : List String
  used : List String
  scanned : List String

namespace Worklist

open StateTransition

variable {evaluators : Members} {roots : List Reference} {w w' : Worklist} {name : String}
  {queue more used scanned : List String}

def start (roots : List Reference) : Worklist := ⟨roots.map (·.name), [], []⟩

/-- Looks at the first name in the queue, unless there is none: one that is unknown or in use already
drops out. -/
def step (evaluators : Members) (w : Worklist) : Option Worklist :=
  match w.queue with
  | [] => none
  | name :: more =>
    match evaluators.get? name with
    | none => some { w with queue := more }
    | some raw =>
      if name ∈ w.used then some { w with queue := more }
      else
        some {
          queue := more ++ (raw.references "").map (·.name)
          used := name :: w.used
          scanned := w.scanned ++ [name] }

/-- What a step does: a name drops out, or references are looked for in its evaluator. -/
inductive Round (evaluators : Members) (w w' : Worklist) : Prop
  | drop {name : String} : w.queue = name :: w'.queue →
      (evaluators.has name = true → name ∈ w.used) → w'.used = w.used → w'.scanned = w.scanned →
      Round evaluators w w'
  | scan {name : String} {raw : Json} {more : List String} : w.queue = name :: more →
      evaluators.get? name = some raw → name ∉ w.used →
      w'.queue = more ++ (raw.references "").map (·.name) → w'.used = name :: w.used →
      w'.scanned = w.scanned ++ [name] → Round evaluators w w'

theorem step_round (h : step evaluators w = some w') : Round evaluators w w' := by
  unfold step at h
  split at h
  next => cases h
  next name more queue =>
    cases known : evaluators.get? name with
    | none =>
      rw [known] at h
      cases h
      refine .drop queue (fun has => ?_) rfl rfl
      simp [Members.has_iff, known] at has
    | some raw =>
      rw [known] at h
      dsimp only at h
      split at h
      next there =>
        cases h
        exact .drop queue (fun _ => there) rfl rfl
      next new =>
        cases h
        exact .scan queue known new rfl rfl rfl

/-- A bound on the names that are still to be looked at. -/
def left (evaluators : Members) (w : Worklist) : Nat :=
  w.queue.length + evaluators.unread w.used

theorem left_start (evaluators : Members) (roots : List Reference) :
    left evaluators (start roots) =
      roots.length + (evaluators.map fun m => (m.2.references "").length).sum := by
  simp [left, start, Members.unread_none]

theorem Round.left_lt (h : Round evaluators w w') : left evaluators w' < left evaluators w := by
  cases h with
  | drop queue _ used _ =>
    rw [left, left, queue, used, List.length_cons]
    omega
  | scan queue known new queue' used _ =>
    have fewer := Members.unread_use_add_le known new
    rw [left, left, queue, queue', used, List.length_append, List.length_map, List.length_cons]
    omega

/-- No more steps are taken in a row than there are names left. -/
theorem length_le_left {run : List Worklist}
    (steps : (w :: run).IsChain fun w w' => step evaluators w = some w') :
    run.length ≤ left evaluators w := by
  induction run generalizing w with
  | nil => exact Nat.zero_le _
  | cons next run ih =>
    obtain ⟨first, rest⟩ := List.isChain_cons_cons.1 steps
    have fewer := (step_round first).left_lt
    have := ih rest
    rw [List.length_cons]
    omega

/-! ## Each evaluator once -/

/-- References were looked for once in each evaluator in use, and in no other. -/
structure Once (w : Worklist) : Prop where
  nodup : w.scanned.Nodup
  perm : w.scanned.Perm w.used

theorem once_start (roots : List Reference) : Once (start roots) where
  nodup := List.nodup_nil
  perm := .refl _

theorem Once.round (h : w.Once) (round : Round evaluators w w') : w'.Once := by
  cases round with
  | drop _ _ used scanned =>
    constructor
    · exact scanned ▸ h.nodup
    · rw [used, scanned]
      exact h.perm
  | @scan name _ _ _ _ new _ used scanned =>
    have perm : w'.scanned.Perm w'.used := by
      rw [used, scanned]
      exact (List.perm_append_singleton name _).trans (h.perm.cons name)
    have nodup : w'.used.Nodup := used ▸ List.nodup_cons.2 ⟨new, h.perm.nodup h.nodup⟩
    exact ⟨perm.symm.nodup nodup, perm⟩

theorem Once.reaches (h : w.Once) (run : Reaches (step evaluators) w w') : w'.Once := by
  induction run with
  | refl => exact h
  | tail _ next ih => exact ih.round (step_round next)

/-! ## What the steps come to -/

theorem step_drop (drops : (!evaluators.has name || used.contains name) = true) :
    step evaluators ⟨name :: more, used, scanned⟩ = some ⟨more, used, scanned⟩ := by
  unfold step
  cases known : evaluators.get? name with
  | none => simp [known]
  | some raw =>
    have there : name ∈ used := by simpa [Members.has_iff.2 ⟨raw, known⟩] using drops
    simp [known, there]

theorem step_scan (known : evaluators.has name = true) (new : name ∉ used) :
    step evaluators ⟨name :: more, used, scanned⟩ =
      some ⟨more ++ evaluators.namesIn name, name :: used, scanned ++ [name]⟩ := by
  obtain ⟨raw, known⟩ := Members.has_iff.1 known
  simp [step, Members.namesIn, known, new]

/-- Names drop out one after the other. -/
theorem dropWhile_reaches (evaluators : Members) (queue used scanned : List String) :
    Reaches (step evaluators) ⟨queue, used, scanned⟩
      ⟨queue.dropWhile fun name => !evaluators.has name || used.contains name, used, scanned⟩ := by
  induction queue with
  | nil => exact .refl
  | cons name more ih =>
    rw [List.dropWhile_cons]
    split
    next drops => exact .head (step_drop drops) ih
    next => exact .refl

/-- With enough fuel, what is collected is what the steps come to. -/
theorem collectReachable_reaches {fuel : Nat} (enough : Resolver.free evaluators used ≤ fuel) :
    ∃ log, Reaches (step evaluators) ⟨queue, used, scanned⟩
      ⟨[], evaluators.collectReachable fuel queue used, log⟩ := by
  induction fuel generalizing queue used scanned with
  | zero =>
    -- every evaluator is used, so the whole queue drops out
    have dry : queue.dropWhile (fun name => !evaluators.has name || used.contains name) = [] := by
      refine List.dropWhile_eq_nil_iff.2 fun name _ => ?_
      cases known : evaluators.has name with
      | false => rfl
      | true => simpa using Members.mem_of_free_eq_zero (Nat.le_zero.1 enough) known
    exact ⟨scanned, dry ▸ dropWhile_reaches evaluators queue used scanned⟩
  | succ fuel ih =>
    have dropped := dropWhile_reaches evaluators queue used scanned
    unfold Members.collectReachable
    split
    next dry =>
      rw [dry] at dropped
      exact ⟨scanned, dropped⟩
    next name more next =>
      obtain ⟨known, new⟩ := Members.next_of_dropWhile next
      obtain ⟨raw, hraw⟩ := Members.has_iff.1 known
      have fewer := Resolver.free_cons_lt hraw new
      have enough' : Resolver.free evaluators (name :: used) ≤ fuel := by omega
      rw [next] at dropped
      obtain ⟨log, rest⟩ := ih enough'
      exact ⟨log, dropped.trans (.head (step_scan known new) rest)⟩

/-- Whatever the evaluators and the references are, no more steps are taken than there are references
given and references in the evaluators, and the steps end in what is collected: the least set of
evaluators that holds all that the given references name and all that its own refer to. All the way,
references were looked for once in each evaluator in use, and in no other. -/
theorem ends_in_reachable (evaluators : Members) (roots : List Reference) :
    (∀ run : List Worklist,
      (start roots :: run).IsChain (fun w w' => step evaluators w = some w') →
      run.length ≤ roots.length + (evaluators.map fun m => (m.2.references "").length).sum) ∧
    (∃ final ∈ eval (step evaluators) (start roots), final.used = evaluators.reachable roots) ∧
    IsLeast {names : Set String | evaluators.ClosedFrom roots names}
      {name | name ∈ evaluators.reachable roots} ∧
    ∀ w, Reaches (step evaluators) (start roots) w →
      w.scanned.Nodup ∧ w.scanned.Perm w.used := by
  have enough : Resolver.free evaluators [] ≤ evaluators.length := List.countP_le_length
  obtain ⟨log, run⟩ := collectReachable_reaches enough
  refine ⟨fun run steps => ?_, ⟨_, mem_eval.2 ⟨run, rfl⟩, rfl⟩, Members.isLeast_reachable _ _,
    fun w reached => ?_⟩
  · rw [← left_start]
    exact length_le_left steps
  · have once := (once_start roots).reaches reached
    exact ⟨once.nodup, once.perm⟩

end Worklist

end FeatureFlags
