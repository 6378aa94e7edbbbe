import FeatureFlags.Proofs.Document.Build
import FeatureFlags.Proofs.Reference.Accounting

/-!
# Flags that share a session

`attemptFlags` builds flags one after another and keeps the session, which `buildFlags` drops. What
resolutions do to a session is said of it once for each of their laws: it comes to what flags built
by themselves come to (`attemptFlags_follows`), the limit only stops it (`attemptFlags_metered`), and
its count is what the markers in the flags cost and what those in the evaluators cost that it
remembers (`attemptFlags_accounts`).
-/

namespace FeatureFlags

/-! ## One after another, up to the first error -/

section Except

variable {ε α β : Type} {f : α → Except ε β} {xs : List α}

theorem mapM_cons_eq (f : α → Except ε β) (x : α) (more : List α) :
    (x :: more).mapM f = (f x).bind fun y => (more.mapM f).map (y :: ·) := by
  rw [List.mapM_cons]
  rfl

theorem mapM_map_congr {γ : Type} {g : γ → α} {f' : γ → Except ε β} {ys : List γ}
    (same : ∀ y ∈ ys, f (g y) = f' y) : (ys.map g).mapM f = ys.mapM f' := by
  induction ys with
  | nil => rfl
  | cons y more ih =>
    obtain ⟨first, rest⟩ := List.forall_mem_cons.1 same
    rw [List.map_cons, mapM_cons_eq, mapM_cons_eq, first, ih rest]

theorem mapM_eq_error {e : ε} : xs.mapM f = .error e ↔ ∃ before x after,
    xs = before ++ x :: after ∧ (∀ b ∈ before, ∃ y, f b = .ok y) ∧ f x = .error e := by
  induction xs with
  | nil =>
    change Except.ok [] = Except.error e ↔ _
    simp
  | cons x more ih =>
    rw [mapM_cons_eq]
    cases hx : f x with
    | error e' =>
      constructor
      · intro h
        cases h
        exact ⟨[], x, more, rfl, by simp, hx⟩
      · rintro ⟨before, x', after, split, fine, fails⟩
        cases before with
        | nil =>
          obtain ⟨rfl, -⟩ := List.cons.inj split
          rw [hx] at fails
          rw [Except.error.inj fails]
          rfl
        | cons b before =>
          obtain ⟨rfl, -⟩ := List.cons.inj split
          obtain ⟨y, hy⟩ := fine x List.mem_cons_self
          rw [hx] at hy
          cases hy
    | ok y =>
      change (more.mapM f).map (y :: ·) = .error e ↔ _
      rw [map_eq_error, ih]
      constructor
      · rintro ⟨before, x', after, rfl, fine, fails⟩
        exact ⟨x :: before, x', after, rfl, List.forall_mem_cons.2 ⟨⟨y, hx⟩, fine⟩, fails⟩
      · rintro ⟨before, x', after, split, fine, fails⟩
        cases before with
        | nil =>
          obtain ⟨rfl, -⟩ := List.cons.inj split
          rw [hx] at fails
          cases fails
        | cons b before =>
          obtain ⟨rfl, rfl⟩ := List.cons.inj split
          exact ⟨before, x', after, rfl, (List.forall_mem_cons.1 fine).2, fails⟩

theorem exists_mapM_eq_ok (fine : ∀ x ∈ xs, ∃ y, f x = .ok y) : ∃ ys, xs.mapM f = .ok ys := by
  cases h : xs.mapM f with
  | ok ys => exact ⟨ys, rfl⟩
  | error e =>
    obtain ⟨before, x, after, rfl, -, fails⟩ := mapM_eq_error.1 h
    obtain ⟨y, hy⟩ := fine x (List.mem_append_right _ List.mem_cons_self)
    rw [fails] at hy
    cases hy

theorem exists_mapM_eq_ok_iff : (∃ ys, xs.mapM f = .ok ys) ↔ ∀ x ∈ xs, ∃ y, f x = .ok y := by
  refine ⟨?_, exists_mapM_eq_ok⟩
  rintro ⟨ys, h⟩
  induction xs generalizing ys with
  | nil => simp
  | cons x more ih =>
    rw [mapM_cons_eq] at h
    obtain ⟨y, hy, h⟩ := bind_eq_ok.1 h
    obtain ⟨others, ho, -⟩ := map_eq_ok.1 h
    exact List.forall_mem_cons.2 ⟨⟨y, hy⟩, ih others ho⟩

end Except

/-! ## Flags by themselves -/

/-- Whether a configuration is refused because too many values were copied in. -/
def ConfigError.isLimit : ConfigError → Bool
  | .invalid _ (.tooLarge _ _) => true
  | _ => false

instance : HasLimit ConfigError := ⟨ConfigError.isLimit⟩

@[simp]
theorem ConfigError.isLimit_ofReferenceError (e : ReferenceError) :
    (ofReferenceError e).isLimit = e.isLimit := by
  cases e <;> rfl

/-- What an expansion comes to, with nothing of the value after a fault. -/
def Expansion.outcome {α : Type} (x : Expansion α) : Except ReferenceError α :=
  match x.error? with
  | some e => .error e
  | none => .ok x.value

/-- A flag decoded from the plain expansion of its raw value. -/
def plainFlag (options : Options) (evaluators : Members) (raw : String × Json) :
    Except ConfigError (String × FeatureFlag) :=
  ((Resolver.expand evaluators [] raw.2 (flagPointer raw.1)).outcome.mapError .ofReferenceError).bind
    fun v => (flagOfResolved options (flagPointer raw.1) v).map (raw.1, ·)

section

variable {options : Options} {evaluators : Members} {raw : String × Json}

theorem plainFlag_eq_ok {f : String × FeatureFlag} :
    plainFlag options evaluators raw = .ok f ↔ BuiltFrom options evaluators raw f := by
  unfold plainFlag BuiltFrom Expansion.outcome
  obtain ⟨v, _ | e⟩ := Resolver.expand evaluators [] raw.2 (flagPointer raw.1)
  · obtain ⟨key, flag⟩ := f
    simp [Except.mapError, Except.bind, map_eq_ok, and_comm]
  · simp [Except.mapError, Except.bind]

theorem flagOfResolved_not_atLimit (p : Pointer) (v : Json) :
    ¬ AtLimit (flagOfResolved options p v) := by
  unfold flagOfResolved
  cases FeatureFlag.ofJson? v with
  | error fault => exact fun limit => Bool.false_ne_true (atLimit_error.1 limit)
  | ok f =>
    cases options.checkDefaultVariant with
    | false => exact not_atLimit_ok
    | true =>
      have checked : ¬ AtLimit (f.checkDefaultVariant p) := by
        unfold FeatureFlag.checkDefaultVariant
        split
        · split
          · exact not_atLimit_ok
          · exact fun limit => Bool.false_ne_true (atLimit_error.1 limit)
        · exact not_atLimit_ok
      change ¬ AtLimit ((f.checkDefaultVariant p).bind fun _ => .ok f)
      simp [atLimit_bind, checked]

end

/-! ## Flags of one session -/

/-- A flag resolved in a session, decoded and checked. -/
def attemptFlag (options : Options) (evaluators : Members) (raw : String × Json) (s : Session) :
    Attempt ConfigError (String × FeatureFlag) :=
  (s.resolve evaluators raw.2 (flagPointer raw.1)).attempt.mapError .ofReferenceError
    |>.andThen fun v s => ((flagOfResolved options (flagPointer raw.1) v).map (raw.1, ·), s)

/-- Flags one after another, with the session after them. -/
def attemptFlags (options : Options) (evaluators : Members) :
    Members → Session → Attempt ConfigError (List (String × FeatureFlag))
  | [], s => (.ok [], s)
  | raw :: more, s =>
    (attemptFlag options evaluators raw s).andThen fun f s =>
      (attemptFlags options evaluators more s).andThen fun others s => (.ok (f :: others), s)

section

variable {options : Options} {evaluators : Members} {s : Session}

theorem attemptFlags_fst (flags : Members) (s : Session) :
    (attemptFlags options evaluators flags s).1 = buildFlags options evaluators s flags := by
  induction flags generalizing s with
  | nil => rfl
  | cons raw more ih =>
    obtain ⟨key, raw⟩ := raw
    rw [attemptFlags, attemptFlag, buildFlags]
    obtain ⟨v, _ | e, s'⟩ := s.resolve evaluators raw (flagPointer key)
    · dsimp only
      rw [← ih s']
      change (Attempt.andThen ((flagOfResolved options (flagPointer key) v).map (key, ·), s') _).1 = _
      cases flagOfResolved options (flagPointer key) v with
      | error e => rfl
      | ok f =>
        change (Attempt.andThen (attemptFlags options evaluators more s') _).1 =
          (attemptFlags options evaluators more s').1.bind _
        obtain ⟨_ | _, _⟩ := attemptFlags options evaluators more s' <;> rfl
    · rfl

/-! ### Each comes to what it comes to by itself -/

/-- What building from a faithful session comes to, where plain expansion comes to `plainly`: on
success all of the names are remembered. -/
structure Follows {α : Type} (evaluators : Members) (s : Session) (names : String → Prop)
    (plainly : Except ConfigError α) (r : Attempt ConfigError α) : Prop where
  faithful : r.2.Faithful evaluators []
  kept : ∀ name, s.Remembers name → r.2.Remembers name
  remembered : ∀ a, r.1 = .ok a → ∀ name, names name → r.2.Remembers name
  result : ¬ r.Stopped → r.1 = plainly

namespace Follows

variable {α β : Type} {names names' : String → Prop} {plainly : Except ConfigError α}
  {r : Attempt ConfigError α}

/-- An outcome that leaves the session alone. -/
theorem outcome {x : Except ConfigError α} (h : s.Faithful evaluators []) :
    Follows evaluators s (fun _ => False) x (x, s) :=
  ⟨h, fun _ hr => hr, fun _ _ _ no => no.elim, fun _ => rfl⟩

theorem andThen {plainly' : α → Except ConfigError β} {next : α → Session → Attempt ConfigError β}
    (first : Follows evaluators s names plainly r)
    (rest : ∀ a s', r = (.ok a, s') → s'.Faithful evaluators [] →
      Follows evaluators s' names' (plainly' a) (next a s')) :
    Follows evaluators s (fun name => names name ∨ names' name) (plainly.bind plainly')
      (r.andThen next) := by
  obtain ⟨e | a, s'⟩ := r
  · refine ⟨first.faithful, first.kept, fun _ h => (by cases h), fun calm => ?_⟩
    have failed := first.result fun stop => calm (Attempt.stopped_error.2 (Attempt.stopped_error.1 stop))
    rw [← failed]
    rfl
  · have second := rest a s' rfl first.faithful
    refine ⟨second.faithful, fun name hr => second.kept name (first.kept name hr), ?_, ?_⟩
    · rintro b hb name (there | there)
      · exact second.kept name (first.remembered a rfl name there)
      · exact second.remembered b hb name there
    · intro calm
      rw [← first.result Attempt.not_stopped_ok]
      exact second.result calm

theorem mono (h : Follows evaluators s names plainly r)
    (fewer : ∀ name, names' name → names name) : Follows evaluators s names' plainly r :=
  ⟨h.faithful, h.kept, fun a ha name hn => h.remembered a ha name (fewer name hn), h.result⟩

theorem resolve (v : Json) (p : Pointer) (h : s.Faithful evaluators []) :
    Follows evaluators s v.Mentions
      ((Resolver.expand evaluators [] v p).outcome.mapError .ofReferenceError)
      ((s.resolve evaluators v p).attempt.mapError .ofReferenceError) := by
  have mirrors := Resolver.resolve_mirrors v p h
  cases hw : s.resolve evaluators v p with
  | mk w error? s' =>
    rw [hw] at mirrors
    cases error? with
    | none =>
      refine ⟨mirrors.faithful, mirrors.kept, fun _ _ => mirrors.remembered rfl, fun _ => ?_⟩
      rw [← mirrors.result (by simp)]
      rfl
    | some e =>
      refine ⟨mirrors.faithful, mirrors.kept, fun _ h => (by cases h), fun calm => ?_⟩
      have other : e.isLimit = false := by
        rw [← ConfigError.isLimit_ofReferenceError]
        exact Bool.eq_false_iff.2 fun limit => calm (Attempt.stopped_error.2 limit)
      rw [← mirrors.result (by simpa using other)]
      rfl

end Follows

theorem attemptFlag_follows (raw : String × Json) (h : s.Faithful evaluators []) :
    Follows evaluators s raw.2.Mentions (plainFlag options evaluators raw)
      (attemptFlag options evaluators raw s) := by
  have decode : ∀ v s', s'.Faithful evaluators [] → Follows evaluators s' (fun _ => False)
      ((flagOfResolved options (flagPointer raw.1) v).map (raw.1, ·))
      ((flagOfResolved options (flagPointer raw.1) v).map (raw.1, ·), s') :=
    fun _ _ h' => .outcome h'
  exact ((Follows.resolve raw.2 (flagPointer raw.1) h).andThen fun v s' _ => decode v s').mono
    fun _ => .inl

/-- The session shared by the flags does not show: unless the limit stops them, they come to what
each comes to by itself. -/
theorem attemptFlags_follows (flags : Members) (h : s.Faithful evaluators []) :
    Follows evaluators s (fun name => ∃ raw ∈ flags, raw.2.Mentions name)
      (flags.mapM (plainFlag options evaluators)) (attemptFlags options evaluators flags s) := by
  induction flags generalizing s with
  | nil => exact (Follows.outcome h).mono (by simp)
  | cons raw more ih =>
    rw [mapM_cons_eq, attemptFlags]
    have rest : ∀ (f : String × FeatureFlag) s', s'.Faithful evaluators [] → Follows evaluators s'
        (fun name => (∃ raw ∈ more, raw.2.Mentions name) ∨ False)
        ((more.mapM (plainFlag options evaluators)).bind fun others => .ok (f :: others))
        ((attemptFlags options evaluators more s').andThen fun others s => (.ok (f :: others), s)) :=
      fun _ _ h' => (ih h').andThen fun _ _ _ h'' => .outcome h''
    have both := (@attemptFlag_follows options _ _ raw h).andThen fun f s' _ => rest f s'
    refine both.mono ?_
    rintro name ⟨x, hx, m⟩
    rcases List.mem_cons.1 hx with rfl | hx
    · exact .inl m
    · exact .inr (.inl ⟨x, hx, m⟩)

/-! ### The limit and the count -/

theorem attemptFlag_metered (raw : String × Json) :
    Metered (attemptFlag options evaluators raw) s := by
  have resolved : Metered (fun s => (s.resolve evaluators raw.2 (flagPointer raw.1)).attempt) s :=
    walk_metered (fun name p _ => Resolver.marker_metered [] name p) raw.2 (flagPointer raw.1)
  refine (resolved.mapError ConfigError.isLimit_ofReferenceError).andThen fun v _ => ?_
  exact Metered.outcome (atLimit_map.not.2 (flagOfResolved_not_atLimit _ v))

/-- The limit only stops the building of flags. -/
theorem attemptFlags_metered (flags : Members) :
    Metered (attemptFlags options evaluators flags) s := by
  induction flags generalizing s with
  | nil => exact Metered.done (fun _ => rfl) fun _ => rfl
  | cons raw more ih =>
    exact (attemptFlag_metered raw).andThen fun f s' => ih.andThen fun others s'' =>
      Metered.done (fun _ => rfl) fun _ => rfl

/-- Flags are built in a session exactly if each is built by itself and the limit allows for what is
counted for them. -/
theorem attemptFlags_eq_ok_iff {flags : Members} {built : List (String × FeatureFlag)}
    {limit : Nat} :
    (attemptFlags options evaluators flags { limit }).1 = .ok built ↔
      flags.mapM (plainFlag options evaluators) = .ok built ∧
        ∀ limit', (attemptFlags options evaluators flags { limit := limit' }).1 = .ok built →
          (attemptFlags options evaluators flags { limit := limit' }).2.expandedNodes ≤ limit := by
  have metered := @attemptFlags_metered options evaluators {} flags
  have plainly : ∀ limit, ¬ (attemptFlags options evaluators flags { limit }).Stopped →
      (attemptFlags options evaluators flags { limit }).1 =
        flags.mapM (plainFlag options evaluators) :=
    fun limit => (attemptFlags_follows flags (Session.faithful_fresh limit)).result
  have under : ∀ unreached,
      ¬ (attemptFlags options evaluators flags { limit := unreached }).Stopped →
      ((attemptFlags options evaluators flags { limit }).1 = .ok built ↔
        (attemptFlags options evaluators flags { limit := unreached }).1 = .ok built ∧
          (attemptFlags options evaluators flags { limit := unreached }).2.expandedNodes ≤ limit) :=
    fun _ calm => metered.eq_ok_iff (Nat.zero_le _) (Nat.zero_le _) calm
  constructor
  · intro h
    refine ⟨(plainly limit (Attempt.not_stopped_of_eq_ok h)).symm.trans h, fun limit' h' => ?_⟩
    exact ((under limit' (Attempt.not_stopped_of_eq_ok h')).1 h).2
  · rintro ⟨built_alone, within⟩
    -- some limit is not reached
    obtain ⟨enough, calm⟩ := metered.eventually
    have calm := calm enough (Nat.le_refl _)
    have h := (plainly enough calm).trans built_alone
    exact (under enough calm).2 ⟨h, within enough h⟩

/-- What the markers in some members cost. -/
def Members.costOfMembers (evaluators ms : Members) : Nat :=
  (ms.map fun m => evaluators.cost (m.2.sites "")).sum

theorem attemptFlag_accounts (raw : String × Json) (h : s.Faithful evaluators []) (tidy : s.Tidy) :
    Accounts evaluators s (evaluators.Reaches raw.2) (evaluators.cost (raw.2.sites ""))
      (attemptFlag options evaluators raw s) :=
  ((Resolver.resolve_accounts raw.2 _ h tidy).mapError _).finish fun _ _ => ⟨rfl, rfl⟩

/-- Flags that are built cost what their markers cost, and those of the evaluators that come to be
remembered. -/
theorem attemptFlags_accounts (flags : Members) (h : s.Faithful evaluators []) (tidy : s.Tidy) :
    Accounts evaluators s (fun name => ∃ raw ∈ flags, evaluators.Reaches raw.2 name)
      (evaluators.costOfMembers flags) (attemptFlags options evaluators flags s) := by
  induction flags generalizing s with
  | nil => exact .outcome tidy
  | cons raw more ih =>
    have first : Accounts evaluators s (fun name => ∃ x ∈ raw :: more, evaluators.Reaches x.2 name)
        (evaluators.cost (raw.2.sites "")) (attemptFlag options evaluators raw s) :=
      (attemptFlag_accounts raw h tidy).mono fun name reach => ⟨raw, List.mem_cons_self, reach⟩
    have faithful := (@attemptFlag_follows options evaluators s raw h).faithful
    refine first.andThen fun f s' hr tidy' => ?_
    rw [hr] at faithful
    refine ((ih faithful tidy').mono ?_).finish fun _ _ => ⟨rfl, rfl⟩
    rintro name ⟨x, hx, reach⟩
    exact ⟨x, List.mem_cons_of_mem _ hx, reach⟩

end

/-! ## Whole documents -/

section

variable {options : Options} {document : Json} {evaluators flags : Members}

/-- What a document is built to, given what became of its flags. -/
def Json.assemble (document : Json) (built : Except ConfigError (List (String × FeatureFlag))) :
    Except ConfigError FlagMap :=
  built.bind fun built => document.metadata?.map fun metadata => ⟨.ofList built, metadata⟩

theorem build_eq (he : document.evaluators? = .ok evaluators) (hf : document.flags? = .ok flags) :
    build options document =
      document.assemble (attemptFlags options evaluators flags { limit := options.limit }).1 := by
  unfold build Json.assemble
  rw [he, hf, attemptFlags_fst]
  dsimp only [bind, Except.bind]
  cases buildFlags options evaluators { limit := options.limit } flags with
  | error e => rfl
  | ok built => cases document.metadata? <;> rfl

theorem assemble_eq_ok {built : Except ConfigError (List (String × FeatureFlag))} {m : FlagMap} :
    document.assemble built = .ok m ↔ ∃ fs metadata, built = .ok fs ∧
      document.metadata? = .ok metadata ∧ m = ⟨.ofList fs, metadata⟩ := by
  unfold Json.assemble
  rw [bind_eq_ok]
  refine exists_congr fun fs => ?_
  rw [map_eq_ok, exists_and_left]
  simp only [@eq_comm _ m]

/-- Metadata has nothing to do with the limit. -/
theorem atLimit_assemble {built : Except ConfigError (List (String × FeatureFlag))} :
    AtLimit (document.assemble built) ↔ AtLimit built := by
  have read : ¬ AtLimit document.metadata? := by
    unfold Json.metadata?
    split
    · exact not_atLimit_ok
    · exact not_atLimit_ok
    next v _ _ =>
      cases Metadata.ofJson? v with
      | error fault => exact fun limit => Bool.false_ne_true (atLimit_error.1 limit)
      | ok metadata => exact not_atLimit_ok
  simp [Json.assemble, atLimit_bind, read]

/-- A document that does not end at the limit is built from its flags by themselves. -/
theorem build_eq_plain (he : document.evaluators? = .ok evaluators)
    (hf : document.flags? = .ok flags) (calm : ¬ AtLimit (build options document)) :
    build options document = document.assemble (flags.mapM (plainFlag options evaluators)) := by
  rw [build_eq he hf] at calm ⊢
  rw [atLimit_assemble] at calm
  rw [(attemptFlags_follows flags (Session.faithful_fresh _)).result calm]

/-- An accepted map has under a key the flag that is built by itself from the one under this key. -/
theorem get?_of_build {m : FlagMap} {key : String} {f : FeatureFlag}
    (he : document.evaluators? = .ok evaluators) (hf : document.flags? = .ok flags)
    (nodup : flags.keys.Nodup) (accepted : build options document = .ok m) :
    m.get? key = some f ↔ ∃ raw ∈ flags, plainFlag options evaluators raw = .ok (key, f) := by
  obtain ⟨built, entries, keys, there, back⟩ := built_of_build he hf accepted
  rw [FlagMap.get?, entries, KeyMap.get?_ofList (keys ▸ nodup)]
  constructor
  · intro h
    obtain ⟨raw, hr, origin⟩ := back _ h
    exact ⟨raw, hr, plainFlag_eq_ok.2 origin⟩
  · rintro ⟨raw, hr, hx⟩
    obtain ⟨g, hg, origin⟩ := there raw hr
    rw [plainFlag_eq_ok.2 origin] at hx
    cases hx
    exact hg

theorem parseDocument_eq {validator : Validator} (valid : validator document = .ok ()) :
    parseDocument validator options document = build options document := by
  unfold parseDocument validate
  rw [valid]
  rfl

end

end FeatureFlags
