import FeatureFlags.Proofs.Document.Sections

/-!
# Flags apart from each other

Flags share a session, and yet a document with fewer flags comes to the same flags. What the others
did to the session shows neither in what a flag comes to (`build_eq_plain`) nor, on success, in
whether the limit stops it: fewer flags have fewer markers and reach fewer evaluators, so their
count is no larger (`expanded_filter_le`).
-/

namespace FeatureFlags

/-- The document with only the flags to be kept. -/
def Json.onlyFlags (keep : String → Bool) (document : Json) : Json :=
  document.mapSection flagsKey (·.filter fun raw => keep raw.1)

/-- The document with one flag. -/
def Json.onlyFlag (key : String) (document : Json) : Json :=
  document.onlyFlags (· == key)

/-- The map with only the flags to be kept. -/
def FlagMap.only (keep : String → Bool) (m : FlagMap) : FlagMap :=
  ⟨m.flags.filter keep, m.metadata⟩

variable {validator : Validator} {options : Options} {document : Json} {evaluators flags : Members}
  {metadata : Metadata} {raw : String × Json} {built : List (String × FeatureFlag)}

/-! ## Fewer flags -/

theorem flags?_onlyFlags (hf : document.flags? = .ok flags) (keep : String → Bool) :
    (document.onlyFlags keep).flags? = .ok (flags.filter fun raw => keep raw.1) :=
  flags?_eq_ok.2 (Json.get?_mapSection (flags?_eq_ok.1 hf))

theorem evaluators?_onlyFlags (keep : String → Bool) :
    (document.onlyFlags keep).evaluators? = document.evaluators? :=
  Json.evaluators?_congr (Json.get?_mapSection_ne (by decide))

theorem metadata?_onlyFlags (keep : String → Bool) :
    (document.onlyFlags keep).metadata? = document.metadata? :=
  Json.metadata?_congr (Json.get?_mapSection_ne (by decide))

theorem plainFlags_filter (h : flags.mapM (plainFlag options evaluators) = .ok built)
    (keep : String → Bool) :
    (flags.filter fun raw => keep raw.1).mapM (plainFlag options evaluators) =
      .ok (built.filter fun f => keep f.1) := by
  induction flags generalizing built with
  | nil =>
    cases h
    rfl
  | cons raw more ih =>
    rw [mapM_cons_eq] at h
    obtain ⟨f, hf, h⟩ := bind_eq_ok.1 h
    obtain ⟨others, ho, rfl⟩ := map_eq_ok.1 h
    have same : raw.1 = f.1 := (plainFlag_eq_ok.1 hf).1
    rw [List.filter_cons, List.filter_cons, same]
    cases keep f.1 with
    | false => exact ih ho
    | true =>
      rw [if_pos rfl, if_pos rfl, mapM_cons_eq, hf, ih ho]
      rfl

theorem costOfMembers_filter_le (keep : String × Json → Bool) :
    evaluators.costOfMembers (flags.filter keep) ≤ evaluators.costOfMembers flags :=
  (List.filter_sublist.map _).sum_le_sum fun _ _ => Nat.zero_le _

/-- On success no more values are copied in for fewer flags, whatever the limits. -/
theorem expanded_filter_le {limit limit' : Nat} {whole part : List (String × FeatureFlag)}
    (keep : String × Json → Bool)
    (hw : (attemptFlags options evaluators flags { limit }).1 = .ok whole)
    (hp : (attemptFlags options evaluators (flags.filter keep) { limit := limit' }).1 = .ok part) :
    (attemptFlags options evaluators (flags.filter keep) { limit := limit' }).2.expandedNodes ≤
      (attemptFlags options evaluators flags { limit }).2.expandedNodes := by
  have fresh := fun limit => @Session.faithful_fresh evaluators limit
  have follows := @attemptFlags_follows options _ _ flags (fresh limit)
  have all := @attemptFlags_accounts options _ _ flags (fresh limit) (Session.tidy_fresh _)
  have some := @attemptFlags_accounts options _ _ (flags.filter keep) (fresh limit')
    (Session.tidy_fresh _)
  -- what comes to be remembered for fewer flags is in reach of them all
  have fewer : ∀ name,
      (attemptFlags options evaluators (flags.filter keep) { limit := limit' }).2.Remembers name →
      (attemptFlags options evaluators flags { limit }).2.Remembers name := by
    intro name hr
    rcases some.origin name hr with ⟨_, no⟩ | ⟨raw, hraw, reach⟩
    · cases no
    · have there := List.mem_of_mem_filter hraw
      exact follows.faithful.remembers_of_reaches
        (fun inner m => follows.remembered whole hw inner ⟨raw, there, m⟩) reach
  have spent := some.tidy.spent_le evaluators fewer
  have cost := @costOfMembers_filter_le evaluators flags keep
  have counted := all.balance whole hw
  have counted' := some.balance part hp
  have nothing : ∀ limit, Session.spent evaluators { limit } = 0 := fun _ => rfl
  simp only [nothing] at counted counted'
  omega

/-- If all flags are built under a limit, so are fewer. -/
theorem attemptFlags_filter {limit : Nat}
    (h : (attemptFlags options evaluators flags { limit }).1 = .ok built) (keep : String → Bool) :
    (attemptFlags options evaluators (flags.filter fun raw => keep raw.1) { limit }).1 =
      .ok (built.filter fun f => keep f.1) := by
  obtain ⟨plainly, within⟩ := attemptFlags_eq_ok_iff.1 h
  refine attemptFlags_eq_ok_iff.2 ⟨plainFlags_filter plainly keep, fun limit' part => ?_⟩
  exact Nat.le_trans (expanded_filter_le _ h part) (within limit h)

/-- If a document is accepted, so it is with fewer flags, and comes to what is left of its map. -/
theorem build_onlyFlags {m : FlagMap} (accepted : build options document = .ok m)
    (keep : String → Bool) : build options (document.onlyFlags keep) = .ok (m.only keep) := by
  obtain ⟨evaluators, flags, built, metadata, he, hf, hb, hm, rfl⟩ := build_eq_ok.1 accepted
  rw [← attemptFlags_fst] at hb
  rw [build_eq ((evaluators?_onlyFlags keep).trans he) (flags?_onlyFlags hf keep), assemble_eq_ok]
  refine ⟨_, metadata, attemptFlags_filter hb keep, (metadata?_onlyFlags keep).trans hm, ?_⟩
  rw [FlagMap.only, KeyMap.filter_ofList]

/-! ## One flag after another -/

theorem filter_key_eq (nodup : flags.keys.Nodup) (hr : raw ∈ flags) :
    (flags.filter fun x => x.1 == raw.1) = [raw] := by
  obtain ⟨before, after, rfl⟩ := List.append_of_mem hr
  rw [Members.keys, List.map_append, List.map_cons] at nodup
  obtain ⟨-, rest, apart⟩ := List.nodup_append.1 nodup
  have earlier : raw.1 ∉ before.map (·.1) := fun h => apart _ h _ List.mem_cons_self rfl
  have later : raw.1 ∉ after.map (·.1) := (List.nodup_cons.1 rest).1
  have others : ∀ more : Members, raw.1 ∉ more.map (·.1) →
      (more.filter fun x => x.1 == raw.1) = [] := by
    intro more new
    refine List.filter_eq_nil_iff.2 fun x hx same => new ?_
    exact eq_of_beq same ▸ List.mem_map_of_mem hx
  rw [List.filter_append, List.filter_cons, others before earlier, others after later]
  simp

theorem assemble_eq_map (hm : document.metadata? = .ok metadata)
    (x : Except ConfigError (List (String × FeatureFlag))) :
    document.assemble x = x.map fun built => ⟨.ofList built, metadata⟩ := by
  unfold Json.assemble
  rw [hm]
  cases x <;> rfl

section

variable (he : document.evaluators? = .ok evaluators) (hf : document.flags? = .ok flags)
  (nodup : flags.keys.Nodup) (hm : document.metadata? = .ok metadata)
  (calm : ∀ raw ∈ flags, ¬ AtLimit (build options (document.onlyFlag raw.1)))
include he hf nodup hm calm

/-- A document with one flag comes to what this flag comes to by itself. -/
theorem build_onlyFlag (hr : raw ∈ flags) : build options (document.onlyFlag raw.1) =
    (plainFlag options evaluators raw).map fun f => ⟨.ofList [f], metadata⟩ := by
  have one : (document.onlyFlag raw.1).flags? = .ok [raw] := by
    rw [Json.onlyFlag, flags?_onlyFlags hf, filter_key_eq nodup hr]
  have he' : (document.onlyFlag raw.1).evaluators? = .ok evaluators :=
    (evaluators?_onlyFlags _).trans he
  have hm' : (document.onlyFlag raw.1).metadata? = .ok metadata := (metadata?_onlyFlags _).trans hm
  rw [build_eq_plain he' one (calm raw hr), assemble_eq_map hm', mapM_cons_eq]
  cases plainFlag options evaluators raw <;> rfl

theorem build_onlyFlag_eq_ok (hr : raw ∈ flags) {m : FlagMap} :
    build options (document.onlyFlag raw.1) = .ok m ↔
      ∃ f, plainFlag options evaluators raw = .ok f ∧ ⟨.ofList [f], metadata⟩ = m := by
  rw [build_onlyFlag he hf nodup hm calm hr, map_eq_ok]

/-- A document with one flag is refused with the error of the flag, and never for its metadata. -/
theorem build_onlyFlag_eq_error (hr : raw ∈ flags) {e : ConfigError} :
    build options (document.onlyFlag raw.1) = .error e ↔
      plainFlag options evaluators raw = .error e := by
  rw [build_onlyFlag he hf nodup hm calm hr, map_eq_error]

/-- The map of a document is the union of those that its flags alone come to. -/
theorem get?_of_build_iff_onlyFlag {m : FlagMap} (accepted : build options document = .ok m)
    (k : String) (f : FeatureFlag) : m.get? k = some f ↔
      ∃ raw ∈ flags, ∃ m', build options (document.onlyFlag raw.1) = .ok m' ∧
        m'.get? k = some f := by
  have entry : ∀ g : String × FeatureFlag, (KeyMap.ofList [g]).get? k = some f ↔ g = (k, f) := by
    intro g
    rw [KeyMap.get?_ofList (by simp), List.mem_singleton, eq_comm]
  rw [get?_of_build he hf nodup accepted]
  refine exists_congr fun raw => and_congr_right fun hr => ?_
  simp only [build_onlyFlag_eq_ok he hf nodup hm calm hr]
  constructor
  · intro h
    exact ⟨_, ⟨_, h, rfl⟩, (entry _).2 rfl⟩
  · rintro ⟨_, ⟨g, hg, rfl⟩, there⟩
    rw [hg, (entry g).1 there]

/-- A document is accepted if all its flags are alone. -/
theorem build_of_onlyFlag (unreached : ¬ AtLimit (build options document))
    (accepted : ∀ raw ∈ flags, ∃ m, build options (document.onlyFlag raw.1) = .ok m) :
    ∃ m, build options document = .ok m ∧ m.metadata = metadata := by
  have fine : ∀ raw ∈ flags, ∃ f, plainFlag options evaluators raw = .ok f := by
    intro raw hr
    obtain ⟨m, hraw⟩ := accepted raw hr
    obtain ⟨f, hf, -⟩ := (build_onlyFlag_eq_ok he hf nodup hm calm hr).1 hraw
    exact ⟨f, hf⟩
  obtain ⟨built, hb⟩ := exists_mapM_eq_ok fine
  rw [build_eq_plain he hf unreached, assemble_eq_map hm, hb]
  exact ⟨_, rfl, rfl⟩

/-- The first flag that is refused alone is refused so in the document. -/
theorem build_eq_error_of_onlyFlag (unreached : ¬ AtLimit (build options document))
    {before after : Members} {e : ConfigError} (split : flags = before ++ raw :: after)
    (fine : ∀ x ∈ before, ∃ m, build options (document.onlyFlag x.1) = .ok m)
    (refused : build options (document.onlyFlag raw.1) = .error e) :
    build options document = .error e := by
  have earlier : ∀ x ∈ before, x ∈ flags := fun x hx => split ▸ List.mem_append_left _ hx
  have hr : raw ∈ flags := split ▸ List.mem_append_right _ List.mem_cons_self
  rw [build_eq_plain he hf unreached, assemble_eq_map hm, map_eq_error]
  refine mapM_eq_error.2 ⟨before, raw, after, split, fun x hx => ?_, ?_⟩
  · obtain ⟨m, hx'⟩ := fine x hx
    obtain ⟨f, hf, -⟩ := (build_onlyFlag_eq_ok he hf nodup hm calm (earlier x hx)).1 hx'
    exact ⟨f, hf⟩
  · exact (build_onlyFlag_eq_error he hf nodup hm calm hr).1 refused

end

/-- Flags do not see each other. An accepted document is accepted with fewer flags, and comes to
what is left of its map. Under a limit that is not reached a document is accepted if it is with
each of its flags alone, and comes to the union of their maps; and if some flag is refused, the
first one is refused alone just as in the document. The keys of an object differ, as they do in
every value that is read from a text (`Source.distinctKeys_value`). -/
theorem parseDocument_isolates (he : document.evaluators? = .ok evaluators)
    (hf : document.flags? = .ok flags) (nodup : flags.keys.Nodup)
    (valid : validator document = .ok ())
    (valid' : ∀ keep, validator (document.onlyFlags keep) = .ok ()) :
    (∀ m, parseDocument validator options document = .ok m → ∀ keep,
      parseDocument validator options (document.onlyFlags keep) = .ok (m.only keep)) ∧
    ∀ metadata, document.metadata? = .ok metadata →
      ¬ AtLimit (parseDocument validator options document) →
      (∀ raw ∈ flags, ¬ AtLimit (parseDocument validator options (document.onlyFlag raw.1))) →
      ((∀ raw ∈ flags, ∃ m, parseDocument validator options (document.onlyFlag raw.1) = .ok m) →
        ∃ m, parseDocument validator options document = .ok m ∧ m.metadata = metadata ∧
          ∀ k f, m.get? k = some f ↔ ∃ raw ∈ flags, ∃ m',
            parseDocument validator options (document.onlyFlag raw.1) = .ok m' ∧
              m'.get? k = some f) ∧
      ∀ before raw after e, flags = before ++ raw :: after →
        (∀ x ∈ before, ∃ m, parseDocument validator options (document.onlyFlag x.1) = .ok m) →
        parseDocument validator options (document.onlyFlag raw.1) = .error e →
        parseDocument validator options document = .error e := by
  have valid₁ : ∀ key, validator (document.onlyFlag key) = .ok () := fun key => valid' (· == key)
  simp only [parseDocument_eq valid, parseDocument_eq (valid' _), parseDocument_eq (valid₁ _)]
  refine ⟨fun m accepted keep => build_onlyFlags accepted keep, fun metadata hm unreached calm => ?_⟩
  constructor
  · intro accepted
    obtain ⟨m, together, same⟩ := build_of_onlyFlag he hf nodup hm calm unreached accepted
    exact ⟨m, together, same, get?_of_build_iff_onlyFlag he hf nodup hm calm together⟩
  · intro before raw after e split fine refused
    exact build_eq_error_of_onlyFlag he hf nodup hm calm unreached split fine refused

/-- Two flags of which the first uses an evaluator and the second the one of some name. -/
def twoFlags (name : String) : Json :=
  let flag (name : String) : Json := .obj [("variations", Json.marker name)]
  .obj [
    (flagsKey, .obj [("first", flag "switch"), ("second", flag name)]),
    (evaluatorsKey, .obj [("switch", .obj [("on", .bool true), ("off", .bool false)])])]

/-- Flags that share an evaluator are each accepted alone, as they are together; a flag that names no
evaluator is refused alone with the error of the whole document. -/
theorem twoFlags_isolated :
    (∃ m, parseDocument .acceptAll {} (twoFlags "switch") = .ok m ∧
      parseDocument .acceptAll {} ((twoFlags "switch").onlyFlag "second") =
        .ok (m.only (· == "second"))) ∧
    ∃ e, parseDocument .acceptAll {} ((twoFlags "none").onlyFlag "second") = .error e ∧
      parseDocument .acceptAll {} (twoFlags "none") = .error e := by
  have isolates := fun name => @parseDocument_isolates .acceptAll {} (twoFlags name) _ _ rfl rfl
    (show ["first", "second"].Nodup by decide) rfl fun _ => rfl
  constructor
  · have accepted : (parseDocument .acceptAll {} (twoFlags "switch")).toOption.isSome = true := by
      decide +kernel
    obtain ⟨m, hm⟩ := isSome_toOption.1 accepted
    exact ⟨m, hm, (isolates "switch").1 m hm (· == "second")⟩
  · have first : (parseDocument .acceptAll {} ((twoFlags "none").onlyFlag "first")).toOption.isSome =
        true := by
      decide +kernel
    have second : (parseDocument .acceptAll {} ((twoFlags "none").onlyFlag "second")).toOption.isSome =
        false := by
      decide +kernel
    cases refused : parseDocument .acceptAll {} ((twoFlags "none").onlyFlag "second") with
    | ok m => simp [refused, Except.toOption] at second
    | error e =>
      have calm : ∀ key ∈ ["first", "second"],
          ¬ AtLimit (parseDocument .acceptAll {} ((twoFlags "none").onlyFlag key)) := by
        decide +kernel
      refine ⟨e, rfl, ?_⟩
      refine ((isolates "none").2 .empty rfl (by decide +kernel) ?_).2 [_] _ [] e rfl ?_ refused
      · intro raw hr
        exact calm raw.1 (List.mem_map_of_mem hr)
      · intro x hx
        obtain rfl := List.mem_singleton.1 hx
        exact isSome_toOption.1 first

end FeatureFlags
