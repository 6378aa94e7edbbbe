import FeatureFlags.Proofs.Document.Sections
import FeatureFlags.Proofs.Reference.Closed

/-!
# Parsing commutes with inlining

`Json.inline` leaves the evaluators of a document out and puts every flag in place by itself, as
expanded. Nothing is left to replace in such a document (`attemptFlags_of_closed`), so it is built
from the same flags: `parseDocument_inline`.
-/

namespace FeatureFlags

variable {options : Options} {evaluators flags : Members} {document : Json}

/-- The flags of a document, each replaced by its plain expansion. -/
def Members.expanded (evaluators flags : Members) : Members :=
  flags.map fun raw => (raw.1, (Resolver.expand evaluators [] raw.2 (flagPointer raw.1)).value)

/-- The document without evaluators and with every flag replaced by its plain expansion. -/
def Json.inline (document : Json) : Json :=
  match document.evaluators? with
  | .ok evaluators => (document.mapSection flagsKey evaluators.expanded).without evaluatorsKey
  | .error _ => document

/-! ## Flags with nothing to replace -/

theorem attemptFlag_of_closed {raw : String × Json} (closed : raw.2.Closed) (s : Session) :
    attemptFlag options evaluators raw s = (plainFlag options evaluators raw, s) := by
  unfold attemptFlag plainFlag
  rw [Session.resolve_of_closed closed, Resolver.expand_of_closed closed]
  rfl

/-- Flags with nothing to replace are built by themselves and leave the session alone. -/
theorem attemptFlags_of_closed (closed : ∀ raw ∈ flags, raw.2.Closed) (s : Session) :
    attemptFlags options evaluators flags s = (flags.mapM (plainFlag options evaluators), s) := by
  induction flags with
  | nil => rfl
  | cons raw more ih =>
    obtain ⟨first, rest⟩ := List.forall_mem_cons.1 closed
    rw [attemptFlags, mapM_cons_eq, attemptFlag_of_closed first]
    cases plainFlag options evaluators raw with
    | error e => rfl
    | ok f =>
      simp only [Attempt.andThen, ih rest]
      cases more.mapM (plainFlag options evaluators) <;> rfl

theorem plainFlag_expanded {raw : String × Json}
    (expands : (Resolver.expand evaluators [] raw.2 (flagPointer raw.1)).error? = none) :
    plainFlag options [] (raw.1, (Resolver.expand evaluators [] raw.2 (flagPointer raw.1)).value) =
      plainFlag options evaluators raw := by
  cases hx : Resolver.expand evaluators [] raw.2 (flagPointer raw.1) with
  | mk v error? =>
    rw [hx] at expands
    obtain rfl : error? = none := expands
    have closed := Resolver.closed_of_expand_done hx
    simp only [plainFlag, hx, Resolver.expand_of_closed closed]

theorem closed_expanded
    (expands : ∀ raw ∈ flags,
      (Resolver.expand evaluators [] raw.2 (flagPointer raw.1)).error? = none) :
    ∀ raw ∈ evaluators.expanded flags, raw.2.Closed := by
  intro x hx
  obtain ⟨raw, hr, rfl⟩ := List.mem_map.1 hx
  have done : Resolver.expand evaluators [] raw.2 (flagPointer raw.1) =
      ⟨(Resolver.expand evaluators [] raw.2 (flagPointer raw.1)).value, none⟩ := by
    rw [← expands raw hr]
  exact Resolver.closed_of_expand_done done

/-! ## The document with its flags in place -/

theorem get?_inline (he : document.evaluators? = .ok evaluators) {key : String}
    (other : key ≠ evaluatorsKey) :
    document.inline.get? key = (document.mapSection flagsKey evaluators.expanded).get? key := by
  rw [Json.inline, he, Json.get?_without, if_neg other]

theorem build_inline (he : document.evaluators? = .ok evaluators)
    (hf : document.flags? = .ok flags)
    (expands : ∀ raw ∈ flags,
      (Resolver.expand evaluators [] raw.2 (flagPointer raw.1)).error? = none) :
    build options document.inline =
      document.assemble (flags.mapM (plainFlag options evaluators)) := by
  have he' : document.inline.evaluators? = .ok [] := by
    refine evaluators?_eq_ok.2 (.inr ⟨?_, rfl⟩)
    rw [Json.inline, he, Json.get?_without, if_pos rfl]
  have hf' : document.inline.flags? = .ok (evaluators.expanded flags) := by
    refine flags?_eq_ok.2 ?_
    rw [get?_inline he (by decide), Json.get?_mapSection (flags?_eq_ok.1 hf)]
  have metadata : document.inline.metadata? = document.metadata? := by
    refine Json.metadata?_congr ?_
    rw [get?_inline he (by decide), Json.get?_mapSection_ne (by decide)]
  rw [build_eq he' hf', attemptFlags_of_closed (closed_expanded expands),
    Json.assemble_congr metadata]
  exact congrArg document.assemble (mapM_map_congr fun raw hr => plainFlag_expanded (expands raw hr))

/-- A document comes to the same as with its evaluators put in place, whether it is accepted or
refused. An accepted map has the keys of the flags, in the order of their bytes, and under each the
flag that its expansion decodes to. The keys of an object differ, as they do in every value that is
read from a text (`Source.distinctKeys_value`). -/
theorem parseDocument_inline {validator : Validator}
    (he : document.evaluators? = .ok evaluators) (hf : document.flags? = .ok flags)
    (nodup : flags.keys.Nodup)
    (expands : ∀ raw ∈ flags,
      (Resolver.expand evaluators [] raw.2 (flagPointer raw.1)).error? = none)
    (valid : validator document = .ok ()) (valid' : validator document.inline = .ok ())
    (unreached : ¬ AtLimit (parseDocument validator options document)) :
    parseDocument validator options document.inline = parseDocument validator options document ∧
      ∀ m, parseDocument validator options document = .ok m →
        m.flags.keys.Perm flags.keys ∧
        (m.flags.keys.Pairwise fun j k => Text.bytes j < Text.bytes k) ∧
        ∀ raw ∈ flags, ∃ f, m.get? raw.1 = some f ∧ FeatureFlag.ofJson?
          (Resolver.expand evaluators [] raw.2 (flagPointer raw.1)).value = .ok f := by
  rw [parseDocument_eq valid] at unreached ⊢
  rw [parseDocument_eq valid', build_inline he hf expands, ← build_eq_plain he hf unreached]
  refine ⟨rfl, fun m accepted => ?_⟩
  obtain ⟨built, entries, keys, there, -⟩ := built_of_build he hf accepted
  have sorted := KeyMap.perm_keys_ofList (show (built.map (·.1)).Nodup from keys ▸ nodup)
  refine ⟨?_, KeyMap.pairwise_bytes _, fun raw hr => ?_⟩
  · rwa [entries, ← keys]
  · obtain ⟨f, -, origin⟩ := there raw hr
    refine ⟨f.2, (get?_of_build he hf nodup accepted).2 ⟨raw, hr, ?_⟩, ?_⟩
    · rw [plainFlag_eq_ok.2 origin, origin.1]
    · obtain ⟨-, v, hx, decoded⟩ := origin
      rw [hx]
      exact (flagOfResolved_eq_ok.1 decoded).1

/-- Two flags that share their variations; one of them stands in an evaluator as a whole. -/
def sharedVariations : Json :=
  .obj [
    (flagsKey, .obj [
      ("second", .obj [("variations", .marker "switch")]),
      ("first", .marker "whole")]),
    (evaluatorsKey, .obj [
      ("whole", .obj [("variations", .marker "switch")]),
      ("switch", .obj [("on", .bool true), ("off", .bool false)])])]

/-- The map has both flags, whether the evaluators are put in place first or not. -/
theorem sharedVariations_inline : ∃ m,
    parseDocument .acceptAll {} sharedVariations = .ok m ∧
    parseDocument .acceptAll {} sharedVariations.inline = .ok m ∧
    m.flags.keys.Perm ["first", "second"] := by
  have accepted : (parseDocument .acceptAll {} sharedVariations).toOption.isSome = true := by
    decide +kernel
  obtain ⟨m, hm⟩ := isSome_toOption.1 accepted
  have built : build {} sharedVariations = .ok m := (parseDocument_eq rfl).symm.trans hm
  have inline := @parseDocument_inline {} _ _ sharedVariations .acceptAll rfl rfl (by decide)
    (fun _ => expands_of_build rfl rfl built) rfl rfl (by decide +kernel)
  refine ⟨m, hm, inline.1.trans hm, ?_⟩
  exact (inline.2 m hm).1.trans (.swap _ _ _)

end FeatureFlags
