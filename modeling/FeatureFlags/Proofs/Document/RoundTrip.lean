import FeatureFlags.Proofs.Document.Resolved

/-!
# Maps read back

The document of a map that was read has every flag written out, free of references, and no
evaluators. So it is built flag by flag without a session (`attemptFlags_of_closed`), each flag is
read back from what is written for it, and the check of default variants passes as it did before.
-/

namespace FeatureFlags

/-- The flags of a map as a document has them. -/
def FlagMap.written (m : FlagMap) : Members :=
  m.flags.entries.map fun f => (f.1, f.2.toJson)

variable {validator : Validator} {options : Options} {m : FlagMap}

namespace FlagMap

theorem evaluators?_toJson (m : FlagMap) : m.toJson.evaluators? = .ok [] := by
  refine evaluators?_eq_ok.2 (.inr ⟨?_, rfl⟩)
  simp [toJson, Json.get?, evaluatorsKey]

theorem flags?_toJson (m : FlagMap) : m.toJson.flags? = .ok m.written := by
  refine flags?_eq_ok.2 ?_
  simp [toJson, Json.get?, flagsKey, written]

/-- What is written for metadata that is empty or not is read back. -/
theorem metadata?_toJson (m : FlagMap) : m.toJson.metadata? = .ok m.metadata := by
  have there : m.toJson.get? metadataKey =
      if m.metadata.isEmpty then none else some m.metadata.toJson := by
    simp [toJson, Json.get?, metadataKey]
  unfold Json.metadata?
  rw [there]
  by_cases none : m.metadata.isEmpty
  · rw [if_pos none, KeyMap.eq_empty none]
  · rw [if_neg none]
    exact mapError_eq_ok.2 (Metadata.ofJson?_toJson m.metadata)

end FlagMap

/-- A flag of an accepted document is built again from what is written for it. -/
theorem plainFlag_toJson {document : Json} (accepted : build options document = .ok m)
    {f : String × FeatureFlag} (hf : f ∈ m.flags.entries) :
    f.2.toJson.Closed ∧ plainFlag options [] (f.1, f.2.toJson) = .ok f := by
  obtain ⟨v, closed, built⟩ := decoded_of_build accepted hf
  obtain ⟨decoded, checked⟩ := flagOfResolved_eq_ok.1 built
  have closed' : f.2.toJson.Closed :=
    (FeatureFlag.referenceFree_of_ofJson? decoded closed.referenceFree).toJson.closed
  have back : FeatureFlag.ofJson? f.2.toJson = .ok f.2 :=
    FeatureFlag.ofJson?_toJson (FeatureFlag.written_ne_null decoded)
  exact ⟨closed', plainFlag_eq_ok.2
    ⟨rfl, _, Resolver.expand_of_closed closed', flagOfResolved_eq_ok.2 ⟨back, checked⟩⟩⟩

/-- The document of a map that was read is read as the same map under the same options, and reading
it leaves a session as it is: no reference is charged for, put in place or remembered. -/
theorem parseDocument_toJson (h : m.ParsedBy validator options) :
    parseDocument .acceptAll options m.toJson = .ok m ∧ m.toJson.evaluators? = .ok [] ∧
      ∃ flags, m.toJson.flags? = .ok flags ∧ ∀ s, (attemptFlags options [] flags s).2 = s := by
  obtain ⟨document, accepted⟩ := h.built
  have closed : ∀ raw ∈ m.written, raw.2.Closed := by
    intro raw hr
    obtain ⟨f, hf, rfl⟩ := List.mem_map.1 hr
    exact (plainFlag_toJson accepted hf).1
  have walked := fun s => @attemptFlags_of_closed options [] m.written closed s
  have again : m.written.mapM (plainFlag options []) = .ok m.flags.entries := by
    rw [FlagMap.written, mapM_map_congr fun f hf => (plainFlag_toJson accepted hf).2]
    exact List.mapM_pure.trans (congrArg Except.ok (List.map_id _))
  refine ⟨?_, m.evaluators?_toJson, m.written, m.flags?_toJson, fun s => by rw [walked]⟩
  rw [parseDocument_eq rfl, build_eq m.evaluators?_toJson m.flags?_toJson, walked, again,
    assemble_eq_ok]
  exact ⟨_, _, rfl, m.metadata?_toJson, by rw [KeyMap.ofList_entries]⟩

/-- Settings that come from a null or are left out, in an object and in an array; the flags are
named like the key of a marker and like a section. -/
def sparseSettings : Json :=
  .obj [
    (flagsKey, .obj [
      (refKey, .obj [("variations", .obj []), ("targeting", .marker "nothing"),
        ("version", .null), ("metadata", .obj [])]),
      (evaluatorsKey, .arr [.obj [("on", .marker "nothing")], .str "on"])]),
    (evaluatorsKey, .obj [("nothing", .null)]),
    (metadataKey, .null)]

theorem sparseSettings_toJson : ∃ m, parseDocument .acceptAll {} sparseSettings = .ok m ∧
    m.flags.keys.Perm [refKey, evaluatorsKey] ∧
    parseDocument .acceptAll {} m.toJson = .ok m ∧ m.toJson.evaluators? = .ok [] ∧
      ∃ flags, m.toJson.flags? = .ok flags ∧ ∀ s, (attemptFlags {} [] flags s).2 = s := by
  have accepted : (parseDocument .acceptAll {} sparseSettings).toOption.isSome = true := by
    decide +kernel
  obtain ⟨m, hm⟩ := isSome_toOption.1 accepted
  have keys := perm_keys_of_build rfl (by decide) (parseDocument_eq_ok.1 hm).2
  exact ⟨m, hm, keys, parseDocument_toJson (.inr ⟨_, hm⟩)⟩

end FeatureFlags
