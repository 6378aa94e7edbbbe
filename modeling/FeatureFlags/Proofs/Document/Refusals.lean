import FeatureFlags.Proofs.Document.Build
import FeatureFlags.Proofs.Document.Keys
import FeatureFlags.Proofs.Reference.Blame

/-!
# Why a text is refused

Each stage that can refuse a text is turned around: a flag is refused for a fault of its resolution,
for what it expands to does not decode, or for its default variant (`buildFlags_error`,
`flagOfResolved_error`), a document for one of its flags or for its metadata (`build_error`), and a
text for what it is read as, for its keys, or when it is built (`parse_error`).
-/

namespace FeatureFlags

variable {options : Options} {document v : Json} {evaluators flags : Members} {p : Pointer}
  {e : ConfigError}

/-! ## Flags -/

theorem checkDefaultVariant_error {f : FeatureFlag} (h : f.checkDefaultVariant p = .error e) :
    ∃ name, f.defaultVariant = some name ∧ f.variations.has name = false ∧
      e = .invalid (p.child "defaultVariant") (.unknownDefault name) := by
  unfold FeatureFlag.checkDefaultVariant at h
  split at h
  next name named =>
    split at h
    · cases h
    next unknown =>
      cases h
      exact ⟨name, named, eq_false_of_ne_true unknown, rfl⟩
  next => cases h

theorem flagOfResolved_error (h : flagOfResolved options p v = .error e) :
    (∃ fault, FeatureFlag.ofJson? v = .error fault ∧ e = .invalid p (.undecodable fault)) ∨
      ∃ f name, FeatureFlag.ofJson? v = .ok f ∧ f.defaultVariant = some name ∧
        f.variations.has name = false ∧
        e = .invalid (p.child "defaultVariant") (.unknownDefault name) := by
  rcases bind_eq_error.1 h with h | ⟨f, hf, h⟩
  · obtain ⟨fault, broken, rfl⟩ := mapError_eq_error.1 h
    exact .inl ⟨fault, broken, rfl⟩
  · split at h
    · rcases bind_eq_error.1 h with h | ⟨_, -, h⟩
      · obtain ⟨name, named, unknown, rfl⟩ := checkDefaultVariant_error h
        exact .inr ⟨f, name, mapError_eq_ok.1 hf, named, unknown, rfl⟩
      · cases h
    · cases h

/-- One of the flags is at fault, by a fault of its resolution or by what it expands to. -/
theorem buildFlags_error {s : Session} (h : s.Faithful evaluators [])
    (hb : buildFlags options evaluators s flags = .error e) : ∃ raw ∈ flags,
      (∃ fault : ReferenceError, fault.BlamedOn evaluators raw.2 (flagPointer raw.1) ∧
        e = .ofReferenceError fault) ∨
      ∃ v, Resolver.expand evaluators [] raw.2 (flagPointer raw.1) = ⟨v, none⟩ ∧
        flagOfResolved options (flagPointer raw.1) v = .error e := by
  induction flags generalizing s with
  | nil => cases hb
  | cons m more ih =>
    obtain ⟨key, raw⟩ := m
    have mirrors := Resolver.resolve_mirrors raw (flagPointer key) h
    rw [buildFlags] at hb
    cases hw : s.resolve evaluators raw (flagPointer key) with
    | mk v error? s' =>
      rw [hw] at hb mirrors
      cases error? with
      | some fault =>
        cases hb
        have blamed := Session.resolve_blames (congrArg Walked.error? hw)
        exact ⟨_, List.mem_cons_self, .inl ⟨fault, blamed, rfl⟩⟩
      | none =>
        rcases bind_eq_error.1 hb with hf | ⟨f, -, hb⟩
        · exact ⟨_, List.mem_cons_self, .inr ⟨v, (mirrors.result (by simp)).symm, hf⟩⟩
        · rcases bind_eq_error.1 hb with ho | ⟨others, -, hb⟩
          · obtain ⟨x, hx, at_fault⟩ := ih mirrors.faithful ho
            exact ⟨x, List.mem_cons_of_mem _ hx, at_fault⟩
          · cases hb

/-! ## Documents -/

/-- A document with both sections is refused for one of its flags or for its metadata. -/
theorem build_error (he : document.evaluators? = .ok evaluators) (hf : document.flags? = .ok flags)
    (h : build options document = .error e) :
    buildFlags options evaluators { limit := options.limit } flags = .error e ∨
      ∃ v fault, document.get? metadataKey = some v ∧
        e = .invalid (Pointer.child "" metadataKey) (.undecodable fault) := by
  rcases bind_eq_error.1 h with h | ⟨_, he', h⟩
  · rw [he] at h
    cases h
  obtain rfl := Except.ok.inj (he.symm.trans he')
  rcases bind_eq_error.1 h with h | ⟨_, hf', h⟩
  · rw [hf] at h
    cases h
  obtain rfl := Except.ok.inj (hf.symm.trans hf')
  rcases bind_eq_error.1 h with h | ⟨built, -, h⟩
  · exact .inl h
  rcases bind_eq_error.1 h with h | ⟨metadata, -, h⟩
  · unfold Json.metadata? at h
    split at h
    · cases h
    · cases h
    next v _ hv =>
      obtain ⟨fault, -, rfl⟩ := mapError_eq_error.1 h
      exact .inr ⟨v, fault, hv, rfl⟩
  · cases h

/-! ## Texts -/

/-- A text that is read is refused for its violations, or if it has none, for a repeated key or when
it is built. -/
theorem parse_error {text : String} {source : Source} (read : Source.ofText? text = .ok source)
    (h : parse text = .error e) : (∃ violations, e = .violations violations) ∨
      Bundled.schema.violations source.value = [] ∧
        (checkRepeatedKeys source = .error e ∨ build {} source.value = .error e) := by
  rcases bind_eq_error.1 h with h | ⟨_, read', h⟩
  · rw [read] at h
    cases h
  obtain rfl := Except.ok.inj (read.symm.trans (mapError_eq_ok.1 read'))
  rcases bind_eq_error.1 h with h | ⟨_, valid, h⟩
  · obtain ⟨violations, -, rfl⟩ := mapError_eq_error.1 h
    exact .inl ⟨violations, rfl⟩
  refine .inr ⟨bundledValidator_eq_ok.1 (mapError_eq_ok.1 valid), ?_⟩
  rcases bind_eq_error.1 h with h | ⟨_, -, h⟩
  · exact .inl h
  · exact .inr h

end FeatureFlags
