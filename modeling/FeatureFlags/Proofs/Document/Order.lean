import FeatureFlags.Proofs.Document.Filtering
import FeatureFlags.Proofs.Document.Resolved
import FeatureFlags.Proofs.Document.Totals
import FeatureFlags.Proofs.Flag.Order
import FeatureFlags.Proofs.Reference.Order

/-!
# The order of members does not matter

Alike documents are accepted alike, and come to equal maps (`parseDocument_alike`). Each flag is
built by itself from alike expansions. What is copied in for all of them is the same in either order
(`Session.Settles.expandedNodes_eq`), so the limit allows for both or for neither, although they
reach their evaluators at other moments.
-/

namespace FeatureFlags

variable {options : Options} {evaluators evaluators' flags flags' : Members} {a b v w : Json}
  {f g : FeatureFlag} {m n : FlagMap}

/-! ## Flags -/

theorem FeatureFlag.Alike.hasDefault (h : f.Alike g) (default : f.HasDefault) : g.HasDefault := by
  have variations := Json.alike_obj_iff.1 (Option.rel_some_some.1 (h .variations))
  intro name named
  rw [← text_eq_of_rel (h .defaultVariant)] at named
  exact (variations.has_eq name).symm.trans (default name named)

theorem exists_flagOfResolved_of_alike {p : Pointer} (alike : v.Alike w)
    (h : flagOfResolved options p v = .ok f) :
    ∃ g, flagOfResolved options p w = .ok g ∧ f.Alike g := by
  obtain ⟨decoded, checked⟩ := flagOfResolved_eq_ok.1 h
  obtain ⟨g, decoded', related⟩ := FeatureFlag.exists_ofJson?_of_alike alike decoded
  refine ⟨g, flagOfResolved_eq_ok.2 ⟨decoded', fun on => ?_⟩, related⟩
  exact checkDefaultVariant_eq_ok.2 (related.hasDefault (checkDefaultVariant_eq_ok.1 (checked on)))

/-- Alike flags are built alike by themselves. -/
theorem exists_plainFlag_of_alike {key k : String} (both : evaluators.Alike evaluators')
    (alike : v.Alike w) (h : plainFlag options evaluators (key, v) = .ok (k, f)) :
    ∃ g, plainFlag options evaluators' (key, w) = .ok (k, g) ∧ f.Alike g := by
  obtain ⟨same, u, hx, built⟩ := plainFlag_eq_ok.1 h
  obtain ⟨u', hx', expanded⟩ := Resolver.expand_alike both alike _ (flagPointer key) u hx
  obtain ⟨g, built', related⟩ := exists_flagOfResolved_of_alike expanded built
  exact ⟨g, plainFlag_eq_ok.2 ⟨same, u', hx', built'⟩, related⟩

/-- If flags are built under a limit, so are alike flags. -/
theorem exists_attemptFlags_of_alike {built : List (String × FeatureFlag)} {limit : Nat}
    (both : evaluators.Alike evaluators') (alike : flags.Alike flags')
    (h : (attemptFlags options evaluators flags { limit }).1 = .ok built) :
    ∃ built', (attemptFlags options evaluators' flags' { limit }).1 = .ok built' := by
  obtain ⟨plainly, within⟩ := attemptFlags_eq_ok_iff.1 h
  have each := exists_mapM_eq_ok_iff.1 ⟨built, plainly⟩
  have each' : ∀ raw ∈ flags', ∃ f, plainFlag options evaluators' raw = .ok f := by
    intro raw hr
    obtain ⟨v, hv, related⟩ := alike.get?_right ((Members.get?_eq_some_iff alike.right).2 hr)
    obtain ⟨f, hf⟩ := each (raw.1, v) (Members.mem_of_get? hv)
    exact (exists_plainFlag_of_alike both related hf).imp' _ fun _ => And.left
  obtain ⟨built', plainly'⟩ := exists_mapM_eq_ok each'
  refine ⟨built', attemptFlags_eq_ok_iff.2 ⟨plainly', fun limit' h' => ?_⟩⟩
  -- what is copied in is the same, in whatever order the evaluators were reached
  have settles := (Session.sound_fresh limit).attemptFlags_settles h
  have settles' := (Session.sound_fresh limit').attemptFlags_settles h'
  exact settles.expandedNodes_eq both alike settles' ▸ within limit h

/-! ## Sections -/

theorem Json.Alike.rel_get? (h : a.Alike b) (key : String) :
    Option.Rel Json.Alike (a.get? key) (b.get? key) := by
  cases a with
  | obj ms =>
    obtain ⟨ns, rfl, members⟩ := h.exists_obj
    exact members.values key
  | _ => cases b <;> first | exact .none | cases h.same

theorem exists_evaluators?_of_alike (h : a.Alike b) (he : a.evaluators? = .ok evaluators) :
    ∃ evaluators', b.evaluators? = .ok evaluators' ∧ evaluators.Alike evaluators' := by
  have there := h.rel_get? evaluatorsKey
  rcases evaluators?_eq_ok.1 he with given | ⟨absent, rfl⟩
  · obtain ⟨_, given', alike⟩ := (rel_iff.1 there).1 _ given
    obtain ⟨evaluators', rfl, members⟩ := alike.exists_obj
    exact ⟨evaluators', evaluators?_eq_ok.2 (.inl given'), members⟩
  · exact ⟨[], evaluators?_eq_ok.2 (.inr ⟨(rel_none_iff there).1 absent, rfl⟩), Members.alike_nil⟩

theorem exists_flags?_of_alike (h : a.Alike b) (hf : a.flags? = .ok flags) :
    ∃ flags', b.flags? = .ok flags' ∧ flags.Alike flags' := by
  obtain ⟨_, given, alike⟩ := (rel_iff.1 (h.rel_get? flagsKey)).1 _ (flags?_eq_ok.1 hf)
  obtain ⟨flags', rfl, members⟩ := alike.exists_obj
  exact ⟨flags', flags?_eq_ok.2 given, members⟩

theorem metadata?_eq_ok {metadata : Metadata} : a.metadata? = .ok metadata ↔
    (∀ v, a.get? metadataKey = some v → v = .null) ∧ metadata = .empty ∨
      ∃ v, a.get? metadataKey = some v ∧ Metadata.ofJson? v = .ok metadata := by
  unfold Json.metadata?
  cases a.get? metadataKey with
  | none => simp [eq_comm]
  | some v =>
    cases v <;> simp [mapError_eq_ok, Metadata.ofJson?, membersOfJson?, @eq_comm _ metadata]

theorem exists_metadata?_of_alike {metadata : Metadata} (h : a.Alike b)
    (hm : a.metadata? = .ok metadata) :
    ∃ metadata', b.metadata? = .ok metadata' ∧ metadata.toJson.Alike metadata'.toJson := by
  have there := rel_iff.1 (h.rel_get? metadataKey)
  rcases metadata?_eq_ok.1 hm with ⟨null, rfl⟩ | ⟨v, given, decoded⟩
  · refine ⟨.empty, metadata?_eq_ok.2 (.inl ⟨fun w given => ?_, rfl⟩), Json.alike_refl rfl⟩
    obtain ⟨v, given', alike⟩ := there.2 w given
    obtain rfl := null v given'
    exact alike.eq_null
  · obtain ⟨w, given', alike⟩ := there.1 v given
    obtain ⟨metadata', decoded', related⟩ := Metadata.exists_ofJson?_of_alike alike decoded
    exact ⟨metadata', metadata?_eq_ok.2 (.inr ⟨w, given', decoded'⟩), related⟩

/-! ## Documents -/

/-- If a document is accepted, so is an alike one. -/
theorem exists_build_of_alike (h : a.Alike b) (accepted : build options a = .ok m) :
    ∃ n, build options b = .ok n := by
  obtain ⟨evaluators, flags, built, metadata, he, hf, hb, hm, -⟩ := build_eq_ok.1 accepted
  obtain ⟨evaluators', he', both⟩ := exists_evaluators?_of_alike h he
  obtain ⟨flags', hf', alike⟩ := exists_flags?_of_alike h hf
  obtain ⟨metadata', hm', -⟩ := exists_metadata?_of_alike h hm
  rw [← attemptFlags_fst] at hb
  obtain ⟨built', hb'⟩ := exists_attemptFlags_of_alike both alike hb
  rw [attemptFlags_fst] at hb'
  exact ⟨_, build_eq_ok.2 ⟨evaluators', flags', built', metadata', he', hf', hb', hm', rfl⟩⟩

/-- The flags of alike documents that are both accepted are alike. -/
theorem exists_get?_of_alike (h : a.Alike b) (ha : build options a = .ok m)
    (hb : build options b = .ok n) {key : String} (there : m.get? key = some f) :
    ∃ g, n.get? key = some g ∧ f.Alike g := by
  obtain ⟨evaluators, flags, -, -, he, hf, -, -, -⟩ := build_eq_ok.1 ha
  obtain ⟨evaluators', he', both⟩ := exists_evaluators?_of_alike h he
  obtain ⟨flags', hf', alike⟩ := exists_flags?_of_alike h hf
  obtain ⟨raw, hr, built⟩ := (get?_of_build he hf alike.left ha).1 there
  obtain ⟨w, hw, related⟩ := alike.get?_left ((Members.get?_eq_some_iff alike.left).2 hr)
  obtain ⟨g, built', same⟩ := exists_plainFlag_of_alike both related built
  exact ⟨g, (get?_of_build he' hf' alike.right hb).2 ⟨_, Members.mem_of_get? hw, built'⟩, same⟩

theorem same_of_alike (h : a.Alike b) (ha : build options a = .ok m)
    (hb : build options b = .ok n) : m.same n = true := by
  have entries : m.flags.agree FeatureFlag.same n.flags = true := by
    refine KeyMap.agree_of_rel fun key => rel_iff.2 ⟨fun f there => ?_, fun g there => ?_⟩
    · obtain ⟨g, there', alike⟩ := exists_get?_of_alike h ha hb there
      exact ⟨g, there', alike.same⟩
    · obtain ⟨f, there', -⟩ := exists_get?_of_alike h.symm hb ha there
      obtain ⟨_, again, alike⟩ := exists_get?_of_alike h ha hb there'
      obtain rfl := Option.some.inj (there.symm.trans again)
      exact ⟨f, there', alike.same⟩
  obtain ⟨_, _, _, metadata, -, -, -, hm, rfl⟩ := build_eq_ok.1 ha
  obtain ⟨_, _, _, metadata', -, -, -, hm', rfl⟩ := build_eq_ok.1 hb
  obtain ⟨_, again, alike⟩ := exists_metadata?_of_alike h hm
  obtain rfl := Except.ok.inj (hm'.symm.trans again)
  exact Bool.and_eq_true_iff.2 ⟨entries, Metadata.same_of_alike alike⟩

/-- Whether a document is accepted, and the map that it comes to, do not depend on the order of the
members of any object in it, as long as the validator passes it in either order or in neither. -/
theorem parseDocument_alike {validator : Validator} (h : a.Alike b)
    (verdict : validator a = .ok () ↔ validator b = .ok ()) :
    ((∃ m, parseDocument validator options a = .ok m) ↔
      ∃ n, parseDocument validator options b = .ok n) ∧
    ∀ m n, parseDocument validator options a = .ok m → parseDocument validator options b = .ok n →
      m.same n = true := by
  simp only [parseDocument_eq_ok]
  refine ⟨⟨?_, ?_⟩, ?_⟩
  · rintro ⟨m, valid, accepted⟩
    exact (exists_build_of_alike h accepted).imp fun _ built => ⟨verdict.1 valid, built⟩
  · rintro ⟨n, valid, accepted⟩
    exact (exists_build_of_alike h.symm accepted).imp fun _ built => ⟨verdict.2 valid, built⟩
  · rintro m n ⟨-, ha⟩ ⟨-, hb⟩
    exact same_of_alike h ha hb

/-- Two flags that share an evaluator, one of them by way of another. -/
def sharedRule : Json :=
  .obj [
    (flagsKey, .obj [
      ("first", .obj [
        ("variations", .obj [("on", .bool true), ("off", .bool false)]),
        ("targeting", .marker "rule"),
        ("metadata", .obj [("owner", .str "web"), ("stable", .bool true)])]),
      ("second", .obj [
        ("defaultVariant", .str "up"),
        ("variations", .marker "levels")])]),
    (evaluatorsKey, .obj [
      ("rule", .obj [("if", .marker "condition"), ("else", .null)]),
      ("levels", .obj [("up", .marker "condition"), ("down", .null)]),
      ("condition", .arr [.bool true])])]

/-- The same with every object the other way round. -/
def sharedRuleReversed : Json :=
  .obj [
    (evaluatorsKey, .obj [
      ("condition", .arr [.bool true]),
      ("levels", .obj [("down", .null), ("up", .marker "condition")]),
      ("rule", .obj [("else", .null), ("if", .marker "condition")])]),
    (flagsKey, .obj [
      ("second", .obj [
        ("variations", .marker "levels"),
        ("defaultVariant", .str "up")]),
      ("first", .obj [
        ("metadata", .obj [("stable", .bool true), ("owner", .str "web")]),
        ("targeting", .marker "rule"),
        ("variations", .obj [("off", .bool false), ("on", .bool true)])])])]

/-- The limit allows for just what is copied in. -/
theorem sharedRule_alike :
    sharedRule.Alike sharedRuleReversed ∧
    sharedRule.expandedNodes { limit := 12 } = 12 ∧
    ∃ m n, parseDocument .acceptAll { limit := 12 } sharedRule = .ok m ∧
      parseDocument .acceptAll { limit := 12 } sharedRuleReversed = .ok n ∧ m.same n = true := by
  have alike : sharedRule.Alike sharedRuleReversed := by
    refine ⟨?_, ?_, ?_⟩ <;> decide +kernel
  have accepted : (parseDocument .acceptAll { limit := 12 } sharedRule).toOption.isSome = true := by
    decide +kernel
  obtain ⟨m, hm⟩ := isSome_toOption.1 accepted
  have both := @parseDocument_alike { limit := 12 } _ _ .acceptAll alike Iff.rfl
  obtain ⟨n, hn⟩ := both.1.1 ⟨m, hm⟩
  exact ⟨alike, by decide +kernel, m, n, hm, hn, both.2 m n hm hn⟩

end FeatureFlags
