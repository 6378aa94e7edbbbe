import FeatureFlags.Proofs.Json.Alike
import FeatureFlags.Proofs.Reference.Ledger

/-!
# The order of evaluators and members

Where the evaluators are alike, alike values expand to alike values (`expand_alike`), in whatever
order the markers in them are met. They mention the same names as often (`markerNames_perm`), reach
the same evaluators, and count for the same number of values copied in (`copiedIn_eq`).
-/

namespace FeatureFlags

variable {evaluators evaluators' : Members} {stack : List String} {ms ns ws : Members}
  {v v' w : Json} {name : String} {p : Pointer}

/-! ## Markers -/

theorem Json.Alike.eq_marker (h : (marker name).Alike v) : v = marker name := by
  obtain ⟨ns, rfl, members⟩ := h.exists_obj
  obtain ⟨w, rfl, alike⟩ := members.exists_singleton
  rw [alike.eq_str]
  rfl

theorem Members.Alike.markerName?_eq_ok (h : ms.Alike ns) (marker : ms.isMarker = true)
    (named : ms.markerName? = .ok name) : ns.markerName? = .ok name := by
  obtain rfl := Members.markerName?_eq_ok marker named
  obtain rfl : ns = [(refKey, .str name)] :=
    Json.obj.inj (Json.Alike.eq_marker (Json.alike_obj_iff.2 h))
  rfl

theorem Site.names_append (xs ys : List Site) : names (xs ++ ys) = names xs ++ names ys :=
  List.filterMap_append

namespace Json

theorem names_sitesInItems_eq (items : List Json) (p : Pointer) (i : Nat) :
    Site.names (sitesInItems items p i) = items.flatMap markerNames := by
  induction items generalizing i with
  | nil => rfl
  | cons v more ih => rw [sitesInItems, Site.names_append, names_sites_eq, ih, List.flatMap_cons]

theorem names_sitesInMembers_eq (ms : Members) (p : Pointer) :
    Site.names (sitesInMembers ms p) = ms.flatMap fun m => m.2.markerNames := by
  induction ms with
  | nil => rfl
  | cons m more ih => rw [sitesInMembers, Site.names_append, names_sites_eq, ih, List.flatMap_cons]

/-- Alike values have the markers of the same names in them, each as often. -/
theorem Alike.markerNames_perm (h : v.Alike v') : v.markerNames.Perm v'.markerNames := by
  refine Alike.induct (P := fun v v' => v.markerNames.Perm v'.markerNames) (.refl _)
    (fun _ => .refl _) (fun _ _ _ => .refl _) (fun _ => .refl _) ?_ ?_ h
  · intro as bs _ ih
    rw [markerNames, markerNames, sites, sites, names_sitesInItems_eq, names_sitesInItems_eq]
    exact flatMap_perm_of_forall₂ ih
  · intro ms ns members ih
    have both : ns.isMarker = ms.isMarker := (members.has_eq refKey).symm
    rw [markerNames, markerNames, sites, sites, both]
    by_cases marker : ms.isMarker
    · rw [if_pos marker, if_pos marker]
      cases hm : ms.markerName? with
      | ok name => rw [members.markerName?_eq_ok marker hm]
      | error fault =>
        cases hn : ns.markerName? with
        | ok name =>
          rw [members.symm.markerName?_eq_ok (both ▸ marker) hn] at hm
          cases hm
        | error fault' => exact .refl _
    · obtain ⟨os, perm, aligned⟩ := Members.exists_aligned members.left members.right ih
      rw [if_neg marker, if_neg marker, names_sitesInMembers_eq, names_sitesInMembers_eq]
      have names := flatMap_perm_of_forall₂ (aligned.imp fun _ _ => And.right)
      exact names.trans (perm.flatMap_right _)

end Json

/-! ## Expansion -/

namespace Resolver

theorem expandItems_cons_done {items ws : List Json} {i : Nat} :
    expandItems evaluators stack (v :: items) p i = ⟨ws, none⟩ ↔
      ∃ w others, expand evaluators stack v (p.item i) = ⟨w, none⟩ ∧
        expandItems evaluators stack items p (i + 1) = ⟨others, none⟩ ∧ ws = w :: others := by
  rw [expandItems]
  obtain ⟨w, _ | e⟩ := expand evaluators stack v (p.item i)
  · obtain ⟨others, _ | e⟩ := expandItems evaluators stack items p (i + 1)
    · simp [Expansion.map, eq_comm]
    · simp [Expansion.map]
  · simp

theorem exists_expandMembers
    (each : ∀ m ∈ ms, ∃ w, expand evaluators stack m.2 (p.child m.1) = ⟨w, none⟩) :
    ∃ ws, expandMembers evaluators stack ms p = ⟨ws, none⟩ := by
  induction ms with
  | nil => exact ⟨[], by rw [expandMembers]⟩
  | cons m more ih =>
    obtain ⟨⟨w, hw⟩, rest⟩ := List.forall_mem_cons.1 each
    obtain ⟨others, ho⟩ := ih rest
    exact ⟨(m.1, w) :: others, expandMembers_cons_done.2 ⟨w, others, hw, ho, rfl⟩⟩

/-- Wherever the values stand, if the first expands, so does the second, and to the like. -/
def ExpandsLike (evaluators evaluators' : Members) (stack : List String) (v v' : Json) : Prop :=
  ∀ p q w, expand evaluators stack v p = ⟨w, none⟩ →
    ∃ w', expand evaluators' stack v' q = ⟨w', none⟩ ∧ w.Alike w'

theorem expandItems_alike {as bs ws : List Json} {q : Pointer} {i j : Nat}
    (items : List.Forall₂ (ExpandsLike evaluators evaluators' stack) as bs)
    (done : expandItems evaluators stack as p i = ⟨ws, none⟩) :
    ∃ ws', expandItems evaluators' stack bs q j = ⟨ws', none⟩ ∧ List.Forall₂ Json.Alike ws ws' := by
  induction items generalizing ws i j with
  | nil =>
    rw [expandItems] at done ⊢
    cases done
    exact ⟨[], rfl, .nil⟩
  | cons first _ ih =>
    obtain ⟨w, others, hw, ho, rfl⟩ := expandItems_cons_done.1 done
    obtain ⟨w', hw', alike⟩ := first _ (q.item j) w hw
    obtain ⟨others', ho', alikes⟩ := ih (j := j + 1) ho
    exact ⟨_, expandItems_cons_done.2 ⟨w', others', hw', ho', rfl⟩, .cons alike alikes⟩

theorem expandMembers_alike {q : Pointer} (members : ms.Alike ns)
    (each : ∀ k, Option.Rel (ExpandsLike evaluators evaluators' stack) (ms.get? k) (ns.get? k))
    (done : expandMembers evaluators stack ms p = ⟨ws, none⟩) :
    ∃ ws', expandMembers evaluators' stack ns q = ⟨ws', none⟩ ∧ ws.Alike ws' := by
  -- what stands under a key expands on both sides, and to the like
  have under : ∀ k v', ns.get? k = some v' → ∃ w w', ws.get? k = some w ∧
      expand evaluators' stack v' (q.child k) = ⟨w', none⟩ ∧ w.Alike w' := by
    intro k v' hv'
    obtain ⟨v, hv, follows⟩ := (rel_iff.1 (each k)).2 v' hv'
    rcases get?_expandMembers done k with ⟨absent, -⟩ | ⟨_, w, there, hw, hx⟩
    · rw [hv] at absent
      cases absent
    · obtain rfl := Option.some.inj (hv.symm.trans there)
      obtain ⟨w', hx', alike⟩ := follows _ (q.child k) w hx
      exact ⟨w, w', hw, hx', alike⟩
  obtain ⟨ws', done'⟩ : ∃ ws', expandMembers evaluators' stack ns q = ⟨ws', none⟩ := by
    refine exists_expandMembers fun n hn => ?_
    obtain ⟨-, w', -, hx', -⟩ := under n.1 n.2 ((Members.get?_eq_some_iff members.right).2 hn)
    exact ⟨w', hx'⟩
  refine ⟨ws', done', ?_, ?_, fun k => ?_⟩
  · rw [keys_expandMembers done]
    exact members.left
  · rw [keys_expandMembers done']
    exact members.right
  · rcases get?_expandMembers done' k with ⟨absent, hw'⟩ | ⟨v', w', hv', hw', hx'⟩
    · rw [← rel_none_iff (each k)] at absent
      rcases get?_expandMembers done k with ⟨-, hw⟩ | ⟨_, _, there, -⟩
      · rw [hw, hw']
        exact .none
      · rw [absent] at there
        cases there
    · obtain ⟨w, w'', hw, hx'', alike⟩ := under k v' hv'
      obtain rfl : w' = w'' := congrArg Expansion.value (hx'.symm.trans hx'')
      rw [hw, hw']
      exact .some alike

/-- If alike evaluators expand to the like, so do the copies of their markers. -/
theorem copy_alike (both : evaluators.Alike evaluators')
    (step : ∀ raw raw', evaluators.get? name = some raw → name ∉ stack → raw.Alike raw' →
      ExpandsLike evaluators evaluators' (name :: stack) raw raw')
    (copied : copy evaluators stack name p = .ok w) (q : Pointer) :
    ∃ w', copy evaluators' stack name q = .ok w' ∧ w.Alike w' := by
  obtain ⟨raw, known, new, hx⟩ := copy_eq_ok_iff.1 copied
  obtain ⟨raw', known', alike⟩ := both.get?_left known
  obtain ⟨w', hx', alike'⟩ := step raw raw' known new alike _ (evaluatorPointer name) w hx
  exact ⟨w', copy_eq_ok_iff.2 ⟨raw', known', new, hx'⟩, alike'⟩

/-- Where the evaluators are alike, alike values expand to alike values. -/
theorem expand_alike (both : evaluators.Alike evaluators') (h : v.Alike v') :
    ExpandsLike evaluators evaluators' stack v v' := by
  induction hn : free evaluators stack using Nat.strongRecOn generalizing stack v v' with
  | ind n ih =>
    have atoms : ∀ {u u' : Json}, (∀ p, expand evaluators stack u p = ⟨u, none⟩) →
        (∀ p, expand evaluators' stack u' p = ⟨u', none⟩) → u.Alike u' →
        ExpandsLike evaluators evaluators' stack u u' := by
      intro u u' same same' alike p q w done
      obtain rfl : u = w := congrArg Expansion.value ((same p).symm.trans done)
      exact ⟨u', same' q, alike⟩
    refine Json.Alike.induct (P := ExpandsLike evaluators evaluators' stack) ?_ ?_ ?_ ?_ ?_ ?_ h
    · exact atoms (by simp [expand]) (by simp [expand]) (Json.alike_refl rfl)
    · exact fun c => atoms (by simp [expand]) (by simp [expand]) (Json.alike_refl rfl)
    · exact fun m n same => atoms (by simp [expand]) (by simp [expand]) ⟨rfl, rfl, same⟩
    · exact fun s => atoms (by simp [expand]) (by simp [expand]) (Json.alike_refl rfl)
    · intro as bs _ items p q w done
      rw [expand] at done ⊢
      obtain ⟨ws, hws, rfl⟩ := Expansion.map_done.1 done
      obtain ⟨ws', hws', alikes⟩ := expandItems_alike (j := 0) items hws
      exact ⟨_, Expansion.map_done.2 ⟨ws', hws', rfl⟩, Json.alike_arr_iff.2 alikes⟩
    · intro ms ns members each p q w done
      rcases expand_obj_done done with ⟨name, marker, copied⟩ | ⟨plain, ws, rfl, hws⟩
      · have alike := Json.alike_obj_iff.2 members
        rw [marker] at alike
        rw [alike.eq_marker]
        -- one more name is on the stack, so fewer evaluators are free
        obtain ⟨w', copied', alike'⟩ := copy_alike both (fun raw raw' known new alike =>
          ih _ (hn ▸ free_cons_lt known new) alike rfl) copied q
        exact ⟨w', expand_marker_done.2 copied', alike'⟩
      · obtain ⟨ws', hws', alikes⟩ := expandMembers_alike members each hws
        have plain' : ns.isMarker = false := (members.has_eq refKey).symm.trans plain
        refine ⟨.obj ws', ?_, Json.alike_obj_iff.2 alikes⟩
        rw [expand, plain']
        exact Expansion.map_done.2 ⟨ws', hws', rfl⟩

end Resolver

/-! ## Counts -/

namespace Members

theorem Alike.exists_copy (both : evaluators.Alike evaluators')
    (copied : Resolver.copy evaluators [] name "" = .ok w) :
    ∃ w', Resolver.copy evaluators' [] name "" = .ok w' ∧ w.Alike w' :=
  Resolver.copy_alike both (fun _ _ _ _ alike => Resolver.expand_alike both alike) copied ""

theorem Alike.size_eq (both : evaluators.Alike evaluators') (name : String) :
    evaluators.size name = evaluators'.size name := by
  cases hc : Resolver.copy evaluators [] name "" with
  | ok w =>
    obtain ⟨w', hc', alike⟩ := both.exists_copy hc
    rw [Members.size_eq hc, Members.size_eq hc', alike.nodes_eq]
  | error e =>
    cases hc' : Resolver.copy evaluators' [] name "" with
    | ok w' =>
      obtain ⟨w, hw, -⟩ := both.symm.exists_copy hc'
      rw [hc] at hw
      cases hw
    | error e' => simp [size, hc, hc']

/-- Alike values count for as many values copied in. -/
theorem Alike.copiedIn_eq (both : evaluators.Alike evaluators') (h : v.Alike v') :
    evaluators.copiedIn v = evaluators'.copiedIn v' := by
  unfold copiedIn
  rw [(h.markerNames_perm.map _).sum_nat]
  exact congrArg List.sum (List.map_congr_left fun name _ => both.size_eq name)

theorem Alike.ownCost_eq (both : evaluators.Alike evaluators') (name : String) :
    evaluators.ownCost name = evaluators'.ownCost name := by
  cases known : evaluators.get? name with
  | some raw =>
    obtain ⟨raw', known', alike⟩ := both.get?_left known
    rw [Members.ownCost_eq known, Members.ownCost_eq known', both.copiedIn_eq alike]
  | none => rw [ownCost, ownCost, known, (rel_none_iff (both.values name)).1 known]

theorem Alike.reaches (both : evaluators.Alike evaluators') (h : v.Alike v')
    (reach : evaluators.Reaches v name) : evaluators'.Reaches v' name := by
  have mentions : ∀ {u u' : Json} {name : String}, u.Alike u' → u.Mentions name →
      u'.Mentions name := by
    intro u u' name alike m
    obtain ⟨w, inside, same⟩ := alike.exists_inside m
    rw [same.eq_marker] at inside
    exact inside
  induction reach with
  | mentioned m => exact .mentioned (mentions h m)
  | through _ known m ih =>
    obtain ⟨raw', known', alike⟩ := both.get?_left known
    exact .through ih known' (mentions alike m)

theorem Alike.exists_reaches (alike : ms.Alike ns) (both : evaluators.Alike evaluators')
    (h : ∃ v ∈ ms.map (·.2), evaluators.Reaches v name) :
    ∃ v ∈ ns.map (·.2), evaluators'.Reaches v name := by
  obtain ⟨_, there, reach⟩ := h
  obtain ⟨m, hm, rfl⟩ := List.mem_map.1 there
  obtain ⟨w, hw, related⟩ := alike.get?_left ((get?_eq_some_iff alike.left).2 hm)
  exact ⟨w, List.mem_map.2 ⟨_, mem_of_get? hw, rfl⟩, both.reaches related reach⟩

end Members

namespace Session

/-- Values that settle come to the same count as values that are alike, whatever the limits. -/
theorem Settles.expandedNodes_eq {flags flags' : Members} {limit limit' : Nat} {s s' : Session}
    (both : evaluators.Alike evaluators') (alike : flags.Alike flags')
    (h : Settles evaluators { limit } (flags.map (·.2)) s)
    (h' : Settles evaluators' { limit := limit' } (flags'.map (·.2)) s') :
    s.expandedNodes = s'.expandedNodes := by
  have fresh : ∀ limit name, ¬ Remembers { limit } name := by
    rintro limit name ⟨f, hf⟩
    cases hf
  have remembers : ∀ name, name ∈ s.resolved.map (·.1) ↔ name ∈ s'.resolved.map (·.1) := by
    intro name
    rw [← remembers_iff_mem, ← remembers_iff_mem, h.remembers, h'.remembers,
      or_iff_right (fresh _ _), or_iff_right (fresh _ _)]
    exact ⟨alike.exists_reaches both, alike.symm.exists_reaches both.symm⟩
  have names : (s.resolved.map (·.1)).Perm (s'.resolved.map (·.1)) :=
    (List.perm_ext_iff_of_nodup h.sound.tidy.distinct h'.sound.tidy.distinct).2 remembers
  have spent : s.spent evaluators = s'.spent evaluators' := by
    rw [spent_eq_sum, spent_eq_sum, (names.map _).sum_nat]
    exact congrArg List.sum (List.map_congr_left fun name _ => both.ownCost_eq name)
  have copied : ((flags.map (·.2)).map evaluators.copiedIn).sum =
      ((flags'.map (·.2)).map evaluators'.copiedIn).sum := by
    obtain ⟨os, perm, aligned⟩ := Members.exists_aligned alike.left alike.right alike.values
    rw [← ((perm.map (·.2)).map evaluators'.copiedIn).sum_nat, List.map_map, List.map_map]
    exact congrArg List.sum (map_eq_of_forall₂ (aligned.imp fun _ _ h => both.copiedIn_eq h.2))
  have balance := h.balance
  have balance' := h'.balance
  have nothing : ∀ evaluators limit, Session.spent evaluators { limit } = 0 := fun _ _ => rfl
  simp only [nothing] at balance balance'
  omega

end Session

end FeatureFlags
