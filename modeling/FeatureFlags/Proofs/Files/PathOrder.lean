import FeatureFlags.Files.Path
import FeatureFlags.Proofs.Json.Pointee
import Mathlib.Data.List.Sort

/-!
# Paths in order

Component by component, paths are compared in a total order (`Path.le_total`, `Path.le_trans`), which
tells apart paths of different components (`Path.components_eq`). The entry of a directory has one
component more than the directory, its name (`Path.components_join`), so a name is all that tells
the entries of a directory apart, however its path is written.
-/

namespace FeatureFlags

/-! ## The order of components -/

namespace Component

theorem le_total (a b : Component) : (le a b || le b a) = true := by
  cases a <;> cases b <;> simp [le, rank, List.le_total]

theorem le_trans {a b c : Component} (h : le a b = true) (h' : le b c = true) : le a c = true := by
  cases a <;> cases b <;> simp [le, rank] at h <;> cases c <;> simp [le, rank] at h' ⊢
  exact List.le_trans h h'

theorem le_antisymm {a b : Component} (h : le a b = true) (h' : le b a = true) : a = b := by
  cases a <;> cases b <;> simp [le, rank] at h h' ⊢
  exact congrArg RawText.mk (List.le_antisymm h h')

theorem listLe_total (as bs : List Component) : (listLe as bs || listLe bs as) = true := by
  induction as generalizing bs with
  | nil => simp [listLe]
  | cons a as ih =>
    cases bs with
    | nil => simp [listLe]
    | cons b bs =>
      by_cases same : a = b
      · simp [listLe, same, ih bs]
      · simp [listLe, same, Ne.symm same, le_total]

theorem listLe_antisymm {as bs : List Component} (h : listLe as bs = true)
    (h' : listLe bs as = true) : as = bs := by
  induction as generalizing bs with
  | nil =>
    cases bs with
    | nil => rfl
    | cons b bs => simp [listLe] at h'
  | cons a as ih =>
    cases bs with
    | nil => simp [listLe] at h
    | cons b bs =>
      by_cases same : a = b
      · simp only [listLe, same, if_true] at h h'
        rw [same, ih h h']
      · simp only [listLe, same, Ne.symm same, if_false] at h h'
        exact absurd (le_antisymm h h') same

theorem listLe_trans {as bs cs : List Component} (h : listLe as bs = true)
    (h' : listLe bs cs = true) : listLe as cs = true := by
  induction as generalizing bs cs with
  | nil => simp [listLe]
  | cons a as ih =>
    cases bs with
    | nil => simp [listLe] at h
    | cons b bs =>
      cases cs with
      | nil => simp [listLe] at h'
      | cons c cs =>
        simp only [listLe] at h h' ⊢
        by_cases hab : a = b
        · subst hab
          by_cases hac : a = c
          · simp only [hac, if_true] at h h' ⊢
            exact ih h h'
          · simpa only [hac, if_false] using h'
        · by_cases hbc : b = c
          · subst hbc
            simpa only [hab, if_false] using h
          · simp only [hab, hbc, if_false] at h h'
            have hac : a ≠ c := by
              rintro rfl
              exact hab (le_antisymm h h')
            simpa only [hac, if_false] using le_trans h h'

end Component

namespace Path

variable {p q r : Path} {name : RawText}

theorem le_total (p q : Path) : (p.le q || q.le p) = true :=
  Component.listLe_total p.components q.components

theorem le_trans (h : p.le q = true) (h' : q.le r = true) : p.le r = true :=
  Component.listLe_trans h h'

/-- Paths that come before each other have the same components. -/
theorem components_eq (h : p.le q = true) (h' : q.le p = true) : p.components = q.components :=
  Component.listLe_antisymm h h'

/-- The first path comes before the second, and not with it. -/
def Precedes (p q : Path) : Prop := p.le q = true ∧ q.le p = false

theorem Precedes.ne (h : p.Precedes q) : p ≠ q := by
  rintro rfl
  have both := h.1.symm.trans h.2
  cases both

theorem Precedes.asymm (h : p.Precedes q) : ¬ q.Precedes p := by
  intro back
  have both := h.1.symm.trans back.2
  cases both

/-- Paths of different components, once they are sorted, stand in strict order. -/
theorem pairwise_mergeSort {ps : List Path} (distinct : (ps.map components).Nodup) :
    (ps.mergeSort le).Pairwise Precedes := by
  have sorted := @List.pairwise_mergeSort Path le (fun _ _ _ => le_trans) le_total ps
  have perm := List.mergeSort_perm ps le
  have distinct := List.pairwise_map.1 ((perm.map components).nodup_iff.2 distinct)
  refine (sorted.and distinct).imp ?_
  rintro p q ⟨before, differ⟩
  refine ⟨before, ?_⟩
  by_contra back
  exact differ (components_eq before (by simpa using back))

/-- What a list in strict order holds determines it. -/
theorem eq_of_pairwise_precedes {ps qs : List Path} (hp : ps.Pairwise Precedes)
    (hq : qs.Pairwise Precedes) (same : ∀ q, q ∈ ps ↔ q ∈ qs) : ps = qs := by
  have perm : ps.Perm qs :=
    (List.perm_ext_iff_of_nodup (hp.imp Precedes.ne) (hq.imp Precedes.ne)).2 same
  exact perm.eq_of_pairwise (fun _ _ _ _ h h' => absurd h' h.asymm) hp hq

/-! ## The path of an entry -/

/-- A name that an entry of a directory can have. -/
def IsName (name : RawText) : Prop :=
  name ≠ "" ∧ name ≠ "." ∧ name ≠ ".." ∧ slash ∉ name.bytes

instance (name : RawText) : Decidable (IsName name) :=
  inferInstanceAs (Decidable (_ ∧ _ ∧ _ ∧ _))

theorem pieces_eq_cons (p : Path) : ∃ first more, p.pieces = first :: more := by
  have ne := Text.pieces_ne_nil slash p.bytes
  unfold pieces
  cases h : Text.pieces slash p.bytes with
  | nil => exact absurd h ne
  | cons first more => exact ⟨⟨first⟩, more.map RawText.mk, rfl⟩

/-- The only path with an empty piece and no other is the empty one. -/
theorem eq_empty_of_pieces (h : p.pieces = [RawText.ofText ""]) : p = "" := by
  have back := Text.intercalate_pieces slash p.bytes
  obtain ⟨piece, only, empty⟩ : ∃ piece, Text.pieces slash p.bytes = [piece] ∧
      RawText.mk piece = "" := by
    simpa [pieces, List.map_eq_singleton_iff] using h
  obtain rfl : piece = [] := RawText.eq_empty_iff.1 empty
  rw [only] at back
  exact RawText.eq_empty_iff.2 back.symm

/-- The pieces of the path of an entry are those of the directory and the name; a slash at the end
of the directory makes no difference. -/
theorem pieces_join (there : p ≠ "") (named : IsName name) : ∃ first more,
    (p.join name).pieces = first :: more ++ [name] ∧
      (p.pieces = first :: more ∧ ¬ (first = "" ∧ more = []) ∨
        p.pieces = first :: more ++ [RawText.ofText ""]) := by
  have last : Text.pieces slash name.bytes = [name.bytes] :=
    Text.pieces_of_notMem named.2.2.2
  by_cases ends : p.bytes.getLast? = some slash
  · obtain ⟨bs, split⟩ := List.getLast?_eq_some_iff.1 ends
    obtain ⟨first, more, front⟩ := pieces_eq_cons ⟨bs⟩
    have pieces_bs : (Text.pieces slash bs).map RawText.mk = first :: more := front
    refine ⟨first, more, ?_, .inr ?_⟩
    · have bytes : (p.join name).bytes = bs ++ slash :: name.bytes := by
        simp [join, split]
      simp [pieces, bytes, Text.pieces_append, last, pieces_bs]
    · simp [pieces, split, Text.pieces_append, Text.pieces, pieces_bs, RawText.eq_empty_iff]
  · obtain ⟨first, more, front⟩ := pieces_eq_cons p
    refine ⟨first, more, ?_, .inl ⟨front, ?_⟩⟩
    · have bytes : (p.join name).bytes = p.bytes ++ slash :: name.bytes := by
        simp [join, ends, there]
      rw [← front]
      simp [pieces, bytes, Text.pieces_append, last]
    · rintro ⟨rfl, rfl⟩
      exact there (eq_empty_of_pieces front)

theorem components_eq_of_pieces {first : RawText} {more : List RawText}
    (h : p.pieces = first :: more) : p.components =
      (firstComponent? more.isEmpty first).toList ++ more.filterMap component? := by
  unfold components marked
  rw [h]
  cases hf : firstComponent? more.isEmpty first <;> simp [hf, List.filterMap_map]

theorem component?_name (named : IsName name) : component? name = some (.name name) := by
  simp [component?, named.1, named.2.1, named.2.2.1]

/-- An entry of a directory has one component more, its name. -/
theorem components_join (there : p ≠ "") (named : IsName name) :
    (p.join name).components = p.components ++ [.name name] := by
  obtain ⟨first, more, joined, dir⟩ := pieces_join there named
  have followed : ∀ last : RawText, (more ++ [last]).isEmpty = false := by
    intro last
    cases more <;> rfl
  rw [List.cons_append] at joined
  rw [components_eq_of_pieces joined]
  rcases dir with ⟨front, whole⟩ | front
  · rw [components_eq_of_pieces front]
    -- a piece alone is read as one before others, unless it is empty
    have same : firstComponent? more.isEmpty first = firstComponent? false first := by
      cases more with
      | nil =>
        have written : first ≠ "" := by simpa using whole
        simp [firstComponent?, written]
      | cons => rfl
    simp [same, component?_name named, followed]
  · rw [List.cons_append] at front
    rw [components_eq_of_pieces front]
    have skipped : component? (RawText.ofText "") = none := rfl
    simp [skipped, component?_name named, followed]

theorem join_ne_empty (p : Path) (named : IsName name) : p.join name ≠ "" := by
  have written : name.bytes ≠ [] := mt RawText.eq_empty_iff.2 named.1
  rw [ne_eq, RawText.eq_empty_iff]
  unfold join
  split <;> simp [written]

end Path

end FeatureFlags
