import FeatureFlags.Lint.Report
import FeatureFlags.Proofs.Files.Search

/-!
# Directories may list their entries in any order

A file system is another one relisted if it has the same entries at the same locations, but for the
order in which its directories list them (`FileSystem.Relisted`). Paths lead to the same places in
both. What `configFiles` lists below a directory is told by paths alone, and sorted, so it is the same
in both, and so is the report on it (`configFiles_exact`).
-/

namespace FeatureFlags

/-- The same entry, where a directory may list the names in it in another order. -/
inductive Entry.Relisted : Entry → Entry → Prop
  | file (id : Nat) : Relisted (.file id) (.file id)
  | link (target : Path) : Relisted (.link target) (.link target)
  | dir {readable : Bool} {es es' : List (RawText × Entry)} :
      (es.map (·.1)).Perm (es'.map (·.1)) → Relisted (.dir readable es) (.dir readable es')

theorem Entry.Relisted.refl (e : Entry) : e.Relisted e := by
  cases e with
  | file id => exact .file id
  | link target => exact .link target
  | dir readable es => exact .dir (.refl _)

namespace FileSystem

/-- The same file system, where directories may list their entries in another order. -/
structure Relisted (fs fs' : FileSystem) : Prop where
  files : fs.files = fs'.files
  workingDirectory : fs.workingDirectory = fs'.workingDirectory
  entries : ∀ location, Option.Rel Entry.Relisted (fs.entry? location) (fs'.entry? location)

variable {fs fs' : FileSystem} {p q d : Path} {name : RawText}

namespace Relisted

theorem isDirAt_eq (h : fs.Relisted fs') (location : Location) :
    fs.isDirAt location = fs'.isDirAt location := by
  have same := h.entries location
  unfold isDirAt
  generalize fs.entry? location = x, fs'.entry? location = y at same ⊢
  rcases same with (_ | _ | _) | _ <;> rfl

theorem reach_eq (h : fs.Relisted fs') (location : Location) (names : List RawText) :
    fs.reach location names = fs'.reach location names := by
  induction names generalizing location with
  | nil => rfl
  | cons name more ih =>
    have same := h.entries (location ++ [name])
    simp only [reach, h.isDirAt_eq, ih]
    generalize fs.entry? (location ++ [name]) = x, fs'.entry? (location ++ [name]) = y at same ⊢
    rcases same with (_ | _ | _) | _ <;> rfl

theorem locate_eq (h : fs.Relisted fs') (links : Nat) (location : Location) (names : List RawText) :
    fs.locate links location names = fs'.locate links location names := by
  induction links generalizing location names with
  | zero => rw [FileSystem.locate_eq, FileSystem.locate_eq, h.reach_eq]
  | succ links ih => simp only [FileSystem.locate_eq (links + 1), h.reach_eq, ih]

theorem resolve_eq (h : fs.Relisted fs') (p : Path) : fs.resolve p = fs'.resolve p := by
  simp only [resolve, h.workingDirectory, h.locate_eq]

theorem lookup_cases (h : fs.Relisted fs') (p : Path) :
    (∃ fault, fs.lookup p = .error fault ∧ fs'.lookup p = .error fault) ∨
      ∃ e e', fs.lookup p = .ok e ∧ fs'.lookup p = .ok e' ∧ e.Relisted e' := by
  unfold lookup
  rw [← h.resolve_eq p]
  rcases fs.resolve p with fault | ⟨links, location⟩
  · exact .inl ⟨fault, rfl, rfl⟩
  · have same := h.entries location
    dsimp only
    generalize fs.entry? location = x, fs'.entry? location = y at same ⊢
    rcases same with @⟨e, e', same⟩ | _
    · exact .inr ⟨e, e', rfl, rfl, same⟩
    · exact .inl ⟨_, rfl, rfl⟩

theorem isDirectory_eq (h : fs.Relisted fs') (p : Path) :
    fs.isDirectory p = fs'.isDirectory p := by
  unfold isDirectory
  rcases h.lookup_cases p with ⟨fault, left, right⟩ | ⟨e, e', left, right, same⟩
  · rw [left, right]
  · rw [left, right]
    cases same <;> rfl

theorem loadText_eq (h : fs.Relisted fs') (p : Path) : fs.loadText p = fs'.loadText p := by
  unfold loadText pathExists readText
  rcases h.lookup_cases p with ⟨fault, left, right⟩ | ⟨e, e', left, right, same⟩
  · rw [left, right]
  · rw [left, right]
    cases same with
    | file => simp only [h.files]
    | link => rfl
    | @dir readable => cases readable <;> rfl

theorem lists_iff (h : fs.Relisted fs') : fs.Lists p name ↔ fs'.Lists p name := by
  unfold Lists
  rcases h.lookup_cases p with ⟨fault, left, right⟩ | ⟨e, e', left, right, same⟩
  · simp [left, right]
  · cases same with
    | file | link => simp [left, right]
    | dir names =>
      simp only [left, right, Except.ok.injEq, Entry.dir.injEq]
      constructor
      · rintro ⟨_, ⟨rfl, rfl⟩, there⟩
        exact ⟨_, ⟨rfl, rfl⟩, names.mem_iff.1 there⟩
      · rintro ⟨_, ⟨rfl, rfl⟩, there⟩
        exact ⟨_, ⟨rfl, rfl⟩, names.mem_iff.2 there⟩

theorem symm (h : fs.Relisted fs') : fs'.Relisted fs := by
  refine ⟨h.files.symm, h.workingDirectory.symm, fun location => ?_⟩
  have same := h.entries location
  generalize fs.entry? location = x, fs'.entry? location = y at same ⊢
  rcases same with (_ | _ | names) | _
  · exact .some (.file _)
  · exact .some (.link _)
  · exact .some (.dir names.symm)
  · exact .none

theorem below (h : fs.Relisted fs') (below : fs.Below p q) : fs'.Below p q := by
  induction below with
  | entry listed => exact .entry (h.lists_iff.1 listed)
  | through listed _ ih => exact .through (h.lists_iff.1 listed) ih

theorem wellFormed (h : fs.Relisted fs') (wf : fs.WellFormed) : fs'.WellFormed := by
  intro location readable es there
  have same := h.entries location
  rw [there] at same
  generalize before : fs.entry? location = x at same
  rcases same with @⟨_, _, _ | _ | names⟩ | _
  obtain ⟨nodup, named⟩ := wf _ _ _ before
  refine ⟨names.nodup_iff.1 nodup, fun m hm => ?_⟩
  obtain ⟨m', hm', same⟩ := List.mem_map.1 (names.mem_iff.2 (List.mem_map_of_mem hm))
  exact same ▸ named m' hm'

end Relisted

/-- The names at the root may come in any order. -/
theorem relisted_of_perm {readable : Bool} {es es' : List (RawText × Entry)} {files : Nat → File}
    {working : Location} (perm : es.Perm es') (nodup : (es.map (·.1)).Nodup) :
    Relisted ⟨.dir readable es, files, working⟩ ⟨.dir readable es', files, working⟩ := by
  refine ⟨rfl, rfl, fun location => ?_⟩
  cases location with
  | nil => exact .some (.dir (perm.map _))
  | cons name more =>
    have child := Entry.child?_perm readable perm nodup name
    simp only [Entry.find?, entry?, child]
    cases Entry.child? (.dir readable es') name with
    | none => exact .none
    | some e =>
      dsimp only [Option.bind]
      cases e.find? more with
      | none => exact .none
      | some e' => exact .some (.refl e')

/-! ## What is listed -/

/-- A directory is closed, and nothing is listed, or what is found in it is sorted. -/
theorem configFiles_cases (dir : fs.isDirectory d = true) :
    (∃ es, fs.lookup d = .ok (.dir false es) ∧ fs.configFiles d = []) ∨
      ∃ links location es, links < linkLimit + 1 ∧ fs.resolve d = .ok (links, location) ∧
        fs.entry? location = some (.dir true es) ∧ fs.configFiles d =
          (Entry.jsonFilesIn (fs.visitLink (linkLimit + 1) links) es location d).mergeSort
            Path.le := by
  obtain ⟨readable, es, there⟩ := isDirectory_iff.1 dir
  obtain ⟨links, location, resolved, entry⟩ := lookup_eq_ok_iff.1 there
  cases readable with
  | false => exact .inl ⟨es, there, by simp [configFiles, resolved, entry]⟩
  | true =>
    refine .inr ⟨links, location, es, ?_, resolved, entry, by simp [configFiles, resolved, entry]⟩
    exact Nat.lt_succ_of_le (links_le_of_resolve resolved)

/-- What the search finds is listed as it stands if each path comes before or with the next one. -/
theorem configFiles_eq_of_search {links : Nat} {location : Location}
    {es : List (RawText × Entry)} {files : List Path} (resolved : fs.resolve d = .ok (links, location))
    (there : fs.entry? location = some (.dir true es))
    (found : Entry.jsonFilesIn (fs.visitLink (linkLimit + 1) links) es location d = files)
    (sorted : files.IsChain fun p q => p.le q = true) : fs.configFiles d = files := by
  have : Trans (fun p q : Path => p.le q = true) (fun p q : Path => p.le q = true)
      (fun p q : Path => p.le q = true) := ⟨Path.le_trans⟩
  simp only [configFiles, resolved, there, if_true, found]
  exact List.mergeSort_of_pairwise (List.isChain_iff_pairwise.1 sorted)

theorem configFiles_filesBelow (wf : fs.WellFormed) (dir : fs.isDirectory d = true) :
    fs.FilesBelow d (fs.configFiles d) := by
  intro q
  obtain ⟨es, there, listed⟩ | ⟨links, location, es, enough, resolved, entry, listed⟩ :=
    configFiles_cases dir
  · have nothing : ¬ fs.Below d q := by
      intro below
      obtain ⟨es', there'⟩ := below.exists_entries
      simp [there] at there'
    simp [listed, nothing]
  · rw [listed, List.mem_mergeSort]
    exact search_filesBelow wf enough resolved entry q

theorem configFiles_precedes (wf : fs.WellFormed) (dir : fs.isDirectory d = true) :
    (fs.configFiles d).Pairwise Path.Precedes := by
  obtain ⟨es, there, listed⟩ | ⟨links, location, es, enough, resolved, entry, listed⟩ :=
    configFiles_cases dir
  · rw [listed]
    exact .nil
  · rw [listed]
    exact Path.pairwise_mergeSort (search_spread wf enough resolved entry).distinct

namespace Relisted

theorem configFiles_eq (h : fs.Relisted fs') (wf : fs.WellFormed)
    (dir : fs.isDirectory d = true) : fs'.configFiles d = fs.configFiles d := by
  have wf' := h.wellFormed wf
  have dir' := (h.isDirectory_eq d).symm.trans dir
  refine Path.eq_of_pairwise_precedes (configFiles_precedes wf' dir') (configFiles_precedes wf dir) ?_
  intro q
  rw [configFiles_filesBelow wf' dir' q, configFiles_filesBelow wf dir q, h.isDirectory_eq q]
  have below : fs'.Below d q ↔ fs.Below d q := ⟨h.symm.below, h.below⟩
  rw [below]

theorem lint_eq (h : fs.Relisted fs') (wf : fs.WellFormed) (dir : fs.isDirectory d = true)
    (strict : Bool) : fs'.lint d strict = fs.lint d strict := by
  simp only [lint, lintFile, h.configFiles_eq wf dir, h.loadText_eq]

end Relisted

/-- In strict order of their components, and each once, a directory stands for the paths below it
that lead to no directory and are named like JSON files. The order in which directories list their
entries makes no difference to them, nor to the report on them. -/
theorem configFiles_exact (wf : fs.WellFormed) (dir : fs.isDirectory d = true) :
    (fs.configFiles d).Pairwise Path.Precedes ∧ (fs.configFiles d).Nodup ∧
      (∀ q, q ∈ fs.configFiles d ↔
        fs.Below d q ∧ fs.isDirectory q = false ∧ q.isJson = true) ∧
      ∀ fs', fs.Relisted fs' → fs'.configFiles d = fs.configFiles d ∧
        ∀ strict, fs'.lint d strict = fs.lint d strict := by
  have sorted := configFiles_precedes wf dir
  refine ⟨sorted, sorted.imp Path.Precedes.ne, configFiles_filesBelow wf dir, ?_⟩
  exact fun fs' h => ⟨h.configFiles_eq wf dir, h.lint_eq wf dir⟩

/-- A directory with a file that is all extension, a directory named like a JSON file, a link that
leads nowhere, a directory that cannot be read, and a link up. -/
def mixedFiles : FileSystem :=
  { root := .dir true [(".json", .file 0), ("a.json", .dir true [("x.json", .file 1)]),
      ("b.json", .file 2), ("lost.json", .link "gone"),
      ("shut", .dir false [("y.json", .file 3)]), ("up", .link "..")] }

/-- The same files, listed in another order. -/
def mixedFilesReversed : FileSystem :=
  { mixedFiles with root := .dir true mixedFiles.root.entries.reverse }

/-- The path of some links up in a row. -/
def ups (n : Nat) : Path :=
  (List.replicate n (.ofText "up")).foldl Path.join "."

example : ((ups 2).join "b.json").shown = "./up/up/b.json" := by decide +kernel

/-- As many links up are followed as a path may follow, and the same is found behind each. -/
theorem mixedFiles_exact : mixedFiles.WellFormed ∧ mixedFiles.isDirectory "." = true ∧
    mixedFiles.Relisted mixedFilesReversed ∧
    mixedFiles.configFiles "." = ((List.range 41).flatMap fun n =>
      [((ups n).join "a.json").join "x.json", (ups n).join "b.json", (ups n).join "lost.json"]) ∧
    mixedFilesReversed.configFiles "." = mixedFiles.configFiles "." ∧
    (mixedFiles.configFiles ".").Pairwise Path.Precedes ∧
    (∀ q, q ∈ mixedFiles.configFiles "." ↔
      mixedFiles.Below "." q ∧ mixedFiles.isDirectory q = false ∧ q.isJson = true) ∧
    ∀ strict, mixedFilesReversed.lint "." strict = mixedFiles.lint "." strict := by
  have wf : mixedFiles.WellFormed := wellFormed_of_isOrderly (by decide +kernel)
  have dir : mixedFiles.isDirectory "." = true := by decide +kernel
  have relisted : mixedFiles.Relisted mixedFilesReversed :=
    relisted_of_perm (List.reverse_perm _).symm (by decide +kernel)
  obtain ⟨sorted, -, exactly, same⟩ := configFiles_exact wf dir
  refine ⟨wf, dir, relisted, ?_, (same _ relisted).1, sorted, exactly, (same _ relisted).2⟩
  exact configFiles_eq_of_search rfl rfl (by decide +kernel) (by decide +kernel)

end FileSystem

end FeatureFlags
