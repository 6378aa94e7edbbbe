import FeatureFlags.Proofs.Files.Listing
import Mathlib.Algebra.Order.BigOperators.Group.List
import Mathlib.Algebra.Order.Ring.Nat

/-!
# When two results are of the same file

Paths lead to the same file when they lead to entries of one number (`FileSystem.SameFile`). They may
do so at one location, or at two, where hard links to the file lie (`FileSystem.HardLinked`). A path
below a directory says at which location it leads if none of the entries it goes through is a
symbolic link (`FileSystem.Below.resolve_plain`). So a file is checked twice only if a symbolic link
leads to it or it has hard links (`lint_sharing`), and both do happen (`linkedFolder_checked_twice`,
`hardLinks_checked_twice`).
-/

namespace FeatureFlags

/-! ## Trees without symbolic links -/

namespace Entry

mutual

/-- Whether no entry in the tree is a symbolic link. -/
def isLinkFree : Entry → Bool
  | .file _ => true
  | .link _ => false
  | .dir _ es => areLinkFree es

def areLinkFree : List (RawText × Entry) → Bool
  | [] => true
  | (_, e) :: more => isLinkFree e && areLinkFree more

end

variable {e e' : Entry} {es : List (RawText × Entry)}

theorem areLinkFree_iff : areLinkFree es = true ↔ ∀ m ∈ es, m.2.isLinkFree = true := by
  induction es with
  | nil => simp [areLinkFree]
  | cons m more ih => simp [areLinkFree, ih]

theorem isLinkFree_of_find? (free : e.isLinkFree = true) {location : Location}
    (h : e.find? location = some e') : e'.isLinkFree = true := by
  induction location generalizing e with
  | nil =>
    cases h
    exact free
  | cons name more ih =>
    obtain ⟨d, child, inner⟩ := Option.bind_eq_some_iff.1 h
    cases e with
    | file | link => cases child
    | dir readable es => exact ih (areLinkFree_iff.1 free _ (mem_of_child? child)) inner

end Entry

namespace FileSystem

variable {fs : FileSystem} {d p q : Path} {name : RawText}

/-! ## Paths to one file -/

/-- The location that a path leads to. -/
def location? (fs : FileSystem) (p : Path) : Option Location :=
  (fs.resolve p).toOption.map (·.2)

/-- The two paths lead to the same file. -/
def SameFile (fs : FileSystem) (p q : Path) : Prop :=
  ∃ id, fs.lookup p = .ok (.file id) ∧ fs.lookup q = .ok (.file id)

/-- The two paths lead to different locations, at which entries of one file lie. -/
def HardLinked (fs : FileSystem) (p q : Path) : Prop :=
  ∃ l l' id, fs.location? p = some l ∧ fs.location? q = some l' ∧ l ≠ l' ∧
    fs.entry? l = some (.file id) ∧ fs.entry? l' = some (.file id)

/-- On the way from a directory to a path below, one of the entries is a symbolic link. -/
def ThroughLink (fs : FileSystem) (d q : Path) : Prop :=
  ∃ p name es target, (p = d ∨ fs.Below d p) ∧ fs.lookup p = .ok (.dir true es) ∧
    (name, .link target) ∈ es ∧ (q = p.join name ∨ fs.Below (p.join name) q)

theorem location?_eq_some_iff {location : Location} : fs.location? p = some location ↔
    ∃ links, fs.resolve p = .ok (links, location) := by
  unfold location?
  rcases fs.resolve p with fault | ⟨links, l⟩ <;> simp [Except.toOption]

theorem HardLinked.sameFile (h : fs.HardLinked p q) : fs.SameFile p q := by
  obtain ⟨l, l', id, place, place', -, entry, entry'⟩ := h
  obtain ⟨links, resolved⟩ := location?_eq_some_iff.1 place
  obtain ⟨links', resolved'⟩ := location?_eq_some_iff.1 place'
  exact ⟨id, lookup_eq_ok_iff.2 ⟨links, l, resolved, entry⟩,
    lookup_eq_ok_iff.2 ⟨links', l', resolved', entry'⟩⟩

/-- What is linked below an entry is linked below its directory. -/
theorem ThroughLink.of_entry (listed : fs.Lists d name)
    (h : fs.ThroughLink (d.join name) q) : fs.ThroughLink d q := by
  obtain ⟨p, link, es, target, way, there, linked, rest⟩ := h
  refine ⟨p, link, es, target, .inr ?_, there, linked, rest⟩
  rcases way with rfl | below
  · exact .entry listed
  · exact .through listed below

theorem ThroughLink.of_below (h : fs.ThroughLink d p) (below : fs.Below p q) :
    fs.ThroughLink d q := by
  obtain ⟨r, link, es, target, way, there, linked, rest⟩ := h
  refine ⟨r, link, es, target, way, there, linked, .inr ?_⟩
  rcases rest with rfl | rest
  · exact below
  · exact rest.trans below

/-- A link on the way is an entry of the file system. -/
theorem ThroughLink.exists_link (wf : fs.WellFormed) (h : fs.ThroughLink d q) :
    ∃ location target, fs.entry? location = some (.link target) := by
  obtain ⟨p, name, es, target, -, there, linked, -⟩ := h
  obtain ⟨_, location, -, entry⟩ := lookup_eq_ok_iff.1 there
  exact ⟨_, target, entry?_of_mem wf entry linked⟩

theorem not_throughLink (wf : fs.WellFormed) (free : fs.root.isLinkFree = true) :
    ¬ fs.ThroughLink d q := by
  intro through
  obtain ⟨location, target, linked⟩ := through.exists_link wf
  cases Entry.isLinkFree_of_find? free linked

/-- An entry that is no link lies in its directory. -/
theorem resolve_entry (wf : fs.WellFormed) {links : Nat} {location : Location}
    (resolved : fs.resolve d = .ok (links, location)) (listed : fs.Lists d name)
    (plain : ¬ fs.ThroughLink d (d.join name)) : ∃ e, (∀ target, e ≠ .link target) ∧
      fs.resolve (d.join name) = .ok (links, location ++ [name]) ∧
      fs.entry? (location ++ [name]) = some e := by
  obtain ⟨es, there, named⟩ := listed
  obtain ⟨⟨_, e⟩, hm, rfl⟩ := List.mem_map.1 named
  have entry : fs.entry? location = some (.dir true es) := by
    obtain ⟨_, _, resolved', entry⟩ := lookup_eq_ok_iff.1 there
    cases resolved.symm.trans resolved'
    exact entry
  have noLink : ∀ target, e ≠ .link target := by
    rintro target rfl
    exact plain ⟨d, _, es, target, .inl rfl, there, hm, .inl rfl⟩
  refine ⟨e, noLink, ?_, entry?_of_mem wf entry hm⟩
  rw [resolve_join resolved ((wf _ _ _ entry).2 _ hm).1]
  exact locate_entry wf entry hm noLink

/-- Without links on the way, the names on it are those of the location, and what lies there is no
link. -/
theorem Below.resolve_plain (wf : fs.WellFormed) (below : fs.Below d q)
    (plain : ¬ fs.ThroughLink d q) {links : Nat} {location : Location}
    (resolved : fs.resolve d = .ok (links, location)) :
    ∃ names e, q = names.foldl Path.join d ∧ (∀ target, e ≠ .link target) ∧
      fs.resolve q = .ok (links, location ++ names) ∧ fs.entry? (location ++ names) = some e := by
  induction below generalizing location with
  | @entry d name listed =>
    obtain ⟨e, noLink, there, entry⟩ := resolve_entry wf resolved listed plain
    exact ⟨[name], e, rfl, noLink, there, entry⟩
  | @through d q name listed inner ih =>
    obtain ⟨-, -, first, -⟩ := resolve_entry wf resolved listed fun h => plain (h.of_below inner)
    obtain ⟨names, e, rfl, noLink, there, entry⟩ := ih (fun h => plain (h.of_entry listed)) first
    exact ⟨name :: names, e, rfl, noLink, by simpa using there, by simpa using entry⟩

/-- Two paths to the same file, neither of them through a symbolic link, are the same, or they lead
to hard links to that file. -/
theorem eq_or_hardLinked (wf : fs.WellFormed) (below : fs.Below d p) (below' : fs.Below d q)
    (same : fs.SameFile p q) (plain : ¬ fs.ThroughLink d p) (plain' : ¬ fs.ThroughLink d q) :
    p = q ∨ fs.HardLinked p q := by
  obtain ⟨es, there⟩ := below.exists_entries
  obtain ⟨links, location, resolved, -⟩ := lookup_eq_ok_iff.1 there
  obtain ⟨names, e, rfl, -, found, entry⟩ := below.resolve_plain wf plain resolved
  obtain ⟨names', e', rfl, -, found', entry'⟩ := below'.resolve_plain wf plain' resolved
  obtain ⟨id, file, file'⟩ := same
  obtain rfl := Except.ok.inj ((lookup_eq_ok_iff.2 ⟨_, _, found, entry⟩).symm.trans file)
  obtain rfl := Except.ok.inj ((lookup_eq_ok_iff.2 ⟨_, _, found', entry'⟩).symm.trans file')
  by_cases equal : names = names'
  · exact .inl (by rw [equal])
  · refine .inr ⟨location ++ names, location ++ names', id, location?_eq_some_iff.2 ⟨links, found⟩,
      location?_eq_some_iff.2 ⟨links, found'⟩, ?_, entry, entry'⟩
    exact fun h => equal (List.append_cancel_left h)

/-! ## The files that are checked -/

/-- The paths of the configuration files lead to the same file only through symbolic links or by
hard links. -/
theorem configFiles_sharing (wf : fs.WellFormed) (dir : fs.isDirectory d = true) :
    (fs.configFiles d).Pairwise fun p q => fs.SameFile p q →
      fs.ThroughLink d p ∨ fs.ThroughLink d q ∨ fs.HardLinked p q := by
  have listed := configFiles_filesBelow wf dir
  refine (configFiles_precedes wf dir).imp_of_mem ?_
  intro p q hp hq before same
  by_contra none
  obtain ⟨plain, plain', single⟩ : ¬ fs.ThroughLink d p ∧ ¬ fs.ThroughLink d q ∧
      ¬ fs.HardLinked p q := by simpa only [not_or] using none
  have either := eq_or_hardLinked wf ((listed p).1 hp).1 ((listed q).1 hq).1 same plain plain'
  exact either.elim before.ne single

/-- The results are the reports on the files of the numbers, each checked under one path. -/
structure Covers (fs : FileSystem) (d : Path) (results : List FileReport) (files : List Nat)
    (path : Nat → Path) : Prop where
  distinct : files.Nodup
  leads : ∀ id ∈ files, fs.lookup (path id) = .ok (.file id)
  named : ∀ id ∈ files, (path id).isJson = true
  results_eq : results = files.map fun id => fs.lintFile (path id) d

/-- A configuration file to which no symbolic link leads is a file. -/
theorem exists_file_of_plain (wf : fs.WellFormed) (dir : fs.isDirectory d = true)
    (listed : q ∈ fs.configFiles d) (plain : ¬ fs.ThroughLink d q) :
    ∃ id, fs.lookup q = .ok (.file id) := by
  obtain ⟨below, noDir, -⟩ := (configFiles_filesBelow wf dir q).1 listed
  obtain ⟨es, there⟩ := below.exists_entries
  obtain ⟨links, location, resolved, -⟩ := lookup_eq_ok_iff.1 there
  obtain ⟨names, e, -, noLink, found, entry⟩ := below.resolve_plain wf plain resolved
  have led := lookup_eq_ok_iff.2 ⟨_, _, found, entry⟩
  cases e with
  | file id => exact ⟨id, led⟩
  | link target => exact absurd rfl (noLink target)
  | dir readable es =>
    rw [isDirectory_iff.2 ⟨readable, es, led⟩] at noDir
    cases noDir

/-- Without symbolic and hard links below a directory, each of its files is checked once. -/
theorem exists_covers (wf : fs.WellFormed) (dir : fs.isDirectory d = true)
    (plain : ∀ q ∈ fs.configFiles d, ¬ fs.ThroughLink d q)
    (single : (fs.configFiles d).Pairwise fun p q => ¬ fs.HardLinked p q) (strict : Bool) :
    ∃ files path, fs.Covers d (fs.lint d strict).results files path := by
  have led : ∀ q ∈ fs.configFiles d, ∃ id, fs.lookup q = .ok (.file id) :=
    fun q hq => exists_file_of_plain wf dir hq (plain q hq)
  choose! fileId leads using led
  have distinct : ((fs.configFiles d).map fileId).Nodup := by
    refine List.pairwise_map.2 (((configFiles_sharing wf dir).and single).imp_of_mem ?_)
    rintro p q hp hq ⟨sharing, single⟩ same
    have both := sharing ⟨fileId p, leads p hp, same ▸ leads q hq⟩
    exact both.elim (plain p hp) fun h => h.elim (plain q hq) single
  -- the number of a file leads back to the path under which it is checked
  obtain ⟨path, back⟩ : ∃ path : Nat → Path, ∀ q ∈ fs.configFiles d, path (fileId q) = q := by
    have : Nonempty Path := ⟨d⟩
    have inj : Set.InjOn fileId {q | q ∈ fs.configFiles d} :=
      fun p hp q hq same => List.inj_on_of_nodup_map distinct hp hq same
    exact ⟨Function.invFunOn fileId {q | q ∈ fs.configFiles d}, inj.leftInvOn_invFunOn⟩
  refine ⟨(fs.configFiles d).map fileId, path, distinct, ?_, ?_, ?_⟩
  · intro id hid
    obtain ⟨q, hq, rfl⟩ := List.mem_map.1 hid
    rw [back q hq, leads q hq]
  · intro id hid
    obtain ⟨q, hq, rfl⟩ := List.mem_map.1 hid
    rw [back q hq]
    exact ((configFiles_filesBelow wf dir q).1 hq).2.2
  · rw [lint, List.map_map]
    refine List.map_congr_left fun q hq => ?_
    rw [Function.comp_apply, back q hq]

end FileSystem

namespace Report

theorem errors_eq_sum (r : Report) : r.errors = (r.results.map (·.errors)).sum := by
  rw [errors, List.sum, List.foldr_map]

theorem warnings_eq_sum (r : Report) : r.warnings = (r.results.map (·.warnings)).sum := by
  rw [warnings, List.sum, List.foldr_map]

end Report

namespace FileSystem

variable {fs : FileSystem} {d : Path}

/-- Each path below a directory is checked once. Two of them lead to the same file only if a symbolic
link is on the way to one of them or they lead to hard links to it; where neither is the case, the
report counts every file once, with its errors and warnings. -/
theorem lint_sharing (wf : fs.WellFormed) (dir : fs.isDirectory d = true) (strict : Bool) :
    (fs.lint d strict).results = (fs.configFiles d).map (fs.lintFile · d) ∧
    (fs.configFiles d).Nodup ∧
    ((fs.configFiles d).Pairwise fun p q => fs.SameFile p q →
      fs.ThroughLink d p ∨ fs.ThroughLink d q ∨ fs.HardLinked p q) ∧
    ((∀ q ∈ fs.configFiles d, ¬ fs.ThroughLink d q) →
      ((fs.configFiles d).Pairwise fun p q => ¬ fs.HardLinked p q) → ∃ files path,
      fs.Covers d (fs.lint d strict).results files path ∧
      (fs.lint d strict).filesChecked = files.length ∧
      (fs.lint d strict).errors = (files.map fun id => (fs.lintFile (path id) d).errors).sum ∧
      (fs.lint d strict).warnings =
        (files.map fun id => (fs.lintFile (path id) d).warnings).sum) := by
  refine ⟨rfl, (configFiles_precedes wf dir).imp Path.Precedes.ne, configFiles_sharing wf dir, ?_⟩
  intro plain single
  obtain ⟨files, path, covers⟩ := exists_covers wf dir plain single strict
  refine ⟨files, path, covers, ?_, ?_, ?_⟩
  · rw [Report.filesChecked, covers.results_eq, List.length_map]
  · rw [Report.errors_eq_sum, covers.results_eq, List.map_map]
    rfl
  · rw [Report.warnings_eq_sum, covers.results_eq, List.map_map]
    rfl

/-- A directory with two files, to which no link leads. -/
def plainFolder : FileSystem :=
  { root := .dir true [("d", .dir true [("a.json", .file 0), ("b.json", .file 1)])] }

theorem plainFolder_sharing : plainFolder.WellFormed ∧ plainFolder.isDirectory "d" = true ∧
    plainFolder.configFiles "d" = ([("d/a.json" : Path), ("d/b.json" : Path)]) ∧
    (∀ q ∈ plainFolder.configFiles "d", ¬ plainFolder.ThroughLink "d" q) ∧
    ((plainFolder.configFiles "d").Pairwise fun p q => ¬ plainFolder.HardLinked p q) ∧
    ∃ files path, plainFolder.Covers "d" (plainFolder.lint "d" false).results files path ∧
      files.length = 2 := by
  have wf : plainFolder.WellFormed := wellFormed_of_isOrderly (by decide +kernel)
  have dir : plainFolder.isDirectory "d" = true := by decide +kernel
  have listed : plainFolder.configFiles "d" = ([("d/a.json" : Path), ("d/b.json" : Path)]) :=
    configFiles_eq_of_search rfl rfl (by decide +kernel) (by decide +kernel)
  have plain : ∀ q ∈ plainFolder.configFiles "d", ¬ plainFolder.ThroughLink "d" q :=
    fun q _ => not_throughLink wf (by decide +kernel)
  have single : (plainFolder.configFiles "d").Pairwise fun p q => ¬ plainFolder.HardLinked p q := by
    rw [listed, List.pairwise_pair]
    intro linked
    obtain ⟨id, file, file'⟩ := linked.sameFile
    cases file
    cases file'
  obtain ⟨-, -, -, whole⟩ := lint_sharing wf dir false
  obtain ⟨files, path, covers, counted, -⟩ := whole plain single
  refine ⟨wf, dir, listed, plain, single, files, path, covers, ?_⟩
  rw [← counted, Report.filesChecked, lint, listed]
  rfl

/-- A directory with a broken file in it and a symbolic link to that directory. -/
def linkedFolder : FileSystem :=
  { root := .dir true [("d", .dir true [("x", .dir true [("a.json", .file 0)]),
      ("y", .link "x")])] }

/-- The file is checked on both ways, and its error is counted twice. -/
theorem linkedFolder_checked_twice : linkedFolder.WellFormed ∧
    linkedFolder.isDirectory "d" = true ∧
    linkedFolder.configFiles "d" = ([("d/x/a.json" : Path), ("d/y/a.json" : Path)]) ∧
    linkedFolder.SameFile "d/x/a.json" "d/y/a.json" ∧
    (linkedFolder.lint "d" false).filesChecked = 2 ∧
    (linkedFolder.lint "d" false).errors = 2 ∧
    (linkedFolder.lintFile "d/x/a.json" "d").errors = 1 := by
  have wf : linkedFolder.WellFormed := wellFormed_of_isOrderly (by decide +kernel)
  have listed : linkedFolder.configFiles "d" =
      ([("d/x/a.json" : Path), ("d/y/a.json" : Path)]) :=
    configFiles_eq_of_search rfl rfl (by decide +kernel) (by decide +kernel)
  have same : linkedFolder.SameFile "d/x/a.json" "d/y/a.json" := ⟨0, rfl, rfl⟩
  refine ⟨wf, by decide +kernel, listed, same, ?_, ?_, by decide +kernel⟩
  · rw [Report.filesChecked, lint, listed]
    rfl
  · rw [Report.errors, lint, listed]
    decide +kernel

/-- A directory with a broken file that has two names in it. -/
def hardLinks : FileSystem :=
  { root := .dir true [("d", .dir true [("a.json", .file 0), ("b.json", .file 0)])] }

/-- Without any symbolic link, the file is checked under both names. -/
theorem hardLinks_checked_twice : hardLinks.WellFormed ∧ hardLinks.root.isLinkFree = true ∧
    hardLinks.HardLinked "d/a.json" "d/b.json" ∧
    (hardLinks.lint "d" false).filesChecked = 2 ∧ (hardLinks.lint "d" false).errors = 2 := by
  have listed : hardLinks.configFiles "d" = ([("d/a.json" : Path), ("d/b.json" : Path)]) :=
    configFiles_eq_of_search rfl rfl (by decide +kernel) (by decide +kernel)
  have linked : hardLinks.HardLinked "d/a.json" "d/b.json" :=
    ⟨["d", "a.json"], ["d", "b.json"], 0, rfl, rfl, by decide +kernel, rfl, rfl⟩
  refine ⟨wellFormed_of_isOrderly (by decide +kernel), by decide +kernel, linked, ?_, ?_⟩
  · rw [Report.filesChecked, lint, listed]
    rfl
  · rw [Report.errors, lint, listed]
    decide +kernel

end FileSystem

end FeatureFlags
