import FeatureFlags.Files.Collect
import FeatureFlags.Proofs.Files.Lookup

/-!
# What the search for files finds

`FileSystem.Below` says which paths lie below a directory, by looking at paths alone: the entries of
the directory, and below these where they lead to directories. The search goes through the tree
itself and counts the links on its way. What holds of a directory if it holds of the directories in it
holds of the search (`search_induct`): its measure is the links that are left, and then the size of
the directory. So the search finds the paths below that are named like JSON files and lead to no
directory (`search_filesBelow`), each once (`search_spread`).
-/

namespace FeatureFlags.FileSystem

variable {fs : FileSystem} {p q : Path} {name : RawText}

/-- The path leads to a directory, readable or not. -/
def isDirectory (fs : FileSystem) (p : Path) : Bool :=
  match fs.lookup p with
  | .ok (.dir ..) => true
  | _ => false

/-- The path leads to a directory that can be read and has an entry of the name. -/
def Lists (fs : FileSystem) (p : Path) (name : RawText) : Prop :=
  ∃ es, fs.lookup p = .ok (.dir true es) ∧ name ∈ es.map (·.1)

/-- The paths that are reached from a directory through its entries, and through the entries of
those that lead to directories. -/
inductive Below (fs : FileSystem) : Path → Path → Prop
  | entry {p : Path} {name : RawText} : fs.Lists p name → Below fs p (p.join name)
  | through {p q : Path} {name : RawText} :
      fs.Lists p name → Below fs (p.join name) q → Below fs p q

theorem below_iff : fs.Below p q ↔
    ∃ name, fs.Lists p name ∧ (q = p.join name ∨ fs.Below (p.join name) q) := by
  constructor
  · intro h
    cases h with
    | entry listed => exact ⟨_, listed, .inl rfl⟩
    | through listed inner => exact ⟨_, listed, .inr inner⟩
  · rintro ⟨name, listed, rfl | inner⟩
    · exact .entry listed
    · exact .through listed inner

theorem Below.trans {r : Path} (h : fs.Below p q) (h' : fs.Below q r) : fs.Below p r := by
  induction h with
  | entry listed => exact .through listed h'
  | through listed _ ih => exact .through listed (ih h')

theorem Below.exists_entries (h : fs.Below p q) : ∃ es, fs.lookup p = .ok (.dir true es) := by
  cases h with
  | entry listed | through listed =>
    obtain ⟨es, there, -⟩ := listed
    exact ⟨es, there⟩

theorem lists_iff {es : List (RawText × Entry)} (there : fs.lookup p = .ok (.dir true es)) :
    fs.Lists p name ↔ name ∈ es.map (·.1) := by
  simp [Lists, there]

theorem lookup_eq_ok_iff {e : Entry} : fs.lookup p = .ok e ↔
    ∃ links location, fs.resolve p = .ok (links, location) ∧ fs.entry? location = some e := by
  unfold lookup
  rcases fs.resolve p with fault | ⟨links, location⟩
  · simp
  · cases h : fs.entry? location <;> simp [h]

theorem isDirectory_iff : fs.isDirectory p = true ↔
    ∃ readable es, fs.lookup p = .ok (.dir readable es) := by
  unfold isDirectory
  split <;> simp_all

/-! ## The search -/

/-- What is found at a path, where `motive` is known of what is found below a directory. -/
inductive Found (fs : FileSystem) (motive : Path → List Path → Prop) (q : Path) : List Path → Prop
  | named : fs.isDirectory q = false → Found fs motive q q.ifJson
  | closed {es : List (RawText × Entry)} : fs.lookup q = .ok (.dir false es) → Found fs motive q []
  | inside {es : List (RawText × Entry)} {files : List Path} :
      fs.lookup q = .ok (.dir true es) → motive q files → Found fs motive q files

theorem jsonFilesIn_eq (visit : LinkVisitor) (es : List (RawText × Entry)) (location : Location)
    (p : Path) : Entry.jsonFilesIn visit es location p =
      es.flatMap fun m => Entry.jsonFiles visit m.2 location m.1 (p.join m.1) := by
  induction es with
  | nil => rfl
  | cons m more ih => simp [Entry.jsonFilesIn, ih]

theorem sizeOf_lt_of_mem {readable : Bool} {inner es : List (RawText × Entry)}
    (h : (name, .dir readable inner) ∈ es) : sizeOf inner < sizeOf es := by
  have := List.sizeOf_lt_of_mem h
  simp only [Prod.mk.sizeOf_spec, Entry.dir.sizeOf_spec] at this
  omega

section

variable {links : Nat} {location : Location} {es : List (RawText × Entry)}

/-- What holds of a directory, if it holds of the directories among its entries, holds of what the
search finds below a path. -/
theorem search_induct (wf : fs.WellFormed) {motive : Path → List Path → Prop}
    (directory : ∀ p es (found : RawText × Entry → List Path), fs.lookup p = .ok (.dir true es) →
      (∀ m ∈ es, fs.Found motive (p.join m.1) (found m)) → motive p (es.flatMap found))
    {steps : Nat} (enough : links < steps) (resolved : fs.resolve p = .ok (links, location))
    (there : fs.entry? location = some (.dir true es)) :
    motive p (Entry.jsonFilesIn (fs.visitLink steps links) es location p) := by
  induction steps using Nat.strongRecOn generalizing links location es p with
  | ind steps fewer =>
    induction hn : sizeOf es using Nat.strongRecOn generalizing location es p with
    | ind n smaller =>
      rw [jsonFilesIn_eq]
      refine directory p es _ (lookup_eq_ok_iff.2 ⟨links, location, resolved, there⟩) ?_
      rintro ⟨name, e⟩ hm
      have named := ((wf _ _ _ there).2 _ hm).1
      have joined := resolve_join resolved named
      dsimp only
      cases e with
      | file id =>
        rw [locate_entry wf there hm (by simp)] at joined
        refine .named ?_
        simp [isDirectory, lookup, joined, entry?_of_mem wf there hm]
      | dir readable inner =>
        rw [locate_entry wf there hm (by simp)] at joined
        have entry := entry?_of_mem wf there hm
        have found := lookup_eq_ok_iff.2 ⟨_, _, joined, entry⟩
        have less : sizeOf inner < n := hn ▸ sizeOf_lt_of_mem hm
        cases readable with
        | false => exact .closed found
        | true => exact .inside found (smaller _ less joined entry rfl)
      | link target =>
        obtain ⟨left, rfl⟩ := Nat.exists_eq_succ_of_ne_zero (Nat.ne_zero_of_lt enough)
        simp only [Entry.jsonFiles, visitLink]
        cases found : fs.locate links location [name] with
        | error fault => exact .named (by simp [isDirectory, lookup, joined, found])
        | ok there' =>
          obtain ⟨links', l⟩ := there'
          have cost := links_lt_of_locate_link wf there hm found
          rw [found] at joined
          dsimp only
          cases entry : fs.entry? l with
          | none => exact .named (by simp [isDirectory, lookup, joined, entry])
          | some e =>
            cases e with
            | file | link => exact .named (by simp [isDirectory, lookup, joined, entry])
            | dir readable inner =>
              have opened := lookup_eq_ok_iff.2 ⟨_, _, joined, entry⟩
              cases readable with
              | false => exact .closed opened
              | true =>
                -- a link was spent, so there are steps left for those that lead on
                have enough' : links' < left := by omega
                exact .inside opened (fewer left (Nat.lt_succ_self left) enough' joined entry)

/-- The files are what lies below a path, is named like a JSON file and is no directory. -/
def FilesBelow (fs : FileSystem) (p : Path) (files : List Path) : Prop :=
  ∀ q, q ∈ files ↔ fs.Below p q ∧ fs.isDirectory q = false ∧ q.isJson = true

/-- What is found at the path of an entry is the path itself or what lies below it. -/
theorem Found.mem_iff {files : List Path} (h : fs.Found fs.FilesBelow p files) : q ∈ files ↔
    (q = p ∨ fs.Below p q) ∧ fs.isDirectory q = false ∧ q.isJson = true := by
  have opens : ∀ {es : List (RawText × Entry)} {readable : Bool},
      fs.lookup p = .ok (.dir readable es) → fs.isDirectory p = true :=
    fun found => isDirectory_iff.2 ⟨_, _, found⟩
  cases h with
  | named plain =>
    have nothing : ¬ fs.Below p q := by
      intro below
      obtain ⟨es, found⟩ := below.exists_entries
      simp [opens found] at plain
    simp only [nothing, or_false, Path.ifJson]
    cases named : p.isJson with
    | true =>
      simp only [if_true, List.mem_singleton]
      exact ⟨by rintro rfl; exact ⟨rfl, plain, named⟩, And.left⟩
    | false =>
      simp only [Bool.false_eq_true, if_false, List.not_mem_nil, false_iff]
      rintro ⟨rfl, -, there⟩
      simp [named] at there
  | closed found =>
    have nothing : ¬ fs.Below p q := by
      intro below
      obtain ⟨es, open_⟩ := below.exists_entries
      simp [found] at open_
    have dir := opens found
    simp only [List.not_mem_nil, nothing, or_false, false_iff]
    rintro ⟨rfl, plain, -⟩
    simp [dir] at plain
  | inside found below =>
    have dir := opens found
    rw [below q]
    constructor
    · exact fun ⟨inner, rest⟩ => ⟨.inr inner, rest⟩
    · rintro ⟨rfl | inner, plain, named⟩
      · simp [dir] at plain
      · exact ⟨inner, plain, named⟩

theorem search_filesBelow (wf : fs.WellFormed) {steps : Nat} (enough : links < steps)
    (resolved : fs.resolve p = .ok (links, location))
    (there : fs.entry? location = some (.dir true es)) :
    fs.FilesBelow p (Entry.jsonFilesIn (fs.visitLink steps links) es location p) := by
  refine search_induct wf ?_ enough resolved there
  intro p es found there each q
  rw [List.mem_flatMap, below_iff]
  constructor
  · rintro ⟨m, hm, hq⟩
    obtain ⟨below, rest⟩ := (each m hm).mem_iff.1 hq
    exact ⟨⟨m.1, (lists_iff there).2 (List.mem_map_of_mem hm), below⟩, rest⟩
  · rintro ⟨⟨name, listed, below⟩, rest⟩
    obtain ⟨m, hm, rfl⟩ := List.mem_map.1 ((lists_iff there).1 listed)
    exact ⟨m, hm, (each m hm).mem_iff.2 ⟨below, rest⟩⟩

/-! ## Each path once -/

theorem wellFormed_entries (wf : fs.WellFormed) {readable : Bool}
    (there : fs.lookup p = .ok (.dir readable es)) :
    p ≠ "" ∧ (es.map (·.1)).Nodup ∧ ∀ m ∈ es, Path.IsName m.1 := by
  obtain ⟨links, location, resolved, entry⟩ := lookup_eq_ok_iff.1 there
  obtain ⟨nodup, named⟩ := wf _ _ _ entry
  refine ⟨?_, nodup, fun m hm => (named m hm).1⟩
  rintro rfl
  simp [resolve] at resolved

/-- The paths all go on from the components of one, and no two have the same. -/
structure Spread (p : Path) (files : List Path) : Prop where
  starts : ∀ q ∈ files, p.components <+: q.components
  distinct : (files.map Path.components).Nodup

theorem Found.spread {files : List Path} (h : fs.Found Spread p files) : Spread p files := by
  cases h with
  | named =>
    unfold Path.ifJson
    split
    · exact ⟨by simp, by simp⟩
    · exact ⟨by simp, by simp⟩
  | closed => exact ⟨by simp, by simp⟩
  | inside _ below => exact below

theorem search_spread (wf : fs.WellFormed) {steps : Nat} (enough : links < steps)
    (resolved : fs.resolve p = .ok (links, location))
    (there : fs.entry? location = some (.dir true es)) :
    Spread p (Entry.jsonFilesIn (fs.visitLink steps links) es location p) := by
  refine search_induct wf ?_ enough resolved there
  intro p es found there each
  obtain ⟨written, nodup, named⟩ := wellFormed_entries wf there
  have joined : ∀ m ∈ es, (p.join m.1).components = p.components ++ [.name m.1] :=
    fun m hm => Path.components_join written (named m hm)
  constructor
  · intro q hq
    obtain ⟨m, hm, hq⟩ := List.mem_flatMap.1 hq
    have start := (each m hm).spread.starts q hq
    rw [joined m hm] at start
    exact (List.prefix_append _ _).trans start
  · rw [List.map_flatMap, List.nodup_flatMap]
    refine ⟨fun m hm => (each m hm).spread.distinct, ?_⟩
    refine (List.pairwise_map.1 nodup).imp_of_mem ?_
    intro m m' hm hm' differ cs hc hc'
    -- the name of the entry comes next in the components
    obtain ⟨q, hq, rfl⟩ := List.mem_map.1 hc
    obtain ⟨q', hq', same⟩ := List.mem_map.1 hc'
    have start := (each m hm).spread.starts q hq
    have start' := (each m' hm').spread.starts q' hq'
    rw [joined m hm] at start
    rw [joined m' hm', same] at start'
    have equal := (List.prefix_of_prefix_length_le start start' (by simp)).eq_of_length (by simp)
    exact differ (by simpa using equal)

end

end FeatureFlags.FileSystem
