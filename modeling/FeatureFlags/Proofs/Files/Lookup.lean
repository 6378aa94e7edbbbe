import FeatureFlags.Files.FileSystem
import FeatureFlags.Proofs.Files.PathOrder
import FeatureFlags.Proofs.Json.Members

/-!
# Where the path of an entry leads

Following names one after another is following the first ones and going on from where they lead, with
the links that are left (`FileSystem.locate_append`). So the path of an entry leads where its name
leads from the directory (`FileSystem.resolve_join`): to the entry itself, or where it leads as a link,
which leaves fewer links to follow (`FileSystem.locate_entry`). This needs a file system whose
directories repeat no name (`FileSystem.WellFormed`), which a look at the tree decides
(`wellFormed_of_isOrderly`).
-/

namespace FeatureFlags

namespace Entry

variable {es : List (RawText × Entry)} {name : RawText} {e : Entry}

theorem find?_append (e : Entry) (l l' : Location) :
    e.find? (l ++ l') = (e.find? l).bind (find? · l') := by
  induction l generalizing e with
  | nil => rfl
  | cons name more ih =>
    cases h : e.child? name with
    | none => simp [find?, h]
    | some d => simp [find?, h, ih]

theorem mem_of_child? {readable : Bool} (h : child? (.dir readable es) name = some e) :
    (name, e) ∈ es :=
  mem_of_find?_key h

/-- Where every name stands once, an entry is found under its name. -/
theorem child?_of_mem (readable : Bool) (nodup : (es.map (·.1)).Nodup) (h : (name, e) ∈ es) :
    child? (.dir readable es) name = some e :=
  find?_key_of_mem nodup h

/-- The order of its names makes no difference to what a directory has under a name. -/
theorem child?_perm (readable : Bool) {es' : List (RawText × Entry)} (perm : es.Perm es')
    (nodup : (es.map (·.1)).Nodup) (name : RawText) :
    child? (.dir readable es) name = child? (.dir readable es') name := by
  have nodup' := (perm.map (·.1)).nodup_iff.1 nodup
  refine Option.ext fun e => ⟨fun h => ?_, fun h => ?_⟩
  · exact child?_of_mem readable nodup' (perm.mem_iff.1 (mem_of_child? h))
  · exact child?_of_mem readable nodup (perm.mem_iff.2 (mem_of_child? h))

end Entry

namespace FileSystem

variable {fs : FileSystem} {p : Path} {name : RawText} {links : Nat} {location : Location}

theorem entry?_append (l l' : Location) :
    fs.entry? (l ++ l') = (fs.entry? l).bind (·.find? l') :=
  fs.root.find?_append l l'

/-! ## Names one after another -/

theorem reach_append (location : Location) (xs ys : List RawText) :
    fs.reach location (xs ++ ys) = match fs.reach location xs with
      | .error fault => .error fault
      | .ok (.arrived l) => fs.reach l ys
      | .ok (.atLink parent target rest) => .ok (.atLink parent target (rest ++ ys)) := by
  induction xs generalizing location with
  | nil => simp [reach]
  | cons x more ih =>
    simp only [List.cons_append, reach]
    repeat' split
    all_goals simp_all

/-- One step of `locate`. -/
theorem locate_eq (links : Nat) (location : Location) (names : List RawText) :
    fs.locate links location names = match fs.reach location names with
      | .error fault => .error fault
      | .ok (.arrived l) => .ok (links, l)
      | .ok (.atLink parent target rest) =>
        match links with
        | 0 => .error .tooManyLinks
        | links + 1 =>
          if target = "" then .error .notFound
          else fs.locate links (origin parent target) (target.pieces ++ rest) := by
  have unfolded := locate.eq_def fs links location names
  dsimp only at unfolded
  refine unfolded.trans ?_
  rcases fs.reach location names with fault | ⟨l⟩ | ⟨parent, target, rest⟩
  · rfl
  · rfl
  · cases links <;> rfl

theorem locate_append (links : Nat) (location : Location) (xs ys : List RawText) :
    fs.locate links location (xs ++ ys) = match fs.locate links location xs with
      | .error fault => .error fault
      | .ok (links, l) => fs.locate links l ys := by
  induction links generalizing location xs with
  | zero =>
    rw [locate_eq 0 location (xs ++ ys), locate_eq 0 location xs, reach_append]
    rcases fs.reach location xs with fault | ⟨l⟩ | ⟨parent, target, rest⟩
    · rfl
    · exact (locate_eq 0 l ys).symm
    · rfl
  | succ links ih =>
    rw [locate_eq (links + 1) location (xs ++ ys), locate_eq (links + 1) location xs, reach_append]
    rcases fs.reach location xs with fault | ⟨l⟩ | ⟨parent, target, rest⟩
    · rfl
    · exact (locate_eq (links + 1) l ys).symm
    · -- what is left behind the link goes along with the names to follow
      by_cases empty : target = ""
      · simp [empty]
      · simp only [empty, if_false]
        rw [← List.append_assoc, ih]

theorem locate_slash (links : Nat) (location : Location) : fs.locate links location [""] =
    if fs.isDirAt location = true then .ok (links, location) else .error .notDirectory := by
  rw [locate_eq]
  cases dir : fs.isDirAt location <;> simp [reach, dir]

theorem links_le_of_locate {links links' : Nat} {location l : Location} {names : List RawText}
    (h : fs.locate links location names = .ok (links', l)) : links' ≤ links := by
  induction links generalizing location names with
  | zero =>
    rw [locate_eq] at h
    split at h <;> simp_all
  | succ links ih =>
    rw [locate_eq] at h
    split at h
    · cases h
    · cases h
      exact Nat.le_refl _
    · dsimp only at h
      split at h
      · cases h
      · exact Nat.le_succ_of_le (ih h)

theorem links_le_of_resolve (h : fs.resolve p = .ok (links, location)) : links ≤ linkLimit := by
  unfold resolve at h
  split at h
  · cases h
  · exact links_le_of_locate h

/-! ## The entries of a directory -/

theorem origin_join (start : Location) (there : p ≠ "") (name : RawText) :
    origin start (p.join name) = origin start p := by
  have bytes : ∃ b bs, p.bytes = b :: bs := by
    cases h : p.bytes with
    | nil => exact absurd (RawText.eq_empty_iff.2 h) there
    | cons b bs => exact ⟨b, bs, rfl⟩
  obtain ⟨b, bs, bytes⟩ := bytes
  unfold origin Path.join
  split <;> simp [bytes]

/-- Where the path of an entry leads. -/
theorem resolve_join (resolved : fs.resolve p = .ok (links, location))
    (named : Path.IsName name) : fs.resolve (p.join name) = fs.locate links location [name] := by
  have there : p ≠ "" := by
    rintro rfl
    simp [resolve] at resolved
  obtain ⟨first, more, joined, whole⟩ := Path.pieces_join there named
  simp only [resolve, there, if_false] at resolved
  simp only [resolve, Path.join_ne_empty p named, if_false, joined, origin_join _ there,
    locate_append]
  rcases whole with ⟨front, -⟩ | front
  · rw [← front, resolved]
  · -- the slash at the end only asks for a directory
    rw [front, locate_append] at resolved
    cases h : fs.locate linkLimit (origin fs.workingDirectory p) (first :: more) with
    | error fault => simp [h] at resolved
    | ok found =>
      obtain ⟨left, l⟩ := found
      simp only [h] at resolved ⊢
      rw [locate_slash] at resolved
      split at resolved
      · cases resolved
        rfl
      · cases resolved

/-- A name that an entry of a directory can have. -/
def IsEntryName (name : RawText) : Prop :=
  Path.IsName name ∧ name.bytes.length ≤ nameLimit

instance (name : RawText) : Decidable (IsEntryName name) :=
  inferInstanceAs (Decidable (_ ∧ _))

/-- Every directory has each of its names once, and only names that an entry can have. -/
def WellFormed (fs : FileSystem) : Prop :=
  ∀ location readable es, fs.entry? location = some (.dir readable es) →
    (es.map (·.1)).Nodup ∧ ∀ m ∈ es, IsEntryName m.1

section

variable {readable : Bool} {es : List (RawText × Entry)} {e : Entry}

theorem entry?_of_mem (wf : fs.WellFormed) (there : fs.entry? location = some (.dir readable es))
    (h : (name, e) ∈ es) : fs.entry? (location ++ [name]) = some e := by
  have found := Entry.child?_of_mem readable (wf _ _ _ there).1 h
  simp [entry?_append, there, Entry.find?, found]

/-- An entry that is a link leads on, and any other is where its name leads. -/
theorem reach_entry (wf : fs.WellFormed) (there : fs.entry? location = some (.dir readable es))
    (h : (name, e) ∈ es) : fs.reach location [name] = match e with
      | .link target => .ok (.atLink location target [])
      | _ => .ok (.arrived (location ++ [name])) := by
  obtain ⟨⟨written, point, points, -⟩, short⟩ := (wf _ _ _ there).2 _ h
  have dir : fs.isDirAt location = true := by simp [isDirAt, there]
  have fits : ¬ nameLimit < name.bytes.length := Nat.not_lt.2 short
  dsimp only at written point points fits
  cases e <;>
    simp [reach, dir, written, point, points, fits, entry?_of_mem wf there h]

theorem locate_entry (wf : fs.WellFormed) (there : fs.entry? location = some (.dir readable es))
    (h : (name, e) ∈ es) (plain : ∀ target, e ≠ .link target) :
    fs.locate links location [name] = .ok (links, location ++ [name]) := by
  rw [locate_eq, reach_entry wf there h]
  cases e with
  | link target => exact absurd rfl (plain target)
  | file | dir => rfl

/-- To follow a link costs one. -/
theorem links_lt_of_locate_link (wf : fs.WellFormed)
    (there : fs.entry? location = some (.dir readable es)) {target : Path}
    (h : (name, .link target) ∈ es) {links' : Nat} {l : Location}
    (found : fs.locate links location [name] = .ok (links', l)) : links' < links := by
  rw [locate_eq, reach_entry wf there h] at found
  cases links with
  | zero => cases found
  | succ links =>
    dsimp only at found
    split at found
    · cases found
    · exact Nat.lt_succ_of_le (links_le_of_locate found)

end

end FileSystem

/-! ## Well-formed trees -/

namespace Entry

mutual

/-- Whether every directory in the tree has each of its names once, and only names that an entry
can have. -/
def isOrderly : Entry → Bool
  | .dir _ es => decide (es.map (·.1)).Nodup && areOrderly es
  | .file .. | .link _ => true

def areOrderly : List (RawText × Entry) → Bool
  | [] => true
  | (name, e) :: more =>
    decide (FileSystem.IsEntryName name) && isOrderly e && areOrderly more

end

variable {e e' : Entry} {es : List (RawText × Entry)} {name : RawText} {readable : Bool}

theorem areOrderly_iff : areOrderly es = true ↔
    ∀ m ∈ es, FileSystem.IsEntryName m.1 ∧ m.2.isOrderly = true := by
  induction es with
  | nil => simp [areOrderly]
  | cons m more ih => simp [areOrderly, ih]

theorem isOrderly_dir_iff : isOrderly (.dir readable es) = true ↔
    (es.map (·.1)).Nodup ∧ ∀ m ∈ es, FileSystem.IsEntryName m.1 ∧ m.2.isOrderly = true := by
  simp [isOrderly, areOrderly_iff]

theorem isOrderly_of_find? (orderly : e.isOrderly = true) {location : Location}
    (h : e.find? location = some e') : e'.isOrderly = true := by
  induction location generalizing e with
  | nil =>
    cases h
    exact orderly
  | cons name more ih =>
    obtain ⟨d, child, inner⟩ := Option.bind_eq_some_iff.1 h
    cases e with
    | file | link => cases child
    | dir readable es => exact ih ((isOrderly_dir_iff.1 orderly).2 _ (mem_of_child? child)).2 inner

end Entry

theorem FileSystem.wellFormed_of_isOrderly {fs : FileSystem} (orderly : fs.root.isOrderly = true) :
    fs.WellFormed := by
  intro location readable es there
  obtain ⟨nodup, each⟩ := Entry.isOrderly_dir_iff.1 (Entry.isOrderly_of_find? orderly there)
  exact ⟨nodup, fun m hm => (each m hm).1⟩

end FeatureFlags
