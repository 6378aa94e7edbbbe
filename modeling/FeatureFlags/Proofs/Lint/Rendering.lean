import FeatureFlags.Lint.Report
import Mathlib.Data.List.TakeWhile

/-!
# When a report is JSON

A report can be written as JSON if every path in it is a text (`Report.isSome_toJson?`): the path that
was asked for, and the names of the files as seen from there. A file that was asked for itself has
the empty name, whatever its path (`Path.relativeTo_self`).
-/

namespace FeatureFlags

/-- All results are there if each of them is. -/
theorem isSome_mapM {α β : Type} (f : α → Option β) (xs : List α) :
    (xs.mapM f).isSome = xs.all fun x => (f x).isSome := by
  induction xs with
  | nil => rfl
  | cons x more ih =>
    rw [List.all_cons, ← ih, List.mapM_cons]
    cases first : f x <;> cases rest : more.mapM f <;> rfl

theorem FileReport.isSome_toJson? (r : FileReport) : r.toJson?.isSome = r.file.isText := by
  rw [toJson?, Option.isSome_map, RawText.isText]

namespace Report

/-- Whether all paths in a report are texts. -/
def isText (r : Report) : Bool :=
  r.path.isText && r.results.all (·.file.isText)

theorem isSome_toJson? (r : Report) : r.toJson?.isSome = r.isText := by
  have each : (r.results.mapM FileReport.toJson?).isSome = r.results.all (·.file.isText) := by
    simp only [isSome_mapM, FileReport.isSome_toJson?]
  rw [isText, ← each, RawText.isText, toJson?]
  cases RawText.text? r.path <;> cases r.results.mapM FileReport.toJson? <;> rfl

end Report

namespace Path

variable {ps : List (Option Component × RawText)}

/-- Behind all components of a path there are only pieces that make none. -/
theorem behind?_self (ps : List (Option Component × RawText)) :
    ∃ rest, behind? (ps.filterMap (·.1)) ps = some rest ∧ ∀ m ∈ rest, m.1 = none := by
  induction ps with
  | nil => exact ⟨[], rfl, by simp⟩
  | cons m more ih =>
    obtain ⟨rest, behind, silent⟩ := ih
    rcases m with ⟨_ | c, piece⟩
    · cases components : more.filterMap (·.1) with
      | nil =>
        refine ⟨(none, piece) :: more, by simp [components, behind?], ?_⟩
        simpa [List.filterMap_eq_nil_iff] using components
      | cons c cs =>
        rw [components] at behind
        exact ⟨rest, by simpa [components, behind?] using behind, silent⟩
    · exact ⟨rest, by simpa [behind?] using behind, silent⟩

theorem trimEnd_eq_nil (silent : ∀ m ∈ ps, m.1 = none) : trimEnd ps = [] := by
  have dropped : ps.reverse.dropWhile (·.1.isNone) = [] :=
    List.dropWhile_eq_nil_iff.2 fun m hm => by simp [silent m (List.mem_reverse.1 hm)]
  rw [trimEnd, dropped, List.reverse_nil]

theorem relativeTo_self (p : Path) : p.relativeTo p = "" := by
  obtain ⟨rest, behind, silent⟩ := behind?_self p.marked
  have nothing : trimEnd (if p.components.isEmpty then rest
      else rest.dropWhile (·.1.isNone)) = [] := by
    refine trimEnd_eq_nil fun m hm => silent m ?_
    split at hm
    · exact hm
    · exact (List.dropWhile_suffix _).subset hm
  rw [relativeTo, stripBase?, components, behind, ← components]
  simp only [Option.map_some, Option.getD_some, nothing]
  rfl

end Path

end FeatureFlags
