/-!
# Pieces of a text

`pieces` cuts a text, of characters or bytes, at every occurrence of a separator; joined by the
separator again, the pieces give the text back.
-/

namespace FeatureFlags.Text

variable {α : Type} [DecidableEq α]

/-- The texts between separators, at least one. -/
def pieces (separator : α) : List α → List (List α)
  | [] => [[]]
  | c :: more =>
    if c = separator then [] :: pieces separator more
    else
      match pieces separator more with
      | [] => [[c]]
      | piece :: rest => (c :: piece) :: rest

theorem pieces_ne_nil (separator : α) (text : List α) : pieces separator text ≠ [] := by
  cases text with
  | nil => simp [pieces]
  | cons c more =>
    simp only [pieces]
    split
    · simp
    · split <;> simp

theorem intercalate_pieces (separator : α) (text : List α) :
    [separator].intercalate (pieces separator text) = text := by
  induction text with
  | nil => rfl
  | cons c more ih =>
    have ne := pieces_ne_nil separator more
    rcases h : pieces separator more with _ | ⟨piece, rest⟩
    · exact absurd h ne
    · simp only [pieces, h]
      rw [h] at ih
      split
      next hc =>
        subst hc
        rw [← ih]
        rfl
      next =>
        rw [← ih]
        cases rest <;> simp [List.intercalate]

end FeatureFlags.Text
