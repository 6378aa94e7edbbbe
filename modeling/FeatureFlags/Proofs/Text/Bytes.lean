import Mathlib.Tactic.SplitIfs

/-!
# The order of bytes

Texts compared character by character stand in the order of their UTF-8 bytes (`Text.bytes_lt`):
of two characters the encoding of the smaller one is smaller, whatever follows (`encode_lt`).
-/

namespace FeatureFlags.Text

/-- The UTF-8 bytes of a text. -/
def bytes (s : String) : List UInt8 :=
  s.toUTF8.data.toList

theorem bytes_eq_flatMap (s : String) : bytes s = s.toList.flatMap String.utf8EncodeChar := by
  have chars : s.toByteArray = s.toList.utf8Encode := by
    rw [← String.toByteArray_ofList, String.ofList_toList]
  rw [bytes, String.toUTF8_eq_toByteArray, chars, List.utf8Encode, List.toList_data_toByteArray]

theorem toNat_val_lt (c : Char) : c.val.toNat < 0x110000 := by
  rcases c.valid with h | ⟨-, h⟩ <;> omega

theorem encode_lt {c d : Char} (lt : c < d) (x y : List UInt8) :
    String.utf8EncodeChar c ++ x < String.utf8EncodeChar d ++ y := by
  have lt : c.val.toNat < d.val.toNat := lt
  have bound := toNat_val_lt d
  unfold String.utf8EncodeChar
  generalize c.val.toNat = m, d.val.toNat = n at *
  dsimp only
  -- by the lengths of both encodings; the first bytes tell different lengths apart
  split_ifs <;> simp (disch := omega) only [List.cons_append, List.nil_append,
    List.cons_lt_cons_iff, UInt8.lt_iff_toNat_lt, ← UInt8.toNat_inj, UInt8.toNat_ofNat',
    Nat.mod_eq_of_lt] <;> omega

theorem bytes_lt {s t : String} (lt : s < t) : bytes s < bytes t := by
  rw [bytes_eq_flatMap, bytes_eq_flatMap]
  have lt := String.lt_iff.1 lt
  generalize s.toList = cs, t.toList = ds at lt ⊢
  induction lt with
  | @nil d ds =>
    rw [List.flatMap_cons]
    cases h : String.utf8EncodeChar d with
    | nil => exact (String.utf8EncodeChar_ne_nil h).elim
    | cons b bs => exact .nil
  | rel lt => exact encode_lt lt _ _
  | cons _ ih => exact List.append_left_lt ih

end FeatureFlags.Text
