/-!
# The bytes of a text

UTF-8 writes a later character with later bytes, and the bytes of no character begin those of
another. So it is all the same whether two texts are compared by their characters or by their bytes.
-/

namespace ObjectShape.Text

set_option autoImplicit false

def bytes (text : String) : List UInt8 :=
  text.toByteArray.data.toList

theorem bytes_eq_flat_map (text : String) :
    bytes text = text.toList.flatMap String.utf8EncodeChar := by
  have encoded : text.toByteArray = text.toList.utf8Encode := by
    rw [← String.toByteArray_ofList, String.ofList_toList]
  rw [bytes, encoded, List.utf8Encode]
  simp

/-- The bytes of a character come before those of a later one, whatever follows them. -/
theorem encode_append_lt {earlier later : Char} (ordered : earlier < later)
    (rest other : List UInt8) :
    String.utf8EncodeChar earlier ++ rest < String.utf8EncodeChar later ++ other := by
  have codes : earlier.val.toNat < later.val.toNat := ordered
  have bound : later.val.toNat < 0x110000 := by
    rcases later.valid with low | high <;> omega
  -- Every byte but the first holds six bits of the code, so the bytes are its digits to base 64.
  have twice : ∀ code, code / 4096 = code / 64 / 64 := by omega
  have thrice : ∀ code, code / 262144 = code / 64 / 64 / 64 := by omega
  fun_cases String.utf8EncodeChar earlier <;> fun_cases String.utf8EncodeChar later <;>
    simp only [List.cons_append, List.cons_lt_cons_iff, UInt8.lt_iff_toNat_lt,
      ← UInt8.toNat_inj, UInt8.toNat_ofNat', twice, thrice] <;>
    omega

theorem encode_lt {left right : List Char} (ordered : left < right) :
    left.flatMap String.utf8EncodeChar < right.flatMap String.utf8EncodeChar := by
  induction ordered with
  | @nil c rest =>
      obtain ⟨byte, more, encoded⟩ :=
        List.exists_cons_of_ne_nil (String.utf8EncodeChar_ne_nil (c := c))
      rw [List.flatMap_nil, List.flatMap_cons, encoded]
      exact List.nil_lt_cons _ _
  | cons _ ih =>
      rw [List.flatMap_cons, List.flatMap_cons]
      exact List.append_left_lt ih
  | rel ordered => exact encode_append_lt ordered _ _

theorem lt_iff_bytes_lt (left right : String) : left < right ↔ bytes left < bytes right := by
  rw [bytes_eq_flat_map, bytes_eq_flat_map]
  constructor
  · exact encode_lt
  · intro ordered
    rcases Decidable.em (left < right) with earlier | unordered
    · exact earlier
    · exfalso
      rcases Decidable.em (left = right) with rfl | different
      · exact List.lt_irrefl _ ordered
      · have swapped := Std.lt_of_le_of_ne (String.not_lt.mp unordered) (Ne.symm different)
        exact List.lt_asymm ordered (encode_lt swapped)

theorem le_iff_bytes_le (left right : String) : left ≤ right ↔ bytes left ≤ bytes right :=
  not_congr (lt_iff_bytes_lt right left)

end ObjectShape.Text
