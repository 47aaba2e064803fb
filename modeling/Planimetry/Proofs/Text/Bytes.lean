/-!
# The bytes of a text

A text is read back from its bytes in UTF-8.

Main statement: `fromUTF8?_toList_toUTF8`.
-/

namespace Planimetry.Text

theorem toList_loop (b : ByteArray) (i : Nat) (read : List UInt8) :
    ByteArray.toList.loop b i read = read.reverse ++ b.data.toList.drop i := by
  fun_induction ByteArray.toList.loop b i read with
  | case1 i read hi ih =>
    have hlength : i < b.data.toList.length := hi
    have hget : b.get! i = b.data.toList[i] := getElem!_pos b.data i hi
    rw [ih, List.drop_eq_getElem_cons hlength, hget]
    simp
  | case2 i read hi =>
    have hlength : b.data.toList.length ≤ i := Nat.le_of_not_lt hi
    rw [List.drop_eq_nil_of_le hlength, List.append_nil]

theorem toList_eq_data (b : ByteArray) : b.toList = b.data.toList := by
  rw [ByteArray.toList, toList_loop]
  rfl

/-- A text is read back from its bytes. -/
theorem fromUTF8?_toList_toUTF8 (s : String) :
    String.fromUTF8? ⟨s.toUTF8.toList.toArray⟩ = some s := by
  have hbytes : (⟨s.toUTF8.toList.toArray⟩ : ByteArray) = s.toByteArray := by
    rw [toList_eq_data]
    rfl
  rw [hbytes]
  exact dif_pos s.isValidUTF8

end Planimetry.Text
