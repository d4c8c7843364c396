import ProbeSuite.Text.Blank

/-!
# The bytes of texts

* `Text.bytes` : the bytes of a text, in order;
* `Text.bytes_append` : the bytes of two texts follow each other;
* `Text.bytes_inj` : no two texts have the same bytes;
* `Text.count_bytes` : a byte is that of a line end exactly where the text has one;
* `toUTF8_fromUTF8?` : the bytes of a text are read as the text.
-/

namespace ProbeSuite

theorem toUTF8_fromUTF8? (s : String) : String.fromUTF8? s.toUTF8 = some s := by
  rw [String.fromUTF8?, String.toUTF8_eq_toByteArray, dif_pos s.isValidUTF8]
  rfl

namespace Text

/-- The bytes of a text. -/
def bytes (s : String) : List UInt8 := s.toUTF8.toList

theorem toList_loop (array : ByteArray) (n : Nat) (taken : List UInt8) :
    ByteArray.toList.loop array n taken = taken.reverse ++ array.data.toList.drop n := by
  fun_induction ByteArray.toList.loop array n taken with
  | case1 n taken hn ih =>
    have hn' : n < array.data.toList.length := hn
    have hget : array.get! n = array.data.toList[n] := getElem!_pos array.data n hn
    have hdrop := List.drop_eq_getElem_cons hn'
    rw [ih, hdrop, hget, List.reverse_cons, List.append_assoc, List.singleton_append]
  | case2 n taken hn => rw [List.drop_of_length_le (Nat.not_lt.1 hn), List.append_nil]

theorem toList_eq (array : ByteArray) : array.toList = array.data.toList := toList_loop array 0 []

theorem bytes_append (s t : String) : bytes (s ++ t) = bytes s ++ bytes t := by
  unfold bytes
  simp only [String.toUTF8_eq_toByteArray, String.toByteArray_append, toList_eq, ByteArray.toList_data_append]

/-- Texts with the same bytes are the same. -/
theorem bytes_inj {s t : String} : bytes s = bytes t ↔ s = t := by
  constructor
  · intro h
    unfold bytes at h
    rw [toList_eq, toList_eq, Array.toList_inj, String.toUTF8_eq_toByteArray, String.toUTF8_eq_toByteArray] at h
    exact String.toByteArray_inj.1 (ByteArray.ext h)
  · exact congrArg bytes

theorem bytes_eq_flatMap (s : String) : bytes s = s.toList.flatMap String.utf8EncodeChar := by
  have hs : s.toByteArray = s.toList.utf8Encode := by rw [← String.toByteArray_ofList, String.ofList_toList]
  unfold bytes
  rw [String.toUTF8_eq_toByteArray, toList_eq, hs, List.utf8Encode, List.toList_data_toByteArray]

/-- Only the line end is written with the byte of the line end. -/
theorem count_utf8EncodeChar (c : Char) : (String.utf8EncodeChar c).count 10 = [c].count '\n' := by
  have hc : c = '\n' ↔ c.val.toNat = 10 := by rw [← Char.toNat_inj]; rfl
  by_cases hline : c = '\n'
  · subst hline
    rfl
  · have hval : c.val.toNat ≠ 10 := fun h => hline (hc.2 h)
    have hne : ∀ n : Nat, n % 256 ≠ 10 → UInt8.ofNat n ≠ 10 := by
      intro n hn h
      exact hn (congrArg UInt8.toNat h)
    rw [List.count_singleton, if_neg (by simpa using hline), List.count_eq_zero]
    unfold String.utf8EncodeChar
    dsimp only
    split
    · simp only [List.mem_singleton]
      exact (hne _ (by omega)).symm
    · split
      · simp only [List.mem_cons, List.not_mem_nil, or_false, not_or]
        exact ⟨(hne _ (by omega)).symm, (hne _ (by omega)).symm⟩
      · split
        · simp only [List.mem_cons, List.not_mem_nil, or_false, not_or]
          exact ⟨(hne _ (by omega)).symm, (hne _ (by omega)).symm, (hne _ (by omega)).symm⟩
        · simp only [List.mem_cons, List.not_mem_nil, or_false, not_or]
          exact ⟨(hne _ (by omega)).symm, (hne _ (by omega)).symm, (hne _ (by omega)).symm, (hne _ (by omega)).symm⟩

theorem count_bytes (s : String) : (bytes s).count 10 = s.toList.count '\n' := by
  rw [bytes_eq_flatMap]
  induction s.toList with
  | nil => rfl
  | cons c cs ih => rw [List.flatMap_cons, List.count_append, ih, count_utf8EncodeChar, ← List.count_append]; rfl

end Text

end ProbeSuite
