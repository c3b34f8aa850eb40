import HeaderCodec.Bytes.Utf8

namespace HeaderCodec
namespace Utf8

/-!
# The order of texts on the wire

Texts are compared by the code points of their characters.  Their bytes are
compared one by one, and the result is the same.  The first byte of a character
tells how many bytes it has, with greater numbers for more bytes.  Behind that
the digits of the code point follow, the most significant one first.  So the bytes
of two different characters differ somewhere within the shorter one, and what
stands behind them does not matter.
-/

/-- The bytes of a text are those of its characters. -/
theorem encode_eq_flatMap (text : String) :
    encode text = text.toList.flatMap String.utf8EncodeChar := by
  have bytes : text.toByteArray = text.toList.utf8Encode := by
    rw [← String.toByteArray_ofList, String.ofList_toList]
  have whole : encode text = text.toByteArray.data.toList := rfl
  rw [whole, bytes, List.utf8Encode, List.toList_data_toByteArray]

theorem codePoint_lt (char : Char) : char.val.toNat < 0x110000 := by
  rcases char.valid with low | ⟨_, high⟩
  · exact Nat.lt_trans low (by decide)
  · exact high

/-- The bytes of a greater character are greater, whatever follows. -/
theorem encodeChar_lt {first second : Char} (less : first < second) (rest others : List UInt8) :
    String.utf8EncodeChar first ++ rest < String.utf8EncodeChar second ++ others := by
  have smaller : first.val.toNat < second.val.toNat := less
  have bound := codePoint_lt second
  have twoDigits : ∀ value : Nat, value / 4096 = value / 64 / 64 := by omega
  have threeDigits : ∀ value : Nat, value / 262144 = value / 64 / 64 / 64 := by omega
  unfold String.utf8EncodeChar
  generalize first.val.toNat = low at smaller
  generalize second.val.toNat = high at smaller bound
  dsimp only
  -- One case for every two numbers of bytes; the first may not have more.
  repeat' split
  all_goals
    simp only [List.cons_append, List.nil_append, List.cons_lt_cons_iff, UInt8.lt_iff_toNat_lt,
      ← UInt8.toNat_inj, UInt8.toNat_ofNat', twoDigits, threeDigits]
    omega

theorem flatMap_encodeChar_lt {first second : List Char} (less : first < second) :
    first.flatMap String.utf8EncodeChar < second.flatMap String.utf8EncodeChar := by
  induction less with
  | @nil char rest =>
    rcases List.exists_cons_of_ne_nil (@String.utf8EncodeChar_ne_nil char) with ⟨byte, more, parts⟩
    rw [List.flatMap_cons, parts]
    exact .nil
  | cons _ inductionHypothesis => exact List.append_left_lt inductionHypothesis
  | rel less => exact encodeChar_lt less _ _

/-- A smaller text has smaller bytes. -/
theorem encode_lt {first second : String} (less : first < second) :
    encode first < encode second := by
  rw [encode_eq_flatMap, encode_eq_flatMap]
  exact flatMap_encodeChar_lt (String.lt_iff.1 less)

end Utf8
end HeaderCodec
