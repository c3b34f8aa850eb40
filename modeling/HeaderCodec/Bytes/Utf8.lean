namespace HeaderCodec
namespace Utf8

/-!
# Text as bytes

Names and values are text, and they travel as UTF-8.  Encoding is total, and
decoding refuses exactly the byte strings that encode no text.
-/

/-- The UTF-8 bytes of a text. -/
def encode (text : String) : List UInt8 :=
  text.toUTF8.data.toList

/-- The text that bytes encode, if they are valid UTF-8. -/
def decode? (bytes : List UInt8) : Option String :=
  String.fromUTF8? ⟨bytes.toArray⟩

theorem decode?_encode (text : String) : decode? (encode text) = some text := by
  have whole : (⟨(encode text).toArray⟩ : ByteArray) = text.toByteArray := by
    simp [encode]
  rw [decode?, whole, String.fromUTF8?, dif_pos text.isValidUTF8]
  rfl

theorem encode_of_decode? {bytes : List UInt8} {text : String}
    (decoded : decode? bytes = some text) : encode text = bytes := by
  unfold decode? String.fromUTF8? at decoded
  split at decoded
  · rw [Option.some.injEq] at decoded
    subst decoded
    rfl
  · contradiction

theorem encode_injective {first second : String} (same : encode first = encode second) :
    first = second := by
  have both := decode?_encode first
  rw [same, decode?_encode second] at both
  exact (Option.some.inj both).symm

end Utf8
end HeaderCodec
