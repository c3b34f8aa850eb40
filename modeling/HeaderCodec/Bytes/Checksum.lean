namespace HeaderCodec

/-!
# Adler-32

The checksum of a compressed stream's output and of its preset dictionary: two
sums modulo the prime 65521, the first of the bytes and the second of the
first sum's values, starting from one and zero.  The sums are kept apart here
so that a checksum of a concatenation is a continuation of the first part's.
-/

/-- The two running sums of a checksum. -/
structure Checksum where
  low : Nat := 1
  high : Nat := 0
deriving DecidableEq, Repr

namespace Checksum

/-- The largest prime below 2^16. -/
def modulus : Nat := 65521

/-- Continue a checksum by one byte. -/
def push (sums : Checksum) (byte : UInt8) : Checksum :=
  let low := (sums.low + byte.toNat) % modulus
  { low, high := (sums.high + low) % modulus }

/-- Both sums in one 32-bit word, the sum of sums above. -/
def word (sums : Checksum) : Nat :=
  sums.high * 65536 + sums.low

/-- The checksum of a byte string. -/
def ofBytes (bytes : List UInt8) : Checksum :=
  bytes.foldl push {}

theorem ofBytes_append (first second : List UInt8) :
    ofBytes (first ++ second) = second.foldl push (ofBytes first) := by
  simp [ofBytes]

theorem push_low_lt (sums : Checksum) (byte : UInt8) : (sums.push byte).low < modulus :=
  Nat.mod_lt _ (by decide)

theorem push_high_lt (sums : Checksum) (byte : UInt8) : (sums.push byte).high < modulus :=
  Nat.mod_lt _ (by decide)

/-- Both sums are reduced at every byte, so a checksum fits into a word. -/
theorem word_ofBytes_lt (bytes : List UInt8) : (ofBytes bytes).word < 0x100000000 := by
  have reduced : (ofBytes bytes).low < modulus ∧ (ofBytes bytes).high < modulus := by
    rcases List.eq_nil_or_concat bytes with rfl | ⟨before, last, rfl⟩
    · decide
    · rw [List.concat_eq_append, ofBytes_append]
      exact ⟨push_low_lt _ _, push_high_lt _ _⟩
  rw [modulus] at reduced
  rw [word]
  omega

end Checksum
end HeaderCodec
