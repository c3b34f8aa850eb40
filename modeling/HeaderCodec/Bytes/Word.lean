namespace HeaderCodec
namespace Word

/-!
# Big-endian words

The header block layout, the stream's dictionary id and its checksum are
32-bit words with the most significant byte first.  A word is a natural number
here, because lengths and counts are compared with budgets that may exceed 32
bits.  Reading is total: it takes any number of bytes.
-/

/-- The number of words: words are the numbers below this. -/
def limit : Nat := 0x100000000

/-- The four bytes of a word, most significant first. -/
def toBytes (value : Nat) : List UInt8 :=
  [UInt8.ofNat (value >>> 24), UInt8.ofNat (value >>> 16), UInt8.ofNat (value >>> 8),
    UInt8.ofNat value]

/-- The number that bytes denote, most significant first. -/
def ofBytes (bytes : List UInt8) : Nat :=
  bytes.foldl (fun value byte => value * 256 + byte.toNat) 0

@[simp] theorem length_toBytes (value : Nat) : (toBytes value).length = 4 := rfl

theorem ofBytes_toBytes (value : Nat) (small : value < limit) :
    ofBytes (toBytes value) = value := by
  rw [limit] at small
  simp only [ofBytes, toBytes, List.foldl_cons, List.foldl_nil, UInt8.toNat_ofNat']
  omega

theorem ofBytes_lt (bytes : List UInt8) (four : bytes.length = 4) :
    ofBytes bytes < limit := by
  match bytes, four with
  | [first, second, third, fourth], _ =>
    have := first.toNat_lt
    have := second.toNat_lt
    have := third.toNat_lt
    have := fourth.toNat_lt
    simp only [limit, ofBytes, List.foldl_cons, List.foldl_nil]
    omega

theorem toBytes_ofBytes (bytes : List UInt8) (four : bytes.length = 4) :
    toBytes (ofBytes bytes) = bytes := by
  match bytes, four with
  | [first, second, third, fourth], _ =>
    have := first.toNat_lt
    have := second.toNat_lt
    have := third.toNat_lt
    have := fourth.toNat_lt
    simp only [ofBytes, toBytes, List.foldl_cons, List.foldl_nil, List.cons.injEq, and_true,
      ← UInt8.toNat_inj, UInt8.toNat_ofNat']
    omega

/-- The word that has the bytes of `value` in the opposite order.  A compressed
stream is read as numbers whose first byte is the least significant one. -/
def swap (value : Nat) : Nat :=
  ofBytes (toBytes value).reverse

end Word
end HeaderCodec
