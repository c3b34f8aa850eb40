import HeaderCodec.Bytes.Bits
import HeaderCodec.Deflate.Alphabet

namespace HeaderCodec
namespace Deflate

/-!
# Tokens of compressed data

Compression replaces bytes by tokens: a byte itself, or a copy of bytes that
have occurred before, given by how many and how far back.  `Token.bits` says how
a token is written in the fixed codes.

A stored block holds bytes as they are and begins its length at a byte
boundary.  An empty stored block is therefore a marker: it brings the stream to
a byte boundary and ends with four bytes that are always the same.
-/

/-- A piece of compressed data. -/
inductive Token where
  | literal (byte : UInt8)
  | copy (length distance : Nat)
deriving DecidableEq, Repr

/-- The class in which a value lies, the last one whose base it reaches, with
its number, its base and its extra bits. -/
def classOf (value : Nat) : (number : Nat) -> List (Nat × Nat) -> Nat × Nat × Nat
  | number, [] => (number, 0, 0)
  | number, [(base, extraBits)] => (number, base, extraBits)
  | number, (base, extraBits) :: (next, nextExtra) :: rest =>
    if next ≤ value then classOf value (number + 1) ((next, nextExtra) :: rest)
    else (number, base, extraBits)

namespace Token

/-- The code word of a symbol, most significant bit first. -/
def wordBits (code : CodeTree) (symbol : Nat) : List Bool :=
  (code.codeWord? symbol).getD []

/-- How a token is written in the fixed codes. -/
def bits : Token -> List Bool
  | literal byte => wordBits Codes.fixed.literals byte.toNat
  | copy length distance =>
    let (lengthClass, lengthBase, lengthExtra) := classOf length 0 lengthClasses
    let (distanceClass, distanceBase, distanceExtra) := classOf distance 0 distanceClasses
    wordBits Codes.fixed.literals (257 + lengthClass) ++
      Bits.ofNat lengthExtra (length - lengthBase) ++
      wordBits Codes.fixed.distances distanceClass ++
      Bits.ofNat distanceExtra (distance - distanceBase)

end Token

/-! ## Blocks -/

/-- A block of tokens in the fixed codes that is not the last one. -/
def fixedBlock (tokens : List Token) : List Bool :=
  [false, true, false] ++ tokens.flatMap Token.bits ++ Token.wordBits Codes.fixed.literals 256

/-- The greatest number of bytes in a stored block. -/
def maxStored : Nat := 65535

/-- A stored block that is not the last one, beginning at bit `position` of the
stream. -/
def storedBlock (position : Nat) (bytes : List UInt8) : List Bool :=
  [false, false, false] ++ List.replicate (Bits.padding (position + 3)) false ++
    Bits.ofNat 16 bytes.length ++ Bits.ofNat 16 (maxStored - bytes.length) ++ Bits.ofBytes bytes

/-- The bytes with which a marker ends. -/
def marker : List UInt8 := [0x00, 0x00, 0xff, 0xff]

end Deflate
end HeaderCodec
