import HeaderCodec.Deflate.CodeTree

namespace HeaderCodec
namespace Deflate

/-!
# The alphabets of a compressed block

Three alphabets occur in a block.  The first mixes literal bytes, the end of
the block and the lengths of matches; the second gives the distances of
matches; the third writes down the lengths of the code words of the other two.
Lengths and distances beyond the smallest are given by a base and a number of
extra bits.

Symbols that have a code word in the fixed codes and yet no meaning are
`reserved`.
-/

/-- What a symbol of the first alphabet says. -/
inductive Symbol where
  | literal (byte : UInt8)
  | endOfBlock
  | length (base extraBits : Nat)
  | reserved
deriving DecidableEq, Repr

/-- Shortest length and number of extra bits, from symbol 257 on. -/
def lengthClasses : List (Nat × Nat) :=
  [(3, 0), (4, 0), (5, 0), (6, 0), (7, 0), (8, 0), (9, 0), (10, 0), (11, 1), (13, 1), (15, 1),
    (17, 1), (19, 2), (23, 2), (27, 2), (31, 2), (35, 3), (43, 3), (51, 3), (59, 3), (67, 4),
    (83, 4), (99, 4), (115, 4), (131, 5), (163, 5), (195, 5), (227, 5), (258, 0)]

/-- Least distance and number of extra bits, from symbol 0 on. -/
def distanceClasses : List (Nat × Nat) :=
  [(1, 0), (2, 0), (3, 0), (4, 0), (5, 1), (7, 1), (9, 2), (13, 2), (17, 3), (25, 3), (33, 4),
    (49, 4), (65, 5), (97, 5), (129, 6), (193, 6), (257, 7), (385, 7), (513, 8), (769, 8),
    (1025, 9), (1537, 9), (2049, 10), (3073, 10), (4097, 11), (6145, 11), (8193, 12),
    (12289, 12), (16385, 13), (24577, 13)]

/-- The meaning of a symbol of the first alphabet. -/
def Symbol.ofNat (symbol : Nat) : Symbol :=
  if symbol < 256 then .literal (UInt8.ofNat symbol)
  else if symbol = 256 then .endOfBlock
  else
    match lengthClasses[symbol - 257]? with
    | some (base, extraBits) => .length base extraBits
    | none => .reserved

/-- The order in which a block gives the lengths of the third alphabet's code
words: the symbols that tend to be used come first. -/
def lengthSymbolOrder : List Nat :=
  [16, 17, 18, 0, 8, 7, 9, 6, 10, 5, 11, 4, 12, 3, 13, 2, 14, 1, 15]

/-- Bring widths from the order of `lengthSymbolOrder` into the order of the
symbols.  Widths that a block leaves out are zero. -/
def lengthSymbolWidths (widths : List Nat) : List Nat :=
  (List.range 19).map fun symbol => (widths[lengthSymbolOrder.idxOf symbol]?).getD 0

/-! ## The fixed codes -/

/-- Lengths of the fixed code words of the first alphabet. -/
def fixedLiteralLengths : List Nat :=
  List.replicate 144 8 ++ List.replicate 112 9 ++ List.replicate 24 7 ++ List.replicate 8 8

/-- Lengths of the fixed code words of distances. -/
def fixedDistanceLengths : List Nat :=
  List.replicate 32 5

/-- The two codes in which the symbols of a block are written. -/
structure Codes where
  literals : CodeTree
  distances : CodeTree
deriving DecidableEq, Repr

/-- The codes of a block that describes none. -/
def Codes.fixed : Codes where
  literals := CodeTree.ofLengths fixedLiteralLengths
  distances := CodeTree.ofLengths fixedDistanceLengths

end Deflate
end HeaderCodec
