import HeaderCodec.Bytes.Checksum
import HeaderCodec.Bytes.Word
import HeaderCodec.Dictionary
import HeaderCodec.Proofs.Deflate.CanonicalCode
import HeaderCodec.Deflate.Alphabet

namespace HeaderCodec
namespace Deflate

/-!
# The format of a compressed stream

What a compressed stream is, said without any machine that reads it.  Each
relation below ties bits to the bytes that they stand for, and none of them
prescribes an encoder: a value may be written by any symbol whose class holds
it, a copy may overlap itself, code lengths may be written with or without
repetitions, and padding may hold any bits.

Code words are those of `CanonicalCode`, which counts words and knows no trees.
A copy is described by what its bytes are equal to, and not by a loop.  The
relations carry the history because a copy speaks of it, and the position in
the stream because a stored block begins its length at a byte boundary.

Reading what is described here is the business of the inflater, and writing it
that of the deflater.  Both are measured by `IsStream`.
-/

namespace Format

open CanonicalCode (IsCodeWord)

/-- The lengths of all code words of a block. -/
structure CodeLengths where
  literals : List Nat
  distances : List Nat
deriving DecidableEq, Repr

/-- The lengths in a block that describes none. -/
def CodeLengths.fixed : CodeLengths where
  literals := fixedLiteralLengths
  distances := fixedDistanceLengths

/-- The symbol that ends a block. -/
def endOfBlock : Nat := 256

/-- The symbol of the first class of lengths. -/
def firstLength : Nat := 257

/-- Some bits say a value by the symbol of a class and what the value exceeds
the base of the class by. -/
inductive Says (lengths : List Nat) (firstSymbol : Nat) (classes : List (Nat × Nat)) :
    (value : Nat) -> List Bool -> Prop where
  | of {number base extraBits excess : Nat} {word : List Bool}
      (inClass : classes[number]? = some (base, extraBits)) (small : excess < 2 ^ extraBits)
      (isWord : IsCodeWord lengths (firstSymbol + number) word) :
      Says lengths firstSymbol classes (base + excess) (word ++ Bits.ofNat extraBits excess)

/-- A piece repeats the history from some distance on.  It may be longer than
the distance and then repeats itself. -/
structure IsCopy (history : List UInt8) (distance : Nat) (piece : List UInt8) : Prop where
  positive : 0 < distance
  within : distance ≤ history.length
  same : ∀ index, index < piece.length ->
    piece[index]? = (history ++ piece)[history.length + index - distance]?

namespace IsCopy

variable {history rest : List UInt8} {distance : Nat} {byte : UInt8}

/-- The first byte of a copy stands in the history. -/
theorem first_eq (isCopy : IsCopy history distance (byte :: rest)) :
    history[history.length - distance]? = some byte := by
  have same := isCopy.same 0 (Nat.succ_pos _)
  have inHistory : history.length - distance < history.length :=
    Nat.sub_lt_self isCopy.positive isCopy.within
  rw [Nat.add_zero, List.getElem?_append_left inHistory] at same
  exact same.symm

/-- After its first byte a copy goes on as one with a longer history. -/
theorem tail (isCopy : IsCopy history distance (byte :: rest)) :
    IsCopy (history ++ [byte]) distance rest where
  positive := isCopy.positive
  within := by
    have within := isCopy.within
    rw [List.length_append]
    omega
  same := fun index inside => by
    have same := isCopy.same (index + 1) (Nat.succ_lt_succ inside)
    rw [List.getElem?_cons_succ] at same
    rw [same, List.append_assoc, List.singleton_append, List.length_append, List.length_singleton,
      Nat.add_assoc, Nat.add_comm 1 index]

end IsCopy

/-- The symbols of a block up to its end. -/
inductive Symbols (codes : CodeLengths) :
    (history : List UInt8) -> List Bool -> List UInt8 -> Prop where
  | ends {history : List UInt8} {word : List Bool}
      (isWord : IsCodeWord codes.literals endOfBlock word) : Symbols codes history word []
  | literal {history piece : List UInt8} {byte : UInt8} {word bits : List Bool}
      (isWord : IsCodeWord codes.literals byte.toNat word)
      (later : Symbols codes (history ++ [byte]) bits piece) :
      Symbols codes history (word ++ bits) (byte :: piece)
  | copy {history copied piece : List UInt8} {distance : Nat}
      {lengthBits distanceBits bits : List Bool}
      (saysLength : Says codes.literals firstLength lengthClasses copied.length lengthBits)
      (saysDistance : Says codes.distances 0 distanceClasses distance distanceBits)
      (isCopy : IsCopy history distance copied)
      (later : Symbols codes (history ++ copied) bits piece) :
      Symbols codes history (lengthBits ++ distanceBits ++ bits) (copied ++ piece)

/-! ## Descriptions of codes -/

/-- The symbols of the third alphabet that stand for a length several times: the
last one again, or zero.  The least number of times goes with each, and the
width of the number of times beyond that. -/
inductive Repeats : (last : Option Nat) -> (symbol length least width : Nat) -> Prop where
  | last {length : Nat} : Repeats (some length) 16 length 3 2
  | zero {last : Option Nat} : Repeats last 17 0 3 3
  | zeroOften {last : Option Nat} : Repeats last 18 0 11 7

/-- Code lengths in the code of the third alphabet. -/
inductive Lengths (widths : List Nat) : (last : Option Nat) -> List Bool -> List Nat -> Prop where
  | none {last : Option Nat} : Lengths widths last [] []
  | once {last : Option Nat} {length : Nat} {word bits : List Bool} {lengths : List Nat}
      (short : length < 16) (isWord : IsCodeWord widths length word)
      (later : Lengths widths (some length) bits lengths) :
      Lengths widths last (word ++ bits) (length :: lengths)
  | often {last : Option Nat} {symbol length least width excess : Nat} {word bits : List Bool}
      {lengths : List Nat} (repeats : Repeats last symbol length least width)
      (isWord : IsCodeWord widths symbol word) (small : excess < 2 ^ width)
      (later : Lengths widths (some length) bits lengths) :
      Lengths widths last (word ++ Bits.ofNat width excess ++ bits)
        (List.replicate (least + excess) length ++ lengths)

/-- The part of a block that describes its codes.  Both codes use up all code
space, or have a single word of one bit; a block without copies may also have
no word for a distance. -/
structure Description where
  codes : CodeLengths
  widths : List Nat
  lengthBits : List Bool
  literalCount : 257 ≤ codes.literals.length ∧ codes.literals.length ≤ 286
  distanceCount : 1 ≤ codes.distances.length ∧ codes.distances.length ≤ 30
  widthCount : 4 ≤ widths.length ∧ widths.length ≤ 19
  narrow : ∀ width ∈ widths, width < 2 ^ 3
  lengthCode : LengthSet.IsComplete (lengthSymbolWidths widths)
  written : Lengths (lengthSymbolWidths widths) none lengthBits (codes.literals ++ codes.distances)
  ends : codes.literals[endOfBlock]? ≠ some 0
  literalCode : LengthSet.IsComplete codes.literals ∨ LengthSet.IsSingle codes.literals
  distanceCode : LengthSet.IsComplete codes.distances ∨ LengthSet.IsSingle codes.distances ∨
    LengthSet.IsEmpty codes.distances

/-- How a description is written. -/
def Description.bits (description : Description) : List Bool :=
  Bits.ofNat 5 (description.codes.literals.length - 257) ++
    Bits.ofNat 5 (description.codes.distances.length - 1) ++
    Bits.ofNat 4 (description.widths.length - 4) ++
    description.widths.flatMap (Bits.ofNat 3) ++ description.lengthBits

/-! ## Blocks -/

/-- A block at some position of a stream.  It begins with one bit that tells
whether it is the last one and two for its type. -/
inductive Block (isLast : Bool) (position : Nat) (history : List UInt8) :
    List Bool -> List UInt8 -> Prop where
  | stored {padding : List Bool} {bytes : List UInt8}
      (aligned : padding.length = Bits.padding (position + 3)) (short : bytes.length < 2 ^ 16) :
      Block isLast position history
        ([isLast] ++ Bits.ofNat 2 0 ++ (padding ++ Bits.ofNat 16 bytes.length ++
          Bits.ofNat 16 (2 ^ 16 - 1 - bytes.length) ++ Bits.ofBytes bytes)) bytes
  | fixed {bits : List Bool} {piece : List UInt8} (symbols : Symbols .fixed history bits piece) :
      Block isLast position history ([isLast] ++ Bits.ofNat 2 1 ++ bits) piece
  | described (description : Description) {bits : List Bool} {piece : List UInt8}
      (symbols : Symbols description.codes history bits piece) :
      Block isLast position history
        ([isLast] ++ Bits.ofNat 2 2 ++ (description.bits ++ bits)) piece

/-- Blocks of which none is the last one. -/
inductive Blocks : (position : Nat) -> (history : List UInt8) -> List Bool -> List UInt8 ->
    Prop where
  | none {position : Nat} {history : List UInt8} : Blocks position history [] []
  | next {position : Nat} {history piece others : List UInt8} {bits more : List Bool}
      (block : Block false position history bits piece)
      (later : Blocks (position + bits.length) (history ++ piece) more others) :
      Blocks position history (bits ++ more) (piece ++ others)

/-! ## Streams -/

/-- The two bytes that begin a stream: a multiple of 31, the one method that
there is, and a window of at most 32768 bytes. -/
structure HeadBytes (method flags : UInt8) : Prop where
  checked : (method.toNat * 256 + flags.toNat) % 31 = 0
  deflated : method.toNat % 16 = 8
  window : method.toNat / 16 ≤ 7

/-- The beginning of a stream and the history with which it starts: the
dictionary if it is announced, and nothing otherwise. -/
inductive Head : List UInt8 -> (history : List UInt8) -> Prop where
  | plain {method flags : UInt8} (bytes : HeadBytes method flags)
      (unannounced : flags.toNat / 32 % 2 = 0) : Head [method, flags] []
  | preset {method flags : UInt8} (bytes : HeadBytes method flags)
      (announced : flags.toNat / 32 % 2 = 1) :
      Head ([method, flags] ++ Word.toBytes Dictionary.id) Dictionary.bytes

/-- A whole stream and what it stands for.  After the last block the stream is
filled up to a byte boundary, and the checksum of all that it stands for
follows. -/
inductive IsStream : (stream output : List UInt8) -> Prop where
  | of {stream head history first last : List UInt8} {blocks lastBlock padding : List Bool}
      (begins : Head head history) (inner : Blocks (8 * head.length) history blocks first)
      (final : Block true (8 * head.length + blocks.length) (history ++ first) lastBlock last)
      (aligned : padding.length = Bits.padding (8 * head.length + blocks.length + lastBlock.length))
      (whole : Bits.ofBytes stream = Bits.ofBytes head ++ blocks ++ lastBlock ++ padding ++
        Bits.ofBytes (Word.toBytes (Checksum.ofBytes (first ++ last)).word)) :
      IsStream stream (first ++ last)

/-- A stream that is whole but for its last four bytes.  These are some word, which
may be the checksum or not. -/
structure IsFinished (stream output : List UInt8) (trailer : Nat) : Prop where
  small : trailer < Word.limit
  body : ∃ body, stream = body ++ Word.toBytes trailer ∧
    IsStream (body ++ Word.toBytes (Checksum.ofBytes output).word) output

end Format

end Deflate
end HeaderCodec
