import HeaderCodec.Bytes.Bits
import HeaderCodec.Deflate.Alphabet
import HeaderCodec.Deflate.Fault
import HeaderCodec.Dictionary

namespace HeaderCodec
namespace Deflate

/-!
# Decompression as a machine

An `Inflater` is the state of decompression between two bits.  It asks either
for a bit of input or for room for one byte of output, and never for both.
`feed` gives it the bit and `emit` the room; a state that asks for neither has
ended, at the end of the stream or at a fault.  Nothing else happens in
between: every rule of the format is applied at the bit that completes what
the rule speaks of.

This makes resumption trivial.  Input may be cut anywhere, also inside a
number or a code word, because a state remembers the part that it has seen.
Output may stop anywhere too, and then the state still owes the bytes for
which there was no room.  `run` alternates the two until input or room are
missing; it reads ahead past the last byte that fits, which is why a fault may
be found although all bytes before it have been delivered.

The output is the history itself.  It is never cut, since no distance reaches
further back than 32768 bytes whatever its length.  The dictionary stands before
it when the stream announces one, so a state tells where in the history the
output begins.

What is established here is only how the output is read off a state.  That the
steps decode what they should is a matter for the theory of the format.
-/

/-! ## States -/

/-- The numbers of code words that a block announces for the three
alphabets. -/
structure TableSizes where
  literals : Nat
  distances : Nat
  widths : Nat
deriving DecidableEq, Repr

/-- The lengths of code words as they are being read.  The lengths of both
codes form one sequence, the last one read standing first. -/
structure LengthTable where
  sizes : TableSizes
  code : CodeTree
  lengths : List Nat
deriving DecidableEq, Repr

/-- What a number in the stream is for. -/
inductive Field where
  /-- The two bytes that begin a stream. -/
  | streamHead
  /-- The checksum of the dictionary. -/
  | dictionaryId
  /-- The last-block flag and the type of a block. -/
  | blockHead
  /-- The length of a stored block and its complement, after padding. -/
  | storedLengths (padding : Nat)
  /-- One byte of a stored block, of which `left` more follow. -/
  | storedByte (left : Nat)
  /-- The numbers of code words of a block. -/
  | tableSizes
  /-- The width of one code word of the third alphabet, last one first. -/
  | width (sizes : TableSizes) (widths : List Nat)
  /-- How often beyond `least` times a length is repeated. -/
  | repetition (table : LengthTable) (length : Option Nat) (least : Nat)
  /-- The part of a match's length beyond its base. -/
  | lengthExtra (codes : Codes) (base : Nat)
  /-- The part of a match's distance beyond its base. -/
  | distanceExtra (codes : Codes) (length base : Nat)
  /-- The checksum of the output, after padding. -/
  | checksum (padding : Nat)
deriving DecidableEq, Repr

/-- What follows a byte of output that came from the input itself. -/
inductive After where
  /-- More bytes of a stored block. -/
  | stored (left : Nat)
  /-- The next symbol of a block. -/
  | symbol (codes : Codes)
deriving DecidableEq, Repr

/-- What decompression is in the middle of. -/
inductive Phase where
  /-- A number with `missing` bits to come.  Those seen amount to `value`, and
  the next one counts `place`. -/
  | number (field : Field) (missing place value : Nat)
  /-- A code word of the third alphabet. -/
  | lengthSymbol (table : LengthTable) (tree : CodeTree)
  /-- A code word of literals and lengths. -/
  | symbol (codes : Codes) (tree : CodeTree)
  /-- A code word of distances, after a length. -/
  | distanceSymbol (codes : Codes) (length : Nat) (tree : CodeTree)
  /-- A byte for which there was no room yet. -/
  | owed (byte : UInt8) (after : After)
  /-- The rest of a match. -/
  | copy (codes : Codes) (distance length : Nat)
  /-- The end of the stream. -/
  | ended
  /-- A stream that breaks a rule. -/
  | failed (fault : Fault)
deriving DecidableEq, Repr

/-- The state of decompression. -/
structure Inflater where
  /-- The dictionary, if it was announced, and then all output. -/
  history : Array UInt8 := #[]
  /-- Where in the history the output begins. -/
  start : Nat := 0
  /-- The number of bits taken so far. -/
  consumed : Nat := 0
  /-- The number of bits that were taken when the latest symbol began. -/
  symbolStart : Nat := 0
  /-- Whether the current block is the last one. -/
  final : Bool := false
  phase : Phase := .number .streamHead 16 1 0
  /-- The output begins inside the history. -/
  within : start ≤ history.size := by exact Nat.zero_le _
deriving Repr

/-- What a state needs in order to go on. -/
inductive Demand where
  | bit
  | room
  | nothing
deriving DecidableEq, Repr

/-- The need of a phase. -/
def Phase.demand : Phase -> Demand
  | number .. | lengthSymbol .. | symbol .. | distanceSymbol .. => .bit
  | owed .. | copy .. => .room
  | ended | failed _ => .nothing

namespace Inflater

/-- The state before the first bit. -/
def fresh : Inflater := {}

/-- The output so far, without the dictionary. -/
def output (state : Inflater) : List UInt8 :=
  state.history.toList.drop state.start

/-- The number of bytes of output so far. -/
def outputSize (state : Inflater) : Nat :=
  state.history.size - state.start

/-- The output after its first `known` bytes. -/
def outputFrom (state : Inflater) (known : Nat) : List UInt8 :=
  (state.history.extract (state.start + known) state.history.size).toList

theorem outputFrom_eq (state : Inflater) (known : Nat) :
    state.outputFrom known = state.output.drop known := by
  simp [outputFrom, output, List.take_of_length_le]

theorem length_output (state : Inflater) : state.output.length = state.outputSize := by
  simp [output, outputSize]

/-! ## What follows when something is complete -/

/-- Begin to read a number of `width` bits. -/
def expect (state : Inflater) (field : Field) (width : Nat) : Inflater :=
  { state with phase := .number field width 1 0 }

def fail (state : Inflater) (fault : Fault) : Inflater :=
  { state with phase := .failed fault }

/-- Go on after the last symbol or byte of a block. -/
def endBlock (state : Inflater) : Inflater :=
  if state.final then
    let padding := Bits.padding state.consumed
    state.expect (.checksum padding) (padding + 32)
  else state.expect .blockHead 3

/-- Begin the next symbol of a block. -/
def beginSymbol (state : Inflater) (codes : Codes) : Inflater :=
  { state with symbolStart := state.consumed, phase := .symbol codes codes.literals }

/-- Begin the next byte of a stored block with `left` bytes to go. -/
def beginStored (state : Inflater) : Nat -> Inflater
  | 0 => state.endBlock
  | left + 1 => state.expect (.storedByte left) 8

/-- Begin the distance of a match whose length is known. -/
def beginDistance (state : Inflater) (codes : Codes) (length : Nat) : Inflater :=
  { state with phase := .distanceSymbol codes length codes.distances }

def beginCopy (state : Inflater) (codes : Codes) (distance length : Nat) : Inflater :=
  { state with phase := .copy codes distance length }

/-- Check the lengths of all code words of a block and begin its symbols.  The
codes are checked only if there is a way to end the block. -/
def beginCodes (state : Inflater) (sizes : TableSizes) (lengths : List Nat) : Inflater :=
  if (lengths[256]?).getD 0 = 0 then state.fail .missingEndOfBlock
  else
    match LengthSet.symbolCode? (lengths.take sizes.literals) with
    | none => state.fail .literalCode
    | some literals =>
      match LengthSet.symbolCode? (lengths.drop sizes.literals) with
      | none => state.fail .distanceCode
      | some distances => state.beginSymbol { literals, distances }

/-- Go on reading lengths of code words until there are as many as
announced. -/
def continueLengths (state : Inflater) (table : LengthTable) : Inflater :=
  if table.lengths.length < table.sizes.literals + table.sizes.distances then
    { state with phase := .lengthSymbol table table.code }
  else state.beginCodes table.sizes table.lengths.reverse

/-! ## Complete numbers and code words -/

/-- The two bytes that begin a stream: a checksum over both, the method, the
size of the window, and whether a dictionary is announced. -/
def onStreamHead (state : Inflater) (value : Nat) : Inflater :=
  let method := value % 256
  let flags := value / 256
  if (method * 256 + flags) % 31 ≠ 0 then state.fail .streamHead
  else if method % 16 ≠ 8 then state.fail .method
  else if 7 < method / 16 then state.fail .window
  else if flags / 32 % 2 = 1 then state.expect .dictionaryId 32
  else state.expect .blockHead 3

/-- Put the dictionary before the output. -/
def install (state : Inflater) : Inflater :=
  { state with
    history := Dictionary.history ++ state.history
    start := Dictionary.history.size + state.start
    within := by
      rw [Array.size_append]
      exact Nat.add_le_add_left state.within _ }

/-- The announced dictionary must be the one at hand. -/
def onDictionaryId (state : Inflater) (value : Nat) : Inflater :=
  if Word.swap value = Dictionary.id then state.install.expect .blockHead 3
  else state.fail .dictionaryId

def onBlockHead (state : Inflater) (value : Nat) : Inflater :=
  let state := { state with final := value % 2 == 1 }
  match value / 2 with
  | 0 =>
    let padding := Bits.padding state.consumed
    state.expect (.storedLengths padding) (padding + 32)
  | 1 => state.beginSymbol .fixed
  | 2 => state.expect .tableSizes 14
  | _ => state.fail .blockType

/-- The length of a stored block comes with its complement. -/
def onStoredLengths (state : Inflater) (value : Nat) : Inflater :=
  let length := value % 65536
  let complement := value / 65536
  if length + complement = 65535 then state.beginStored length
  else state.fail .storedLengths

def onTableSizes (state : Inflater) (value : Nat) : Inflater :=
  let sizes : TableSizes :=
    { literals := value % 32 + 257, distances := value / 32 % 32 + 1, widths := value / 1024 + 4 }
  if 286 < sizes.literals ∨ 30 < sizes.distances then state.fail .tableSizes
  else state.expect (.width sizes []) 3

def onWidth (state : Inflater) (sizes : TableSizes) (widths : List Nat) : Inflater :=
  if widths.length < sizes.widths then state.expect (.width sizes widths) 3
  else
    match LengthSet.lengthCode? (lengthSymbolWidths widths.reverse) with
    | none => state.fail .lengthCode
    | some code => state.continueLengths { sizes, code, lengths := [] }

/-- A repetition needs a length to repeat, and must not go beyond the announced
number of lengths. -/
def onRepetition (state : Inflater) (table : LengthTable) (length : Option Nat)
    (count : Nat) : Inflater :=
  match length with
  | none => state.fail .repetition
  | some length =>
    let lengths := List.replicate count length ++ table.lengths
    if table.sizes.literals + table.sizes.distances < lengths.length then state.fail .repetition
    else state.continueLengths { table with lengths }

/-- The checksum of the output, most significant byte first. -/
def onChecksum (state : Inflater) (value : Nat) : Inflater :=
  if Word.swap value = (Checksum.ofBytes state.output).word then
    { state with phase := .ended }
  else state.fail .checksum

/-- Act on a number of which all bits are there. -/
def onNumber (state : Inflater) (field : Field) (value : Nat) : Inflater :=
  match field with
  | .streamHead => state.onStreamHead value
  | .dictionaryId => state.onDictionaryId value
  | .blockHead => state.onBlockHead value
  | .storedLengths padding => state.onStoredLengths (value >>> padding)
  | .storedByte left => { state with phase := .owed (UInt8.ofNat value) (.stored left) }
  | .tableSizes => state.onTableSizes value
  | .width sizes widths => state.onWidth sizes (value :: widths)
  | .repetition table length least => state.onRepetition table length (least + value)
  | .lengthExtra codes base => state.beginDistance codes (base + value)
  | .distanceExtra codes length base => state.beginCopy codes (base + value) length
  | .checksum padding => state.onChecksum (value >>> padding)

/-- Act on a symbol of the third alphabet: a length, or the repetition of the
last one or of zero. -/
def onLengthSymbol (state : Inflater) (table : LengthTable) (symbol : Nat) : Inflater :=
  if symbol < 16 then
    state.continueLengths { table with lengths := symbol :: table.lengths }
  else if symbol = 16 then state.expect (.repetition table table.lengths.head? 3) 2
  else if symbol = 17 then state.expect (.repetition table (some 0) 3) 3
  else state.expect (.repetition table (some 0) 11) 7

/-- Act on a symbol of the first alphabet. -/
def onSymbol (state : Inflater) (codes : Codes) (symbol : Nat) : Inflater :=
  match Symbol.ofNat symbol with
  | .literal byte => { state with phase := .owed byte (.symbol codes) }
  | .endOfBlock => state.endBlock
  | .length base 0 => state.beginDistance codes base
  | .length base (extra + 1) => state.expect (.lengthExtra codes base) (extra + 1)
  | .reserved => state.fail .literalSymbol

/-- Act on a symbol of the second alphabet. -/
def onDistanceSymbol (state : Inflater) (codes : Codes) (length symbol : Nat) : Inflater :=
  match distanceClasses[symbol]? with
  | some (base, 0) => state.beginCopy codes base length
  | some (base, extra + 1) => state.expect (.distanceExtra codes length base) (extra + 1)
  | none => state.fail .distanceSymbol

/-! ## Steps -/

/-- Take one bit of input.  A state that asks for none is left alone. -/
def feed (state : Inflater) (bit : Bool) : Inflater :=
  match state.phase with
  | .number field missing place value =>
    let state := { state with consumed := state.consumed + 1 }
    let value := if bit then value + place else value
    if missing ≤ 1 then state.onNumber field value
    else { state with phase := .number field (missing - 1) (2 * place) value }
  | .lengthSymbol table tree =>
    let state := { state with consumed := state.consumed + 1 }
    match tree.branch bit with
    | .leaf symbol => state.onLengthSymbol table symbol
    | .absent => state.fail .lengthCode
    | subtree => { state with phase := .lengthSymbol table subtree }
  | .symbol codes tree =>
    let state := { state with consumed := state.consumed + 1 }
    match tree.branch bit with
    | .leaf symbol => state.onSymbol codes symbol
    | .absent => state.fail .literalSymbol
    | subtree => { state with phase := .symbol codes subtree }
  | .distanceSymbol codes length tree =>
    let state := { state with consumed := state.consumed + 1 }
    match tree.branch bit with
    | .leaf symbol => state.onDistanceSymbol codes length symbol
    | .absent => state.fail .distanceSymbol
    | subtree => { state with phase := .distanceSymbol codes length subtree }
  | .owed .. | .copy .. | .ended | .failed _ => state

/-- Add a byte to the output. -/
def write (state : Inflater) (byte : UInt8) : Inflater :=
  { state with
    history := state.history.push byte
    within := by
      rw [Array.size_push]
      exact Nat.le_succ_of_le state.within }

/-- Write one byte of output.  A state that owes none is left alone.  That a
match reaches back no further than the history is checked here, when there is
room for its first byte. -/
def emit (state : Inflater) : Inflater :=
  match state.phase with
  | .owed byte after =>
    let state := state.write byte
    match after with
    | .stored left => state.beginStored left
    | .symbol codes => state.beginSymbol codes
  | .copy codes distance length =>
    if reaches : 0 < distance ∧ distance ≤ state.history.size then
      let state := state.write state.history[state.history.size - distance]
      if length ≤ 1 then state.beginSymbol codes
      else state.beginCopy codes distance (length - 1)
    else state.fail .distanceTooFar
  | _ => state

/-- Go on until a bit is needed and none is left, or room is needed and none is
left, or nothing is needed.  The bits that were not taken are returned. -/
def run (state : Inflater) (bits : List Bool) (room : Nat) : Inflater × List Bool :=
  match state.phase.demand, bits, room with
  | .bit, bit :: rest, room => (state.feed bit).run rest room
  | .room, bits, room + 1 => state.emit.run bits room
  | _, bits, _ => (state, bits)
termination_by bits.length + room

/-! ## Unlimited room -/

/-- The number of bytes that a state can write without further input. -/
def owes (state : Inflater) : Nat :=
  match state.phase with
  | .owed .. => 1
  | .copy _ _ length => max length 1
  | _ => 0

/-- Write everything that can be written without further input. -/
def settle (state : Inflater) : Inflater :=
  (state.run [] state.owes).1

/-- The state after some input when room is never missing.  Its output is all
that follows from the input. -/
def expand (state : Inflater) (bits : List Bool) : Inflater :=
  bits.foldl (fun state bit => (state.feed bit).settle) state.settle

end Inflater

end Deflate
end HeaderCodec
