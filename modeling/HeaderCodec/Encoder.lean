import HeaderCodec.Block
import HeaderCodec.Compressor
import HeaderCodec.Error
import HeaderCodec.Sink

namespace HeaderCodec

/-!
# The encoder of header blocks

One encoder serves one direction of a connection.  All its blocks are parts of
a single compressed stream and must reach the other end in order.

Headers that cannot be sent are refused before anything is done to the stream,
so an encoder goes on as if it had never seen them.  A sink that fails is
another matter.  The lost block is part of the history already, and the
encoder is poisoned.  The same happens when the block cannot be compressed.

An encoder works with any compressor.
-/

/-- Settings of an encoder. -/
structure EncoderConfig where
  /-- How much effort is spent on compression, from 0 to 9. -/
  level : Nat := 9
deriving DecidableEq, Repr

/-- An encoder. -/
structure Encoder (State : Type) where
  /-- The compressed stream, begun with the first block. -/
  context : Option State := none
  config : EncoderConfig := {}
  poisoned : Bool := false
deriving Repr

namespace Encoder

/-- Why an entry cannot be sent.  Its name is looked at before its values. -/
def entryFault? (header : Header) : Option HeaderFault :=
  if header.name.isEmpty then some .emptyName
  else if Text.hasSeparator header.name ∨ Word.limit ≤ header.name.utf8ByteSize then
    some (.unencodableName header.name)
  else if header.values.any Text.hasSeparator then some (.nulInValue header.name)
  else if Word.limit ≤ Text.joinedLength header.values then some (.valueTooLong header.name)
  else none

/-- Why headers cannot be sent: the fault of the first entry that has one. -/
def fault? (headers : Headers) : Option HeaderFault :=
  if Word.limit ≤ headers.size then some .tooManyNames
  else headers.entries.findSome? entryFault?

variable {State : Type} [Compressor State]

/-- The compressed stream that goes on with the next block. -/
def resume (level : Nat) : Option State -> Except Error State
  | some context => .ok context
  | none =>
    match Compressor.start level with
    | .ok context => .ok context
    | .error text => .error (.compression (.stated ("dictionary rejected: " ++ text)))

/-- Compress headers that can be sent.  The first block begins the stream. -/
def compress (level : Nat) (context : Option State) (headers : Headers) :
    Except Error (List UInt8) × Option State :=
  match resume level context with
  | .error error => (.error error, none)
  | .ok context =>
    match Compressor.compress context (Block.write headers) with
    | (.ok block, context) => (.ok block, some context)
    | (.error failure, context) => (.error (.io failure), some context)

/-- Encode headers into a block. -/
def encode : Encoder State -> Headers -> Except Error (List UInt8) × Encoder State
  | ⟨context, config, true⟩, _ => (.error .poisoned, ⟨context, config, true⟩)
  | ⟨context, config, false⟩, headers =>
    match fault? headers with
    | some fault => (.error (.invalidHeader fault), ⟨context, config, false⟩)
    | none =>
      match compress config.level context headers with
      | (.ok block, context) => (.ok block, ⟨context, config, false⟩)
      | (.error error, context) => (.error error, ⟨context, config, true⟩)

/-- Encode headers and write the block to a sink. -/
def encodeTo (encoder : Encoder State) (headers : Headers) (sink : Sink) :
    Except Error Unit × Sink × Encoder State :=
  match encoder.encode headers with
  | (.error error, encoder) => (.error error, sink, encoder)
  | (.ok block, encoder) =>
    match sink.writeAll block with
    | (.ok _, sink) => (.ok (), sink, encoder)
    | (.error failure, sink) => (.error (.io failure), sink, { encoder with poisoned := true })

end Encoder

/-! ## Descriptions -/

/-- A description of the settings. -/
def EncoderConfig.describe (config : EncoderConfig) : String :=
  "EncoderConfig \x7b level: Compression(" ++ toString config.level ++ ") \x7d"

/-- A description of an encoder. -/
def Encoder.describe {State : Type} (encoder : Encoder State) : String :=
  "HeaderEncoder \x7b started: " ++ toString encoder.context.isSome ++
    ", config: " ++ encoder.config.describe ++
    ", poisoned: " ++ toString encoder.poisoned ++ " \x7d"

end HeaderCodec
