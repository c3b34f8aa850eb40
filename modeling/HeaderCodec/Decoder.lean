import HeaderCodec.Block
import HeaderCodec.Deflate.Decompressor

namespace HeaderCodec

/-!
# The decoder of header blocks

One decoder serves one direction of a connection.  All header blocks of that
direction are parts of a single compressed stream, so a decoder keeps its
decompressor from one block to the next and blocks must be decoded in the order
in which they were sent.

Decoding a block attaches the source given with it and then follows the plan of
reading a block.  It stops at the last byte of the last entry.  What the
sources still hold then, at least the marker that ends a block's compressed
form, is read first by the next call.

Any error poisons the decoder.  A poisoned decoder answers every call with the
same error and does nothing else.
-/

/-- Settings of a decoder. -/
structure DecoderConfig where
  /-- The largest uncompressed block that is accepted, in bytes. -/
  maxBlockSize : Nat := 262144
deriving DecidableEq, Repr

/-- A decoder. -/
structure Decoder where
  intake : Intake := {}
  /-- The decompressor, made when the first block is decoded. -/
  decompressor : Option Deflate.Decompressor := none
  config : DecoderConfig := {}
  poisoned : Bool := false
deriving Repr

namespace Decoder

open Deflate (Decompressor)

/-- Hand over a source, for instance while a block is being decoded. -/
def attach (decoder : Decoder) (source : Source) : Decoder :=
  { decoder with intake := decoder.intake.attach source }

/-- The error of a block for which a draw fails. -/
def drawError : Deflate.DrawFailure -> Error
  | .stream fault => .compression (.fault fault)
  | .source failure => Error.ofSource failure

/-- Draw exactly `missing` bytes more, after the pieces already drawn, the last
one first.  The end of the stream in between is an error of the block. -/
def fill (missing : Nat) (pieces : List (List UInt8)) (state : Decompressor) (supply : Supply) :
    Except Error (List UInt8) × Decompressor × Supply :=
  if missing = 0 then (.ok pieces.reverse.flatten, state, supply)
  else
    match state.draw supply missing with
    | (.error failure, next, rest) => (.error (drawError failure), next, rest)
    | (.ok [], next, rest) => (.error (.malformed .truncated), next, rest)
    | (.ok (byte :: bytes), next, rest) =>
      fill (missing - (bytes.length + 1)) ((byte :: bytes) :: pieces) next rest
termination_by missing

/-- Follow a plan with bytes drawn from a decompressor. -/
def carryOut {Result : Type} : Plan Result -> Decompressor -> Supply ->
    Except Error Result × Decompressor × Supply
  | .done result, state, supply => (result, state, supply)
  | .take count next, state, supply =>
    match fill count [] state supply with
    | (.error error, after, rest) => (.error error, after, rest)
    | (.ok bytes, after, rest) => carryOut (next bytes) after rest

/-- Decode the next block, with a source that is read after everything attached
before.  The sources that arrive during the call are given, and those that did
not get their turn are returned. -/
def decodeFrom : Decoder -> Source -> Arrivals -> Except Error Headers × Arrivals × Decoder
  | ⟨intake, decompressor, config, true⟩, _, arrivals =>
    (.error .poisoned, arrivals, ⟨intake, decompressor, config, true⟩)
  | ⟨intake, decompressor, config, false⟩, source, arrivals =>
    let (result, state, supply) :=
      carryOut (Block.read config.maxBlockSize) (decompressor.getD {})
        { intake := intake.attach source, arrivals := arrivals }
    let failed :=
      match result with
      | .ok _ => false
      | .error _ => true
    (result, supply.arrivals, ⟨supply.intake, some state, config, failed⟩)

/-- Decode the next block, of which some bytes lie in memory. -/
def decode (decoder : Decoder) (bytes : List UInt8) (arrivals : Arrivals) :
    Except Error Headers × Arrivals × Decoder :=
  decoder.decodeFrom (Source.ofBytes bytes) arrivals

end Decoder

/-! ## Descriptions -/

/-- A description of an intake. -/
def Intake.describe (intake : Intake) : String :=
  "SwapSource \x7b current: " ++ toString intake.hasCurrent ++ ", pending: " ++
    toString intake.hasPending ++ " \x7d"

/-- A description of the end of an intake at which sources are handed over. -/
def Intake.describeHandle (intake : Intake) : String :=
  "SourceHandle \x7b pending: " ++ toString intake.hasPending ++ " \x7d"

/-- A description of the settings. -/
def DecoderConfig.describe (config : DecoderConfig) : String :=
  "DecoderConfig \x7b max_block_size: " ++ toString config.maxBlockSize ++ " \x7d"

/-- A description of a decoder. -/
def Decoder.describe (decoder : Decoder) : String :=
  "HeaderDecoder \x7b source: " ++ decoder.intake.describe ++
    ", started: " ++ toString decoder.decompressor.isSome ++
    ", config: " ++ decoder.config.describe ++
    ", poisoned: " ++ toString decoder.poisoned ++ " \x7d"

end HeaderCodec
