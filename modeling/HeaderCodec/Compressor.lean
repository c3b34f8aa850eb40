import HeaderCodec.Failure

namespace HeaderCodec

/-!
# Compressors

What an encoder needs of the sending end of a compressed stream.  A compressor
begins a stream that announces the dictionary, and turns some bytes at a time into
the next part of the stream.

Either of the two may fail, and what a compressor does afterwards is not its own
affair any more.
-/

/-- States that a stream can be compressed with. -/
class Compressor (State : Type) where
  /-- Begin a stream at a level of effort.  The dictionary may be rejected, with a text
  that says why. -/
  start : (level : Nat) -> Except String State
  /-- The next part of the stream. -/
  compress : State -> List UInt8 -> Except Failure (List UInt8) × State

end HeaderCodec
