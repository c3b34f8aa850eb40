import HeaderCodec.Deflate.Inflater
import HeaderCodec.Deflate.Token

namespace HeaderCodec

/-!
# The other end of a compressed stream

What a peer makes of the blocks that it receives.  A peer knows the dictionary,
has room for everything, and decompresses each block with what came before.
It is the measure of an encoder: the compressed bytes of a block are the
encoder's own affair, and what a peer decompresses from them is not.
-/

/-- A receiver of compressed blocks. -/
structure Peer where
  inflater : Deflate.Inflater := .fresh
deriving Repr

namespace Peer

/-- Take the next block.  The bytes that it adds to the output are returned. -/
def receive (peer : Peer) (block : List UInt8) : List UInt8 × Peer :=
  let known := peer.inflater.outputSize
  let inflater := peer.inflater.expand (Bits.ofBytes block)
  (inflater.outputFrom known, { inflater })

end Peer

end HeaderCodec
