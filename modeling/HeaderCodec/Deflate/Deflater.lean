import HeaderCodec.Compressor
import HeaderCodec.Deflate.Window
import HeaderCodec.Dictionary

namespace HeaderCodec
namespace Deflate

/-!
# Compression in blocks

A `Deflater` is the sending end of a compressed stream.  Each call of `compress`
turns some bytes into the next part of the stream, and closes it with a marker,
so that the other end can decompress all of it at once.  Because of the marker
a part is a whole number of bytes, and the next one begins at a byte boundary.

The stream is never ended.  It announces the dictionary at its beginning, and
the dictionary is part of the history from then on.

A level tells how much effort is spent: at level zero bytes are stored as they
are, and at all others repetitions are looked for and the fixed codes are used.
The beginning of the stream names the level in four steps.  It is put out together
with the first part.
-/

/-- The sending end of a compressed stream. -/
structure Deflater where
  level : Nat
  /-- The beginning of the stream, until it has been put out. -/
  pending : List UInt8
  window : Window
deriving Repr

namespace Deflater

/-- The step of effort that the beginning of a stream names. -/
def effort (level : Nat) : Nat :=
  if level ≤ 1 then 0
  else if level ≤ 5 then 1
  else if level = 6 then 2
  else 3

/-- The byte that names the method and the size of the window. -/
def methodByte : Nat := 0x78

/-- The byte that names the effort and announces a dictionary.  Its low bits
make the first two bytes a multiple of 31. -/
def flagByte (level : Nat) : Nat :=
  let flags := effort level * 64 + 32
  flags + (31 - (methodByte * 256 + flags) % 31)

/-- The beginning of a stream. -/
def head (level : Nat) : List UInt8 :=
  [UInt8.ofNat methodByte, UInt8.ofNat (flagByte level)] ++ Word.toBytes Dictionary.id

/-- A deflater whose history is the dictionary. -/
def start (level : Nat) : Deflater where
  level := level
  pending := head level
  window := Window.empty.pushAll Dictionary.bytes

/-- Bytes in stored blocks of the greatest size. -/
def storedBlocks (bytes : List UInt8) : List Bool :=
  if bytes = [] then []
  else storedBlock 0 (bytes.take maxStored) ++ storedBlocks (bytes.drop maxStored)
termination_by bytes.length
decreasing_by
  rename_i nonempty
  have positive := List.length_pos_iff.2 nonempty
  simp only [List.length_drop, maxStored]
  omega

/-- Some bytes as blocks of a stream with the given history. -/
def compressBits (level : Nat) (window : Window) (bytes : List UInt8) : List Bool × Window :=
  if level = 0 then (storedBlocks bytes ++ storedBlock 0 [], window.pushAll bytes)
  else
    let (tokens, window) := window.tokenize [] bytes
    let body := fixedBlock tokens
    (body ++ storedBlock body.length [], window)

/-- The next part of the stream. -/
def compress (state : Deflater) (bytes : List UInt8) : List UInt8 × Deflater :=
  let (bits, window) := compressBits state.level state.window bytes
  (state.pending ++ Bits.toBytes bits, { state with pending := [], window })

/-- A deflater writes to memory and never fails. -/
instance : Compressor Deflater where
  start level := .ok (start level)
  compress state bytes :=
    let (part, next) := state.compress bytes
    (.ok part, next)

end Deflater

end Deflate
end HeaderCodec
