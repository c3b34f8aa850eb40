import HeaderCodec.Deflate.Pace
import HeaderCodec.Intake

namespace HeaderCodec
namespace Deflate

/-!
# Decompressing from sources

A `Decompressor` is an inflater together with the input that it has been given
and has not taken.  It lives as long as a connection: what one header block
leaves untouched is the beginning of the next.

`draw` asks for at most a given number of bytes.  It runs the inflater on the
input at hand, and goes to the sources only when that is used up and no byte
has come of it.  So it returns as soon as there is something to return, and it
never reads from a source while bytes can be had without.  A fault that the
inflater meets while reading ahead makes the whole draw fail, also when bytes
were written before it.

`draw` has no counter.  It ends because each turn either returns or leaves
less in the supply.
-/

/-- A decompressor: the inflater and the input it has not taken. -/
structure Decompressor where
  inflater : Inflater := .fresh
  unread : List Bool := []
deriving Repr

/-- How far the input at hand has led. -/
inductive Advance where
  /-- There is output. -/
  | produced (bytes : List UInt8)
  /-- There is no output and never will be. -/
  | ended
  /-- There is no output without more input. -/
  | starved
  | failed (fault : Fault)
deriving DecidableEq, Repr

/-- Why a draw fails. -/
inductive DrawFailure where
  | stream (fault : Fault)
  | source (failure : Failure)
deriving DecidableEq, Repr

namespace Decompressor

/-- The greatest number of bytes that one read asks of a source. -/
def chunk : Nat := 4096

/-- Run the inflater on the input at hand, with room for `room` bytes. -/
def advance : Decompressor -> Nat -> Advance × Decompressor
  | ⟨inflater, unread⟩, room =>
    let known := inflater.outputSize
    let pace := Pace.initial inflater unread room
    let (inflater, unread, pace) := inflater.runPaced pace unread room
    let result :=
      match inflater.phase with
      | .failed fault => .failed (pace.report fault)
      | phase =>
        if known < inflater.outputSize then .produced (inflater.outputFrom known)
        else if phase.demand = .nothing then .ended
        else .starved
    (result, ⟨inflater, unread⟩)

/-- Give the decompressor more input, after all input at hand is used up. -/
def load (state : Decompressor) (bytes : List UInt8) : Decompressor :=
  { state with unread := Bits.ofBytes bytes }

/-- Draw at least one byte and at most `room` bytes, or none at the end of the
stream. -/
def draw (state : Decompressor) (supply : Supply) (room : Nat) :
    Except DrawFailure (List UInt8) × Decompressor × Supply :=
  if room = 0 then (.ok [], state, supply)
  else
    match state.advance room with
    | (.produced bytes, next) => (.ok bytes, next, supply)
    | (.ended, next) => (.ok [], next, supply)
    | (.failed fault, next) => (.error (.stream fault), next, supply)
    | (.starved, next) =>
      match _answered : supply.read chunk with
      | (.error failure, rest) => (.error (.source failure), next, rest)
      | (.ok bytes, rest) => (next.load bytes).draw rest room
termination_by supply.weight
decreasing_by
  have smaller : (supply.read chunk).2.weight < supply.weight :=
    Supply.weight_read (by decide) (congrArg Prod.fst _answered)
  rwa [_answered] at smaller

end Decompressor

end Deflate
end HeaderCodec
