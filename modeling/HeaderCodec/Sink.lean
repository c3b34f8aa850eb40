import HeaderCodec.Failure

namespace HeaderCodec

/-!
# Byte sinks

A sink takes bytes by writes, and may take fewer than it is offered.  What it
will do is a list of events: it has room for a number of bytes, it takes nothing
at a write, or it fails.  When all events have passed it takes whatever it is
offered.  At all times a single write may be limited in size.

`writeAll` offers the bytes not yet taken until none are left.  It repeats an
interrupted write, and gives up when a write takes nothing or fails.
-/

/-- What a sink does. -/
inductive SinkEvent where
  /-- Take bytes until there have been `count`. -/
  | room (count : Nat)
  /-- Take no byte at one write. -/
  | refuse
  | failing (failure : Failure)
deriving DecidableEq, Repr

/-- A byte sink. -/
structure Sink where
  events : List SinkEvent := []
  /-- The greatest number of bytes that one write takes. -/
  perWrite : Option Nat := none
  /-- The bytes taken so far. -/
  taken : Array UInt8 := #[]
deriving Repr

namespace Sink

/-- The failure of a sink that takes nothing although something is offered. -/
def takesNothing : Failure where
  kind := .writeZero
  message := "failed to write whole buffer"

/-- The number of bytes that one write takes when `offered` are offered. -/
def portion (perWrite : Option Nat) (offered : Nat) : Nat :=
  match perWrite with
  | none => offered
  | some limit => min limit offered

/-- Take some bytes. -/
def accept (sink : Sink) (bytes : List UInt8) : Sink :=
  { sink with taken := sink.taken ++ bytes }

/-- Write all bytes. -/
def writeAll (sink : Sink) (bytes : List UInt8) : Except Failure Unit × Sink :=
  if bytes = [] then (.ok (), sink)
  else
    match _present : sink.events with
    | .failing failure :: later =>
      if failure.isInterruption then { sink with events := later }.writeAll bytes
      else (.error failure, { sink with events := later })
    | .refuse :: later => (.error takesNothing, { sink with events := later })
    | .room 0 :: later => { sink with events := later }.writeAll bytes
    | .room (count + 1) :: later =>
      let size := portion sink.perWrite (min (count + 1) bytes.length)
      if size = 0 then (.error takesNothing, sink)
      else
        ({ sink with events := .room (count + 1 - size) :: later }.accept
          (bytes.take size)).writeAll (bytes.drop size)
    | [] =>
      let size := portion sink.perWrite bytes.length
      if size = 0 then (.error takesNothing, sink)
      else (sink.accept (bytes.take size)).writeAll (bytes.drop size)
termination_by bytes.length + sink.events.length
decreasing_by
  all_goals simp only [_present, accept, List.length_cons, List.length_drop]
  all_goals try have positive : 0 < bytes.length := List.length_pos_iff.2 ‹_›
  all_goals omega

end Sink

end HeaderCodec
