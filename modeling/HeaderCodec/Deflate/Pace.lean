import HeaderCodec.Deflate.Inflater

namespace HeaderCodec
namespace Deflate

/-!
# The pace of decompression

With plenty of input and room ahead, symbols are decoded in haste: the faults
that a single symbol can have are then not told apart.  With less of either
they are decoded with care.

Whether there is plenty is not looked at for each symbol but for each group.  A
group is one symbol, or up to two literals with short code words and the symbol
after them.  So a symbol may still be decoded in haste when less lies ahead of
it than a group needs at its beginning.  A group ends with its block.  A match
in the middle of which a run begins is finished with care however much lies
ahead by now, and a code word that has been begun before counts as the
beginning of a group with only the new input ahead of it.

The pace is kept along with a run and has no influence on it: `runPaced_eq` says
that the run is the same.
-/

/-- How symbols are being decoded. -/
inductive Pace where
  /-- With care, until a symbol begins with plenty ahead. -/
  | careful
  /-- In haste.  After a literal with a short code word the group may go on, for
  `spare` literals more. -/
  | hasty (spare : Nat)
  /-- Between a literal and the next symbol of the same group. -/
  | granted (spare : Nat)
deriving DecidableEq, Repr

namespace Pace

/-- The number of literals after which a group may go on. -/
def groupLiterals : Nat := 2

/-- The greatest length of a code word that is short. -/
def shortWord : Nat := 10

/-- The number of bits that must lie ahead of a group. -/
def hastyInput : Nat := 8 * 15

/-- The room that must lie ahead of a group. -/
def hastyRoom : Nat := 260

/-- The pace of a group that begins with some input and room ahead.  The input is
looked at no further than the group needs. -/
def ofGroup (bits : List Bool) (room : Nat) : Pace :=
  if hastyRoom ≤ room ∧ (bits.drop (hastyInput - 1)).isEmpty = false then .hasty groupLiterals
  else .careful

/-- The pace after a literal has been decoded. -/
def afterLiteral (pace : Pace) (wordLength : Nat) : Pace :=
  match pace with
  | .hasty (spare + 1) => if wordLength ≤ shortWord then .granted spare else .careful
  | _ => .careful

/-- The pace at the beginning of a symbol. -/
def atSymbol (pace : Pace) (bits : List Bool) (room : Nat) : Pace :=
  match pace with
  | .granted spare => .hasty spare
  | _ => ofGroup bits room

/-- The pace after a step that has led to some state. -/
def next (pace : Pace) (state : Inflater) (bits : List Bool) (room : Nat) : Pace :=
  match state.phase with
  | .owed _ (.symbol _) => pace.afterLiteral (state.consumed - state.symbolStart)
  | .symbol .. =>
    if state.consumed = state.symbolStart then pace.atSymbol bits room else pace
  | _ => pace

/-- The pace at the beginning of a run. -/
def initial (state : Inflater) (bits : List Bool) (room : Nat) : Pace :=
  match state.phase with
  | .symbol .. => ofGroup bits room
  | _ => .careful

/-- What is reported of a fault. -/
def report (pace : Pace) (fault : Fault) : Fault :=
  match pace with
  | .hasty _ => fault.hasty
  | _ => fault

end Pace

namespace Inflater

/-- Run, and keep the pace along. -/
def runPaced (pace : Pace) (state : Inflater) (bits : List Bool) (room : Nat) :
    Inflater × List Bool × Pace :=
  match state.phase.demand, bits, room with
  | .bit, bit :: rest, room =>
    let after := state.feed bit
    runPaced (pace.next after rest room) after rest room
  | .room, bits, room + 1 =>
    let after := state.emit
    runPaced (pace.next after bits room) after bits room
  | _, bits, _ => (state, bits, pace)
termination_by bits.length + room

theorem runPaced_eq (pace : Pace) (state : Inflater) (bits : List Bool) (room : Nat) :
    ((runPaced pace state bits room).1, (runPaced pace state bits room).2.1) =
      state.run bits room := by
  fun_induction runPaced pace state bits room with
  | case1 pace state bit rest room needs after inductionHypothesis =>
    rw [run] <;> assumption
  | case2 pace state bits room needs after inductionHypothesis =>
    rw [run] <;> assumption
  | case3 pace state bits room noBit noRoom =>
    rw [run] <;> assumption

theorem fst_runPaced (pace : Pace) (state : Inflater) (bits : List Bool) (room : Nat) :
    (runPaced pace state bits room).1 = (state.run bits room).1 :=
  congrArg Prod.fst (runPaced_eq pace state bits room)

theorem snd_fst_runPaced (pace : Pace) (state : Inflater) (bits : List Bool) (room : Nat) :
    (runPaced pace state bits room).2.1 = (state.run bits room).2 :=
  congrArg Prod.snd (runPaced_eq pace state bits room)

end Inflater

end Deflate
end HeaderCodec
