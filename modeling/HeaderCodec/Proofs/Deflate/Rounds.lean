import HeaderCodec.Proofs.Restraint

namespace HeaderCodec
namespace Deflate

/-!
# Round after round

`Decompressor.draw` is a loop.  In each round the inflater is run on the input at hand.
The loop goes round when a dictionary has been asked for, when there is no more input,
and when some input has been used for nothing so far.  There would be no end to it if a
round could use up nothing and change nothing, and such a round is to be reported as an
error.

`Decompressor.round` is one round, with this error among its outcomes and without any
reason why it should not occur.  A run of the inflater comes back as soon as it has seen
which dictionary a stream was made with, while the inflater by itself goes on at once.
`Decompressor.RoundOutcome` says that a draw is a round, or a round and then another draw, and
that neither the error nor a round without a use is among the outcomes.
-/

/-! ## Runs that end with the name of a dictionary -/

/-- Whether one more bit completes the name of a dictionary. -/
def Phase.endsDictionaryId : Phase -> Bool
  | .number .dictionaryId missing .. => decide (missing ≤ 1)
  | _ => false

/-- What follows the name of a dictionary: the first block, or a fault if it is not the
one at hand. -/
def Phase.followsDictionary (phase : Phase) : Prop :=
  phase = .number .blockHead 3 1 0 ∨ phase = .failed .dictionaryId

/-- How far a run has come. -/
structure Part where
  /-- Whether the name of a dictionary has been completed. -/
  asked : Bool
  inflater : Inflater
  unread : List Bool
  pace : Pace

namespace Inflater

/-- Run until the name of a dictionary is complete, or to the end. -/
def runPart (pace : Pace) (state : Inflater) (bits : List Bool) (room : Nat) : Part :=
  match state.phase.demand, bits, room with
  | .bit, bit :: rest, room =>
    let after := state.feed bit
    if state.phase.endsDictionaryId then ⟨true, after, rest, pace.next after rest room⟩
    else runPart (pace.next after rest room) after rest room
  | .room, bits, room + 1 =>
    let after := state.emit
    runPart (pace.next after bits room) after bits room
  | _, bits, _ => ⟨false, state, bits, pace⟩
termination_by bits.length + room

variable {state : Inflater} {pace : Pace} {bits : List Bool} {room : Nat}

/-- No dictionary is asked for, and the run is the whole one. -/
theorem runPaced_of_part (nothing : (runPart pace state bits room).asked = false) :
    runPaced pace state bits room =
      ((runPart pace state bits room).inflater, (runPart pace state bits room).unread,
        (runPart pace state bits room).pace) := by
  fun_induction runPart pace state bits room with
  | case1 => cases nothing
  | case2 pace state bit rest room asks after _ inductionHypothesis =>
    rw [runPaced]
    · exact inductionHypothesis nothing
    · exact asks
  | case3 pace state bits room asks after inductionHypothesis =>
    rw [runPaced]
    · exact inductionHypothesis nothing
    · exact asks
  | case4 pace state room bits noBit noRoom =>
    rw [runPaced]
    · exact noBit
    · exact noRoom

theorem next_of_followsDictionary (follows : state.phase.followsDictionary) :
    pace.next state bits room = pace := by
  rw [Pace.next]
  rcases follows with phase | phase <;> rw [phase]

theorem initial_of_followsDictionary (follows : state.phase.followsDictionary) :
    Pace.initial state bits room = .careful := by
  rw [Pace.initial]
  rcases follows with phase | phase <;> rw [phase]

theorem initial_of_early (early : state.phase.isEarly = true) :
    Pace.initial state bits room = .careful := by
  rw [Pace.initial]
  split
  · rename_i phase
    rw [phase] at early
    cases early
  · rfl

theorem next_of_early (early : state.phase.isEarly = true) :
    pace.next state bits room = pace := by
  rw [Pace.next]
  split
  · rename_i phase
    rw [phase] at early
    cases early
  · rename_i phase
    rw [phase] at early
    cases early
  · rfl

theorem early_of_endsDictionaryId (ends : state.phase.endsDictionaryId = true) :
    state.phase.isEarly = true := by
  unfold Phase.endsDictionaryId at ends
  split at ends
  · rename_i phase
    rw [phase]
    rfl
  · cases ends

theorem followsDictionary_onDictionaryId (state : Inflater) (value : Nat) :
    (state.onDictionaryId value).phase.followsDictionary := by
  rw [onDictionaryId]
  split
  · exact Or.inl rfl
  · exact Or.inr rfl

theorem feed_of_endsDictionaryId (ends : state.phase.endsDictionaryId = true) (bit : Bool) :
    (state.feed bit).phase.followsDictionary := by
  unfold Phase.endsDictionaryId at ends
  split at ends
  · rename_i missing place value phase
    have last := of_decide_eq_true ends
    rw [feed, phase]
    simp only [if_pos last]
    exact followsDictionary_onDictionaryId _ _
  · cases ends

/-- The states before the first block are left once and for all. -/
theorem early_of_feed {bit : Bool} (early : (state.feed bit).phase.isEarly = true) :
    state.phase.isEarly = true := by
  cases before : state.phase.isEarly with
  | true => rfl
  | false =>
    by_cases asks : state.phase.demand = .bit
    · rw [(continues_feed before asks bit).late] at early
      cases early
    · rwa [feed_of_not_bit asks, before] at early

theorem early_of_run (early : (state.run bits room).1.phase.isEarly = true) :
    state.phase.isEarly = true := by
  fun_induction run state bits room with
  | case1 _ _ _ _ _ inductionHypothesis => exact early_of_feed (inductionHypothesis early)
  | case2 state _ _ asks inductionHypothesis =>
    have late := (frame_emit asks).2.2.1
    exact Bool.noConfusion (late.symm.trans (inductionHypothesis early))
  | case3 => exact early

/-- A dictionary is asked for before the first block.  If the run went on at once it
would go on in the same way. -/
structure Asks (pace : Pace) (state : Inflater) (bits : List Bool) (room : Nat)
    (part : Part) : Prop where
  early : state.phase.isEarly = true
  follows : part.inflater.phase.followsDictionary
  consumed : state.consumed < part.inflater.consumed
  same : part.pace = pace
  onward : runPaced pace state bits room = runPaced pace part.inflater part.unread room
  unchanged : part.inflater.output = state.output

theorem asks_of_part (asked : (runPart pace state bits room).asked = true) :
    Asks pace state bits room (runPart pace state bits room) := by
  fun_induction runPart pace state bits room with
  | case1 pace state bit rest room asks after ends =>
    have early := early_of_endsDictionaryId ends
    have follows := feed_of_endsDictionaryId ends bit
    have same : pace.next after rest room = pace := next_of_followsDictionary follows
    refine ⟨early, follows, ?_, same, ?_, output_feed state bit⟩
    · exact Nat.lt_of_lt_of_eq (Nat.lt_succ_self _) (consumed_feed asks bit).symm
    · rw [runPaced, same]
      exact asks
  | case2 pace state bit rest room asks after _ inductionHypothesis =>
    have later := inductionHypothesis asked
    have same : pace.next after rest room = pace := next_of_early later.early
    rw [same] at later ⊢
    refine ⟨early_of_feed later.early, later.follows, ?_, later.same, ?_,
      later.unchanged.trans (output_feed state bit)⟩
    · exact Nat.lt_trans (Nat.lt_of_lt_of_eq (Nat.lt_succ_self _) (consumed_feed asks bit).symm)
        later.consumed
    · rw [← later.onward, runPaced, same]
      exact asks
  | case3 pace state bits room asks after inductionHypothesis =>
    have later := inductionHypothesis asked
    have late : after.phase.isEarly = false := (frame_emit asks).2.2.1
    exact Bool.noConfusion (late.symm.trans later.early)
  | case4 => cases asked

end Inflater

/-! ## Rounds of a draw -/

/-- How a round ends. -/
inductive Round where
  /-- There is output, or the stream has ended. -/
  | returned (bytes : List UInt8)
  /-- The stream breaks a rule, or was made with another dictionary. -/
  | failed (fault : Fault)
  /-- The sources fail. -/
  | broken (failure : Failure)
  /-- There is input at hand, and nothing has come of it. -/
  | stalled
  /-- The dictionary has been installed. -/
  | installed
  /-- The sources have been read. -/
  | refilled (bytes : List UInt8)
  /-- Some input has been used. -/
  | advanced
deriving DecidableEq, Repr

/-- Whether a draw ends with a round. -/
def Round.isLast : Round -> Bool
  | .returned _ | .failed _ | .broken _ | .stalled => true
  | .installed | .refilled _ | .advanced => false

namespace Decompressor

/-- One round of a draw with room for `room` bytes. -/
def round (state : Decompressor) (supply : Supply) (room : Nat) : Round × Decompressor × Supply :=
  let known := state.inflater.outputSize
  let pace := Pace.initial state.inflater state.unread room
  let part := Inflater.runPart pace state.inflater state.unread room
  let next : Decompressor := ⟨part.inflater, part.unread⟩
  match part.asked, part.inflater.phase with
  | true, .failed fault => (.failed fault, next, supply)
  | true, _ => (.installed, next, supply)
  | false, .failed fault => (.failed (part.pace.report fault), next, supply)
  | false, .ended => (.returned (part.inflater.outputFrom known), next, supply)
  | false, _ =>
    if known < part.inflater.outputSize then
      (.returned (part.inflater.outputFrom known), next, supply)
    else if part.unread = [] then
      match supply.read chunk with
      | (.error failure, rest) => (.broken failure, next, rest)
      | (.ok bytes, rest) => (.refilled bytes, next.load bytes, rest)
    else if part.unread.length = state.unread.length then (.stalled, next, supply)
    else (.advanced, next, supply)

variable {state next dry : Decompressor} {supply rest : Supply} {room : Nat}

/-- Whoever is past the beginning of the first block stays so. -/
def Onward (state next : Decompressor) : Prop :=
  next.inflater.phase.isEarly = true -> state.inflater.phase.isEarly = true

/-- A round is a whole draw, or it is followed by another draw. -/
inductive RoundOutcome (state : Decompressor) (supply : Supply) (room : Nat) :
    Round -> Decompressor -> Supply -> Prop where
  | returned {bytes : List UInt8} {next : Decompressor} (fits : bytes.length ≤ room)
      (onward : state.Onward next)
      (drawn : state.draw supply room = (.ok bytes, next, supply)) :
      RoundOutcome state supply room (.returned bytes) next supply
  | failed {fault : Fault} {next : Decompressor} (onward : state.Onward next)
      (drawn : state.draw supply room = (.error (.stream fault), next, supply)) :
      RoundOutcome state supply room (.failed fault) next supply
  | broken {failure : Failure} {next : Decompressor} {rest : Supply}
      (onward : state.Onward next)
      (drawn : state.draw supply room = (.error (.source failure), next, rest)) :
      RoundOutcome state supply room (.broken failure) next rest
  | installed {next : Decompressor} (early : state.inflater.phase.isEarly = true)
      (late : next.inflater.phase.isEarly = false)
      (consumed : state.inflater.consumed < next.inflater.consumed)
      (same : state.draw supply room = next.draw supply room) :
      RoundOutcome state supply room .installed next supply
  | refilled {bytes : List UInt8} {next : Decompressor} {rest : Supply}
      (onward : state.Onward next) (read : supply.read chunk = (.ok bytes, rest))
      (same : state.draw supply room = next.draw rest room) :
      RoundOutcome state supply room (.refilled bytes) next rest

/-- Without a dictionary a round is what the input at hand leads to, and a read if that
is nothing.  A run that brings nothing uses all input. -/
theorem round_of_advance (some : room ≠ 0) (supply : Supply)
    (nothing : (Inflater.runPart (Pace.initial state.inflater state.unread room) state.inflater
      state.unread room).asked = false) :
    state.round supply room =
      match state.advance room with
      | (.produced bytes, next) => (.returned bytes, next, supply)
      | (.ended, next) => (.returned [], next, supply)
      | (.failed fault, next) => (.failed fault, next, supply)
      | (.starved, next) =>
        match supply.read chunk with
        | (.error failure, rest) => (.broken failure, next, rest)
        | (.ok bytes, rest) => (.refilled bytes, next.load bytes, rest) := by
  have moved := fun next => @moved_of_advance state room .starved next some
  rcases state with ⟨inflater, unread⟩
  have whole := Inflater.runPaced_of_part nothing
  simp only [round, advance, whole] at moved ⊢
  generalize Inflater.runPart _ inflater unread room = part at nothing moved ⊢
  rcases part with ⟨asked, after, rest, pace⟩
  simp only at nothing moved ⊢
  subst nothing
  cases phase : after.phase with
  | failed fault => rfl
  | ended =>
    by_cases more : inflater.outputSize < after.outputSize
    · simp only [if_pos more]
    · have none : after.outputFrom inflater.outputSize = [] := by
        rw [Inflater.outputFrom_eq, List.drop_of_length_le]
        rw [Inflater.length_output]
        exact Nat.le_of_not_lt more
      simp only [if_neg more, Phase.demand, if_true, none]
  | _ =>
    by_cases more : inflater.outputSize < after.outputSize
    · simp only [if_pos more]
    · simp only [phase, if_neg more] at moved ⊢
      have used : rest = [] := by
        cases moved ⟨after, rest⟩ rfl with
        | starved used => exact used
      simp only [if_pos used]
      rfl

/-- Behind a dictionary the input at hand leads to the same. -/
theorem advance_of_asks {part : Part}
    (asks : Inflater.Asks (Pace.initial state.inflater state.unread room) state.inflater
      state.unread room part) :
    state.advance room = Decompressor.advance ⟨part.inflater, part.unread⟩ room := by
  have known : state.inflater.outputSize = part.inflater.outputSize := by
    rw [← Inflater.length_output, ← Inflater.length_output, asks.unchanged]
  have onward := asks.onward
  rcases state with ⟨inflater, unread⟩
  rw [Inflater.initial_of_early asks.early] at onward
  rw [advance, advance, known, Inflater.initial_of_early asks.early,
    Inflater.initial_of_followsDictionary asks.follows, onward]

theorem outcome_of_asks (some : room ≠ 0) (supply : Supply)
    (asked : (Inflater.runPart (Pace.initial state.inflater state.unread room) state.inflater
      state.unread room).asked = true) :
    RoundOutcome state supply room (state.round supply room).1 (state.round supply room).2.1
      (state.round supply room).2.2 := by
  have asks := Inflater.asks_of_part asked
  have advanced := advance_of_asks asks
  rw [round]
  generalize Inflater.runPart _ state.inflater state.unread room = part at asked asks advanced ⊢
  rcases part with ⟨_, after, rest, pace⟩
  subst asked
  have follows : after.phase.followsDictionary := asks.follows
  rcases follows with phase | phase
  · simp only [phase]
    refine .installed asks.early ?_ asks.consumed ?_
    · exact congrArg Phase.isEarly phase
    · rw [draw, if_neg some, advanced, draw, if_neg some]
  · have failed : Decompressor.advance ⟨after, rest⟩ room =
        (.failed .dictionaryId, ⟨after, rest⟩) := by
      have stays : after.runPaced .careful rest room = (after, rest, .careful) := by
        rw [Inflater.runPaced]
        · intro bit others asks
          rw [phase] at asks
          cases asks
        · intro less asks
          rw [phase] at asks
          cases asks
      rw [advance, Inflater.initial_of_followsDictionary asks.follows, stays]
      simp only [phase]
      rfl
    simp only [phase]
    refine .failed ?_ (by rw [draw, if_neg some, advanced, failed])
    exact fun _ => asks.early

/-- In a round the input at hand is used up before the sources are read, and a round
that is not the last one has installed the dictionary or read them. -/
theorem round_outcome (some : room ≠ 0) (supply : Supply) :
    RoundOutcome state supply room (state.round supply room).1 (state.round supply room).2.1
      (state.round supply room).2.2 := by
  cases asked : (Inflater.runPart (Pace.initial state.inflater state.unread room) state.inflater
      state.unread room).asked with
  | true => exact outcome_of_asks some supply asked
  | false =>
    rw [round_of_advance some supply asked]
    cases answer : state.advance room with
    | mk result next =>
      have moved := moved_of_advance some answer
      have after : (state.inflater.run state.unread room).1 = next.inflater := by
        have second := congrArg (fun outcome => outcome.2.inflater) answer
        rwa [snd_advance] at second
      have onward : state.Onward next := by
        intro early
        rw [← after] at early
        exact Inflater.early_of_run early
      cases result with
      | produced bytes =>
        cases moved with
        | produced fits => exact .returned fits onward (by rw [draw, if_neg some, answer])
      | ended => exact .returned (Nat.zero_le room) onward (by rw [draw, if_neg some, answer])
      | failed fault => exact .failed onward (by rw [draw, if_neg some, answer])
      | starved =>
        have drawn := draw_of_reads (.now some answer : Reads room state supply chunk next supply)
        simp only
        cases read : supply.read chunk with
        | mk result rest =>
          rw [read] at drawn
          cases result with
          | error failure => exact .broken onward drawn
          | ok bytes => exact .refilled onward read drawn

end Decompressor
end Deflate
end HeaderCodec
