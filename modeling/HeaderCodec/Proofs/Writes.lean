import HeaderCodec.Proofs.Refusal

namespace HeaderCodec

/-!
# Writing a block to a sink

A sink is free to take as much of what it is offered as it likes.  It may take a part,
be interrupted, take nothing or fail, and all of this at any write.  The block is part
of the compressed history by then, so none of its bytes may be left out or sent twice.

`Sink.write` is a single write, and `Sink.Takes` is any number of writes at each of
which the rest of the block is offered.  Each write that takes something moves a few
bytes from what is left to what has been sent.  This is all that a sink can do, as long
as nothing breaks, and there is a sink for every way in which it can be done.
-/

namespace Sink

/-! ## Single writes -/

/-- The events that are left when there is room for nothing. -/
def upcoming : List SinkEvent -> List SinkEvent
  | .room 0 :: later => upcoming later
  | events => events

/-- One write.  The number of bytes that are taken is returned. -/
def write (sink : Sink) (bytes : List UInt8) : Except Failure Nat × Sink :=
  match upcoming sink.events with
  | .failing failure :: later => (.error failure, { sink with events := later })
  | .refuse :: later => (.ok 0, { sink with events := later })
  | .room count :: later =>
    let size := portion sink.perWrite (min count bytes.length)
    (.ok size, { sink with events := .room (count - size) :: later }.accept (bytes.take size))
  | [] =>
    let size := portion sink.perWrite bytes.length
    (.ok size, { sink with events := [] }.accept (bytes.take size))

variable {sink before after last : Sink} {bytes sent left : List UInt8} {size : Nat}
  {failure : Failure} {result : Except Failure Nat}

theorem portion_le (perWrite : Option Nat) (offered : Nat) :
    portion perWrite offered ≤ offered := by
  cases perWrite with
  | none => exact Nat.le_refl offered
  | some limit => exact Nat.min_le_right limit offered

theorem length_upcoming (events : List SinkEvent) :
    (upcoming events).length ≤ events.length := by
  fun_induction upcoming events with
  | case1 later inductionHypothesis => exact Nat.le_succ_of_le inductionHypothesis
  | case2 events => exact Nat.le_refl _

theorem accept_nil (sink : Sink) : sink.accept [] = sink := by
  rw [accept, Array.appendList_nil]

/-- What a write can do to a sink. -/
inductive Written (sink : Sink) (bytes : List UInt8) : Except Failure Nat -> Sink -> Prop where
  | failed {failure : Failure} {after : Sink} (same : after.taken = sink.taken)
      (passed : after.events.length < sink.events.length) :
      Written sink bytes (.error failure) after
  | took {size : Nat} {after : Sink} (within : size ≤ bytes.length)
      (taken : after.taken = sink.taken ++ bytes.take size)
      (passed : after.events.length ≤ sink.events.length) :
      Written sink bytes (.ok size) after

theorem written_write (sink : Sink) (bytes : List UInt8) :
    Written sink bytes (sink.write bytes).1 (sink.write bytes).2 := by
  have shorter := length_upcoming sink.events
  rw [write]
  split
  · rename_i failure later events
    rw [events, List.length_cons] at shorter
    exact .failed rfl shorter
  · rename_i later events
    rw [events, List.length_cons] at shorter
    exact .took (Nat.zero_le _) Array.appendList_nil.symm (Nat.le_of_lt shorter)
  · rename_i count later events
    rw [events, List.length_cons] at shorter
    refine .took ?_ rfl shorter
    exact Nat.le_trans (portion_le _ _) (Nat.min_le_right _ _)
  · exact .took (portion_le _ _) rfl (Nat.zero_le _)

/-- All bytes are written by writes that each offer what is left. -/
theorem writeAll_eq (some : bytes ≠ []) :
    sink.writeAll bytes =
      match sink.write bytes with
      | (.error failure, after) =>
        if failure.isInterruption then after.writeAll bytes else (.error failure, after)
      | (.ok 0, after) => (.error takesNothing, after)
      | (.ok (size + 1), after) => after.writeAll (bytes.drop (size + 1)) := by
  rcases sink with ⟨events, perWrite, taken⟩
  induction events with
  | nil =>
    rw [writeAll, if_neg some, write, upcoming]
    · simp only
      cases portion perWrite bytes.length with
      | zero => rw [if_pos rfl, List.take_zero, accept_nil]
      | succ size => rw [if_neg (Nat.succ_ne_zero size)]
    · nofun
  | cons event later inductionHypothesis =>
    rw [writeAll, if_neg some]
    cases event with
    | refuse => rfl
    | failing failure => rfl
    | room count =>
      cases count with
      | zero => exact inductionHypothesis
      | succ count =>
        rw [write, upcoming]
        · simp only
          cases portion perWrite (min (count + 1) bytes.length) with
          | zero => rw [if_pos rfl, List.take_zero, accept_nil, Nat.sub_zero]
          | succ size => rw [if_neg (Nat.succ_ne_zero size)]
        · nofun

/-! ## Successive writes -/

/-- Some bytes are written until a part of them has been sent.  Each write offers what
is left, and those that are interrupted are repeated. -/
inductive Takes : Sink -> (bytes sent left : List UInt8) -> Sink -> Prop where
  | start (sink : Sink) (bytes : List UInt8) : Takes sink bytes [] bytes sink
  | interrupted {sink after last : Sink} {bytes sent left : List UInt8} {failure : Failure}
      (some : bytes ≠ []) (answer : sink.write bytes = (.error failure, after))
      (harmless : failure.isInterruption = true) (onward : Takes after bytes sent left last) :
      Takes sink bytes sent left last
  | took {sink after last : Sink} {bytes sent left : List UInt8} {size : Nat}
      (some : bytes ≠ []) (answer : sink.write bytes = (.ok (size + 1), after))
      (onward : Takes after (bytes.drop (size + 1)) sent left last) :
      Takes sink bytes (bytes.take (size + 1) ++ sent) left last

/-- A write after which no other one is tried, and the failure that is reported. -/
inductive Breaks : Except Failure Nat -> Failure -> Prop where
  | nothing : Breaks (.ok 0) takesNothing
  | failed {failure : Failure} (serious : failure.isInterruption = false) :
      Breaks (.error failure) failure

/-- No byte is left out, and none is sent twice. -/
theorem Takes.parts (takes : Takes sink bytes sent left last) :
    bytes = sent ++ left ∧ last.taken.toList = sink.taken.toList ++ sent := by
  induction takes with
  | start sink bytes => exact ⟨rfl, (List.append_nil _).symm⟩
  | @interrupted sink after _ bytes _ _ _ _ answer _ _ inductionHypothesis =>
    have written := written_write sink bytes
    rw [answer] at written
    cases written with
    | failed same =>
      rw [← same]
      exact inductionHypothesis
  | @took sink after _ bytes _ _ size _ answer _ inductionHypothesis =>
    have written := written_write sink bytes
    rw [answer] at written
    cases written with
    | took within taken =>
      rcases inductionHypothesis with ⟨split, behind⟩
      constructor
      · rw [List.append_assoc, ← split, List.take_append_drop]
      · rw [behind, taken, Array.toList_appendList, List.append_assoc]

/-- Writing all bytes comes down to writing what is left. -/
theorem Takes.writeAll_eq (takes : Takes sink bytes sent left last) :
    sink.writeAll bytes = last.writeAll left := by
  induction takes with
  | start => rfl
  | interrupted some answer harmless _ inductionHypothesis =>
    rw [Sink.writeAll_eq some, answer, ← inductionHypothesis]
    exact if_pos harmless
  | took some answer _ inductionHypothesis =>
    rw [Sink.writeAll_eq some, answer, ← inductionHypothesis]

theorem writeAll_nil (sink : Sink) : sink.writeAll [] = (.ok (), sink) := by
  rw [writeAll, if_pos rfl]

theorem writeAll_of_breaks (some : left ≠ []) (answer : before.write left = (result, after))
    (breaks : Breaks result failure) : before.writeAll left = (.error failure, after) := by
  rw [Sink.writeAll_eq some, answer]
  cases breaks with
  | nothing => rfl
  | failed serious => exact if_neg (Bool.eq_false_iff.1 serious)

/-- Sooner or later everything has been sent, or a write breaks. -/
theorem takes_or_breaks (sink : Sink) (bytes : List UInt8) :
    (∃ last, Takes sink bytes bytes [] last) ∨
      ∃ sent left before result after failure, Takes sink bytes sent left before ∧ left ≠ [] ∧
        before.write left = (result, after) ∧ Breaks result failure := by
  -- A write that breaks nothing uses up an event or takes some bytes.
  induction size : bytes.length + sink.events.length using Nat.strongRecOn
    generalizing sink bytes with
  | ind size inductionHypothesis =>
    subst size
    by_cases none : bytes = []
    · subst none
      exact Or.inl ⟨sink, .start sink []⟩
    · have written := written_write sink bytes
      cases answer : sink.write bytes with
      | mk result after =>
        rw [answer] at written
        cases written with
        | @failed failure _ same passed =>
          cases harmless : failure.isInterruption with
          | false =>
            exact Or.inr ⟨[], bytes, sink, _, after, failure, .start sink bytes, none, answer,
              .failed harmless⟩
          | true =>
            rcases inductionHypothesis _ (Nat.add_lt_add_left passed _) after bytes rfl with
                ⟨last, takes⟩ | ⟨sent, left, before, result, last, failure, takes, breaks⟩
            · exact Or.inl ⟨last, .interrupted none answer harmless takes⟩
            · exact Or.inr ⟨sent, left, before, result, last, failure,
                .interrupted none answer harmless takes, breaks⟩
        | @took count _ within taken passed =>
          cases count with
          | zero =>
            exact Or.inr ⟨[], bytes, sink, _, after, takesNothing, .start sink bytes, none, answer,
              .nothing⟩
          | succ count =>
            have shorter : (bytes.drop (count + 1)).length < bytes.length := by
              rw [List.length_drop]
              omega
            rcases inductionHypothesis _ (Nat.add_lt_add_of_lt_of_le shorter passed) after
              (bytes.drop (count + 1)) rfl with
                ⟨last, takes⟩ | ⟨sent, left, before, result, last, failure, takes, breaks⟩
            · refine Or.inl ⟨last, ?_⟩
              have whole := Takes.took none answer takes
              rwa [List.take_append_drop] at whole
            · exact Or.inr ⟨_, left, before, result, last, failure, .took none answer takes,
                breaks⟩

/-- A write that breaks takes nothing. -/
theorem taken_of_breaks (answer : before.write left = (result, after))
    (breaks : Breaks result failure) : after.taken = before.taken := by
  have written := written_write before left
  rw [answer] at written
  cases breaks with
  | nothing =>
    cases written with
    | took _ taken => rw [taken, List.take_zero, Array.appendList_nil]
  | failed =>
    cases written with
    | failed same => exact same

/-! ## Sinks of every kind -/

/-- What a sink can do at one write. -/
inductive Behaviour where
  | take (count : Nat)
  | fail (failure : Failure)

/-- There is no more to be taken than what is offered. -/
def Behaviour.IsPossible (bytes : List UInt8) : Behaviour -> Prop
  | .take count => count ≤ bytes.length
  | .fail _ => True

/-- What a write returns. -/
def Behaviour.answer : Behaviour -> Except Failure Nat
  | .take count => .ok count
  | .fail failure => .error failure

/-- A sink does one thing after the other, whatever it is offered at each write. -/
def Plays (sink : Sink) : List Behaviour -> Prop
  | [] => True
  | behaviour :: later => ∀ bytes, bytes ≠ [] -> behaviour.IsPossible bytes ->
      ∃ after, sink.write bytes = (behaviour.answer, after) ∧ after.Plays later

/-- The event that makes a sink do something. -/
def Behaviour.event : Behaviour -> SinkEvent
  | .take 0 => .refuse
  | .take (count + 1) => .room (count + 1)
  | .fail failure => .failing failure

theorem upcoming_events (behaviours : List Behaviour) :
    upcoming (behaviours.map Behaviour.event) = behaviours.map Behaviour.event := by
  cases behaviours with
  | nil => rfl
  | cons behaviour later =>
    cases behaviour with
    | fail failure => rfl
    | take count => cases count <;> rfl

theorem plays_of_upcoming {behaviours : List Behaviour} (wide : sink.perWrite = none)
    (events : upcoming sink.events = behaviours.map Behaviour.event) : sink.Plays behaviours := by
  induction behaviours generalizing sink with
  | nil => exact trivial
  | cons behaviour later inductionHypothesis =>
    intro bytes _ possible
    rw [List.map_cons] at events
    have settled := upcoming_events later
    have onward : Sink.Plays { sink with events := later.map Behaviour.event } later :=
      inductionHypothesis wide settled
    cases behaviour with
    | fail failure =>
      refine ⟨_, ?_, onward⟩
      rw [write, events]
      rfl
    | take count =>
      cases count with
      | zero =>
        refine ⟨_, ?_, onward⟩
        rw [write, events]
        rfl
      | succ count =>
        have size : portion sink.perWrite (min (count + 1) bytes.length) = count + 1 := by
          rw [wide]
          exact Nat.min_eq_left possible
        refine ⟨{ sink with events := .room 0 :: later.map Behaviour.event }.accept
          (bytes.take (count + 1)), ?_, ?_⟩
        · rw [write, events]
          simp only [Behaviour.event, size, Nat.sub_self]
          rfl
        · exact inductionHypothesis wide settled

/-- Whatever can be done at any number of writes, there is a sink that does it. -/
theorem exists_plays (behaviours : List Behaviour) : ∃ sink : Sink, sink.Plays behaviours := by
  refine ⟨{ events := behaviours.map Behaviour.event }, plays_of_upcoming rfl ?_⟩
  exact upcoming_events behaviours

end Sink

namespace Encoder

/-! ## Calls with a sink -/

open Deflate (Deflater)

variable {State : Type} [Compressor State] {encoder next : Encoder State} {headers : Headers}
  {sink : Sink} {block : List UInt8}

/-- What a call with a sink does when the call without one returns `block` and leaves
the encoder as `next`. -/
structure Delivers (encoder : Encoder State) (headers : Headers) (sink : Sink)
    (block : List UInt8) (next : Encoder State) : Prop where
  /-- A call that succeeds has sent the block and nothing else, and it leaves the encoder
  as the other call does. -/
  whole : (encoder.encodeTo headers sink).1 = .ok () ->
    (encoder.encodeTo headers sink).2.1.taken.toList = sink.taken.toList ++ block ∧
      (encoder.encodeTo headers sink).2.2 = next
  /-- A write that breaks ends the call.  A beginning of the block has been sent by then,
  and all later calls are turned away. -/
  broken : ∀ sent left before result after failure, sink.Takes block sent left before ->
    left ≠ [] -> before.write left = (result, after) -> Sink.Breaks result failure ->
    encoder.encodeTo headers sink = (.error (.io failure), after, { next with poisoned := true }) ∧
      block = sent ++ left ∧ after.taken.toList = sink.taken.toList ++ sent ∧
      ∀ calls, ({ next with poisoned := true } : Encoder State).answers calls =
        (calls.map turnAway, { next with poisoned := true })
  /-- There is nothing else that can happen. -/
  ends : (∃ last, sink.Takes block block [] last ∧
      encoder.encodeTo headers sink = (.ok (), last, next)) ∨
    ∃ sent left before result after failure, sink.Takes block sent left before ∧ left ≠ [] ∧
      before.write left = (result, after) ∧ Sink.Breaks result failure

theorem delivers_of_encode (answer : encoder.encode headers = (.ok block, next)) (sink : Sink) :
    encoder.Delivers headers sink block next := by
  have finished : ∀ {last}, sink.Takes block block [] last ->
      encoder.encodeTo headers sink = (.ok (), last, next) := by
    intro last takes
    rw [encodeTo, answer]
    simp only [takes.writeAll_eq, Sink.writeAll_nil]
  have stopped : ∀ {sent left before result after failure},
      sink.Takes block sent left before -> left ≠ [] -> before.write left = (result, after) ->
      Sink.Breaks result failure -> encoder.encodeTo headers sink =
        (.error (.io failure), after, { next with poisoned := true }) := by
    intro sent left before result after failure takes some answered breaks
    rw [encodeTo, answer]
    simp only [takes.writeAll_eq, Sink.writeAll_of_breaks some answered breaks]
  constructor
  · intro done
    rcases sink.takes_or_breaks block with
        ⟨last, takes⟩ | ⟨sent, left, before, result, after, failure, takes, some, answered, breaks⟩
    · rw [finished takes]
      exact ⟨takes.parts.2, rfl⟩
    · rw [stopped takes some answered breaks] at done
      cases done
  · intro sent left before result after failure takes some answered breaks
    refine ⟨stopped takes some answered breaks, takes.parts.1, ?_, answers_of_poisoned rfl⟩
    rw [Sink.taken_of_breaks answered breaks]
    exact takes.parts.2
  · rcases sink.takes_or_breaks block with ⟨last, takes⟩ | breaking
    · exact Or.inl ⟨last, takes, finished takes⟩
    · exact Or.inr breaking

/-- How a call with a sink compares with one without. -/
structure Transfers (encoder : Encoder State) (headers : Headers) (sink : Sink) : Prop where
  /-- Headers that are refused never reach the sink. -/
  refused : ∀ fault, fault? headers = some fault ->
    encoder.encode headers = (.error (.invalidHeader fault), encoder) ∧
      encoder.encodeTo headers sink = (.error (.invalidHeader fault), sink, encoder)
  /-- Neither do headers that cannot be compressed. -/
  lost : ∀ error next, fault? headers = none -> encoder.encode headers = (.error error, next) ->
    LosesBlock error ∧ next.poisoned = true ∧
      encoder.encodeTo headers sink = (.error error, sink, next)
  /-- A block either reaches the sink as a whole, or the call ends at the write that
  breaks. -/
  delivers : ∀ block next, encoder.encode headers = (.ok block, next) ->
    next.poisoned = false ∧ encoder.Delivers headers sink block next
  /-- There is a block for all other headers unless the compressor fails. -/
  encodes : Compressor.Steady State -> fault? headers = none ->
    ∃ block next, encoder.encode headers = (.ok block, next)

/-- A healthy encoder makes no difference between a call with a sink and one without,
apart from what the sink does. -/
theorem encodeTo_transfers_block (healthy : encoder.poisoned = false) (headers : Headers)
    (sink : Sink) : encoder.Transfers headers sink := by
  constructor
  · intro fault found
    exact refused_of_fault healthy found sink
  · intro error next faultless answer
    rcases losesBlock_of_encode healthy faultless answer with ⟨loses, poisoned⟩
    exact ⟨loses, poisoned, by rw [encodeTo, answer]⟩
  · intro block next answer
    refine ⟨?_, delivers_of_encode answer sink⟩
    have outcome := encoded encoder headers
    rw [answer] at outcome
    cases outcome with
    | sent => exact healthy
  · intro steady faultless
    rcases encode_of_steady healthy faultless with ⟨block, next, answer, _⟩
    exact ⟨block, next, answer⟩

/-- A sink that takes five bytes in two parts, with an interruption between them, and
then takes nothing. -/
def reluctant : Sink where
  events := [.room 3, .failing (.ofKind .interrupted), .room 2, .refuse]

/-- A block of one entry, without compression. -/
def smallBlock : List UInt8 :=
  [0x78, 0x3f, 0xe3, 0xc6, 0xa7, 0xc2, 0, 14, 0, 241, 255, 0, 0, 0, 1, 0, 0, 0, 1, 97, 0, 0, 0, 1,
    98, 0, 0, 0, 255, 255]

theorem encodeTo_transfers_reluctant :
    ∃ after next, ({ config := { level := 0 } } : Encoder Deflater).encodeTo
        (.ofList [("a", "b")]) reluctant = (.error (.io Sink.takesNothing), after, next) ∧
      after.taken.toList = smallBlock.take 5 ∧
      ∀ calls, next.answers calls = (calls.map turnAway, next) := by
  have transfers := @encodeTo_transfers_block Deflater _ { config := { level := 0 } } rfl
    (.ofList [("a", "b")]) reluctant
  rcases transfers.encodes inferInstance (by decide +kernel) with ⟨block, next, answer⟩
  have encoded : (({ config := { level := 0 } } : Encoder Deflater).encode
      (.ofList [("a", "b")])).1 = .ok smallBlock := by decide +kernel
  rw [answer] at encoded
  cases encoded
  have takes : reluctant.Takes smallBlock (smallBlock.take 3 ++ ((smallBlock.drop 3).take 2 ++ []))
      (smallBlock.drop 5)
      { events := [.room 0, .refuse], taken := #[0x78, 0x3f, 0xe3, 0xc6, 0xa7] } := by
    refine @Sink.Takes.took _ _ _ _ _ _ 2 (by decide) rfl ?_
    refine .interrupted (by decide) rfl rfl ?_
    exact @Sink.Takes.took _ _ _ _ _ _ 1 (by decide) rfl (.start _ _)
  rcases (transfers.delivers _ _ answer).2.broken _ _ _ _ _ _ takes (by decide) rfl .nothing with
      ⟨broken, _, taken, turnedAway⟩
  exact ⟨_, _, broken, taken, turnedAway⟩

end Encoder
end HeaderCodec
