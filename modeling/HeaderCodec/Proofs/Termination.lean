import HeaderCodec.Proofs.Deflate.Rounds
import HeaderCodec.Proofs.Origins

namespace HeaderCodec

/-!
# Decoding comes to an end

A decoder goes round and round until a field is complete.  It goes round when the
dictionary has been installed, and when the sources have been read, which may bring
nothing.  How often this is no counter tells.  Around it the fields of a block follow
each other, as many of them as the other end says.

`Decoder.Stage` is a call between two rounds, and `Decoder.Stage.step` is what is done
next, with the error that is kept for a round without any use.  There is no reason in it
why a call should ever be finished.  The reason is in the sources, which have only so
many events, and in the budget of the block, which pays for every byte that is written.
Each round that is not the last of its draw takes something from the sources, or installs
the dictionary, which no decoder does twice.
-/

/-! ## What a read takes -/

namespace Source

/-- A read has taken something from a line of sources: the first bytes of an event, or
whole sources if there were no bytes in them.  Whatever stood before it in the line is
gone. -/
inductive Pulled : List Source -> List UInt8 -> List Source -> Prop where
  | took {gone behind : List Source} {source : Source} {passed later : List Event}
      {bytes more : List UInt8} (some : bytes ≠ [])
      (events : source.events = passed ++ .data (bytes ++ more) :: later) :
      Pulled (gone ++ source :: behind) bytes
        ({ source with events := if more = [] then later else .data more :: later } :: behind)
  | dropped {gone behind : List Source} (some : gone ≠ []) : Pulled (gone ++ behind) [] behind

theorem Pulled.append {line rest : List Source} {bytes : List UInt8}
    (pulled : Pulled line bytes rest) (behind : List Source) : Pulled (line ++ behind) bytes (rest ++ behind) := by
  cases pulled with
  | took some events =>
    rw [List.append_assoc]
    exact .took some events
  | dropped some =>
    rw [List.append_assoc]
    exact .dropped some

theorem Pulled.cons {line rest : List Source} {bytes : List UInt8} (pulled : Pulled line bytes rest)
    (source : Source) : Pulled (source :: line) bytes rest := by
  cases pulled with
  | @took gone behind _ _ _ _ _ some events =>
    exact @Pulled.took (source :: gone) behind _ _ _ _ _ some events
  | @dropped gone behind some =>
    exact @Pulled.dropped (source :: gone) _ (List.cons_ne_nil source gone)

theorem events_of_read {room : Nat} {events rest : List Event} {bytes : List UInt8}
    (some : bytes ≠ []) (answer : Event.read room events = (.ok bytes, rest)) :
    ∃ passed more later, events = passed ++ .data (bytes ++ more) :: later ∧
      rest = if more = [] then later else .data more :: later := by
  induction events with
  | nil =>
    cases answer
    contradiction
  | cons event others inductionHypothesis =>
    cases event with
    | failing failure =>
      rw [Event.read] at answer
      split at answer
      · rcases inductionHypothesis answer with ⟨passed, more, later, parts, left⟩
        refine ⟨.failing failure :: passed, more, later, ?_, left⟩
        rw [parts, List.cons_append]
      · cases answer
    | data available =>
      rw [Event.read] at answer
      cases answer
      refine ⟨[], available.drop room, others, ?_, ?_⟩
      · rw [List.take_append_drop, List.nil_append]
      · apply if_congr _ rfl rfl
        exact List.drop_eq_nil_iff.symm

theorem pulled_readChain {room : Nat} {chain : List Source} {bytes : List UInt8}
    (draining : chain ≠ []) (answer : (readChain room chain).result = .ok bytes) :
    Pulled chain bytes (readChain room chain).rest := by
  induction chain with
  | nil => contradiction
  | cons source others inductionHypothesis =>
    rw [readChain] at answer ⊢
    cases read : Event.read room source.events with
    | mk result events =>
      rw [read] at answer
      cases result with
      | error failure => cases answer
      | ok delivered =>
        cases delivered with
        | cons byte more =>
          cases answer
          rcases events_of_read (List.cons_ne_nil byte more) read with
              ⟨passed, left, later, parts, rfl⟩
          exact @Pulled.took [] others source passed later _ left (List.cons_ne_nil byte more) parts
        | nil =>
          cases others with
          | nil =>
            cases answer
            exact @Pulled.dropped [source] [] (List.cons_ne_nil source [])
          | cons next behind =>
            apply Pulled.cons
            exact inductionHypothesis (List.cons_ne_nil next behind) answer

end Source

namespace Supply

variable {supply rest : Supply} {room : Nat} {bytes : List UInt8}

theorem pulled_readAvailable (busy : supply.intake.isIdle = false)
    (answer : supply.readAvailable room = (.ok bytes, rest)) :
    Source.Pulled supply.sources bytes rest.sources := by
  have after := sources_readAvailable supply room
  rw [answer] at after
  rw [sources_eq_pickUp, after]
  apply Source.Pulled.append
  apply Source.pulled_readChain (Intake.current_pickUp_ne_nil busy)
  exact congrArg Prod.fst answer

/-- A read that does not fail takes something from the sources. -/
theorem pulled_read (positive : 0 < room) (answer : supply.read room = (.ok bytes, rest)) :
    Source.Pulled supply.sources bytes rest.sources := by
  rw [read, if_neg (Nat.pos_iff_ne_zero.1 positive)] at answer
  rw [← sources_receive supply]
  generalize supply.receive = received at answer ⊢
  by_cases idle : received.intake.isIdle = true
  · simp only [if_pos idle] at answer
    cases queue : received.arrivals.queue with
    | nil =>
      simp only [queue] at answer
      cases answer
    | cons source later =>
      simp only [queue] at answer
      -- Handing over the first source that is to arrive leaves the line as it is.
      have line : received.sources = (received.intake.attach source).sources ++ later := by
        rw [Intake.sources_attach, List.append_assoc]
        exact congrArg (received.intake.sources ++ ·) queue
      have busy : (received.intake.attach source).isIdle = false := by
        rw [Bool.eq_false_iff]
        intro still
        have nothing := Intake.sources_of_isIdle still
        rw [Intake.sources_attach] at nothing
        exact List.concat_ne_nil source _ nothing
      rw [line]
      exact pulled_readAvailable busy answer
  · simp only [if_neg idle] at answer
    exact pulled_readAvailable (Bool.eq_false_iff.2 idle) answer

end Supply

/-- Bytes that are accepted cost nothing beyond their field. -/
theorem Block.Progress.remaining_of_accept {progress further : Progress} {bytes : List UInt8} :
    progress.accept bytes = .ok further -> further.remaining = progress.remaining := by
  fun_cases accept progress bytes with
  | case1 | case4 | case5 | case8 =>
    intro refused
    contradiction
  | case2 | case3 | case6 | case7 | case9 | case10 =>
    rintro ⟨⟩
    rfl

namespace Decoder

open Block (Progress)
open Deflate (Decompressor Round)

/-! ## A call, step by step -/

/-- The error that is kept for a round without any use. -/
def noProgress : Error :=
  .compression (.stated "inflate made no progress")

/-- A call between two steps. -/
inductive Stage where
  /-- So many bytes of a field are missing, after some pieces of which the last one stands
  first. -/
  | drawing (missing : Nat) (pieces : List (List UInt8)) (next : List UInt8 -> Plan Headers)
      (state : Decompressor) (supply : Supply)
  | finished (answer : Except Error Headers × Decompressor × Supply)

namespace Stage

/-- Begin with the next field of a plan. -/
def begin (plan : Plan Headers) (state : Decompressor) (supply : Supply) : Stage :=
  match plan with
  | .done result => .finished (result, state, supply)
  | .take count next => .drawing count [] next state supply

/-- What follows a round. -/
def afterRound (missing : Nat) (pieces : List (List UInt8)) (next : List UInt8 -> Plan Headers)
    (round : Round) (state : Decompressor) (supply : Supply) : Stage :=
  match round with
  | .returned [] => .finished (.error (.malformed .truncated), state, supply)
  | .returned (byte :: bytes) =>
    .drawing (missing - (bytes.length + 1)) ((byte :: bytes) :: pieces) next state supply
  | .failed fault => .finished (.error (drawError (.stream fault)), state, supply)
  | .broken failure => .finished (.error (drawError (.source failure)), state, supply)
  | .stalled => .finished (.error noProgress, state, supply)
  | .installed | .refilled _ | .advanced => .drawing missing pieces next state supply

/-- The next step: a round, or the next field after one that is complete. -/
def step : Stage -> Option (Option Round × Stage)
  | .finished _ => none
  | .drawing missing pieces next state supply =>
    if missing = 0 then some (none, begin (next pieces.reverse.flatten) state supply)
    else
      let (round, after, rest) := state.round supply missing
      some (some round, afterRound missing pieces next round after rest)

/-- Some steps, with the rounds among them. -/
inductive Runs : Stage -> List Round -> Stage -> Prop where
  | rest (stage : Stage) : Runs stage [] stage
  | field {stage later last : Stage} {rounds : List Round}
      (stepped : stage.step = some (none, later)) (onward : Runs later rounds last) :
      Runs stage rounds last
  | round {stage later last : Stage} {round : Round} {rounds : List Round}
      (stepped : stage.step = some (some round, later)) (onward : Runs later rounds last) :
      Runs stage (round :: rounds) last

/-- What a call comes to. -/
def answer : Stage -> Except Error Headers × Decompressor × Supply
  | .drawing missing pieces next state supply =>
    match fill missing pieces state supply with
    | (.error error, after, rest) => (.error error, after, rest)
    | (.ok bytes, after, rest) => carryOut (next bytes) after rest
  | .finished answer => answer

/-- The decompressor of a call. -/
def state : Stage -> Decompressor
  | .drawing _ _ _ state _ => state
  | .finished answer => answer.2.1

/-- One if the dictionary has not been asked for yet. -/
def early (stage : Stage) : Nat :=
  stage.state.inflater.phase.isEarly.toNat

/-- How a round that is not the last one of its draw uses something up: it takes input
and installs the dictionary, or it takes something from the sources. -/
inductive Advances : Stage -> Round -> Stage -> Prop where
  | installed {missing : Nat} {pieces : List (List UInt8)} {next : List UInt8 -> Plan Headers}
      {state after : Decompressor} {supply : Supply}
      (consumed : state.inflater.consumed < after.inflater.consumed) :
      Advances (.drawing missing pieces next state supply) .installed
        (.drawing missing pieces next after supply)
  | refilled {missing : Nat} {pieces : List (List UInt8)} {next : List UInt8 -> Plan Headers}
      {state after : Decompressor} {supply rest : Supply} {bytes : List UInt8}
      (pulled : Source.Pulled supply.sources bytes rest.sources) :
      Advances (.drawing missing pieces next state supply) (.refilled bytes)
        (.drawing missing pieces next after rest)

/-! ## Rounds of a call -/

/-- What is at hand to be used up before the field is complete. -/
def work : Stage -> Nat
  | .drawing missing _ _ state supply =>
    missing + supply.weight + state.inflater.phase.isEarly.toNat
  | .finished _ => 0

/-- What a round does to a call. -/
structure Effect (stage : Stage) (round : Round) (later : Stage) : Prop where
  answer_eq : later.answer = stage.answer
  installs : [round].count .installed + later.early ≤ stage.early
  useful : round ≠ .stalled
  advances : round.isLast = false -> stage.Advances round later
  less : later.work < stage.work

section

variable {missing : Nat} {pieces : List (List UInt8)} {next : List UInt8 -> Plan Headers}
  {state after : Decompressor} {supply rest : Supply} {round : Round}

theorem early_le (onward : state.Onward after) :
    after.inflater.phase.isEarly.toNat ≤ state.inflater.phase.isEarly.toNat := by
  cases early : after.inflater.phase.isEarly with
  | false => exact Nat.zero_le _
  | true => exact Nat.le_of_eq (congrArg Bool.toNat (onward early).symm)

theorem answer_of_error {error : Error}
    (filled : fill missing pieces state supply = (.error error, after, rest)) :
    answer (.drawing missing pieces next state supply) = (.error error, after, rest) := by
  rw [answer, filled]

theorem answer_of_fill {fewer : Nat} {others : List (List UInt8)}
    (same : fill missing pieces state supply = fill fewer others after rest) :
    answer (.drawing missing pieces next state supply) =
      answer (.drawing fewer others next after rest) := by
  rw [answer, answer, same]

theorem fill_of_draw (some : missing ≠ 0)
    (same : state.draw supply missing = after.draw rest missing) :
    fill missing pieces state supply = fill missing pieces after rest := by
  rw [fill, if_neg some, same, fill, if_neg some]

theorem installs_of_onward (onward : state.Onward after) (other : round ≠ .installed) :
    [round].count .installed + after.inflater.phase.isEarly.toNat ≤
      state.inflater.phase.isEarly.toNat := by
  have none : [round].count .installed = 0 := by
    rw [List.count_singleton, if_neg]
    rwa [beq_iff_eq]
  rw [none, Nat.zero_add]
  exact early_le onward

/-- A draw that ends with an error, or with the stream, ends the call. -/
theorem effect_of_error {error : Error} (some : missing ≠ 0) (onward : state.Onward after)
    (last : round.isLast = true) (useful : round ≠ .stalled)
    (filled : fill missing pieces state supply = (.error error, after, rest)) :
    Effect (.drawing missing pieces next state supply) round
      (.finished (.error error, after, rest)) where
  answer_eq := (answer_of_error filled).symm
  installs := by
    apply installs_of_onward onward
    rintro rfl
    cases last
  useful := useful
  advances := fun more => Bool.noConfusion (last.symm.trans more)
  less := by
    show 0 < missing + supply.weight + state.inflater.phase.isEarly.toNat
    omega

theorem effect_of_outcome (some : missing ≠ 0)
    (outcome : state.RoundOutcome supply missing round after rest) :
    Effect (.drawing missing pieces next state supply) round
      (afterRound missing pieces next round after rest) := by
  cases outcome with
  | @returned bytes _ fits onward drawn =>
    cases bytes with
    | nil =>
      apply effect_of_error some onward rfl Round.noConfusion
      rw [fill, if_neg some, drawn]
    | cons byte bytes =>
      refine ⟨?_, installs_of_onward onward Round.noConfusion, Round.noConfusion,
        Bool.noConfusion, ?_⟩
      · apply Eq.symm
        apply answer_of_fill
        rw [fill, if_neg some, drawn]
      · have kept := early_le onward
        show missing - (bytes.length + 1) + supply.weight + _ < missing + supply.weight + _
        omega
  | failed onward drawn =>
    apply effect_of_error some onward rfl Round.noConfusion
    rw [fill, if_neg some, drawn]
  | broken onward drawn =>
    apply effect_of_error some onward rfl Round.noConfusion
    rw [fill, if_neg some, drawn]
  | installed early late consumed same =>
    refine ⟨?_, ?_, Round.noConfusion, fun _ => .installed consumed, ?_⟩
    · apply Eq.symm
      apply answer_of_fill
      exact fill_of_draw some same
    · show 1 + after.inflater.phase.isEarly.toNat ≤ state.inflater.phase.isEarly.toNat
      rw [early, late]
      exact Nat.le_refl 1
    · show missing + supply.weight + after.inflater.phase.isEarly.toNat <
        missing + supply.weight + state.inflater.phase.isEarly.toNat
      rw [early, late]
      exact Nat.lt_succ_self _
  | @refilled bytes _ _ onward read same =>
    have positive : 0 < Decompressor.chunk := by decide
    refine ⟨?_, installs_of_onward onward Round.noConfusion, Round.noConfusion,
      fun _ => .refilled (Supply.pulled_read positive read), ?_⟩
    · apply Eq.symm
      apply answer_of_fill
      exact fill_of_draw some same
    · have lighter : rest.weight < supply.weight := by
        have weight := Supply.weight_read positive (congrArg Prod.fst read)
        rwa [read] at weight
      have kept := early_le onward
      show missing + rest.weight + _ < missing + supply.weight + _
      omega

/-! ## Steps of a call -/

/-- Each round of a call ends as a round of a draw does, and is of use. -/
theorem effect_of_step {stage later : Stage} (stepped : stage.step = some (some round, later)) :
    stage.Effect round later := by
  cases stage with
  | finished => cases stepped
  | drawing missing pieces next state supply =>
    rw [step] at stepped
    split at stepped
    · cases stepped
    · rename_i more
      cases stepped
      exact effect_of_outcome more (Decompressor.round_outcome more supply)

theorem answer_begin (plan : Plan Headers) (state : Decompressor) (supply : Supply) :
    (begin plan state supply).answer = carryOut plan state supply := by
  cases plan with
  | done result => rfl
  | take count next =>
    rw [carryOut]
    rfl

theorem state_begin (plan : Plan Headers) (state : Decompressor) (supply : Supply) :
    (begin plan state supply).state = state := by
  cases plan with
  | done result => rfl
  | take count next => rfl

/-- Going on to the next field is no round. -/
theorem answer_of_field {stage later : Stage} (stepped : stage.step = some (none, later)) :
    later.answer = stage.answer ∧ later.state = stage.state := by
  cases stage with
  | finished => cases stepped
  | drawing missing pieces next state supply =>
    rw [step] at stepped
    split at stepped
    · rename_i complete
      cases stepped
      rw [answer_begin, state_begin, answer, fill, if_pos complete]
      exact ⟨rfl, rfl⟩
    · cases stepped

/-- What the steps of a call preserve, any number of them: the answer that it will come
to, and the account of the dictionary. -/
theorem Runs.preserves {stage later : Stage} {rounds : List Round}
    (runs : Runs stage rounds later) :
    later.answer = stage.answer ∧ rounds.count .installed + later.early ≤ stage.early := by
  induction runs with
  | rest stage => exact ⟨rfl, Nat.le_of_eq (Nat.zero_add _)⟩
  | field stepped _ inductionHypothesis =>
    rcases answer_of_field stepped with ⟨sameAnswer, sameState⟩
    rcases inductionHypothesis with ⟨answer, installs⟩
    rw [early, early, sameState] at installs
    exact ⟨answer.trans sameAnswer, installs⟩
  | @round _ _ _ round rounds stepped _ inductionHypothesis =>
    have effect := effect_of_step stepped
    rcases inductionHypothesis with ⟨answer, installs⟩
    refine ⟨answer.trans effect.answer_eq, ?_⟩
    have here := effect.installs
    have parts : ([round] ++ rounds).count .installed =
        [round].count .installed + rounds.count .installed := List.count_append
    rw [List.singleton_append] at parts
    omega

/-! ## The end of a call -/

/-- Behind a round the call is finished, or it is in the same field. -/
theorem afterRound_cases (missing : Nat) (pieces : List (List UInt8))
    (next : List UInt8 -> Plan Headers) (round : Round) (state : Decompressor) (supply : Supply) :
    (∃ answer, afterRound missing pieces next round state supply = .finished answer) ∨
      ∃ fewer others, afterRound missing pieces next round state supply =
        .drawing fewer others next state supply := by
  cases round with
  | returned bytes =>
    cases bytes with
    | nil => exact Or.inl ⟨_, rfl⟩
    | cons byte bytes => exact Or.inr ⟨_, _, rfl⟩
  | failed | broken | stalled => exact Or.inl ⟨_, rfl⟩
  | installed | refilled | advanced => exact Or.inr ⟨_, _, rfl⟩

/-- A field is read to its end, and what is behind it to the end of the call.  No more
rounds are made than there is work for. -/
theorem runs_drawing {allowance : Nat}
    (behind : ∀ bytes state supply, ∃ rounds,
      Runs (begin (next bytes) state supply) rounds
        (.finished (begin (next bytes) state supply).answer) ∧
      rounds.length ≤ allowance + supply.weight + state.inflater.phase.isEarly.toNat + 1)
    (missing : Nat) (pieces : List (List UInt8)) (state : Decompressor) (supply : Supply) :
    ∃ rounds, Runs (.drawing missing pieces next state supply) rounds
        (.finished (answer (.drawing missing pieces next state supply))) ∧
      rounds.length ≤ missing + allowance + supply.weight +
        state.inflater.phase.isEarly.toNat + 1 := by
  -- Every round leaves less work.
  induction size : missing + supply.weight + state.inflater.phase.isEarly.toNat using
    Nat.strongRecOn generalizing missing pieces state supply with
  | ind size inductionHypothesis =>
    subst size
    by_cases complete : missing = 0
    · have stepped : step (.drawing missing pieces next state supply) =
          some (none, begin (next pieces.reverse.flatten) state supply) := by
        rw [step, if_pos complete]
      rcases behind pieces.reverse.flatten state supply with ⟨rounds, runs, few⟩
      rw [(answer_of_field stepped).1] at runs
      exact ⟨rounds, .field stepped runs, by omega⟩
    · cases outcome : state.round supply missing with
      | mk round others =>
        rcases others with ⟨after, rest⟩
        have stepped : step (.drawing missing pieces next state supply) =
            some (some round, afterRound missing pieces next round after rest) := by
          rw [step, if_neg complete, outcome]
        have effect := effect_of_step stepped
        rcases afterRound_cases missing pieces next round after rest with
            ⟨ended, last⟩ | ⟨fewer, others, onward⟩
        · rw [last] at stepped effect
          rw [← effect.answer_eq]
          refine ⟨_, .round stepped (.rest _), ?_⟩
          exact Nat.succ_le_succ (Nat.zero_le _)
        · rw [onward] at stepped effect
          have less := effect.less
          rw [work, work] at less
          rcases inductionHypothesis _ less fewer others after rest rfl with ⟨rounds, runs, few⟩
          rw [effect.answer_eq] at runs
          refine ⟨_, .round stepped runs, ?_⟩
          rw [List.length_cons]
          omega

/-- A block is read to its end.  The bytes of all its fields are paid for by the
budget. -/
theorem runs_begin {progress : Progress} {plan : Plan Headers} (follows : progress.Follows plan)
    (state : Decompressor) (supply : Supply) :
    ∃ rounds, Runs (begin plan state supply) rounds (.finished (begin plan state supply).answer) ∧
      rounds.length ≤ progress.remaining + supply.weight +
        state.inflater.phase.isEarly.toNat + 1 := by
  induction follows generalizing state supply with
  | finished | refused => exact ⟨[], .rest _, Nat.zero_le _⟩
  | @field progress next more fits wrong right inductionHypothesis =>
    have behind : ∀ bytes state supply, ∃ rounds,
        Runs (begin (next bytes) state supply) rounds
          (.finished (begin (next bytes) state supply).answer) ∧
        rounds.length ≤ progress.remaining - progress.size + supply.weight +
          state.inflater.phase.isEarly.toNat + 1 := by
      intro bytes state supply
      cases accepted : progress.charge.accept bytes with
      | error error =>
        rw [wrong bytes error accepted]
        exact ⟨[], .rest _, Nat.zero_le _⟩
      | ok further =>
        have same : further.remaining = progress.remaining - progress.size :=
          Progress.remaining_of_accept accepted
        rw [← same]
        exact inductionHypothesis bytes further accepted state supply
    rcases runs_drawing behind progress.size [] state supply with ⟨rounds, runs, few⟩
    exact ⟨rounds, runs, by omega⟩

end

end Stage

/-! ## Calls -/

variable {decoder : Decoder} {source : Source} {arrivals : Arrivals}

/-- The beginning of a call, when its source has been attached. -/
def firstStage (decoder : Decoder) (source : Source) (arrivals : Arrivals) : Stage :=
  .begin (Block.read decoder.config.maxBlockSize) decoder.context
    ((decoder.attach source).supplyWith arrivals)

theorem early_firstStage (decoder : Decoder) (source : Source) (arrivals : Arrivals) :
    (decoder.firstStage source arrivals).early = decoder.context.inflater.phase.isEarly.toNat := by
  rw [Stage.early, firstStage, Stage.state_begin]

/-- A call returns what its steps come to. -/
theorem decodeFrom_of_runs {rounds : List Round}
    {answer : Except Error Headers × Decompressor × Supply} (healthy : decoder.poisoned = false)
    (runs : (decoder.firstStage source arrivals).Runs rounds (.finished answer)) :
    decoder.decodeFrom source arrivals = decoder.conclude answer := by
  have same := runs.preserves.1
  rw [firstStage, Stage.answer_begin, Stage.answer] at same
  rw [decodeFrom_eq healthy, same]

/-- Every call of a healthy decoder has a run. -/
theorem exists_runs (decoder : Decoder) (source : Source) (arrivals : Arrivals) :
    ∃ rounds answer, (decoder.firstStage source arrivals).Runs rounds (.finished answer) ∧
      rounds.length ≤
        decoder.config.maxBlockSize + ((decoder.attach source).supplyWith arrivals).weight + 2 := by
  rcases Stage.runs_begin (Progress.follows_read decoder.config.maxBlockSize) decoder.context
      ((decoder.attach source).supplyWith arrivals) with ⟨rounds, runs, few⟩
  refine ⟨rounds, _, runs, ?_⟩
  have early := Bool.toNat_le decoder.context.inflater.phase.isEarly
  have budget : (Progress.start decoder.config.maxBlockSize).remaining =
      decoder.config.maxBlockSize := rfl
  omega

/-- The rounds of a call.  There are none if the decoder turns it away. -/
inductive Attempt.Rounds : Attempt -> List Round -> Prop where
  | made {decoder : Decoder} {source : Source} {arrivals : Arrivals} {rounds : List Round}
      {answer : Except Error Headers × Decompressor × Supply} (healthy : decoder.poisoned = false)
      (runs : (decoder.firstStage source arrivals).Runs rounds (.finished answer)) :
      Rounds ⟨decoder, source, arrivals⟩ rounds
  | none {decoder : Decoder} (poisoned : decoder.poisoned = true) (source : Source)
      (arrivals : Arrivals) : Rounds ⟨decoder, source, arrivals⟩ []

theorem Attempt.exists_rounds (attempt : Attempt) : ∃ rounds, attempt.Rounds rounds := by
  rcases attempt with ⟨decoder, source, arrivals⟩
  cases poisoned : decoder.poisoned with
  | true => exact ⟨[], .none poisoned source arrivals⟩
  | false =>
    rcases exists_runs decoder source arrivals with ⟨rounds, answer, runs, _⟩
    exact ⟨rounds, .made poisoned runs⟩

/-- What can have been done with a decoder, with the rounds of all its calls. -/
def Lived (config : DecoderConfig) (rounds : List Round) (decoder : Decoder) : Prop :=
  ∃ handed parts, Trace config Attempt.Rounds handed parts decoder ∧ rounds = parts.flatten

/-- Whatever has been done with a decoder, its calls have gone through some rounds. -/
theorem Used.lived {config : DecoderConfig} {handed : List Source}
    {results : List (Except Error Headers)} (used : Used config handed results decoder) :
    ∃ rounds, Lived config rounds decoder := by
  rcases Trace.renote Attempt.exists_rounds used with ⟨parts, trace⟩
  exact ⟨parts.flatten, handed, parts, trace, rfl⟩

theorem Lived.called {config : DecoderConfig} {rounds more : List Round}
    {answer : Except Error Headers × Decompressor × Supply} (lived : Lived config rounds decoder)
    (healthy : decoder.poisoned = false)
    (runs : (decoder.firstStage source arrivals).Runs more (.finished answer)) :
    Lived config (rounds ++ more) (decoder.conclude answer).2.2 := by
  rcases lived with ⟨handed, parts, trace, rfl⟩
  rcases queue_decodeFrom decoder source arrivals with ⟨newly, order⟩
  rw [← decodeFrom_of_runs healthy runs]
  refine ⟨_, _, trace.called healthy rfl order.symm (.made healthy runs), ?_⟩
  rw [List.flatten_concat]

/-- The dictionary has been installed, or it can still be. -/
theorem Lived.installs {config : DecoderConfig} {rounds : List Round}
    (lived : Lived config rounds decoder) :
    rounds.count .installed + decoder.context.inflater.phase.isEarly.toNat ≤ 1 := by
  rcases lived with ⟨handed, parts, trace, rfl⟩
  induction trace with
  | fresh => exact Nat.le_refl 1
  | attach _ source inductionHypothesis => exact inductionHypothesis
  | called _ healthy answer _ noted inductionHypothesis =>
    cases noted with
    | none poisoned => exact absurd poisoned (Bool.eq_false_iff.1 healthy)
    | @made decoder source arrivals more ending _ runs =>
      rw [decodeFrom_of_runs healthy runs] at answer
      cases answer
      have here := runs.preserves.2
      rw [early_firstStage] at here
      rw [List.flatten_concat, List.count_append]
      show _ + (Stage.finished ending).early ≤ 1
      omega
  | refused _ poisoned answer noted inductionHypothesis =>
    rw [decodeFrom_of_poisoned poisoned] at answer
    cases answer
    cases noted with
    | made healthy => exact absurd poisoned (Bool.eq_false_iff.1 healthy)
    | none =>
      rw [List.flatten_concat, List.append_nil]
      exact inductionHypothesis

/-! ## The error that is kept -/

theorem drawError_ne_noProgress (failure : Deflate.DrawFailure) :
    drawError failure ≠ noProgress := by
  cases failure with
  | stream fault =>
    intro same
    cases same
  | source failure =>
    rw [drawError, Error.ofSource]
    split
    · exact Error.noConfusion
    · exact Error.noConfusion

theorem Moment.Stops.ne_noProgress {moment : Moment} {error : Error} {state : Decompressor}
    {supply : Supply} (stops : moment.Stops (.error error, state, supply)) :
    error ≠ noProgress := by
  cases stops with
  | refused => exact Error.noConfusion
  | broken _ failed =>
    rcases error_of_fill _ _ _ _ (congrArg Prod.fst failed) with ⟨failure, rfl⟩ | rfl
    · exact drawError_ne_noProgress failure
    · exact Error.noConfusion
  | rejected _ _ refused =>
    rintro rfl
    cases Block.isLayoutError_of_accept _ _ _ refused

/-! ## Decoding ends -/

/-- A call goes through some rounds and returns.  A byte of the budget pays for one round at
most, and so does a byte, an event or the end of a source. -/
structure Returns (decoder : Decoder) (source : Source) (arrivals : Arrivals)
    (rounds : List Round) (answer : Except Error Headers × Decompressor × Supply) : Prop where
  runs : (decoder.firstStage source arrivals).Runs rounds (.finished answer)
  returned : decoder.decodeFrom source arrivals = decoder.conclude answer
  few : rounds.length ≤
    decoder.config.maxBlockSize + ((decoder.attach source).supplyWith arrivals).weight + 2
  /-- A round that is not the last one of its draw uses something up. -/
  useful : ∀ passed stage round later, (decoder.firstStage source arrivals).Runs passed stage ->
    stage.step = some (some round, later) ->
    round ≠ .stalled ∧ (round.isLast = false -> stage.Advances round later)
  never_noProgress : answer.1 ≠ .error noProgress

/-- Every call of a healthy decoder returns, whatever is in its sources, and in the life of
the decoder it is the only one to install the dictionary, if it does. -/
theorem Used.decodeFrom_returns {config : DecoderConfig} {handed : List Source}
    {results : List (Except Error Headers)} (used : Used config handed results decoder)
    (healthy : decoder.poisoned = false) (source : Source) (arrivals : Arrivals) :
    ∃ rounds answer, decoder.Returns source arrivals rounds answer ∧
      (∃ earlier, Lived config earlier decoder) ∧
      ∀ earlier, Lived config earlier decoder -> (earlier ++ rounds).count .installed ≤ 1 := by
  rcases exists_runs decoder source arrivals with ⟨rounds, answer, runs, few⟩
  have returned := decodeFrom_of_runs healthy runs
  refine ⟨rounds, answer, ⟨runs, returned, few, ?_, ?_⟩, used.lived, ?_⟩
  · intro passed stage round later _ stepped
    have effect := Stage.effect_of_step stepped
    exact ⟨effect.useful, effect.advances⟩
  · rcases decodeFrom_stops healthy source arrivals with
        ⟨last, ⟨result, state, supply⟩, _, stops, same⟩
    have ended : answer.1 = result := congrArg (fun outcome => outcome.1)
      (returned.symm.trans same)
    intro failed
    rw [ended] at failed
    subst failed
    exact stops.ne_noProgress rfl
  · intro earlier lived
    exact Nat.le_trans (Nat.le_add_right _ _) (lived.called healthy runs).installs

/-- The beginning of a stream with a dictionary, cut within the name of the dictionary.  It
is interrupted before, and is said to be at its end behind. -/
def hesitant : Source where
  events := [.failing (.ofKind .interrupted), .data [0x78, 0xf9, 0xe3], .data []]

/-- What is behind it: the end of the name, and a block of one entry in stored form. -/
def behindHesitant : Source :=
  .ofBytes ([0xc6, 0xa7, 0xc2] ++ storedEntry.drop 2)

theorem Used.returns_hesitant :
    ∃ rounds answer, (({ config := ⟨14⟩ } : Decoder).attach hesitant).Returns behindHesitant {}
        rounds answer ∧
      answer.1 = .ok (Block.meaning [⟨"a", "b"⟩]) ∧ rounds.length ≤ 47 ∧
      rounds.count .installed ≤ 1 := by
  have used : Used ⟨14⟩ _ _ (({ config := ⟨14⟩ } : Decoder).attach hesitant) :=
    Used.fresh.attach hesitant
  rcases used.decodeFrom_returns rfl behindHesitant {} with
      ⟨rounds, answer, returns, ⟨earlier, lived⟩, once⟩
  have decoded : ((({ config := ⟨14⟩ } : Decoder).attach hesitant).decodeFrom
      behindHesitant {}).1 = .ok (Block.meaning [⟨"a", "b"⟩]) := by decide +kernel
  rw [returns.returned] at decoded
  have weight : (((({ config := ⟨14⟩ } : Decoder).attach hesitant).attach
      behindHesitant).supplyWith {}).weight = 31 := by decide +kernel
  have few := returns.few
  rw [weight] at few
  refine ⟨rounds, answer, returns, decoded, few, ?_⟩
  have whole := once earlier lived
  rw [List.count_append] at whole
  exact Nat.le_trans (Nat.le_add_left _ _) whole

end Decoder

end HeaderCodec
