import HeaderCodec.Proofs.Handover

namespace HeaderCodec

/-!
# What a failing source takes with it

A reader drops a source that fails, and goes on with what is handed over to it
next.  But sources that wait together are picked up together, and a failure ends
the whole chain in which it occurs.  So a source that fails takes others with
it: those that were handed over behind it before it was picked up.  Those that
were handed over later are drained in full.

The order of the sources does not tell the ones from the others.  It is a matter
of timing, and `delivery_depends_on_timing` shows two runs with the same sources
in the same order of which one delivers less.  `Intake.History` records the
chains in which sources were picked up.  `Run.failure_drops_rest_of_chain` says that the chains
are all that matters, and that nothing is missing exactly when nothing that would
deliver anything stood behind a failing source in its chain.
-/

/-! ## What sources deliver -/

namespace Source

/-- The failure that a source meets before its end. -/
def failure? (source : Source) : Option Failure :=
  Event.failure? source.events

/-- What a source delivers on its own: its content, and then the failure if it
meets one. -/
def delivery (source : Source) : List (Except Failure UInt8) :=
  source.content.map .ok ++ source.failure?.toList.map .error

/-- The bytes and failures that a read hands to its caller. -/
def signals : ReadResult -> List (Except Failure UInt8)
  | .ok bytes => bytes.map .ok
  | .error failure => [.error failure]

/-- The sources of a chain that are drained: all, or those up to the first that
fails. -/
def kept : List Source -> List Source
  | [] => []
  | source :: rest => source :: if source.failure?.isSome then [] else kept rest

/-- The sources of a chain behind the first that fails. -/
def lost : List Source -> List Source
  | [] => []
  | source :: rest => if source.failure?.isSome then rest else lost rest

theorem kept_cons_of_calm {source : Source} (calm : source.failure? = none) (rest : List Source) :
    kept (source :: rest) = source :: kept rest := by
  rw [kept, calm]
  rfl

theorem kept_cons_of_fails {source : Source} {failure : Failure}
    (fails : source.failure? = some failure) (rest : List Source) :
    kept (source :: rest) = [source] := by
  rw [kept, fails]
  rfl

theorem kept_append_lost (chain : List Source) : kept chain ++ lost chain = chain := by
  induction chain with
  | nil => rfl
  | cons source rest inductionHypothesis =>
    rw [kept, lost]
    split
    · rfl
    · rw [List.cons_append, inductionHypothesis]

/-- A read of a chain hands over the first part of what the chain delivers. -/
theorem delivery_readChain {room : Nat} (positive : 0 < room) (chain : List Source) :
    (kept chain).flatMap delivery =
      signals (readChain room chain).result ++
        (kept (readChain room chain).rest).flatMap delivery := by
  induction chain with
  | nil => rfl
  | cons source rest inductionHypothesis =>
    have outcome := Event.read_outcome positive source.events
    rw [readChain]
    generalize Event.read room source.events = answer at outcome
    rcases answer with ⟨result, events⟩
    cases outcome with
    | @delivered bytes _ some short split same =>
      rcases List.exists_cons_of_ne_nil some with ⟨byte, more, rfl⟩
      have here : source.delivery = signals (.ok (byte :: more)) ++
          ({ source with events } : Source).delivery := by
        rw [delivery, delivery, content, failure?, split, same, List.map_append,
          List.append_assoc]
        rfl
      have onward : source.failure? = ({ source with events } : Source).failure? := same
      rw [kept, kept, List.flatMap_cons, List.flatMap_cons, here, onward, List.append_assoc]
    | ended nothing calm =>
      have here : source.delivery = [] := by
        rw [delivery, content, failure?, nothing, calm]
        rfl
      rw [kept_cons_of_calm calm, List.flatMap_cons, here]
      exact inductionHypothesis
    | @failed failure _ nothing met =>
      have here : source.delivery = [.error failure] := by
        rw [delivery, content, failure?, nothing, met]
        rfl
      rw [kept_cons_of_fails met, List.flatMap_singleton, here]
      rfl

/-- What the chains keep is everything exactly when what they lose would deliver
nothing. -/
theorem delivery_kept_iff (chains : List (List Source)) :
    (chains.flatMap kept).flatMap delivery = chains.flatten.flatMap delivery <->
      ∀ chain ∈ chains, (lost chain).flatMap delivery = [] := by
  -- What is kept and what is lost make up all in number, though not in order.
  have sizes : ∀ others : List (List Source),
      (others.flatten.flatMap delivery).length =
        ((others.flatMap kept).flatMap delivery).length +
          (others.flatMap fun chain => (lost chain).flatMap delivery).length := by
    intro others
    induction others with
    | nil => rfl
    | cons chain rest inductionHypothesis =>
      have parts := congrArg (List.flatMap delivery) (kept_append_lost chain)
      rw [List.flatMap_append] at parts
      rw [List.flatten_cons, List.flatMap_cons, List.flatMap_cons, List.flatMap_append,
        List.flatMap_append, List.length_append, List.length_append, List.length_append,
        inductionHypothesis, ← parts, List.length_append]
      omega
  constructor
  · intro same
    have size := sizes chains
    rw [same] at size
    have none := List.length_eq_zero_iff.1 (Nat.add_eq_left.1 size.symm)
    exact List.flatMap_eq_nil_iff.1 none
  · intro none
    induction chains with
    | nil => rfl
    | cons chain rest inductionHypothesis =>
      rcases List.forall_mem_cons.1 none with ⟨here, later⟩
      have parts := congrArg (List.flatMap delivery) (kept_append_lost chain)
      rw [List.flatMap_append, here, List.append_nil] at parts
      rw [List.flatMap_cons, List.flatten_cons, List.flatMap_append, List.flatMap_append, parts,
        inductionHypothesis later]

end Source

namespace Intake

open Source (delivery kept lost signals)

/-! ## Chains in the order in which they are picked up -/

/-- What can have happened to an intake, told by the chains in which the sources
have been picked up.  Sources that still wait are in none of them. -/
inductive History : (chains : List (List Source)) -> (results : List ReadResult) -> Intake ->
    Reader -> Prop where
  | start : History [] [] {} .resting
  | attach {chains : List (List Source)} {results : List ReadResult} {intake : Intake}
      {reader : Reader} (history : History chains results intake reader) (source : Source) :
      History chains results (intake.attach source) reader
  | ask {chains : List (List Source)} {results : List ReadResult} {intake : Intake}
      (history : History chains results intake .resting) (room : Nat) :
      History chains results intake (.asking room)
  | pass {chains : List (List Source)} {results : List ReadResult} {intake : Intake}
      (history : History chains results intake (.asking 0)) :
      History chains (results ++ [.ok []]) intake .resting
  | goOn {chains : List (List Source)} {results : List ReadResult} {intake : Intake} {room : Nat}
      (history : History chains results intake (.asking room)) (positive : 0 < room)
      (draining : intake.current ≠ []) : History chains results intake (.drawing room)
  | pickUp {chains : List (List Source)} {results : List ReadResult} {intake : Intake}
      {room : Nat} (history : History chains results intake (.asking room)) (positive : 0 < room)
      (free : intake.current = []) (waiting : intake.pending ≠ []) :
      History (chains ++ [intake.pending]) results intake.pickUp (.drawing room)
  | draw {chains : List (List Source)} {results : List ReadResult} {intake : Intake} {room : Nat}
      (history : History chains results intake (.drawing room)) :
      History chains (results ++ [(intake.readCurrent room).1]) (intake.readCurrent room).2
        .resting

theorem pickUp_of_free {intake : Intake} (free : intake.current = []) :
    intake.pickUp = { intake with current := intake.pending, pending := [] } := by
  rw [pickUp, free]
  rfl

theorem pickUp_of_draining {intake : Intake} (draining : intake.current ≠ []) :
    intake.pickUp = intake := by
  rw [pickUp, if_neg fun none => draining (List.isEmpty_iff.1 none)]

namespace History

variable {chains : List (List Source)} {results : List ReadResult} {intake : Intake}
  {reader : Reader}

theorem positive {room : Nat} (history : History chains results intake (.drawing room)) :
    0 < room := by
  generalize drawing : Reader.drawing room = reader at history
  induction history with
  | attach _ _ inductionHypothesis => exact inductionHypothesis drawing
  | goOn _ positive _ =>
    cases drawing
    exact positive
  | pickUp _ positive _ _ =>
    cases drawing
    exact positive
  | _ => contradiction

/-- What has been delivered and what the current chain will deliver is what all
chains keep. -/
theorem deliveries (history : History chains results intake reader) :
    results.flatMap signals ++ (kept intake.current).flatMap delivery =
      (chains.flatMap kept).flatMap delivery := by
  induction history with
  | start => rfl
  | attach _ _ inductionHypothesis => exact inductionHypothesis
  | ask _ _ inductionHypothesis => exact inductionHypothesis
  | pass _ inductionHypothesis =>
    rw [List.flatMap_append, List.flatMap_singleton, signals, List.map_nil, List.append_nil]
    exact inductionHypothesis
  | goOn _ _ _ inductionHypothesis => exact inductionHypothesis
  | pickUp _ _ free _ inductionHypothesis =>
    rw [free, kept, List.flatMap_nil, List.append_nil] at inductionHypothesis
    rw [pickUp_of_free free, List.flatMap_append, List.flatMap_singleton, List.flatMap_append,
      inductionHypothesis]
  | @draw _ _ intake room history inductionHypothesis =>
    have read := Source.delivery_readChain history.positive intake.current
    rw [List.flatMap_append, List.flatMap_singleton, List.append_assoc, ← inductionHypothesis, read]
    rfl

/-- Every history is that of a run in which the sources of all chains and those
that still wait have been attached. -/
theorem run (history : History chains results intake reader) :
    ∃ ended, Run (chains.flatten ++ intake.pending) results ended intake reader := by
  induction history with
  | start => exact ⟨[], .start⟩
  | attach _ source inductionHypothesis =>
    rcases inductionHypothesis with ⟨ended, run⟩
    exact ⟨ended, List.append_assoc _ _ _ ▸ run.attach source⟩
  | ask _ room inductionHypothesis => exact inductionHypothesis.imp fun _ run => run.ask room
  | pass _ inductionHypothesis => exact inductionHypothesis.imp fun _ run => run.pass
  | @goOn _ _ intake _ _ positive draining inductionHypothesis =>
    rcases inductionHypothesis with ⟨ended, run⟩
    have busy : intake.isIdle = false := by
      rw [isIdle, List.isEmpty_eq_false_iff.2 draining]
      rfl
    have onward := run.pickUp positive busy
    rw [pickUp_of_draining draining] at onward
    exact ⟨ended, onward⟩
  | @pickUp chains _ intake _ _ positive free waiting inductionHypothesis =>
    rcases inductionHypothesis with ⟨ended, run⟩
    have busy : intake.isIdle = false := by
      rw [isIdle, List.isEmpty_eq_false_iff.2 waiting, Bool.and_false]
    have onward := run.pickUp positive busy
    have line : (chains ++ [intake.pending]).flatten ++ intake.pickUp.pending =
        chains.flatten ++ intake.pending := by
      rw [List.flatten_concat, pickUp_of_free free, List.append_nil]
    exact ⟨ended, line ▸ onward⟩
  | draw _ inductionHypothesis =>
    rcases inductionHypothesis with ⟨ended, run⟩
    exact ⟨_, run.draw⟩

end History

namespace Run

variable {attached ended : List Source} {results : List ReadResult} {intake : Intake}
  {reader : Reader}

/-- Every run has its history. -/
theorem history (run : Run attached results ended intake reader) :
    ∃ chains, History chains results intake reader ∧
      attached = chains.flatten ++ intake.pending := by
  induction run with
  | start => exact ⟨[], .start, rfl⟩
  | attach _ source inductionHypothesis =>
    rcases inductionHypothesis with ⟨chains, history, line⟩
    exact ⟨chains, history.attach source, by rw [line, List.append_assoc]; rfl⟩
  | ask _ room inductionHypothesis =>
    rcases inductionHypothesis with ⟨chains, history, line⟩
    exact ⟨chains, history.ask room, line⟩
  | pass _ inductionHypothesis =>
    rcases inductionHypothesis with ⟨chains, history, line⟩
    exact ⟨chains, history.pass, line⟩
  | @pickUp _ _ _ intake _ _ positive busy inductionHypothesis =>
    rcases inductionHypothesis with ⟨chains, history, line⟩
    by_cases free : intake.current = []
    · have waiting : intake.pending ≠ [] := by
        intro none
        rw [isIdle, free, none] at busy
        contradiction
      refine ⟨chains ++ [intake.pending], history.pickUp positive free waiting, ?_⟩
      rw [line, List.flatten_concat, pickUp_of_free free, List.append_nil]
    · refine ⟨chains, ?_, ?_⟩
      · rw [pickUp_of_draining free]
        exact history.goOn positive free
      · rw [pickUp_of_draining free]
        exact line
  | draw _ inductionHypothesis =>
    rcases inductionHypothesis with ⟨chains, history, line⟩
    exact ⟨chains, history.draw, line⟩

/-- What a run has delivered, told by the chains in which sources were picked up. -/
structure ByChain (attached : List Source) (results : List ReadResult) (intake : Intake)
    (reader : Reader) (chains : List (List Source)) : Prop where
  history : History chains results intake reader
  /-- The chains are the sources in order. -/
  attached_eq : attached = chains.flatten ++ intake.pending
  /-- Of each chain all is delivered that stands before the first failure, then the
  failure, once, and nothing of what stands behind it. -/
  delivered : results.flatMap signals ++ (kept intake.current).flatMap delivery =
    (chains.flatMap kept).flatMap delivery
  /-- When everything has been drained, nothing is missing exactly if nothing that
  delivers anything stood behind a failing source in its chain. -/
  whole_iff : intake.isIdle = true ->
    (results.flatMap signals = attached.flatMap delivery <->
      ∀ chain ∈ chains, (lost chain).flatMap delivery = [])

/-- Sources are delivered chain by chain, and a failure takes with it what stands
behind the failing source in its chain. -/
theorem failure_drops_rest_of_chain (run : Run attached results ended intake reader) :
    ∃ chains, ByChain attached results intake reader chains := by
  rcases run.history with ⟨chains, history, line⟩
  refine ⟨chains, history, line, history.deliveries, ?_⟩
  intro idle
  rcases Bool.and_eq_true_iff.1 idle with ⟨free, none⟩
  have whole := history.deliveries
  rw [List.isEmpty_iff.1 free, kept, List.flatMap_nil, List.append_nil] at whole
  rw [line, List.isEmpty_iff.1 none, List.append_nil, whole]
  exact Source.delivery_kept_iff chains

/-- A connection that breaks off. -/
def reset : Failure where
  kind := .connectionReset
  message := "frame lost"

/-- A source that fails behind its first byte, and another one behind it. -/
def behindReset : List Source :=
  [{ events := [.data [0x61], .failing reset] }, { events := [.data [0x62]] }]

/-- Both sources wait when the first is picked up, and the second is lost. -/
theorem run_chained :
    Run behindReset [.ok [0x61], .error reset] [] {} .resting := by
  have first : Run behindReset [.ok [0x61]] [] _ .resting :=
    ((((Run.start.attach _).attach _).ask 8).pickUp (Nat.succ_pos 7) rfl).draw
  exact ((first.ask 8).pickUp (Nat.succ_pos 7) rfl).draw

/-- The second source is handed over when the first has been picked up, and both
are drained. -/
theorem run_apart :
    Run behindReset [.ok [0x61], .error reset, .ok [0x62], .ok []] [{ events := [] }]
      {} .resting := by
  have first : Run behindReset [.ok [0x61]] [] _ .resting :=
    ((((Run.start.attach _).ask 8).pickUp (Nat.succ_pos 7) rfl).draw).attach _
  have further : ∀ {results : List ReadResult} {ended : List Source} {intake : Intake},
      Run behindReset results ended intake .resting -> intake.isIdle = false ->
        Run behindReset (results ++ [(intake.pickUp.readCurrent 8).1])
          (ended ++ Source.endsMet 8 intake.pickUp.current) (intake.pickUp.readCurrent 8).2
          .resting := fun run busy => ((run.ask 8).pickUp (Nat.succ_pos 7) busy).draw
  exact further (further (further first rfl) rfl) rfl

theorem failure_drops_behindReset :
    ∃ chains, ByChain behindReset [.ok [0x61], .error reset] {} .resting chains :=
  run_chained.failure_drops_rest_of_chain

/-- The same sources are handed over in the same order and all are drained, and yet
it depends on when the reader picked up the failing one whether the source behind
it is delivered. -/
theorem delivery_depends_on_timing :
    (Run behindReset [.ok [0x61], .error reset] [] {} .resting ∧
      ({} : Intake).isIdle = true ∧
      ([.ok [0x61], .error reset] : List ReadResult).flatMap signals ≠
        behindReset.flatMap delivery) ∧
    Run behindReset [.ok [0x61], .error reset, .ok [0x62], .ok []] [{ events := [] }]
        {} .resting ∧
      ({} : Intake).isIdle = true ∧
      ([.ok [0x61], .error reset, .ok [0x62], .ok []] : List ReadResult).flatMap signals =
        behindReset.flatMap delivery := by
  refine ⟨⟨run_chained, rfl, ?_⟩, run_apart, rfl, rfl⟩
  intro same
  have sizes := congrArg List.length same
  contradiction

end Run

end Intake
end HeaderCodec
