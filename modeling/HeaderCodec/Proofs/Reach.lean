import HeaderCodec.Proofs.Losses

namespace HeaderCodec

/-!
# What can be reached in a line of sources

Behind a failure nothing can be counted on.  The bytes that a reader of a line is
sure to get are those before the first failure, and `Source.reach` collects them.
A source that stays open is no different from one that fails, as long as nobody
reads beyond its bytes.

`Source.Yields` says that bytes have been taken off the front of a line.  It is
kept when sources are handed over behind, and so it tells what a reader has got
even if sources behind fail later.
-/

namespace Source

/-! ## Lines -/

/-- The bytes of a line before its first failure. -/
def reach (line : List Source) : List UInt8 :=
  (kept line).flatMap content

theorem reach_cons (source : Source) (rest : List Source) :
    reach (source :: rest) =
      source.content ++ if source.failure?.isSome then [] else reach rest := by
  rw [reach, kept, List.flatMap_cons]
  split
  · rfl
  · rfl

/-- A line of quiet sources can be reached to its end. -/
theorem reach_of_quiet {line : List Source} (quiet : ∀ source ∈ line, source.Quiet) :
    reach line = line.flatMap content := by
  induction line with
  | nil => rfl
  | cons source rest inductionHypothesis =>
    rcases List.forall_mem_cons.1 quiet with ⟨here, later⟩
    have calm : source.failure? = none := (Event.quiet_iff source.events).1 here
    rw [reach_cons, calm, inductionHypothesis later]
    rfl

/-- Bytes in memory can be reached to their end. -/
theorem reach_ofBytes (bytes : List UInt8) : reach [ofBytes bytes] = bytes := by
  have quiet : ∀ source ∈ [ofBytes bytes], source.Quiet := quiet_map_ofBytes [bytes]
  rw [reach_of_quiet quiet, List.flatMap_singleton, content_ofBytes]

/-- Bytes are taken off the front of a line, whatever stands behind it. -/
def Yields (line : List Source) (bytes : List UInt8) (rest : List Source) : Prop :=
  ∀ behind, reach (line ++ behind) = bytes ++ reach (rest ++ behind)

namespace Yields

variable {line rest last : List Source} {bytes more : List UInt8}

theorem none (line : List Source) : Yields line [] line :=
  fun _ => rfl

theorem trans (first : Yields line bytes rest) (second : Yields rest more last) :
    Yields line (bytes ++ more) last := by
  intro behind
  rw [first behind, second behind, List.append_assoc]

theorem append (yields : Yields line bytes rest) (others : List Source) :
    Yields (line ++ others) bytes (rest ++ others) := by
  intro behind
  rw [List.append_assoc, List.append_assoc]
  exact yields (others ++ behind)

theorem reach_eq (yields : Yields line bytes rest) : reach line = bytes ++ reach rest := by
  have whole := yields []
  rwa [List.append_nil, List.append_nil] at whole

end Yields

/-- A read of a chain takes bytes off its front.  It fails only when nothing can
be reached. -/
inductive ChainOutcome (chain : List Source) : ReadResult -> List Source -> Prop where
  | delivered {bytes : List UInt8} {rest : List Source} (yields : Yields chain bytes rest) :
      ChainOutcome chain (.ok bytes) rest
  | failed {failure : Failure} {rest : List Source}
      (nothing : ∀ behind, reach (chain ++ behind) = []) :
      ChainOutcome chain (.error failure) rest

theorem ChainOutcome.of_reach_eq {chain other rest : List Source} {result : ReadResult}
    (outcome : ChainOutcome other result rest)
    (same : ∀ behind, reach (chain ++ behind) = reach (other ++ behind)) :
    ChainOutcome chain result rest := by
  cases outcome with
  | delivered yields => exact .delivered fun behind => (same behind).trans (yields behind)
  | failed nothing => exact .failed fun behind => (same behind).trans (nothing behind)

theorem readChain_outcome {room : Nat} (positive : 0 < room) (chain : List Source) :
    ChainOutcome chain (readChain room chain).result (readChain room chain).rest := by
  induction chain with
  | nil => exact .delivered (.none [])
  | cons source others inductionHypothesis =>
    have outcome := Event.read_outcome positive source.events
    rw [readChain]
    generalize Event.read room source.events = answer at outcome
    rcases answer with ⟨result, events⟩
    cases outcome with
    | @delivered bytes _ some short split same =>
      rcases List.exists_cons_of_ne_nil some with ⟨byte, more, rfl⟩
      refine .delivered fun behind => ?_
      have here : source.content = byte :: more ++ ({ source with events } : Source).content :=
        split
      have onward : source.failure? = ({ source with events } : Source).failure? := same
      show reach (source :: (others ++ behind)) =
        byte :: more ++ reach ({ source with events } :: (others ++ behind))
      rw [reach_cons, reach_cons, here, onward, List.append_assoc]
    | ended nothing calm =>
      -- A source at its end delivers nothing more, and the read goes on behind it.
      refine inductionHypothesis.of_reach_eq fun behind => ?_
      have none : source.content = [] := nothing
      have calm : source.failure? = Option.none := calm
      rw [List.cons_append, reach_cons, none, calm]
      rfl
    | @failed failure _ nothing met =>
      refine .failed fun behind => ?_
      have none : source.content = [] := nothing
      have met : source.failure? = some failure := met
      rw [List.cons_append, reach_cons, none, met]
      rfl

end Source

/-! ## Reads -/

namespace Supply

/-- The bytes that are sure to come, however the sources behind them behave. -/
def reach (supply : Supply) : List UInt8 :=
  Source.reach supply.sources

/-- How a read can end, whatever the sources do. -/
inductive Outcome (supply : Supply) : ReadResult -> Supply -> Prop where
  | delivered {bytes : List UInt8} {rest : Supply}
      (yields : Source.Yields supply.sources bytes rest.sources) :
      Outcome supply (.ok bytes) rest
  | failed {failure : Failure} {rest : Supply} (nothing : supply.reach = []) :
      Outcome supply (.error failure) rest

variable {supply : Supply}

theorem Outcome.of_sources_eq {other rest : Supply} {result : ReadResult}
    (outcome : other.Outcome result rest) (same : other.sources = supply.sources) :
    supply.Outcome result rest := by
  cases outcome with
  | delivered yields => exact .delivered (same ▸ yields)
  | failed nothing =>
    rw [reach, same] at nothing
    exact .failed nothing

theorem readAvailable_outcome {room : Nat} (positive : 0 < room) (supply : Supply) :
    supply.Outcome (supply.readAvailable room).1 (supply.readAvailable room).2 := by
  have before := sources_eq_pickUp supply
  have after := sources_readAvailable supply room
  have outcome := Source.readChain_outcome positive supply.intake.pickUp.current
  have result : (supply.readAvailable room).1 =
      (Source.readChain room supply.intake.pickUp.current).result := rfl
  rw [result]
  generalize (Source.readChain room supply.intake.pickUp.current).result = answer at outcome
  cases outcome with
  | delivered yields =>
    refine .delivered ?_
    rw [before, after]
    exact yields.append _
  | failed nothing =>
    refine .failed ?_
    rw [reach, before]
    exact nothing _

/-- A read takes bytes off the front of the line.  It fails only when nothing can
be reached. -/
theorem read_outcome {room : Nat} (positive : 0 < room) (supply : Supply) :
    supply.Outcome (supply.read room).1 (supply.read room).2 := by
  rcases read_cases positive supply with
      ⟨moved, line, answer⟩ | ⟨line, failure, rest, nothing, answer⟩
  · rw [answer]
    exact (readAvailable_outcome positive moved).of_sources_eq line
  · rw [answer]
    refine .failed ?_
    rw [reach, line]
    rfl

end Supply

/-! ## Runs -/

namespace Intake

theorem exists_of_snoc_eq_map_ok {results : List ReadResult} {result : ReadResult}
    {pieces : List (List UInt8)} (all : results ++ [result] = pieces.map .ok) :
    ∃ earlier piece, pieces = earlier ++ [piece] ∧ results = earlier.map .ok ∧
      result = .ok piece := by
  rcases List.map_eq_append_iff.1 all.symm with ⟨earlier, others, rfl, rfl, last⟩
  rcases List.map_eq_singleton_iff.1 last with ⟨piece, rfl, rfl⟩
  exact ⟨earlier, piece, rfl, rfl, rfl⟩

/-- Reads without a failure have taken their bytes off the front of all sources. -/
theorem Run.yields {attached ended : List Source} {results : List ReadResult} {intake : Intake}
    {reader : Reader} {pieces : List (List UInt8)}
    (run : Run attached results ended intake reader) (all : results = pieces.map .ok) :
    Source.Yields attached pieces.flatten intake.sources := by
  induction run generalizing pieces with
  | start =>
    rw [List.map_eq_nil_iff.1 all.symm]
    exact .none []
  | @attach _ _ _ intake _ _ source inductionHypothesis =>
    rw [sources_attach]
    exact (inductionHypothesis all).append [source]
  | ask _ _ inductionHypothesis => exact inductionHypothesis all
  | pass _ inductionHypothesis =>
    rcases exists_of_snoc_eq_map_ok all with ⟨earlier, piece, rfl, before, same⟩
    cases same
    rw [List.flatten_concat]
    exact (inductionHypothesis before).trans (.none _)
  | pickUp _ _ _ inductionHypothesis =>
    rw [sources_pickUp]
    exact inductionHypothesis all
  | @draw _ _ _ intake room run inductionHypothesis =>
    rcases exists_of_snoc_eq_map_ok all with ⟨earlier, piece, rfl, before, same⟩
    have outcome := Source.readChain_outcome run.positive intake.current
    have answer : (Source.readChain room intake.current).result = .ok piece := same
    rw [answer] at outcome
    rw [List.flatten_concat]
    cases outcome with
    | delivered yields => exact (inductionHypothesis before).trans (yields.append intake.pending)

end Intake
end HeaderCodec
