import HeaderCodec.Proofs.Delivery
import Mathlib.Data.List.Forall2

namespace HeaderCodec

/-!
# Sources handed over while a reader draws

One reader draws from an intake, and any number of others hand sources over to
it.  They meet only where sources wait.  The reader asks for bytes, picks up the
waiting chain when it is draining none, and then draws from its chain without
looking at what waits.  `Intake.Run` takes these steps apart, so that a source
can be handed over between any two of them: before anything is picked up, while
the reader waits, in the middle of a draw, or when a chain is half read.

The order of all sources is kept as a `Source.Line`.  Sources that have been
read to the end stand in front, behind them at most one that has been begun, and
the others are untouched.  Handing over makes the line longer at its back, and
drawing moves along it from the front.  Nothing else happens to it, and so the
timing makes no difference to what is delivered.
-/

namespace Source

/-! ## What has become of one source -/

/-- Reads of a source have delivered some bytes and left the rest of it.  None
of them has met its end. -/
inductive Served (source : Source) : (delivered : List UInt8) -> (rest : Source) -> Prop where
  | untouched : Served source [] source
  | read {delivered bytes : List UInt8} {rest : Source} {events : List Event} {room : Nat}
      (before : Served source delivered rest) (positive : 0 < room) (some : bytes ≠ [])
      (answer : Event.read room rest.events = (.ok bytes, events)) :
      Served source (delivered ++ bytes) { rest with events }

theorem Served.content_eq {source rest : Source} {delivered : List UInt8}
    (served : source.Served delivered rest) (quiet : source.Quiet) :
    source.content = delivered ++ rest.content ∧ rest.Quiet := by
  induction served with
  | untouched => exact ⟨rfl, quiet⟩
  | @read delivered bytes rest events room before positive some answer inductionHypothesis =>
    rcases inductionHypothesis with ⟨split, calm⟩
    rcases Event.read_of_quiet positive calm with ⟨_, _, answered, _, outcome⟩
    rw [answer] at answered
    cases answered
    rcases outcome with ⟨none, _⟩ | ⟨_, parts, onward⟩
    · exact absurd none some
    · refine ⟨?_, onward⟩
      have here : rest.content = bytes ++ Event.content events := parts
      rw [split, here, List.append_assoc]
      rfl

/-- The end of a quiet source comes when its whole content has been delivered. -/
theorem Served.whole {source rest : Source} {delivered : List UInt8} {room : Nat}
    {events : List Event} (served : source.Served delivered rest) (quiet : source.Quiet)
    (positive : 0 < room) (ended : Event.read room rest.events = (.ok [], events)) :
    delivered = source.content := by
  rcases served.content_eq quiet with ⟨split, calm⟩
  rcases Event.read_of_quiet positive calm with ⟨_, _, answered, _, outcome⟩
  rw [ended] at answered
  cases answered
  rcases outcome with ⟨_, nothing⟩ | ⟨some, _⟩
  · have none : rest.content = [] := nothing
    rw [split, none, List.append_nil]
  · exact absurd rfl some

/-- What is left of the sources whose ends one read of a chain meets. -/
def endsMet (room : Nat) : List Source -> List Source
  | [] => []
  | source :: rest =>
    match Event.read room source.events with
    | (.ok [], _) => source :: endsMet room rest
    | _ => []

/-! ## All sources in order -/

/-- The attached sources in order, what was left of those whose ends have been
met, the bytes that have been delivered, and the sources that are still to be
drawn from. -/
inductive Line : (attached ended : List Source) -> (delivered : List UInt8) ->
    (ahead : List Source) -> Prop where
  | empty : Line [] [] [] []
  | begun {first rest : Source} {delivered : List UInt8} (served : first.Served delivered rest)
      (later : List Source) : Line (first :: later) [] delivered (rest :: later)
  | past {first rest : Source} {later ended ahead : List Source} {delivered : List UInt8}
      (served : first.Served first.content rest) (line : Line later ended delivered ahead) :
      Line (first :: later) (rest :: ended) (first.content ++ delivered) ahead

/-- Some bytes are part of a single source, behind bytes delivered before. -/
def FromOne (attached : List Source) (earlier piece : List UInt8) : Prop :=
  ∃ before source after part rest, attached = before ++ source :: after ∧
    earlier = before.flatMap content ++ part ∧ source.content = part ++ piece ++ rest

theorem FromOne.append {attached : List Source} {earlier piece : List UInt8}
    (one : FromOne attached earlier piece) (more : List Source) :
    FromOne (attached ++ more) earlier piece := by
  rcases one with ⟨before, source, after, part, rest, line, behind, split⟩
  refine ⟨before, source, after ++ more, part, rest, ?_, behind, split⟩
  rw [line, List.append_assoc, List.cons_append]

namespace Line

variable {attached ended ahead behind : List Source} {delivered bytes : List UInt8}
  {source : Source} {room : Nat} {events : List Event}

theorem untouched (sources : List Source) : Line sources [] [] sources := by
  cases sources with
  | nil => exact .empty
  | cons first later => exact .begun .untouched later

/-- A source that is handed over comes last. -/
theorem append (line : Line attached ended delivered ahead) (source : Source) :
    Line (attached ++ [source]) ended delivered (ahead ++ [source]) := by
  induction line with
  | empty => exact untouched [source]
  | begun served later => exact .begun served (later ++ [source])
  | past served _ inductionHypothesis => exact .past served inductionHypothesis

/-- What has been delivered and what is ahead make up the content of all
sources. -/
theorem content_eq (line : Line attached ended delivered ahead)
    (quiet : ∀ source ∈ attached, source.Quiet) :
    attached.flatMap content = delivered ++ ahead.flatMap content ∧
      ∀ source ∈ ahead, source.Quiet := by
  induction line with
  | empty => exact ⟨rfl, quiet⟩
  | @begun first rest delivered served later =>
    rcases served.content_eq (quiet first List.mem_cons_self) with ⟨split, calm⟩
    refine ⟨?_, List.forall_mem_cons.2 ⟨calm, (List.forall_mem_cons.1 quiet).2⟩⟩
    rw [List.flatMap_cons, List.flatMap_cons, split, List.append_assoc]
  | past _ _ inductionHypothesis =>
    rcases inductionHypothesis (List.forall_mem_cons.1 quiet).2 with ⟨split, calm⟩
    refine ⟨?_, calm⟩
    rw [List.flatMap_cons, split, List.append_assoc]

/-- When nothing is ahead, the ends of all sources have been met, and each of
them had delivered its whole content by then. -/
theorem all_ended (line : Line attached ended delivered []) :
    List.Forall₂ (fun source rest => Served source source.content rest) attached ended := by
  generalize none : [] = ahead at line
  induction line with
  | empty => exact .nil
  | begun => contradiction
  | past served _ inductionHypothesis => exact .cons served (inductionHypothesis none)

/-- A read that delivers bytes takes them from the first source ahead. -/
theorem serve (line : Line attached ended delivered (source :: behind))
    (quiet : ∀ source ∈ attached, source.Quiet) (positive : 0 < room) (some : bytes ≠ [])
    (answer : Event.read room source.events = (.ok bytes, events)) :
    Line attached ended (delivered ++ bytes) ({ source with events } :: behind) ∧
      FromOne attached delivered bytes := by
  generalize here : source :: behind = ahead at line
  induction line with
  | empty => contradiction
  | @begun first rest delivered served later =>
    cases here
    have further := served.read positive some answer
    have split := (further.content_eq (quiet first List.mem_cons_self)).1
    exact ⟨.begun further behind, [], first, behind, delivered, _, rfl, rfl, split⟩
  | @past first rest later ended ahead delivered served line inductionHypothesis =>
    rcases inductionHypothesis (List.forall_mem_cons.1 quiet).2 here with
        ⟨onward, before, one, after, part, left, place, earlier, split⟩
    refine ⟨List.append_assoc _ _ _ ▸ .past served onward, first :: before, one, after, part,
      left, ?_, ?_, split⟩
    · rw [place, List.cons_append]
    · rw [earlier, List.flatMap_cons, List.append_assoc]

/-- A read that delivers nothing meets the end of the first source ahead. -/
theorem pass (line : Line attached ended delivered (source :: behind))
    (quiet : ∀ source ∈ attached, source.Quiet) (positive : 0 < room)
    (answer : Event.read room source.events = (.ok [], events)) :
    Line attached (ended ++ [source]) delivered behind := by
  generalize here : source :: behind = ahead at line
  induction line with
  | empty => contradiction
  | @begun first rest delivered served later =>
    cases here
    have whole := served.whole (quiet first List.mem_cons_self) positive answer
    subst whole
    have passed := Line.past served (untouched behind)
    rwa [List.append_nil] at passed
  | past served _ inductionHypothesis =>
    exact .past served (inductionHypothesis (List.forall_mem_cons.1 quiet).2 here)

/-- One read of a chain moves along the line, past all ends that it meets, and
takes bytes from one source at most. -/
theorem readChain {chain : List Source} (line : Line attached ended delivered (chain ++ behind))
    (quiet : ∀ source ∈ attached, source.Quiet) (positive : 0 < room) :
    ∃ bytes, (Source.readChain room chain).result = .ok bytes ∧
      Line attached (ended ++ endsMet room chain) (delivered ++ bytes)
        ((Source.readChain room chain).rest ++ behind) ∧
      (bytes ≠ [] -> FromOne attached delivered bytes) := by
  induction chain generalizing ended with
  | nil =>
    refine ⟨[], rfl, ?_, fun some => absurd rfl some⟩
    rw [endsMet, List.append_nil, List.append_nil]
    exact line
  | cons source others inductionHypothesis =>
    have calm := (line.content_eq quiet).2 source List.mem_cons_self
    rcases Event.read_of_quiet positive calm with ⟨bytes, events, answer, _⟩
    cases bytes with
    | nil =>
      have onward : Source.readChain room (source :: others) = Source.readChain room others := by
        rw [Source.readChain, answer]
      have met : endsMet room (source :: others) = source :: endsMet room others := by
        rw [endsMet, answer]
      rw [onward, met, List.append_cons]
      exact inductionHypothesis (line.pass quiet positive answer)
    | cons byte more =>
      have some := List.cons_ne_nil byte more
      rcases line.serve quiet positive some answer with ⟨onward, one⟩
      rw [Source.readChain, endsMet, answer, List.append_nil]
      exact ⟨byte :: more, rfl, onward, fun _ => one⟩

end Line

end Source

namespace Intake

/-! ## Reading while sources are handed over -/

/-- What the reader of an intake is doing. -/
inductive Reader where
  | resting
  /-- It has asked for bytes and has not drawn any yet.  It waits as long as no
  source is at hand. -/
  | asking (room : Nat)
  /-- It draws from the chain that it has picked up. -/
  | drawing (room : Nat)
deriving DecidableEq, Repr

/-- What can have happened to an intake: the sources that have been attached,
the results of all reads, what was left of the sources whose ends were met, and
where this has led.  Attaching a source takes one step and can be the next step
at any time. -/
inductive Run : (attached : List Source) -> (results : List ReadResult) ->
    (ended : List Source) -> Intake -> Reader -> Prop where
  | start : Run [] [] [] {} .resting
  | attach {attached ended : List Source} {results : List ReadResult} {intake : Intake}
      {reader : Reader} (run : Run attached results ended intake reader) (source : Source) :
      Run (attached ++ [source]) results ended (intake.attach source) reader
  | ask {attached ended : List Source} {results : List ReadResult} {intake : Intake}
      (run : Run attached results ended intake .resting) (room : Nat) :
      Run attached results ended intake (.asking room)
  | pass {attached ended : List Source} {results : List ReadResult} {intake : Intake}
      (run : Run attached results ended intake (.asking 0)) :
      Run attached (results ++ [.ok []]) ended intake .resting
  | pickUp {attached ended : List Source} {results : List ReadResult} {intake : Intake}
      {room : Nat} (run : Run attached results ended intake (.asking room)) (positive : 0 < room)
      (busy : intake.isIdle = false) : Run attached results ended intake.pickUp (.drawing room)
  | draw {attached ended : List Source} {results : List ReadResult} {intake : Intake}
      {room : Nat} (run : Run attached results ended intake (.drawing room)) :
      Run attached (results ++ [(intake.readCurrent room).1])
        (ended ++ Source.endsMet room intake.current) (intake.readCurrent room).2 .resting

/-- Whether the reader waits: it has asked for bytes and there is no source. -/
def Waits (intake : Intake) (reader : Reader) : Prop :=
  (∃ room, 0 < room ∧ reader = .asking room) ∧ intake.isIdle = true

namespace Run

variable {attached ended : List Source} {results : List ReadResult} {intake : Intake}
  {reader : Reader}

theorem positive {room : Nat} (run : Run attached results ended intake (.drawing room)) :
    0 < room := by
  generalize drawing : Reader.drawing room = reader at run
  induction run with
  | attach _ _ inductionHypothesis => exact inductionHypothesis drawing
  | pickUp _ positive _ =>
    cases drawing
    exact positive
  | _ => contradiction

/-- What holds of quiet sources after any run: no read has failed, the sources
stand in line behind the bytes that have been delivered, and every read has
taken its bytes from a single source. -/
structure InLine (attached : List Source) (results : List ReadResult) (ended : List Source)
    (intake : Intake) (pieces : List (List UInt8)) : Prop where
  results_eq : results = pieces.map .ok
  line : Source.Line attached ended pieces.flatten intake.sources
  single : ∀ earlier piece later, pieces = earlier ++ piece :: later -> piece ≠ [] ->
    Source.FromOne attached earlier.flatten piece

theorem InLine.attach {pieces : List (List UInt8)}
    (inLine : InLine attached results ended intake pieces) (source : Source) :
    InLine (attached ++ [source]) results ended (intake.attach source) pieces where
  results_eq := inLine.results_eq
  line := sources_attach intake source ▸ inLine.line.append source
  single := fun earlier piece later split some =>
    (inLine.single earlier piece later split some).append [source]

/-- One more read is one more piece. -/
theorem InLine.snoc {pieces : List (List UInt8)} {piece : List UInt8} {more : List Source}
    {next : Intake} (inLine : InLine attached results ended intake pieces)
    (line : Source.Line attached (ended ++ more) (pieces.flatten ++ piece) next.sources)
    (one : piece ≠ [] -> Source.FromOne attached pieces.flatten piece) :
    InLine attached (results ++ [.ok piece]) (ended ++ more) next (pieces ++ [piece]) where
  results_eq := by rw [inLine.results_eq, List.map_append, List.map_singleton]
  line := by rwa [List.flatten_concat]
  single := by
    intro earlier other later split some
    rcases List.eq_nil_or_concat later with rfl | ⟨before, last, rfl⟩
    · rcases List.append_inj' split rfl with ⟨rfl, same⟩
      cases same
      exact one some
    · rw [List.concat_eq_append, ← List.cons_append, ← List.append_assoc] at split
      exact inLine.single earlier other before (List.append_inj' split rfl).1 some

theorem inLine (run : Run attached results ended intake reader)
    (quiet : ∀ source ∈ attached, source.Quiet) :
    ∃ pieces, InLine attached results ended intake pieces := by
  induction run with
  | start =>
    refine ⟨[], rfl, .empty, fun earlier piece later split => ?_⟩
    exact absurd split.symm (List.append_ne_nil_of_right_ne_nil _ (List.cons_ne_nil _ _))
  | attach _ source inductionHypothesis =>
    rcases inductionHypothesis (List.forall_mem_append.1 quiet).1 with ⟨pieces, inLine⟩
    exact ⟨pieces, inLine.attach source⟩
  | ask _ _ inductionHypothesis => exact inductionHypothesis quiet
  | @pass attached ended _ _ _ inductionHypothesis =>
    rcases inductionHypothesis quiet with ⟨pieces, inLine⟩
    have line := inLine.line
    rw [← List.append_nil ended, ← List.append_nil pieces.flatten] at line
    have passed := inLine.snoc line fun some => absurd rfl some
    rw [List.append_nil] at passed
    exact ⟨_, passed⟩
  | @pickUp _ _ _ intake _ _ _ _ inductionHypothesis =>
    rcases inductionHypothesis quiet with ⟨pieces, inLine⟩
    exact ⟨pieces, inLine.results_eq, sources_pickUp intake ▸ inLine.line, inLine.single⟩
  | @draw _ _ _ intake room run inductionHypothesis =>
    rcases inductionHypothesis quiet with ⟨pieces, inLine⟩
    rcases inLine.line.readChain quiet run.positive with ⟨bytes, answer, line, one⟩
    have result : (intake.readCurrent room).1 = .ok bytes := answer
    rw [result]
    exact ⟨pieces ++ [bytes], inLine.snoc line one⟩

/-- What the reads of a run have yielded, if quiet sources are drained in the order in
which they have been handed over. -/
structure Ordered (attached ended : List Source) (results : List ReadResult) (intake : Intake)
    (reader : Reader) (pieces : List (List UInt8)) : Prop where
  /-- No read has failed. -/
  results_eq : results = pieces.map .ok
  /-- The bytes of all reads are a first part of what the sources hold in order. -/
  begins : pieces.flatten <+: attached.flatMap Source.content
  /-- A read is served by a single source. -/
  single : ∀ earlier piece later, pieces = earlier ++ piece :: later -> piece ≠ [] ->
    Source.FromOne attached earlier.flatten piece
  /-- The reader waits only when the ends of all sources have been met and all their
  bytes have been read. -/
  drained : Waits intake reader ->
    List.Forall₂ (fun source rest => Source.Served source source.content rest) attached ended ∧
    pieces.flatten = attached.flatMap Source.content
  /-- A read without room changes nothing. -/
  roomless : ∀ arrivals, Supply.read { intake, arrivals } 0 = (.ok [], { intake, arrivals })

/-- Sources are drained first in, first out, whenever they are handed over. -/
theorem drains_first_in_first_out (run : Run attached results ended intake reader)
    (quiet : ∀ source ∈ attached, source.Quiet) :
    ∃ pieces, Ordered attached ended results intake reader pieces := by
  rcases run.inLine quiet with ⟨pieces, inLine⟩
  have whole := (inLine.line.content_eq quiet).1
  refine ⟨pieces, inLine.results_eq, ⟨_, whole.symm⟩, inLine.single, ?_, ?_⟩
  · intro waits
    have line := inLine.line
    rw [sources_of_isIdle waits.2] at line whole
    exact ⟨line.all_ended, by rw [whole, List.flatMap_nil, List.append_nil]⟩
  · intro arrivals
    rw [Supply.read, if_pos rfl]

/-- One source with data behind its end, one that is interrupted, and one that
holds a single byte. -/
def threeSources : List Source :=
  [{ events := [.data [1, 2], .data [], .data [9]] },
    { events := [.failing { kind := .interrupted, message := "" }, .data [3]] },
    { events := [.data [4]] }]

/-- Two sources are handed over before the first read and one in the middle of
it.  Then there are reads until the reader waits, one of them without room. -/
theorem run_threeSources :
    Run threeSources [.ok [1], .ok [2], .ok [], .ok [3], .ok [], .ok [4], .ok []]
      [{ events := [.data [], .data [9]] }, { events := [] }, { events := [] }]
      {} (.asking 8) := by
  have first : Run threeSources [.ok [1]] [] _ .resting :=
    (((((Run.start.attach _).attach _).ask 1).pickUp Nat.one_pos rfl).attach _).draw
  have further : ∀ {results : List ReadResult} {ended : List Source} {intake : Intake},
      Run threeSources results ended intake .resting -> intake.isIdle = false ->
        Run threeSources (results ++ [(intake.pickUp.readCurrent 8).1])
          (ended ++ Source.endsMet 8 intake.pickUp.current) (intake.pickUp.readCurrent 8).2
          .resting := fun run busy => ((run.ask 8).pickUp (Nat.succ_pos 7) busy).draw
  have second := further first rfl
  have third := further (second.ask 0).pass rfl
  have fourth := further (further (further third rfl) rfl) rfl
  exact fourth.ask 8

theorem quiet_threeSources : ∀ source ∈ threeSources, source.Quiet := by
  simp only [threeSources, List.forall_mem_cons]
  exact ⟨trivial, ⟨rfl, trivial⟩, trivial, fun source member => absurd member List.not_mem_nil⟩

theorem drains_threeSources :
    ∃ pieces, Ordered threeSources
      [{ events := [.data [], .data [9]] }, { events := [] }, { events := [] }]
      [.ok [1], .ok [2], .ok [], .ok [3], .ok [], .ok [4], .ok []] {} (.asking 8) pieces :=
  run_threeSources.drains_first_in_first_out quiet_threeSources

/-! ## Reads that run to their end -/

theorem attachAll (run : Run attached results ended intake reader) (sources : List Source) :
    Run (attached ++ sources) results ended (intake.attachAll sources) reader := by
  induction sources generalizing attached intake with
  | nil =>
    rw [List.append_nil]
    exact run
  | cons source later inductionHypothesis =>
    rw [List.append_cons]
    exact inductionHypothesis (run.attach source)

/-- A reader that has asked and finds a source at hand comes to a result. -/
theorem finish {room : Nat} (run : Run attached results ended intake (.asking room))
    (positive : 0 < room) (busy : intake.isIdle = false) :
    ∃ more, Run attached (results ++ [(intake.pickUp.readCurrent room).1]) (ended ++ more)
      (intake.pickUp.readCurrent room).2 .resting :=
  ⟨_, (run.pickUp positive busy).draw⟩

/-- A read with sources that arrive in its course is a run.  It takes the sources
from the front of those that are to arrive.  At the end the reader rests, or it
waits and no source is left to arrive. -/
theorem read {supply : Supply} (run : Run attached results ended supply.intake .resting)
    (room : Nat) :
    ∃ taken more, supply.arrivals.queue = taken ++ (supply.read room).2.arrivals.queue ∧
      (Run (attached ++ taken) (results ++ [(supply.read room).1]) (ended ++ more)
          (supply.read room).2.intake .resting ∨
        (supply.read room).1 = .error supply.arrivals.abandonment ∧
          Waits (supply.read room).2.intake (.asking room) ∧
          Run (attached ++ taken) results ended (supply.read room).2.intake (.asking room)) := by
  by_cases none : room = 0
  · subst none
    refine ⟨[], [], rfl, Or.inl ?_⟩
    rw [Supply.read, if_pos rfl, List.append_nil, List.append_nil]
    exact (run.ask 0).pass
  · have positive := Nat.pos_of_ne_zero none
    have received : ∃ taken, supply.arrivals.queue = taken ++ supply.receive.arrivals.queue ∧
        supply.receive.arrivals.abandonment = supply.arrivals.abandonment ∧
        Run (attached ++ taken) results ended supply.receive.intake .resting := by
      unfold Supply.receive
      split
      · exact ⟨[], rfl, rfl, (List.append_nil attached).symm ▸ run⟩
      · exact ⟨_, (List.take_append_drop _ _).symm, rfl, run.attachAll _⟩
    rcases received with ⟨taken, split, same, run⟩
    have asked := run.ask room
    rw [Supply.read, if_neg none]
    generalize supply.receive = received at split same asked
    by_cases idle : received.intake.isIdle = true
    · simp only [if_pos idle]
      cases queue : received.arrivals.queue with
      | nil =>
        rw [queue] at split
        exact ⟨taken, [], by rw [split, queue],
          Or.inr ⟨congrArg _ same, ⟨⟨room, positive, rfl⟩, idle⟩, asked⟩⟩
      | cons source later =>
        -- The reader waits, and the next source arrives while it does.
        have busy : (received.intake.attach source).isIdle = false := by
          simp [isIdle, Intake.attach]
        rcases (asked.attach source).finish positive busy with ⟨more, finished⟩
        refine ⟨taken ++ [source], more, ?_, Or.inl ?_⟩
        · rw [split, queue, List.append_cons]
          rfl
        · rw [← List.append_assoc]
          exact finished
    · simp only [if_neg idle]
      rcases asked.finish positive (Bool.eq_false_iff.2 idle) with ⟨more, finished⟩
      exact ⟨taken, more, split, Or.inl finished⟩

end Run

end Intake
end HeaderCodec
