import HeaderCodec.Proofs.Origins
import HeaderCodec.Proofs.Resending
import HeaderCodec.Proofs.Session

namespace HeaderCodec

/-!
# The end of a stream

A sender may finish its stream, and a stream may be finished in the middle of a block.
Then a decoder returns the blocks that are whole, and says of the next one that the
stream has ended inside.  It must not wait for more, since a stream that has ended
will not go on, and what else the sources hold does not belong to it.

The last word of a stream is met by whichever call happens to take it.  This may be the
call for a block of which all bytes have been written before, because the inflater goes
on as long as it has input and room.  So a stream with a wrong checksum can cost a
block that it has delivered, and it is not known beforehand which of the calls fails.
All that is known is the error, because the whole stream leads to a single state of
the inflater: an error that does not fit to this state has no origin.
-/

/-! ## Plans that come to an end -/

/-- Bytes behind those that a plan has read are left over. -/
theorem Plan.follow_append {Result : Type} {plan : Plan Result} {bytes rest : List UInt8}
    {result : Except Error Result} (followed : plan.follow bytes = some (result, rest))
    (more : List UInt8) : plan.follow (bytes ++ more) = some (result, rest ++ more) := by
  induction plan generalizing bytes with
  | done =>
    cases followed
    rfl
  | take count next inductionHypothesis =>
    rw [follow] at followed ⊢
    split at followed
    · rename_i enough
      have still : count ≤ (bytes ++ more).length := by
        rw [List.length_append]
        exact Nat.le_add_right_of_le enough
      rw [if_pos still, List.take_append_of_le_length enough, List.drop_append_of_le_length enough]
      exact inductionHypothesis _ followed
    · cases followed

namespace Block

/-- Some bytes are whole blocks and the beginning of another one that is not whole.
The limit is large enough for all of them. -/
structure CutShort (limit : Nat) (blocks : List (List Entry)) (bytes : List UInt8) : Prop where
  each : ∀ entries ∈ blocks, Proper entries ∧ (layout entries).length ≤ limit
  last : ∃ entries partly missing, Proper entries ∧ (layout entries).length ≤ limit ∧
    layout entries = partly ++ missing ∧ missing ≠ [] ∧ bytes = blocks.flatMap layout ++ partly

namespace CutShort

variable {limit : Nat} {entries : List Entry} {blocks : List (List Entry)} {bytes : List UInt8}

/-- The first block is read, and behind it there is one block less. -/
theorem follow_cons (cut : CutShort limit (entries :: blocks) bytes) :
    ∃ rest, (read limit).follow bytes = some (.ok (meaning entries), rest) ∧
      CutShort limit blocks rest := by
  rcases cut.last with ⟨last, partly, missing, proper, fits, split, some, rfl⟩
  rcases List.forall_mem_cons.1 cut.each with ⟨⟨properHere, fitsHere⟩, later⟩
  refine ⟨blocks.flatMap layout ++ partly, ?_, later, last, partly, missing, proper, fits, split,
    some, rfl⟩
  rw [List.flatMap_cons, List.append_assoc]
  exact follow_read properHere _ fitsHere

/-- When there is no whole block any more, the bytes do not suffice. -/
theorem follow_nil (cut : CutShort limit [] bytes) : (read limit).follow bytes = none := by
  rcases cut.last with ⟨last, partly, missing, proper, fits, split, some, rfl⟩
  have whole := follow_read proper [] fits
  rw [List.append_nil, split] at whole
  cases followed : (read limit).follow bytes with
  | none => rfl
  | some outcome =>
    rw [Plan.follow_append followed missing, Option.some.injEq, Prod.mk.injEq] at whole
    exact absurd (List.append_eq_nil_iff.1 whole.2).2 some

/-- With some bytes more there is a block. -/
theorem follow_some (cut : CutShort limit blocks bytes) :
    ∃ more headers rest, (read limit).follow (bytes ++ more) = some (.ok headers, rest) := by
  cases blocks with
  | cons entries others =>
    rcases cut.follow_cons with ⟨rest, followed, _⟩
    exact ⟨[], _, _, Plan.follow_append followed []⟩
  | nil =>
    rcases cut.last with ⟨last, partly, missing, proper, fits, split, _, rfl⟩
    have whole := follow_read proper [] fits
    rw [List.append_nil, split] at whole
    exact ⟨missing, meaning last, [], whole⟩

end CutShort
end Block

/-! ## Where a finished stream leads -/

namespace Source

theorem reach_nil : reach [] = [] :=
  rfl

/-- A line can be reached as far as any beginning of it. -/
theorem reach_prefix (line others : List Source) : reach line <+: reach (line ++ others) := by
  induction line with
  | nil => exact List.nil_prefix
  | cons source rest inductionHypothesis =>
    rw [List.cons_append, reach_cons, reach_cons]
    refine (List.prefix_append_right_inj _).2 ?_
    split
    · exact List.prefix_refl []
    · exact inductionHypothesis

end Source

/-- When a read waits, nothing was at hand before it. -/
theorem Supply.sources_of_waiting {supply : Supply} (idle : supply.receive.intake.isIdle = true) :
    supply.intake.sources = [] := by
  have none := Intake.sources_of_isIdle idle
  unfold receive at none
  split at none
  · exact none
  · rw [Intake.attachAll_eq, Intake.sources, ← List.append_assoc] at none
    exact (List.append_eq_nil_iff.1 none).1

namespace Deflate

variable {stream output line : List UInt8} {trailer : Nat}

/-- Right or wrong, a stream needs nothing at its end. -/
theorem demand_closed (right : Prop) [Decidable right] :
    (if right then Phase.ended else .failed .checksum).demand = .nothing := by
  split
  · rfl
  · rfl

/-- A finished stream decides where all bytes lead that begin with it. -/
theorem Inflater.expand_of_isFinished (finished : Format.IsFinished stream output trailer)
    (begins : stream <+: line) :
    (Inflater.fresh.expand (Bits.ofBytes line)).phase =
        (if trailer = (Checksum.ofBytes output).word then .ended else .failed .checksum) ∧
      outputOf line = output := by
  rcases course_finished finished with ⟨final, phase, course⟩
  rcases begins with ⟨beyond, rfl⟩
  have asks : final.phase.demand = .nothing := by
    rw [phase, demand_closed]
  have whole : Inflater.fresh.expand (Bits.ofBytes (stream ++ beyond)) = final := by
    rw [Bits.ofBytes_append, expand_of_course course, expand_of_nothing asks]
  rw [outputOf, whole]
  exact ⟨phase, course.output_eq⟩

/-- Behind a finished stream nothing is needed. -/
theorem Inflater.demand_of_isFinished (finished : Format.IsFinished stream output trailer)
    (begins : stream <+: line) :
    (Inflater.fresh.expand (Bits.ofBytes line)).phase.demand = .nothing := by
  rw [(expand_of_isFinished finished begins).1, demand_closed]

namespace Decompressor

variable {attached : List Source} {bytes : List UInt8} {supply rest : Supply}
  {next : Decompressor}

/-- What has been written is the beginning of what the whole line stands for. -/
theorem CarriesOn.prefix_outputOf (carried : CarriesOn attached bytes supply next rest) :
    bytes <+: Inflater.outputOf (Source.reach (attached ++ supply.arrivals.queue)) := by
  rcases carried with ⟨newly, _, _, order, books⟩
  have begins := books.prefix_outputOf_reach
  rwa [List.append_assoc, ← order] at begins

theorem CarriesOn.output_eq (carried : CarriesOn attached bytes supply next rest) :
    next.inflater.output = bytes := by
  rcases carried with ⟨_, _, _, _, books⟩
  exact books.course.output_eq

/-- An inflater that has ended stands where the whole line leads. -/
theorem CarriesOn.expand_reach (carried : CarriesOn attached bytes supply next rest)
    (asks : next.inflater.phase.demand = .nothing) :
    Inflater.fresh.expand (Bits.ofBytes (Source.reach (attached ++ supply.arrivals.queue))) =
      next.inflater := by
  rcases carried with ⟨newly, _, _, order, books⟩
  have whole := books.expand_reach asks
  rwa [List.append_assoc, ← order] at whole

end Decompressor
end Deflate

/-! ## Calls on a finished stream -/

namespace Decoder

open Deflate (Decompressor Inflater)

section

variable {stream output bytes left : List UInt8} {trailer : Nat} {attached : List Source}
  {loaded : List (List UInt8)} {taken : List Bool} {decoder : Decoder} {source : Source}
  {arrivals : Arrivals} {through asked : Nat} {before : Supply}

/-- No read of a call waits for a source when a finished stream has been handed
over. -/
theorem Reading.busy_of_isFinished
    (books : decoder.context.Books attached loaded taken bytes (decoder.attach source).intake)
    (finished : Deflate.Format.IsFinished stream output trailer)
    (delivered : stream <+: Source.reach attached)
    (reading : decoder.Reading source arrivals through asked before) :
    before.receive.intake.isIdle = false := by
  rcases reading.carriesOn books with ⟨_, written, dry, used, asks, _, carried⟩
  rcases carried.dried used asks with ⟨newly, given, _, yields, stands⟩
  rw [Bool.eq_false_iff]
  intro idle
  rw [Supply.sources_of_waiting idle] at yields
  have begins : stream <+: given := by
    have all := yields.reach_eq
    rw [Source.reach_nil, List.append_nil] at all
    exact all ▸ delivered.trans (Source.reach_prefix attached newly)
  have satisfied := Inflater.demand_of_isFinished finished begins
  rw [stands, asks] at satisfied
  cases satisfied

/-- No read of a call fails when a finished stream can be reached, because the decoder
has no need of bytes behind it. -/
theorem Reading.ok_of_isFinished
    (books : decoder.context.Books attached loaded taken bytes (decoder.attach source).intake)
    (finished : Deflate.Format.IsFinished stream output trailer)
    (delivered : stream <+: Source.reach (attached ++ arrivals.queue))
    (reading : decoder.Reading source arrivals through asked before) :
    ∃ more, (before.read asked).1 = .ok more := by
  rcases reading.carriesOn books with ⟨count, written, dry, used, asks, _, carried⟩
  rcases carried.dried used asks with ⟨newly, given, order, yields, stands⟩
  have line : Source.reach (attached ++ arrivals.queue) = given ++ before.reach := by
    have all := (yields.append before.arrivals.queue).reach_eq
    rwa [List.append_assoc, ← order] at all
  have positive : 0 < asked := count ▸ show 0 < Decompressor.chunk by decide
  have outcome := Supply.read_outcome positive before
  generalize (before.read asked).1 = answer at outcome
  cases outcome with
  | delivered => exact ⟨_, rfl⟩
  | failed nothing =>
    rw [nothing, List.append_nil] at line
    have satisfied := Inflater.demand_of_isFinished finished (line ▸ delivered)
    rw [stands, asks] at satisfied
    cases satisfied

/-- Of an error on a finished stream there are two origins left: the end of the stream,
if its checksum is right and the bytes that remain are no block, and the checksum
otherwise. -/
theorem Origin.of_isFinished {error : Error} {next : Decompressor} {rest : Supply}
    (books : decoder.context.Books attached loaded taken bytes (decoder.attach source).intake)
    (finished : Deflate.Format.IsFinished stream output trailer)
    (delivered : stream <+: Source.reach (attached ++ arrivals.queue))
    (whole : output = bytes ++ left)
    (sound : ∃ more headers behind,
      (Block.read decoder.config.maxBlockSize).follow (left ++ more) = some (.ok headers, behind))
    (origin : Origin attached bytes decoder source arrivals error next rest) :
    (error = .malformed .truncated ∧ trailer = (Checksum.ofBytes output).word ∧
        (Block.read decoder.config.maxBlockSize).follow left = none) ∨
      error = .compression (.fault .checksum) ∧ trailer ≠ (Checksum.ofBytes output).word := by
  rcases Inflater.expand_of_isFinished finished delivered with ⟨leads, writes⟩
  have supplied : attached ++ arrivals.queue =
      attached ++ ((decoder.attach source).supplyWith arrivals).arrivals.queue := rfl
  cases origin with
  | @data drawn _ _ _ followed carried =>
    -- What has been inflated is no beginning of a block, and there is a block all the same.
    have begins := carried.prefix_outputOf
    rw [← supplied, writes, whole, List.prefix_append_right_inj] at begins
    rcases begins with ⟨remaining, rfl⟩
    rcases sound with ⟨more, headers, behind, decoded⟩
    have failed := Plan.follow_append followed (remaining ++ more)
    rw [← List.append_assoc, decoded] at failed
    cases failed
  | @ended drawn _ _ short phase carried =>
    have asks : next.inflater.phase.demand = .nothing := by
      rw [phase]
      rfl
    have stands := carried.expand_reach asks
    rw [← supplied] at stands
    rw [Inflater.outputOf, stands, carried.output_eq, whole] at writes
    rw [List.append_cancel_left writes] at short
    rw [stands, phase] at leads
    by_cases right : trailer = (Checksum.ofBytes output).word
    · exact Or.inl ⟨rfl, right, short⟩
    · rw [if_neg right] at leads
      cases leads
  | @rejected reported _ _ rejects =>
    rcases rejects with @⟨given, fault, split, breaks, _, report⟩
    have asks : (Inflater.fresh.expand (Bits.ofBytes given)).phase.demand = .nothing := by
      rw [breaks]
      rfl
    rw [split, Bits.ofBytes_append, Inflater.expand_append_of_nothing asks, breaks] at leads
    by_cases right : trailer = (Checksum.ofBytes output).word
    · rw [if_pos right] at leads
      cases leads
    · rw [if_neg right] at leads
      cases leads
      have named : reported = .checksum := report.elim id id
      exact Or.inr ⟨congrArg (fun fault => Error.compression (.fault fault)) named, right⟩
  | failing reading read =>
    rcases reading.ok_of_isFinished books finished delivered with ⟨more, answer⟩
    rw [read] at answer
    cases answer

end

/-! ## One call after another -/

/-- A healthy decoder stands amid a finished stream.  It has returned the first blocks,
some others are left, and what has not been handed over yet is in `queue`. -/
structure Amid (stream output : List UInt8) (later : List (List Block.Entry))
    (queue : List Source) (decoder : Decoder) : Prop where
  healthy : decoder.poisoned = false
  stands : ∃ config handed results blocks left,
    Used.Booked config handed results decoder blocks ∧
      stream <+: Source.reach (handed ++ queue) ∧
      output = blocks.flatMap Block.layout ++ left ∧
      Block.CutShort config.maxBlockSize later left

namespace Amid

variable {stream output : List UInt8} {trailer : Nat} {later : List (List Block.Entry)}
  {queue : List Source} {decoder : Decoder} {source : Source} {arrivals : Arrivals}

theorem fresh {limit : Nat} (cut : Block.CutShort limit later output)
    (delivered : stream <+: Source.reach queue) :
    Amid stream output later queue { config := { maxBlockSize := limit } } where
  healthy := rfl
  stands := by
    have used : Used { maxBlockSize := limit } _ _ _ := .fresh
    rcases used.booked rfl with ⟨blocks, booked⟩
    have none : blocks = [] := List.map_eq_nil_iff.1 booked.results_eq.symm
    subst none
    exact ⟨_, [], [], [], output, booked, delivered, rfl, cut⟩

/-- More sources behind the others make no difference. -/
theorem append (amid : Amid stream output later queue decoder) (more : List Source) :
    Amid stream output later (queue ++ more) decoder where
  healthy := amid.healthy
  stands := by
    rcases amid.stands with ⟨config, handed, results, blocks, left, booked, delivered, whole, cut⟩
    refine ⟨config, handed, results, blocks, left, booked, ?_, whole, cut⟩
    rw [← List.append_assoc]
    exact delivered.trans (Source.reach_prefix _ more)

theorem attach (amid : Amid stream output later (source :: queue) decoder) :
    Amid stream output later queue (decoder.attach source) where
  healthy := amid.healthy
  stands := by
    rcases amid.stands with ⟨config, handed, results, blocks, left, booked, delivered, whole, cut⟩
    rw [List.append_cons] at delivered
    exact ⟨config, _, results, blocks, left, booked.attach source, delivered, whole, cut⟩

theorem attachAll {sources : List Source}
    (amid : Amid stream output later (sources ++ queue) decoder) :
    Amid stream output later queue (decoder.attachAll sources) := by
  induction sources generalizing decoder with
  | nil => exact amid
  | cons source rest inductionHypothesis => exact inductionHypothesis amid.attach

/-- Whatever is handed over around a call, the call finds the stream at hand or sees it
arrive. -/
theorem turn (amid : Amid stream output later queue decoder) (ahead : Nat) :
    Amid stream output later
      ((nextSource (queue.drop ahead)).1 :: (nextSource (queue.drop ahead)).2)
      (decoder.attachAll (queue.take ahead)) := by
  refine attachAll ?_
  have split := List.take_append_drop ahead queue
  cases rest : queue.drop ahead with
  | cons source behind =>
    rw [rest] at split
    rw [nextSource, split]
    exact amid
  | nil =>
    rw [rest, List.append_nil] at split
    rw [nextSource, split]
    exact amid.append [.ofBytes []]

/-- Headers that a call returns are those of the next block.  The decoder stands behind
it then. -/
theorem decoded {headers : Headers}
    (amid : Amid stream output later (source :: arrivals.queue) decoder)
    (finished : Deflate.Format.IsFinished stream output trailer)
    (result : (decoder.decodeFrom source arrivals).1 = .ok headers) :
    ∃ entries others, later = entries :: others ∧ headers = Block.meaning entries ∧
      Amid stream output others (decoder.decodeFrom source arrivals).2.1.queue
        (decoder.decodeFrom source arrivals).2.2 := by
  rcases amid.stands with ⟨config, handed, results, blocks, left, booked, delivered, whole, cut⟩
  rcases queue_decodeFrom decoder source arrivals with ⟨newly, order⟩
  rcases booked.decoded amid.healthy (Prod.ext result rfl) order.symm with ⟨entries, after⟩
  rcases after.books with ⟨_, _, books⟩
  have line : handed ++ source :: arrivals.queue =
      handed ++ source :: newly ++ (decoder.decodeFrom source arrivals).2.1.queue := by
    rw [← order, List.append_assoc, List.cons_append]
  -- What has been written ends with the block that has been returned.
  rcases prefix_outputOf_reach books (decoder.decodeFrom source arrivals).2.1.queue with
      ⟨_, rest, written⟩
  rw [← line, (Inflater.expand_of_isFinished finished delivered).2, whole, List.flatMap_append,
    List.flatMap_singleton, List.append_assoc, List.append_cancel_left_eq] at written
  have inside : entries ∈ blocks ++ [entries] :=
    List.mem_append_right _ (List.mem_singleton_self entries)
  rcases after.each entries inside with ⟨proper, fits⟩
  have returned := Block.follow_read proper rest fits
  rw [written] at returned
  cases later with
  | nil =>
    rw [cut.follow_nil] at returned
    cases returned
  | cons next others =>
    rcases cut.follow_cons with ⟨behind, followed, cutBehind⟩
    rw [returned, Option.some.injEq, Prod.mk.injEq, Except.ok.injEq] at followed
    rcases followed with ⟨same, rfl⟩
    refine ⟨next, others, rfl, after.last_eq.trans same, ?_⟩
    refine ⟨healthy_of_ok amid.healthy (Prod.ext result rfl), config, _, _, blocks ++ [entries],
      rest, after, line ▸ delivered, ?_, cutBehind⟩
    rw [whole, List.flatMap_append, List.flatMap_singleton, List.append_assoc, written]

/-- An error that a call returns is the one that the end of the stream has.  If the
checksum is right there is no block left then. -/
theorem failed {error : Error}
    (amid : Amid stream output later (source :: arrivals.queue) decoder)
    (finished : Deflate.Format.IsFinished stream output trailer)
    (result : (decoder.decodeFrom source arrivals).1 = .error error) :
    (trailer = (Checksum.ofBytes output).word ∧ later = [] ∧ error = .malformed .truncated) ∨
      trailer ≠ (Checksum.ofBytes output).word ∧ error = .compression (.fault .checksum) := by
  rcases amid.stands with ⟨config, handed, results, blocks, left, booked, delivered, whole, cut⟩
  rcases booked.books with ⟨loaded, taken, books⟩
  rw [List.append_cons] at delivered
  rw [← booked.same] at cut
  rcases origin_of_decodeFrom amid.healthy (books.attach source) result with ⟨rest, origin⟩
  rcases origin.of_isFinished (books.attach source) finished delivered whole
    cut.follow_some with ⟨same, right, short⟩ | ⟨same, wrong⟩
  · refine Or.inl ⟨right, ?_, same⟩
    cases later with
    | nil => rfl
    | cons entries others =>
      rcases cut.follow_cons with ⟨_, followed, _⟩
      rw [short] at followed
      cases followed
  · exact Or.inr ⟨wrong, same⟩

end Amid

/-- The results of some calls of which the first ones return headers and the next one
fails.  Behind it all calls are turned away. -/
def brokenOff (error : Error) : List Headers -> (calls : Nat) -> List (Except Error Headers)
  | _, 0 => []
  | [], calls + 1 => .error error :: List.replicate calls (.error .poisoned)
  | headers :: later, calls + 1 => .ok headers :: brokenOff error later calls

theorem brokenOff_zero (error : Error) (headers : List Headers) :
    brokenOff error headers 0 = [] := by
  cases headers with
  | nil => rfl
  | cons => rfl

/-- What arrives during the call of a turn. -/
def Turn.arrivals (turn : Turn) (queue : List Source) : Arrivals where
  queue := queue
  early := turn.early
  abandonment := turn.abandonment

/-- The call of a turn, when the sources of the turn have been handed over. -/
def takeTurn (decoder : Decoder) (queue : List Source) (turn : Turn) :
    Except Error Headers × Arrivals × Decoder :=
  (decoder.attachAll (queue.take turn.ahead)).decodeFrom (nextSource (queue.drop turn.ahead)).1
    (turn.arrivals (nextSource (queue.drop turn.ahead)).2)

theorem decodeTurns_cons (decoder : Decoder) (queue : List Source) (turn : Turn)
    (turns : List Turn) :
    decoder.decodeTurns queue (turn :: turns) = (decoder.takeTurn queue turn).1 ::
      (decoder.takeTurn queue turn).2.2.decodeTurns (decoder.takeTurn queue turn).2.1.queue
        turns :=
  rfl

theorem decodeTurns_of_poisoned {decoder : Decoder} (poisoned : decoder.poisoned = true)
    (queue : List Source) (turns : List Turn) :
    decoder.decodeTurns queue turns = List.replicate turns.length (.error .poisoned) := by
  induction turns generalizing decoder queue with
  | nil => rfl
  | cons turn turns inductionHypothesis =>
    have still : (decoder.attachAll (queue.take turn.ahead)).poisoned = true := poisoned
    rw [decodeTurns, List.length_cons, List.replicate_succ]
    simp only [decodeFrom_of_poisoned still]
    rw [inductionHypothesis still]

/-- A decoder amid a finished stream returns the blocks that are left, and then the error
that the end of the stream has.  Only a wrong checksum makes it fail earlier. -/
theorem Amid.decodeTurns_eq {stream output : List UInt8} {trailer : Nat}
    {later : List (List Block.Entry)} {queue : List Source} {decoder : Decoder}
    (amid : Amid stream output later queue decoder)
    (finished : Deflate.Format.IsFinished stream output trailer) (turns : List Turn) :
    ∃ count ≤ later.length, ∃ error,
      decoder.decodeTurns queue turns =
          brokenOff error ((later.take count).map Block.meaning) turns.length ∧
        (trailer = (Checksum.ofBytes output).word ∧ count = later.length ∧
            error = .malformed .truncated ∨
          trailer ≠ (Checksum.ofBytes output).word ∧
            error = .compression (.fault .checksum)) := by
  induction turns generalizing later queue decoder with
  | nil =>
    by_cases right : trailer = (Checksum.ofBytes output).word
    · exact ⟨later.length, Nat.le_refl _, _, (brokenOff_zero _ _).symm, Or.inl ⟨right, rfl, rfl⟩⟩
    · exact ⟨later.length, Nat.le_refl _, _, (brokenOff_zero _ _).symm, Or.inr ⟨right, rfl⟩⟩
  | cons turn turns inductionHypothesis =>
    have here : Amid stream output later ((nextSource (queue.drop turn.ahead)).1 ::
        (turn.arrivals (nextSource (queue.drop turn.ahead)).2).queue) _ := amid.turn turn.ahead
    rw [decodeTurns_cons]
    cases result : (decoder.takeTurn queue turn).1 with
    | ok headers =>
      rcases here.decoded finished result with ⟨entries, others, rfl, rfl, after⟩
      rcases inductionHypothesis after with ⟨count, few, error, results, ends⟩
      refine ⟨count + 1, Nat.succ_le_succ few, error, congrArg (_ :: ·) results, ?_⟩
      rcases ends with ⟨right, all, named⟩ | wrong
      · exact Or.inl ⟨right, congrArg Nat.succ all, named⟩
      · exact Or.inr wrong
    | error error =>
      have poisoned : (decoder.takeTurn queue turn).2.2.poisoned = true :=
        poisoned_of_error here.healthy (Prod.ext result rfl)
      refine ⟨0, Nat.zero_le _, error, congrArg (_ :: ·) (decodeTurns_of_poisoned poisoned _ _), ?_⟩
      rcases here.failed finished result with ⟨right, rfl, named⟩ | wrong
      · exact Or.inl ⟨right, rfl, named⟩
      · exact Or.inr wrong

/-! ## The end -/

/-- What comes of a finished stream whose output breaks off in a block.  It makes no
difference how it is cut into sources, when they are handed over and what comes behind
it.  If its last word is the checksum of the output, which does not cover the
dictionary, then all whole blocks are returned, and the next call says that the stream
has ended.  If it is not, then some blocks are returned, perhaps all that are whole, and
the next call says that the checksum is wrong.  As soon as the stream has been handed
over, no read of a call waits for more. -/
theorem decodeTurns_of_isFinished {stream output : List UInt8} {trailer limit : Nat}
    {blocks : List (List Block.Entry)} {queue : List Source}
    (finished : Deflate.Format.IsFinished stream output trailer)
    (cut : Block.CutShort limit blocks output) (delivered : stream <+: Source.reach queue)
    (turns : List Turn) :
    (trailer = (Checksum.ofBytes output).word ->
      ({ config := { maxBlockSize := limit } } : Decoder).decodeTurns queue turns =
        brokenOff (.malformed .truncated) (blocks.map Block.meaning) turns.length) ∧
    (trailer ≠ (Checksum.ofBytes output).word -> ∃ count ≤ blocks.length,
      ({ config := { maxBlockSize := limit } } : Decoder).decodeTurns queue turns =
        brokenOff (.compression (.fault .checksum)) ((blocks.take count).map Block.meaning)
          turns.length) ∧
    ∀ (handed : List Source) (results : List (Except Error Headers)) (decoder : Decoder),
      Used { maxBlockSize := limit } handed results decoder -> decoder.poisoned = false ->
      ∀ (source : Source) (arrivals : Arrivals), stream <+: Source.reach (handed ++ [source]) ->
      ∀ through asked before, decoder.Reading source arrivals through asked before ->
        before.receive.intake.isIdle = false := by
  rcases (Amid.fresh cut delivered).decodeTurns_eq finished turns with
      ⟨count, few, error, results, ends⟩
  refine ⟨?_, ?_, ?_⟩
  · intro right
    rcases ends with ⟨_, all, named⟩ | ⟨wrong, _⟩
    · rw [results, named, all, List.take_length]
    · exact absurd right wrong
  · intro wrong
    rcases ends with ⟨right, _, _⟩ | ⟨_, named⟩
    · exact absurd right wrong
    · exact ⟨count, few, named ▸ results⟩
  · intro handed results decoder used healthy source arrivals whole through asked before reading
    rcases used.booked healthy with ⟨done, booked⟩
    rcases booked.books with ⟨loaded, taken, books⟩
    exact reading.busy_of_isFinished (books.attach source) finished whole

/-- What is said to the user in the end. -/
example : (Error.malformed .truncated).message =
    "malformed header block: compressed stream ended inside a header block" := by decide +kernel

/-- A stream without its last word.  Its only block is in stored form and holds the block
of one entry and two bytes more. -/
def oneAndTwoBytes : List UInt8 :=
  [0x78, 0x9c, 0x01, 0x10, 0x00, 0xef, 0xff, 0, 0, 0, 1, 0, 0, 0, 1, 0x61, 0, 0, 0, 1, 0x62, 0, 0]

theorem isFinished_oneAndTwoBytes {trailer : Nat} (small : trailer < Word.limit) :
    Deflate.Format.IsFinished (oneAndTwoBytes ++ Word.toBytes trailer)
      (Block.layout [⟨"a", "b"⟩] ++ [0, 0]) trailer := by
  have head : Deflate.Format.Head [0x78, 0x9c] [] := .plain ⟨rfl, rfl, by decide⟩ rfl
  have aligned : [false, false, false, false, false].length = Bits.padding (16 + 3) := rfl
  have block : Deflate.Format.Block true 16 [] _ (Block.layout [⟨"a", "b"⟩] ++ [0, 0]) :=
    .stored aligned (by decide +kernel)
  refine ⟨small, oneAndTwoBytes, rfl, ?_⟩
  refine @Deflate.Format.IsStream.of _ _ _ [] _ _ _ [] head .none block ?_ ?_
  · decide +kernel
  · decide +kernel

theorem cutShort_oneAndTwoBytes :
    Block.CutShort 262144 [[⟨"a", "b"⟩]] (Block.layout [⟨"a", "b"⟩] ++ [0, 0]) where
  each := List.forall_mem_singleton.2 ⟨proper_storedEntry, by decide +kernel⟩
  last := by
    refine ⟨[⟨"a", "b"⟩], [0, 0], (Block.layout [⟨"a", "b"⟩]).drop 2, proper_storedEntry, ?_, ?_,
      ?_, rfl⟩
    all_goals decide +kernel

/-- With the right word behind it, cut in two and with a byte behind the end, and with a
wrong one. -/
theorem decodeTurns_oneAndTwoBytes :
    ({} : Decoder).decodeTurns
        [.ofBytes (oneAndTwoBytes.take 9),
          .ofBytes (oneAndTwoBytes.drop 9 ++ Word.toBytes 0x045800c7 ++ [0xff])] [{}, {}, {}] =
      [.ok (Block.meaning [⟨"a", "b"⟩]), .error (.malformed .truncated), .error .poisoned] ∧
    (∃ count ≤ 1,
      ({} : Decoder).decodeTurns [.ofBytes (oneAndTwoBytes ++ Word.toBytes 0)] [{}, {}] =
        brokenOff (.compression (.fault .checksum))
          (([[⟨"a", "b"⟩]].take count).map Block.meaning) 2) ∧
    ((({} : Decoder).attach (.ofBytes (oneAndTwoBytes ++ Word.toBytes 0))).supplyWith
      {}).receive.intake.isIdle = false := by
  have checksum : (Checksum.ofBytes (Block.layout [⟨"a", "b"⟩] ++ [0, 0])).word = 0x045800c7 := by
    decide +kernel
  have delivered : oneAndTwoBytes ++ Word.toBytes 0x045800c7 <+: Source.reach
      [.ofBytes (oneAndTwoBytes.take 9),
        .ofBytes (oneAndTwoBytes.drop 9 ++ Word.toBytes 0x045800c7 ++ [0xff])] := by
    decide +kernel
  have deliveredToo : oneAndTwoBytes ++ Word.toBytes 0 <+: Source.reach
      [.ofBytes (oneAndTwoBytes ++ Word.toBytes 0)] := by
    decide +kernel
  have right := decodeTurns_of_isFinished (isFinished_oneAndTwoBytes (by decide))
    cutShort_oneAndTwoBytes delivered [{}, {}, {}]
  have wrong := decodeTurns_of_isFinished (isFinished_oneAndTwoBytes (by decide))
    cutShort_oneAndTwoBytes deliveredToo [{}, {}]
  rw [checksum] at right wrong
  refine ⟨right.1 rfl, wrong.2.1 (by decide), ?_⟩
  exact wrong.2.2 [] [] {} .fresh rfl _ {} deliveredToo 4 _ _ (reading_fresh _ {})

end Decoder

end HeaderCodec
