import HeaderCodec.Proofs.Decoding
import HeaderCodec.Proofs.Sending

namespace HeaderCodec
namespace Decoder

/-!
# Whole sessions

What one encoder sends is decoded by one decoder, from the first block to the
last.  Two ways of handing the bytes over are looked at.

Each block may be given to a call of its own.  Then no call waits for anything,
although the end of each block stays behind as the beginning of the next call's
input.

Or the bytes may be cut anywhere, with no regard to blocks, and handed over at
any time before, between and during the calls.  Then a call finds its bytes in
three places: what was read and not taken, what is being drained, and what
waits.  The outlook of the decoder covers all three together with what has not
been handed over yet, so that nothing has to be known about where a block ends.
-/

open Deflate (Deflater Inflater)
open Encoder (Call Chained Transmission)

/-! ## Blocks one by one -/

/-- The results of decoding each block in a call of its own.  A call that has to
wait is broken off. -/
def decodeEach (decoder : Decoder) (abandonment : Failure) :
    List (List UInt8) -> List (Except Error Headers)
  | [] => []
  | block :: blocks =>
    let (result, _, next) := decoder.decode block { abandonment }
    result :: next.decodeEach abandonment blocks

/-- The block of accepted headers is decoded to these headers, whatever follows
it. -/
theorem decodeFrom_of_sent {decoder : Decoder} {source : Source} {arrivals : Arrivals}
    {headers : Headers} {rest : List UInt8} {final : Inflater}
    (healthy : decoder.poisoned = false)
    (outlook : decoder.context.Outlook ((decoder.attach source).supplyWith arrivals)
      (Block.write headers ++ rest) final)
    (accepted : Encoder.fault? headers = none)
    (fits : (Block.write headers).length ≤ decoder.config.maxBlockSize) :
    ∃ left next, decoder.decodeFrom source arrivals = (.ok headers, left, next) ∧
      next.context.Outlook (next.supplyWith left) rest final ∧ next.poisoned = false ∧
      next.config = decoder.config := by
  rw [Block.write_eq] at outlook fits
  have answer :=
    decodeFrom_of_outlook healthy outlook (Block.proper_of_accepted accepted) fits
  rw [Block.meaning_entriesOf accepted] at answer
  exact answer

theorem sources_attach (decoder : Decoder) (source : Source) (arrivals : Arrivals) :
    ((decoder.attach source).supplyWith arrivals).sources =
      decoder.intake.current ++ decoder.intake.pending ++ (source :: arrivals.queue) := by
  rw [Supply.sources, supplyWith, attach, Intake.attach, ← List.append_assoc,
    List.append_assoc _ [source]]
  rfl

theorem decodeEach_of_chained {decoder : Decoder} {state : Inflater} {abandonment : Failure}
    {sent : List Transmission} (chained : Chained state sent)
    (asks : state.phase.demand = .bit) (healthy : decoder.poisoned = false)
    (outlook : decoder.context.Outlook (decoder.supplyWith { abandonment }) [] state)
    (fits : ∀ one ∈ sent, (Block.write one.headers).length ≤ decoder.config.maxBlockSize) :
    decoder.decodeEach abandonment (sent.map Transmission.block) =
      sent.map fun one => .ok one.headers := by
  induction chained generalizing decoder with
  | done => rfl
  | @next state after one later accepted course asksAgain _ inductionHypothesis =>
    have line : Supply.sources
        ((decoder.attach (.ofBytes one.block)).supplyWith { abandonment }) =
          Supply.sources (decoder.supplyWith { abandonment }) ++ [.ofBytes one.block] := by
      rw [sources_attach, Supply.sources, supplyWith, List.append_nil]
    have content : (Source.ofBytes one.block).content = one.block := Source.content_ofBytes _
    have larger := outlook.append asks line (Source.quiet_ofBytes one.block)
      (content.symm ▸ Inflater.Leads.of_course course asksAgain)
    rw [List.nil_append, ← List.append_nil (Block.write _)] at larger
    rcases decodeFrom_of_sent healthy larger accepted (fits one List.mem_cons_self) with
        ⟨left, next, answer, onward, stillHealthy, same⟩
    have none : left.queue = [] := by
      have taken := queue_decodeFrom decoder (.ofBytes one.block) { abandonment }
      rw [answer] at taken
      exact List.suffix_nil.1 taken
    have lineNext : Supply.sources (next.supplyWith { abandonment }) =
        Supply.sources (next.supplyWith left) := by
      rw [Supply.sources, Supply.sources, supplyWith, supplyWith, none]
    have results := inductionHypothesis asksAgain stillHealthy (onward.of_sources_eq lineNext)
      fun other member => same ▸ fits other (List.mem_cons_of_mem one member)
    rw [List.map_cons, List.map_cons, ← results, decodeEach, decode, answer]

/-- Every block that an encoder sends is decoded to the headers that it was sent
for, if all of them fit.  It makes no difference what other calls there were in
between.  No call has to wait. -/
theorem decodeEach_transmissions {State : Type} [Compressor State] [Compressor.Flushing State]
    {config : EncoderConfig} {calls : List Call} {limit : Nat} (abandonment : Failure)
    (fits : ∀ sent ∈ ({ config } : Encoder State).transmissions calls,
      (Block.write sent.headers).length ≤ limit) :
    ({ config := { maxBlockSize := limit } } : Decoder).decodeEach abandonment
        ((({ config } : Encoder State).transmissions calls).map Transmission.block) =
      (({ config } : Encoder State).transmissions calls).map fun sent => .ok sent.headers := by
  have produced := @Encoder.produced_transmissions State _ _ _ _ { config } .fresh calls
  refine decodeEach_of_chained (produced.chained .fresh) rfl rfl ⟨?_, ?_⟩ fits
  · intro source member
    cases member
  · exact .of_course (.rest _) rfl

/-- Two calls that succeed, one that is refused, and one whose sink fails. -/
def mixedCalls : List Call :=
  [.encode (.ofList [("Vary", "b"), ("vary", ""), ("Host", "a")]),
    .encode (.ofList [("", "a")]),
    .encodeTo (.ofList [("host", "a")]) { perWrite := some 3 },
    .encodeTo (.ofList [("host", "c")]) { events := [.room 1, .refuse] }]

theorem decodeEach_mixedCalls :
    ({ config := { maxBlockSize := 40 } } : Decoder).decodeEach Sink.takesNothing
        ((({} : Encoder Deflater).transmissions mixedCalls).map Transmission.block) =
      (({} : Encoder Deflater).transmissions mixedCalls).map fun sent => .ok sent.headers := by
  have small : ∀ call ∈ mixedCalls, (Block.write call.headers).length ≤ 40 := by
    decide +kernel
  exact decodeEach_transmissions Sink.takesNothing (Encoder.fits_of_calls small)

/-! ## Bytes cut anywhere -/

/-- When sources are handed over around one call. -/
structure Turn where
  /-- The number of sources that are handed over before the call. -/
  ahead : Nat := 0
  /-- The numbers of sources that are handed over before the reads of the call.
  Beyond these, one is handed over whenever the reader waits. -/
  early : List Nat := []
  /-- How a wait ends when all sources have been handed over. -/
  abandonment : Failure := { kind := .timedOut, message := "starved" }

/-- Hand over several sources before a call. -/
def attachAll (decoder : Decoder) (sources : List Source) : Decoder :=
  { decoder with intake := decoder.intake.attachAll sources }

/-- The source given to a call, which is an empty one when there are no more,
and the sources behind it. -/
def nextSource : List Source -> Source × List Source
  | [] => (.ofBytes [], [])
  | source :: later => (source, later)

/-- The results of successive calls, while sources are handed over in order. -/
def decodeTurns (decoder : Decoder) (queue : List Source) :
    List Turn -> List (Except Error Headers)
  | [] => []
  | turn :: turns =>
    let (source, later) := nextSource (queue.drop turn.ahead)
    let (result, left, next) := (decoder.attachAll (queue.take turn.ahead)).decodeFrom source
      { queue := later, early := turn.early, abandonment := turn.abandonment }
    result :: next.decodeTurns left.queue turns

/-- Handing over some sources before a call and another one with it changes
neither the bytes to come nor their order. -/
theorem outlook_attachAll {decoder : Decoder} {queue : List Source} {bytes : List UInt8}
    {final : Inflater}
    (outlook : decoder.context.Outlook (decoder.supplyWith { queue }) bytes final) (turn : Turn) :
    (decoder.attachAll (queue.take turn.ahead)).context.Outlook
      (((decoder.attachAll (queue.take turn.ahead)).attach
          (nextSource (queue.drop turn.ahead)).1).supplyWith
        { queue := (nextSource (queue.drop turn.ahead)).2, early := turn.early,
          abandonment := turn.abandonment }) bytes final := by
  have line : ∀ source later, Supply.sources
      (((decoder.attachAll (queue.take turn.ahead)).attach source).supplyWith
        { queue := later, early := turn.early, abandonment := turn.abandonment }) =
          decoder.intake.current ++ decoder.intake.pending ++ queue.take turn.ahead ++
            (source :: later) := by
    intro source later
    rw [sources_attach, attachAll, Intake.attachAll_eq, ← List.append_assoc]
  have before : Supply.sources (decoder.supplyWith { queue }) =
      decoder.intake.current ++ decoder.intake.pending ++ queue.take turn.ahead ++
        queue.drop turn.ahead := by
    rw [List.append_assoc _ (queue.take _), List.take_append_drop]
    rfl
  cases rest : queue.drop turn.ahead with
  | cons source later =>
    rw [rest] at before
    exact outlook.of_sources_eq ((line source later).trans before.symm)
  | nil =>
    rw [rest, List.append_nil] at before
    have longer := (line (.ofBytes []) []).trans (congrArg (· ++ [Source.ofBytes []]) before.symm)
    apply outlook.of_content_eq
    · intro source member
      rw [nextSource, longer] at member
      rcases List.mem_append.1 member with inside | last
      · exact outlook.quiet source inside
      · exact List.mem_singleton.1 last ▸ Source.quiet_ofBytes []
    · rw [nextSource, Supply.content_eq, Supply.content_eq, longer, List.flatMap_append,
        List.flatMap_singleton, Source.content_ofBytes, List.append_nil]

theorem decodeTurns_of_outlook {decoder : Decoder} {queue : List Source} {turns : List Turn}
    {sent : List Transmission} {final : Inflater} (healthy : decoder.poisoned = false)
    (outlook : decoder.context.Outlook (decoder.supplyWith { queue })
      (sent.flatMap fun one => Block.write one.headers) final)
    (each : ∀ one ∈ sent, Encoder.fault? one.headers = none ∧
      (Block.write one.headers).length ≤ decoder.config.maxBlockSize)
    (enough : turns.length ≤ sent.length) :
    decoder.decodeTurns queue turns =
      (sent.take turns.length).map fun one => .ok one.headers := by
  induction turns generalizing decoder queue sent with
  | nil => rw [List.length_nil, List.take_zero]; rfl
  | cons turn turns inductionHypothesis =>
    cases sent with
    | nil => cases enough
    | cons one later =>
      rcases each one List.mem_cons_self with ⟨accepted, fits⟩
      have ready := outlook_attachAll outlook turn
      rw [List.flatMap_cons] at ready
      have stillWell : (decoder.attachAll (queue.take turn.ahead)).poisoned = false := healthy
      rcases decodeFrom_of_sent stillWell ready accepted fits with
          ⟨left, next, answer, onward, stillHealthy, same⟩
      have remaining : next.context.Outlook (next.supplyWith { queue := left.queue })
          (later.flatMap fun one => Block.write one.headers) final := onward.of_sources_eq rfl
      have results := inductionHypothesis stillHealthy remaining
        (fun other member => same ▸ each other (List.mem_cons_of_mem one member))
        (Nat.le_of_succ_le_succ enough)
      rw [List.length_cons, List.take_succ_cons, List.map_cons, ← results, decodeTurns]
      simp only [answer]

/-- One decoder gives back the headers of all blocks, call by call.  It makes no
difference where the bytes of the blocks are cut into sources, how the sources
hand them out, and when they are handed over. -/
theorem decodeTurns_transmissions {State : Type} [Compressor State]
    [Compressor.Flushing State] {config : EncoderConfig} {calls : List Call} {limit : Nat}
    {queue : List Source} {turns : List Turn}
    (fits : ∀ sent ∈ ({ config } : Encoder State).transmissions calls,
      (Block.write sent.headers).length ≤ limit)
    (quiet : ∀ source ∈ queue, source.Quiet)
    (cut : queue.flatMap Source.content =
      (({ config } : Encoder State).transmissions calls).flatMap Transmission.block)
    (enough : turns.length ≤ (({ config } : Encoder State).transmissions calls).length) :
    ({ config := { maxBlockSize := limit } } : Decoder).decodeTurns queue turns =
      ((({ config } : Encoder State).transmissions calls).take turns.length).map
        fun sent => .ok sent.headers := by
  have produced := @Encoder.produced_transmissions State _ _ _ _ { config } .fresh calls
  rcases (produced.chained .fresh).leads rfl with ⟨final, leads⟩
  rw [← cut] at leads
  refine decodeTurns_of_outlook rfl ⟨quiet, leads⟩ ?_ enough
  intro one member
  exact ⟨produced.accepted one member, fits one member⟩

def twoMaps : List Headers :=
  [.ofList [("Vary", "b"), ("vary", ""), ("Host", "a")], .ofList [("host", "a")]]

/-- What is sent for `twoMaps`, cut within the beginning of the stream, with a
source in between that holds nothing and is interrupted once. -/
def twoMapsInThree : List Source :=
  let sent := ({} : Encoder Deflater).transmissions (twoMaps.map .encode)
  let bytes := sent.flatMap Transmission.block
  [.ofBytes (bytes.take 3), { events := [.failing { kind := .interrupted, message := "" }] },
    .ofBytes (bytes.drop 3)]

theorem content_twoMapsInThree :
    twoMapsInThree.flatMap Source.content =
      (({} : Encoder Deflater).transmissions (twoMaps.map .encode)).flatMap Transmission.block := by
  have nothing :
      Source.content { events := [.failing { kind := .interrupted, message := "" }] } = [] := rfl
  rw [twoMapsInThree, List.flatMap_cons, List.flatMap_cons, List.flatMap_singleton, nothing,
    List.nil_append, Source.content_ofBytes, Source.content_ofBytes, List.take_append_drop]

theorem quiet_twoMapsInThree : ∀ source ∈ twoMapsInThree, source.Quiet := by
  simp only [twoMapsInThree, List.forall_mem_cons]
  exact ⟨Source.quiet_ofBytes _, ⟨rfl, trivial⟩, Source.quiet_ofBytes _,
    fun source member => absurd member List.not_mem_nil⟩

theorem decodeTurns_twoMapsInThree :
    ({ config := { maxBlockSize := 40 } } : Decoder).decodeTurns twoMapsInThree
        [{ early := [0, 1] }, {}] = twoMaps.map .ok := by
  have accepted : ∀ headers ∈ twoMaps, Encoder.fault? headers = none := by
    decide +kernel
  have sent := @Encoder.headers_transmissions_encode Deflater _ {} _ _ rfl accepted
  have small : ∀ call ∈ twoMaps.map Call.encode, (Block.write call.headers).length ≤ 40 := by
    decide +kernel
  have count : (({} : Encoder Deflater).transmissions (twoMaps.map .encode)).length = 2 := by
    rw [← List.length_map Transmission.headers, sent]
    rfl
  have enough : [({ early := [0, 1] } : Turn), {}].length ≤
      (({} : Encoder Deflater).transmissions (twoMaps.map .encode)).length :=
    Nat.le_of_eq count.symm
  have results := decodeTurns_transmissions (Encoder.fits_of_calls small)
    quiet_twoMapsInThree content_twoMapsInThree enough
  have whole := List.take_of_length_le (Nat.le_of_eq count)
  have gathered := congrArg (List.map (@Except.ok Error Headers)) sent
  rw [List.map_map] at gathered
  exact results.trans ((congrArg (List.map _) whole).trans gathered)

end Decoder
end HeaderCodec
