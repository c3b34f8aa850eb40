import HeaderCodec.Proofs.Decoding
import HeaderCodec.Proofs.Deflate.Bookkeeping
import Mathlib.Algebra.GroupWithZero.Nat

namespace HeaderCodec
namespace Decoder

/-!
# Nothing is lost between blocks

A block may end anywhere in what has been read of the compressed stream, and
what is left of it belongs to the next block.  Meanwhile sources are handed over
at any time.  `Used` is any use of one decoder, with the sources that have been
handed over so far and the results of all calls.  As long as the decoder is
healthy, its books are in order, and `Used.conserves_bytes` reads them off: every
compressed byte is where it belongs, and what has been decompressed are the
blocks that have been returned.

Nothing is assumed about the compressed stream here.
-/

open Deflate (Decompressor)

section

variable {handed : List Source} {loaded : List (List UInt8)} {taken : List Bool}
  {bytes : List UInt8} {state : Decompressor} {supply : Supply}

/-! ## Following a plan -/

/-- Bytes that have been drawn successfully have been written. -/
theorem carriesOn_fill {result : List UInt8} (missing : Nat) (pieces : List (List UInt8))
    (state : Decompressor) (supply : Supply)
    (books : state.Books handed loaded taken bytes supply.intake)
    (filled : (fill missing pieces state supply).1 = .ok result) :
    ∃ drawn, result = pieces.reverse.flatten ++ drawn ∧ drawn.length = missing ∧
      Decompressor.CarriesOn handed (bytes ++ drawn) supply (fill missing pieces state supply).2.1
        (fill missing pieces state supply).2.2 := by
  fun_induction fill missing pieces state supply generalizing handed loaded taken bytes with
  | case1 pieces state supply =>
    cases filled
    exact ⟨[], (List.append_nil _).symm, rfl, .of_books ((List.append_nil bytes).symm ▸ books)⟩
  | case2 => cases filled
  | case3 => cases filled
  | case4 missing pieces state supply some byte more next rest answer inductionHypothesis =>
    have drawn := Decompressor.carriesOn_draw state supply missing books (congrArg Prod.fst answer)
    rw [answer] at drawn
    rcases drawn with ⟨fits, newly, _, _, order, after⟩
    rcases inductionHypothesis after filled with ⟨others, rfl, count, onward⟩
    refine ⟨byte :: more ++ others, ?_, ?_, ?_⟩
    · rw [List.reverse_cons, List.flatten_concat, List.append_assoc]
    · rw [List.length_cons] at fits
      rw [List.length_append, List.length_cons, count]
      omega
    · rw [← List.append_assoc]
      exact onward.trans order

/-- A plan that succeeds has followed the bytes that were written meanwhile. -/
theorem carriesOn_carryOut {Result : Type} {result : Result} (plan : Plan Result)
    (books : state.Books handed loaded taken bytes supply.intake)
    (done : (carryOut plan state supply).1 = .ok result) :
    ∃ drawn, plan.follow drawn = some (.ok result, []) ∧
      Decompressor.CarriesOn handed (bytes ++ drawn) supply (carryOut plan state supply).2.1
        (carryOut plan state supply).2.2 := by
  induction plan generalizing handed loaded taken bytes state supply with
  | done answer =>
    rw [carryOut] at done
    subst done
    exact ⟨[], rfl, .of_books ((List.append_nil bytes).symm ▸ books)⟩
  | take count next inductionHypothesis =>
    rw [carryOut] at done ⊢
    have filled := @carriesOn_fill handed loaded taken bytes
    generalize answer : fill count [] state supply = outcome at done ⊢
    rcases outcome with ⟨_ | field, after, rest⟩
    · cases done
    · have step := filled count [] state supply books (congrArg Prod.fst answer)
      rw [answer] at step
      rcases step with ⟨drawn, rfl, size, newly, _, _, order, onward⟩
      rcases inductionHypothesis field onward done with ⟨others, followed, carried⟩
      refine ⟨field ++ others, ?_, ?_⟩
      · rw [Plan.follow, if_pos (by rw [List.length_append]; omega), List.take_left' size,
          List.drop_left' size]
        exact followed
      · rw [← List.append_assoc]
        exact carried.trans order

end

/-! ## Any use of a decoder -/

/-- A call of a decoder. -/
structure Attempt where
  decoder : Decoder
  source : Source
  arrivals : Arrivals

/-- What the call returns. -/
def Attempt.result (attempt : Attempt) : Except Error Headers :=
  (attempt.decoder.decodeFrom attempt.source attempt.arrivals).1

/-- What can have been done with a decoder: the sources that have been handed
over, in order, and what is noted of all calls.  Sources are handed over between
calls, with a call, and while it is under way. -/
inductive Trace (config : DecoderConfig) {Note : Type} (Noted : Attempt -> Note -> Prop) :
    (handed : List Source) -> (notes : List Note) -> Decoder -> Prop where
  | fresh : Trace config Noted [] [] { config }
  | attach {handed : List Source} {notes : List Note} {decoder : Decoder}
      (trace : Trace config Noted handed notes decoder) (source : Source) :
      Trace config Noted (handed ++ [source]) notes (decoder.attach source)
  | called {handed newly : List Source} {notes : List Note} {decoder next : Decoder}
      {source : Source} {arrivals left : Arrivals} {result : Except Error Headers} {note : Note}
      (trace : Trace config Noted handed notes decoder) (healthy : decoder.poisoned = false)
      (answer : decoder.decodeFrom source arrivals = (result, left, next))
      (order : arrivals.queue = newly ++ left.queue)
      (noted : Noted ⟨decoder, source, arrivals⟩ note) :
      Trace config Noted (handed ++ source :: newly) (notes ++ [note]) next
  | refused {handed : List Source} {notes : List Note} {decoder next : Decoder}
      {source : Source} {arrivals left : Arrivals} {result : Except Error Headers} {note : Note}
      (trace : Trace config Noted handed notes decoder) (poisoned : decoder.poisoned = true)
      (answer : decoder.decodeFrom source arrivals = (result, left, next))
      (noted : Noted ⟨decoder, source, arrivals⟩ note) :
      Trace config Noted handed (notes ++ [note]) next

/-- Something else can be noted of the same calls. -/
theorem Trace.renote {config : DecoderConfig} {Note Other : Type} {Noted : Attempt -> Note -> Prop}
    {Observed : Attempt -> Other -> Prop} {handed : List Source} {notes : List Note}
    {decoder : Decoder} (each : ∀ attempt, ∃ other, Observed attempt other)
    (trace : Trace config Noted handed notes decoder) :
    ∃ others, Trace config Observed handed others decoder := by
  induction trace with
  | fresh => exact ⟨[], .fresh⟩
  | attach _ source inductionHypothesis =>
    rcases inductionHypothesis with ⟨others, trace⟩
    exact ⟨others, trace.attach source⟩
  | called _ healthy answer order _ inductionHypothesis =>
    rcases inductionHypothesis with ⟨others, trace⟩
    rcases each _ with ⟨other, observed⟩
    exact ⟨others ++ [other], trace.called healthy answer order observed⟩
  | refused _ poisoned answer _ inductionHypothesis =>
    rcases inductionHypothesis with ⟨others, trace⟩
    rcases each _ with ⟨other, observed⟩
    exact ⟨others ++ [other], trace.refused poisoned answer observed⟩

/-- A use of a decoder, with the results of all calls. -/
def Used (config : DecoderConfig) : (handed : List Source) ->
    (results : List (Except Error Headers)) -> Decoder -> Prop :=
  Trace config fun attempt result => attempt.result = result

namespace Used

variable {config : DecoderConfig} {handed newly : List Source}
  {results : List (Except Error Headers)} {decoder next : Decoder} {source : Source}
  {arrivals left : Arrivals}

theorem fresh : Used config [] [] { config } :=
  Trace.fresh

theorem attach (used : Used config handed results decoder) (source : Source) :
    Used config (handed ++ [source]) results (decoder.attach source) :=
  Trace.attach used source

theorem called {result : Except Error Headers} (used : Used config handed results decoder)
    (healthy : decoder.poisoned = false)
    (answer : decoder.decodeFrom source arrivals = (result, left, next))
    (order : arrivals.queue = newly ++ left.queue) :
    Used config (handed ++ source :: newly) (results ++ [result]) next :=
  Trace.called used healthy answer order (congrArg Prod.fst answer)

theorem refused {result : Except Error Headers} (used : Used config handed results decoder)
    (poisoned : decoder.poisoned = true)
    (answer : decoder.decodeFrom source arrivals = (result, left, next)) :
    Used config handed (results ++ [result]) next :=
  Trace.refused used poisoned answer (congrArg Prod.fst answer)

/-- The cases of a use, in which the result that is noted is the one of the call. -/
@[elab_as_elim, induction_eliminator]
theorem cases_of_trace {motive : (handed : List Source) ->
      (results : List (Except Error Headers)) -> (decoder : Decoder) ->
      Used config handed results decoder -> Prop}
    (fresh : motive [] [] { config } .fresh)
    (attach : ∀ {handed : List Source} {results : List (Except Error Headers)} {decoder : Decoder}
      (used : Used config handed results decoder) (source : Source),
      motive handed results decoder used ->
      motive (handed ++ [source]) results (decoder.attach source) (used.attach source))
    (called : ∀ {handed newly : List Source} {results : List (Except Error Headers)}
      {decoder next : Decoder} {source : Source} {arrivals left : Arrivals}
      {result : Except Error Headers} (used : Used config handed results decoder)
      (healthy : decoder.poisoned = false)
      (answer : decoder.decodeFrom source arrivals = (result, left, next))
      (order : arrivals.queue = newly ++ left.queue),
      motive handed results decoder used ->
      motive (handed ++ source :: newly) (results ++ [result]) next
        (used.called healthy answer order))
    (refused : ∀ {handed : List Source} {results : List (Except Error Headers)}
      {decoder next : Decoder} {source : Source} {arrivals left : Arrivals}
      {result : Except Error Headers} (used : Used config handed results decoder)
      (poisoned : decoder.poisoned = true)
      (answer : decoder.decodeFrom source arrivals = (result, left, next)),
      motive handed results decoder used ->
      motive handed (results ++ [result]) next (used.refused poisoned answer))
    (used : Used config handed results decoder) : motive handed results decoder used := by
  induction used using Trace.rec with
  | fresh => exact fresh
  | attach trace source inductionHypothesis => exact attach trace source inductionHypothesis
  | called trace healthy answer order noted inductionHypothesis =>
    cases (congrArg Prod.fst answer).symm.trans noted
    exact called trace healthy answer order inductionHypothesis
  | refused trace poisoned answer noted inductionHypothesis =>
    cases (congrArg Prod.fst answer).symm.trans noted
    exact refused trace poisoned answer inductionHypothesis

/-- Every call of a healthy decoder is a use, whatever comes of it. -/
theorem call (used : Used config handed results decoder) (healthy : decoder.poisoned = false)
    (source : Source) (arrivals : Arrivals) :
    ∃ newly, arrivals.queue = newly ++ (decoder.decodeFrom source arrivals).2.1.queue ∧
      Used config (handed ++ source :: newly)
        (results ++ [(decoder.decodeFrom source arrivals).1])
        (decoder.decodeFrom source arrivals).2.2 := by
  rcases queue_decodeFrom decoder source arrivals with ⟨newly, order⟩
  exact ⟨newly, order.symm, used.called healthy rfl order.symm⟩

/-- A call during which nothing arrives. -/
theorem alone {result : Except Error Headers} (used : Used config handed results decoder)
    (healthy : decoder.poisoned = false) (source : Source)
    (answer : (decoder.decodeFrom source {}).1 = result) :
    Used config (handed ++ [source]) (results ++ [result]) (decoder.decodeFrom source {}).2.2 := by
  rcases used.call healthy source {} with ⟨newly, order, after⟩
  rw [(List.append_eq_nil_iff.1 order.symm).1, answer] at after
  exact after

/-- The books of a healthy decoder.  Every call has returned a block that fits,
and the decompressor has written just these blocks. -/
structure Booked (config : DecoderConfig) (handed : List Source)
    (results : List (Except Error Headers)) (decoder : Decoder)
    (blocks : List (List Block.Entry)) : Prop where
  same : decoder.config = config
  results_eq : results = blocks.map fun entries => .ok (Block.meaning entries)
  each : ∀ entries ∈ blocks, Block.Proper entries ∧
    (Block.layout entries).length ≤ config.maxBlockSize
  books : ∃ loaded taken, decoder.context.Books handed loaded taken (blocks.flatMap Block.layout)
    decoder.intake

theorem Booked.attach {blocks : List (List Block.Entry)}
    (booked : Booked config handed results decoder blocks) (source : Source) :
    Booked config (handed ++ [source]) results (decoder.attach source) blocks where
  same := booked.same
  results_eq := booked.results_eq
  each := booked.each
  books := by
    rcases booked.books with ⟨loaded, taken, books⟩
    exact ⟨loaded, taken, books.attach source⟩

/-- A call that succeeds has taken one more block from the stream. -/
theorem Booked.decoded {blocks : List (List Block.Entry)} {headers : Headers}
    (booked : Booked config handed results decoder blocks) (healthy : decoder.poisoned = false)
    (answer : decoder.decodeFrom source arrivals = (.ok headers, left, next))
    (order : arrivals.queue = newly ++ left.queue) :
    ∃ entries, Booked config (handed ++ source :: newly) (results ++ [.ok headers]) next
      (blocks ++ [entries]) := by
  rcases (booked.attach source).books with ⟨loaded, taken, books⟩
  rw [decodeFrom_eq healthy] at answer
  have carried := @carriesOn_carryOut _ _ _ _ decoder.context
    ((decoder.attach source).supplyWith arrivals) Headers headers
    (Block.read decoder.config.maxBlockSize) books
  generalize carryOut (Block.read decoder.config.maxBlockSize) _ _ = outcome at answer carried
  rcases outcome with ⟨result, state, supply⟩
  cases answer
  rcases carried rfl with ⟨drawn, followed, others, loadedNext, takenNext, split, after⟩
  rcases Block.block_of_follow followed with ⟨entries, proper, rfl, fits, rfl⟩
  have sameSources : newly = others := List.append_cancel_right (order.symm.trans split)
  subst sameSources
  refine ⟨entries, booked.same, ?_, ?_, loadedNext, takenNext, ?_⟩
  · rw [booked.results_eq, List.map_append, List.map_singleton]
  · intro block member
    rcases List.mem_append.1 member with earlier | last
    · exact booked.each block earlier
    · rcases List.mem_singleton.1 last with rfl
      exact ⟨proper, booked.same ▸ fits⟩
  · rw [List.append_cons, List.flatMap_append, List.flatMap_singleton]
    rwa [List.append_nil] at after

theorem booked (used : Used config handed results decoder) (healthy : decoder.poisoned = false) :
    ∃ blocks, Booked config handed results decoder blocks := by
  induction used with
  | fresh =>
    refine ⟨[], rfl, rfl, fun _ member => absurd member List.not_mem_nil, [], [], ?_⟩
    exact Decompressor.books_fresh
  | attach _ source inductionHypothesis =>
    rcases inductionHypothesis healthy with ⟨blocks, booked⟩
    exact ⟨blocks, booked.attach source⟩
  | @called _ _ _ _ _ _ _ _ result _ before answer order inductionHypothesis =>
    cases result with
    | error error =>
      rw [poisoned_of_error before answer] at healthy
      contradiction
    | ok headers =>
      rcases inductionHypothesis before with ⟨blocks, booked⟩
      rcases booked.decoded before answer order with ⟨entries, after⟩
      exact ⟨blocks ++ [entries], after⟩
  | @refused _ _ _ _ source arrivals _ _ _ poisoned answer _ =>
    rw [decodeFrom_of_poisoned poisoned] at answer
    cases answer
    rw [poisoned] at healthy
    contradiction

/-- The places of all bytes between two calls, of which the last has returned the last
of `blocks`. -/
structure Conserved (handed : List Source) (results : List (Except Error Headers))
    (decoder : Decoder) (blocks : List (List Block.Entry)) (consumed chunk : List UInt8)
    (position : Nat) : Prop where
  /-- The decompressor has consumed some bytes and stands in the middle of a chunk.  What
  it has written are the bytes of the blocks. -/
  stands : decoder.context.Stands consumed chunk position (blocks.flatMap Block.layout)
  /-- The compressed bytes follow each other in the order in which the sources were handed
  over: what has been consumed, the part of the chunk behind the position, what is being
  drained, and what waits. -/
  content_eq : consumed ++ chunk.drop position ++
      decoder.intake.current.flatMap Source.content ++
      decoder.intake.pending.flatMap Source.content = handed.flatMap Source.content
  results_eq : results = blocks.map fun entries => .ok (Block.meaning entries)
  proper : ∀ entries ∈ blocks, Block.Proper entries
  outputSize_eq : decoder.context.inflater.outputSize =
    (blocks.map fun entries => (Block.layout entries).length).sum

/-- Between calls every compressed byte has its place, and the bytes that have been
written are those of the blocks that have been returned. -/
theorem conserves_bytes (used : Used config handed results decoder)
    (healthy : decoder.poisoned = false) (quiet : ∀ source ∈ handed, source.Quiet) :
    ∃ blocks consumed chunk position,
      Conserved handed results decoder blocks consumed chunk position := by
  rcases used.booked healthy with ⟨blocks, booked⟩
  rcases booked.books with ⟨loaded, taken, books⟩
  rcases books.stands with ⟨consumed, chunk, position, stands, parts⟩
  refine ⟨blocks, consumed, chunk, position, stands, ?_, booked.results_eq,
    fun entries member => (booked.each entries member).1, ?_⟩
  · rw [← parts, books.content_eq quiet, Intake.sources, List.flatMap_append, List.append_assoc]
  · rw [stands.outputSize_eq, List.length_flatMap]

/-- `storedEntry` with something behind it.  The first cut is within the entry. -/
def cutEntry : List Source :=
  [.ofBytes (storedEntry.take 10), .ofBytes (storedEntry.drop 10 ++ [0, 0]), .ofBytes [9]]

/-- A call during which the second piece arrives.  What would arrive after it does
not get its turn. -/
def cutCall : Except Error Headers × Arrivals × Decoder :=
  ({} : Decoder).decodeFrom (.ofBytes (storedEntry.take 10))
    { queue := [.ofBytes (storedEntry.drop 10 ++ [0, 0]), .ofBytes [1]] }

/-- The last piece is handed over after the call. -/
def afterCut : Decoder :=
  cutCall.2.2.attach (.ofBytes [9])

theorem used_afterCut : Used {} cutEntry [.ok (Block.meaning [⟨"a", "b"⟩])] afterCut := by
  have answer : cutCall.1 = .ok (Block.meaning [⟨"a", "b"⟩]) := by decide +kernel
  have left : cutCall.2.1.queue = [.ofBytes [1]] := by decide +kernel
  have order : [Source.ofBytes (storedEntry.drop 10 ++ [0, 0]), .ofBytes [1]] =
      [.ofBytes (storedEntry.drop 10 ++ [0, 0])] ++ cutCall.2.1.queue := by
    rw [left]
    rfl
  exact (Used.called .fresh rfl (Prod.ext answer rfl) order).attach _

theorem conserves_bytes_afterCut :
    ∃ blocks consumed chunk position,
      Conserved cutEntry [.ok (Block.meaning [⟨"a", "b"⟩])] afterCut blocks consumed chunk
        position := by
  have healthy : afterCut.poisoned = false := by decide +kernel
  have quiet : ∀ source ∈ cutEntry, source.Quiet :=
    Source.quiet_map_ofBytes [storedEntry.take 10, storedEntry.drop 10 ++ [0, 0], [9]]
  exact used_afterCut.conserves_bytes healthy quiet

end Used

end Decoder
end HeaderCodec
