import HeaderCodec.Proofs.Conservation

namespace HeaderCodec

/-!
# Streams that may be broken

A compressed stream may break any rule of its format, and a decoder may come
upon the fault at one call or another, depending on how the stream was cut.  A
fault can only take headers away.  There is one list of headers for any bytes at
all, `Block.readAll` of what the bytes stand for up to the first fault, and
whatever a call returns is found there at the place of the call.
-/

namespace Block

/-- A block takes up some bytes. -/
theorem length_of_follow {limit : Nat} {bytes rest : List UInt8} {headers : Headers}
    (done : (read limit).follow bytes = some (.ok headers, rest)) :
    rest.length < bytes.length := by
  rcases block_of_follow done with ⟨entries, _, rfl, _⟩
  rw [List.length_append, length_layout]
  omega

/-- The headers that are read from some bytes, block after block, as long as there
is a block that fits. -/
def readAll (limit : Nat) (bytes : List UInt8) : List Headers :=
  match _ : (read limit).follow bytes with
  | some (.ok headers, rest) => headers :: readAll limit rest
  | _ => []
termination_by bytes.length
decreasing_by
  rename_i done
  exact length_of_follow done

variable {limit : Nat}

theorem readAll_layout {entries : List Entry} (proper : Proper entries)
    (fits : (layout entries).length ≤ limit) (rest : List UInt8) :
    readAll limit (layout entries ++ rest) = meaning entries :: readAll limit rest := by
  have followed := follow_read proper rest fits
  rw [readAll]
  split
  · rename_i same
    rw [followed] at same
    cases same
    rfl
  · rename_i other
    exact absurd followed (other _ _)

theorem readAll_blocks {blocks : List (List Entry)}
    (each : ∀ entries ∈ blocks, Proper entries ∧ (layout entries).length ≤ limit)
    (rest : List UInt8) :
    readAll limit (blocks.flatMap layout ++ rest) =
      blocks.map meaning ++ readAll limit rest := by
  induction blocks with
  | nil => rfl
  | cons entries others inductionHypothesis =>
    rcases each entries List.mem_cons_self with ⟨proper, fits⟩
    rw [List.flatMap_cons, List.append_assoc, readAll_layout proper fits, List.map_cons,
      inductionHypothesis fun other member => each other (List.mem_cons_of_mem entries member)]
    rfl

end Block

namespace Decoder
namespace Used

open Deflate (Inflater)

variable {config : DecoderConfig} {handed : List Source} {results : List (Except Error Headers)}
  {decoder : Decoder} {stream : List UInt8}

/-- What a healthy decoder has returned is read from the output of the whole
stream. -/
theorem Booked.prefix_readAll {blocks : List (List Block.Entry)}
    (booked : Booked config handed results decoder blocks)
    (quiet : ∀ source ∈ handed, source.Quiet)
    (begins : handed.flatMap Source.content <+: stream) :
    blocks.map Block.meaning <+: Block.readAll config.maxBlockSize (Inflater.outputOf stream) := by
  rcases booked.books with ⟨loaded, taken, books⟩
  rcases books.prefix_outputOf quiet begins with ⟨beyond, whole⟩
  rw [← whole, Block.readAll_blocks booked.each]
  exact List.prefix_append _ _

/-- First there are results that are read from the output of the whole stream,
and then there are errors only. -/
theorem results_eq (used : Used config handed results decoder)
    (quiet : ∀ source ∈ handed, source.Quiet)
    (begins : handed.flatMap Source.content <+: stream) :
    ∃ (maps : List Headers) (errors : List Error),
      results = maps.map .ok ++ errors.map .error ∧
        maps <+: Block.readAll config.maxBlockSize (Inflater.outputOf stream) := by
  induction used with
  | fresh => exact ⟨[], [], rfl, List.nil_prefix⟩
  | @attach handed _ _ _ source inductionHypothesis =>
    rw [List.flatMap_append] at begins
    exact inductionHypothesis (List.forall_mem_append.1 quiet).1
      ((List.prefix_append _ _).trans begins)
  | @called handed newly _ _ _ source _ _ result used healthy answer order inductionHypothesis =>
    cases result with
    | ok headers =>
      rcases used.booked healthy with ⟨blocks, booked⟩
      rcases booked.decoded healthy answer order with ⟨entries, after⟩
      refine ⟨_, [], ?_, after.prefix_readAll quiet begins⟩
      rw [after.results_eq, List.map_map, List.map_nil, List.append_nil]
      rfl
    | error error =>
      rw [List.flatMap_append] at begins
      rcases inductionHypothesis (List.forall_mem_append.1 quiet).1
        ((List.prefix_append _ _).trans begins) with ⟨maps, errors, rfl, read⟩
      refine ⟨maps, errors ++ [error], ?_, read⟩
      rw [List.map_append, List.append_assoc, List.map_singleton]
  | @refused _ _ _ _ source arrivals _ _ _ poisoned answer inductionHypothesis =>
    rw [decodeFrom_of_poisoned poisoned] at answer
    cases answer
    rcases inductionHypothesis quiet begins with ⟨maps, errors, rfl, read⟩
    refine ⟨maps, errors ++ [.poisoned], ?_, read⟩
    rw [List.map_append, List.append_assoc, List.map_singleton]

theorem read_of_ok (used : Used config handed results decoder)
    (quiet : ∀ source ∈ handed, source.Quiet)
    (begins : handed.flatMap Source.content <+: stream) {index : Nat} {headers : Headers}
    (returned : results[index]? = some (.ok headers)) :
    (Block.readAll config.maxBlockSize (Inflater.outputOf stream))[index]? = some headers := by
  rcases used.results_eq quiet begins with ⟨maps, errors, rfl, rest, whole⟩
  rw [← whole]
  by_cases inside : index < maps.length
  · rw [List.getElem?_append_left (by rwa [List.length_map]), List.getElem?_map] at returned
    rcases Option.map_eq_some_iff.1 returned with ⟨found, here, same⟩
    cases same
    rw [List.getElem?_append_left inside, here]
  · have behind : (maps.map (@Except.ok Error Headers)).length ≤ index := by
      rw [List.length_map]
      exact Nat.le_of_not_lt inside
    rw [List.getElem?_append_right behind, List.getElem?_map] at returned
    rcases Option.map_eq_some_iff.1 returned with ⟨_, _, same⟩
    cases same

/-- Whatever the bytes of a stream are and however they are cut, all headers that
a decoder returns are those that are read, block after block, from what the
stream stands for up to its first fault.  So two decoders may differ in the call
that fails and in its error, but never in the headers of a block. -/
theorem sound_on_any_stream (used : Used config handed results decoder)
    (quiet : ∀ source ∈ handed, source.Quiet)
    (begins : handed.flatMap Source.content <+: stream) :
    (∀ (index : Nat) (headers : Headers), results[index]? = some (.ok headers) ->
      (Block.readAll config.maxBlockSize (Inflater.outputOf stream))[index]? = some headers) ∧
    ∀ {others : List Source} {otherResults : List (Except Error Headers)} {other : Decoder},
      Used config others otherResults other -> (∀ source ∈ others, source.Quiet) ->
        others.flatMap Source.content <+: stream ->
          ∀ (index : Nat) (first second : Headers), results[index]? = some (.ok first) ->
            otherResults[index]? = some (.ok second) -> first = second := by
  refine ⟨fun _ _ returned => used.read_of_ok quiet begins returned, ?_⟩
  intro others otherResults other again quietToo beginsToo index first second here there
  have read := used.read_of_ok quiet begins here
  rw [again.read_of_ok quietToo beginsToo there] at read
  cases read
  rfl

/-- A block of a kind that there is not. -/
def noBlock : Error :=
  .compression (.fault .blockType)

/-- `storedEntry` and, behind it, the beginning of no block. -/
def brokenEnd : List UInt8 :=
  storedEntry ++ [0xff]

/-- In one piece the stream fails at the first call. -/
def inOnePiece : Decoder :=
  (({} : Decoder).decodeFrom (.ofBytes brokenEnd) {}).2.2

theorem used_inOnePiece :
    Used {} [.ofBytes brokenEnd] [.error noBlock, .error .poisoned] inOnePiece := by
  have failed : (({} : Decoder).decodeFrom (.ofBytes brokenEnd) {}).1 = .error noBlock := by
    decide +kernel
  have poisoned : inOnePiece.poisoned = true := by decide +kernel
  exact (Used.fresh.alone rfl _ failed).refused poisoned
    (decodeFrom_of_poisoned poisoned (.ofBytes []) {})

/-- Cut before the fault it fails at the second call. -/
def inTwoPieces : Decoder :=
  ((({} : Decoder).decodeFrom (.ofBytes storedEntry) {}).2.2.decodeFrom (.ofBytes [0xff]) {}).2.2

theorem used_inTwoPieces :
    Used {} [.ofBytes storedEntry, .ofBytes [0xff]]
      [.ok (Block.meaning [⟨"a", "b"⟩]), .error noBlock] inTwoPieces := by
  have decoded : (({} : Decoder).decodeFrom (.ofBytes storedEntry) {}).1 =
      .ok (Block.meaning [⟨"a", "b"⟩]) := by decide +kernel
  have healthy : (({} : Decoder).decodeFrom (.ofBytes storedEntry) {}).2.2.poisoned = false := by
    decide +kernel
  have failed : ((({} : Decoder).decodeFrom (.ofBytes storedEntry) {}).2.2.decodeFrom
      (.ofBytes [0xff]) {}).1 = .error noBlock := by decide +kernel
  exact (Used.fresh.alone rfl _ decoded).alone healthy _ failed

theorem sound_on_brokenEnd :
    (Block.readAll 262144 (Inflater.outputOf brokenEnd))[0]? =
        some (Block.meaning [⟨"a", "b"⟩]) ∧
      ∀ (index : Nat) (first second : Headers),
        ([.ok (Block.meaning [⟨"a", "b"⟩]), .error noBlock] :
            List (Except Error Headers))[index]? = some (.ok first) ->
          ([.error noBlock, .error .poisoned] : List (Except Error Headers))[index]? =
              some (.ok second) -> first = second := by
  have quiet : ∀ source ∈ [Source.ofBytes storedEntry, .ofBytes [0xff]], source.Quiet :=
    Source.quiet_map_ofBytes [storedEntry, [0xff]]
  have whole : ∀ source ∈ [Source.ofBytes brokenEnd], source.Quiet :=
    Source.quiet_map_ofBytes [brokenEnd]
  have begins : [Source.ofBytes storedEntry, .ofBytes [0xff]].flatMap Source.content <+:
      brokenEnd := ⟨[], rfl⟩
  have same : [Source.ofBytes brokenEnd].flatMap Source.content <+: brokenEnd := ⟨[], rfl⟩
  rcases used_inTwoPieces.sound_on_any_stream quiet begins with ⟨read, agree⟩
  exact ⟨read 0 _ rfl, agree used_inOnePiece whole same⟩

end Used
end Decoder
end HeaderCodec
