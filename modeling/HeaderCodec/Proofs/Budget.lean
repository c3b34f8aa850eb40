import HeaderCodec.Proofs.Accepted
import HeaderCodec.Proofs.Deflate.Bookkeeping
import HeaderCodec.Proofs.Fields

namespace HeaderCodec

/-!
# What a block can cost

A peer decides on the number of entries and on every length, and nothing is
assumed here about what it sends.  A call has a budget, which is charged with
every field before the field is read.  `Moment.Accounted` are the accounts at any
moment of a call, with what has been charged, what remains, and what has been
written by the inflater in the meantime.  Every field keeps them, and
`decodeFrom_within_budget` reads off what a call can cost.

Values are not charged for, but a text of one byte may have two.  The lengths of
its entry make up for that.
-/

/-! ## Values of a text -/

namespace Text

/-- The values of a text make up the text. -/
theorem join_split (text : String) : join (split text) = text := by
  have back : String.toList ∘ String.ofList = id := by
    funext characters
    exact String.toList_ofList
  rw [join, split, List.map_map, back, List.map_id, List.intercalate_splitOn,
    String.ofList_toList]

/-- Every value but one costs a byte at least. -/
theorem length_le_joinedLength (values : List String) :
    values.length ≤ joinedLength values + 1 := by
  induction values with
  | nil => exact Nat.zero_le _
  | cons value rest inductionHypothesis =>
    cases rest with
    | nil => exact Nat.succ_le_succ (Nat.zero_le _)
    | cons next others =>
      rw [joinedLength_cons_cons, List.length_cons]
      omega

/-- There is at most one value more than there are bytes. -/
theorem length_split (text : String) : (split text).length ≤ text.utf8ByteSize + 1 := by
  have enough := length_le_joinedLength (split text)
  rw [← utf8ByteSize_join, join_split] at enough
  exact enough

end Text

namespace Headers

/-- Values that are appended are counted. -/
theorem valueCount_appendAll (headers : Headers) (name : String) (values : List String) :
    (headers.appendAll name values).valueCount = headers.valueCount + values.length := by
  have changed : ∀ entries : List Header,
      ((change (Text.lowerCase name) (· ++ values) entries).flatMap Header.values).length =
        (entries.flatMap Header.values).length + values.length := by
    intro entries
    induction entries with
    | nil => rw [change, List.flatMap_singleton, List.flatMap_nil, List.length_nil, Nat.zero_add,
        List.nil_append]
    | cons header rest inductionHypothesis =>
      rw [change]
      split
      · simp only [List.flatMap_cons, List.length_append]
        omega
      · split
        · simp only [List.flatMap_cons, List.length_append, List.length_nil]
          omega
        · rw [List.flatMap_cons, List.flatMap_cons, List.length_append, inductionHypothesis,
            List.length_append]
          omega
  cases values with
  | nil => rfl
  | cons => exact changed headers.entries

end Headers

/-! ## Bytes that are written -/

namespace Deflate

/-- No more bytes are written than there is room for. -/
theorem Inflater.outputSize_run (state : Inflater) (bits : List Bool) (room : Nat) :
    (state.run bits room).1.outputSize ≤ state.outputSize + room := by
  fun_induction Inflater.run state bits room with
  | case1 state bit rest room _ inductionHypothesis =>
    have same : (state.feed bit).outputSize = state.outputSize := by
      rw [← length_output, output_feed, length_output]
    exact same ▸ inductionHypothesis
  | case2 state bits room asks inductionHypothesis =>
    have more : state.emit.outputSize ≤ state.outputSize + 1 := by
      rcases frame_emit asks with ⟨start, _, _, ⟨byte, history⟩ | ⟨history, _⟩⟩
      · rw [outputSize, outputSize, start, history, Array.size_push]
        omega
      · rw [outputSize, outputSize, start, history]
        exact Nat.le_succ _
    omega
  | case3 => exact Nat.le_add_right _ _

theorem Inflater.outputSize_of_course {state final : Inflater} {bits : List Bool}
    {bytes : List UInt8} (course : Course state bits bytes final) :
    final.outputSize = state.outputSize + bytes.length := by
  rw [← length_output, course.output_eq, List.length_append, length_output]

namespace Decompressor

/-- A draw writes no more bytes than it has been asked for, also when it fails.
When it succeeds it returns what it has written. -/
theorem outputSize_draw (state : Decompressor) (supply : Supply) (room : Nat) :
    (state.draw supply room).2.1.inflater.outputSize ≤ state.inflater.outputSize + room ∧
      ∀ piece, (state.draw supply room).1 = .ok piece -> piece.length ≤ room ∧
        (state.draw supply room).2.1.inflater.outputSize =
          state.inflater.outputSize + piece.length := by
  fun_induction draw state supply room with
  | case1 =>
    refine ⟨Nat.le_add_right _ _, ?_⟩
    intro piece drawn
    cases drawn
    exact ⟨Nat.zero_le _, rfl⟩
  | case2 state supply notZero produced next answer =>
    cases moved_of_advance notZero answer with
    | produced fits _ course =>
      have written := Inflater.outputSize_of_course course
      refine ⟨written ▸ Nat.add_le_add_left fits _, ?_⟩
      intro piece drawn
      cases drawn
      exact ⟨fits, written⟩
  | case3 state supply notZero next answer =>
    cases moved_of_advance notZero answer with
    | ended _ course =>
      have written := Inflater.outputSize_of_course course
      refine ⟨by rw [written]; exact Nat.le_add_right _ _, ?_⟩
      intro piece drawn
      cases drawn
      exact ⟨Nat.zero_le _, written⟩
  | case4 state supply _ fault next answer =>
    constructor
    · have after : (state.advance room).2 = next := congrArg Prod.snd answer
      rw [← after, snd_advance]
      exact Inflater.outputSize_run _ _ room
    · intro piece drawn
      contradiction
  | case5 state supply notZero next answer failure rest read =>
    cases moved_of_advance notZero answer with
    | starved _ course =>
      have written := Inflater.outputSize_of_course course
      constructor
      · rw [written]
        exact Nat.le_add_right _ _
      · intro piece drawn
        contradiction
  | case6 state supply notZero next answer bytes rest read inductionHypothesis =>
    cases moved_of_advance notZero answer with
    | starved _ course =>
      have written : next.inflater.outputSize = state.inflater.outputSize :=
        Inflater.outputSize_of_course course
      rw [load, written] at inductionHypothesis
      exact inductionHypothesis

end Decompressor
end Deflate

/-! ## Accounts of a call -/

namespace Block

/-- The number of bytes that the lengths of the current entry have cost so far. -/
def Place.forLengths : Place -> Nat
  | count | nameLength _ | finished => 0
  | name .. | valueLength .. => 4
  | value .. => 8

@[simp] theorem Place.forLengths_ofEntries (count : Nat) : (ofEntries count).forLengths = 0 := by
  cases count <;> rfl

/-- The bytes of a field are accepted without further cost, and the lengths of an
entry pay for the one value that it may have beyond the bytes of its text. -/
theorem Progress.accept_eq_ok {progress further : Progress} {bytes : List UInt8}
    (size : bytes.length = progress.size) : progress.accept bytes = .ok further ->
    further.limit = progress.limit ∧ further.charged = progress.charged ∧
      further.remaining = progress.remaining ∧
      further.headers.valueCount + further.place.forLengths ≤
        progress.headers.valueCount + progress.place.forLengths + bytes.length := by
  fun_cases accept progress bytes with
  | case1 | case4 | case5 | case8 =>
    intro refused
    contradiction
  | case2 place _ =>
    rintro ⟨⟩
    refine ⟨rfl, rfl, rfl, ?_⟩
    rw [Place.forLengths_ofEntries]
    exact Nat.le_trans (Nat.le_add_right _ _) (Nat.le_add_right _ _)
  | case3 left place =>
    rintro ⟨⟩
    refine ⟨rfl, rfl, rfl, ?_⟩
    rw [size, Progress.size, place]
    exact Nat.le_refl (progress.headers.valueCount + 0 + 4)
  | case6 left length place =>
    rintro ⟨⟩
    refine ⟨rfl, rfl, rfl, ?_⟩
    rw [place]
    exact Nat.le_add_right _ _
  | case7 left name place =>
    rintro ⟨⟩
    refine ⟨rfl, rfl, rfl, ?_⟩
    rw [size, Progress.size, place]
    exact Nat.le_refl (progress.headers.valueCount + 4 + 4)
  | case9 left name length place value decoded =>
    rintro ⟨⟩
    refine ⟨rfl, rfl, rfl, ?_⟩
    have few := Text.length_split value
    rw [← Text.length_encode, Utf8.encode_of_decode? decoded] at few
    rw [Place.forLengths_ofEntries, Headers.valueCount_appendAll, place]
    show progress.headers.valueCount + _ + 0 ≤ progress.headers.valueCount + 8 + bytes.length
    omega
  | case10 place =>
    rintro ⟨⟩
    exact ⟨rfl, rfl, rfl, Nat.le_add_right _ _⟩

end Block

namespace Decoder

open Deflate (Decompressor)

/-- The bytes of a field are written one piece after the other.  Never are there
more than the field has, also when it cannot be read to its end. -/
theorem outputSize_fill (missing : Nat) (pieces : List (List UInt8)) (state : Decompressor)
    (supply : Supply) :
    (fill missing pieces state supply).2.1.inflater.outputSize ≤
        state.inflater.outputSize + missing ∧
      ∀ bytes, (fill missing pieces state supply).1 = .ok bytes ->
        bytes.length = pieces.flatten.length + missing ∧
          (fill missing pieces state supply).2.1.inflater.outputSize =
            state.inflater.outputSize + missing := by
  have drawn : ∀ {missing : Nat} {state next : Decompressor} {supply rest : Supply}
      {piece : List UInt8}, state.draw supply missing = (.ok piece, next, rest) ->
          piece.length ≤ missing ∧
            next.inflater.outputSize = state.inflater.outputSize + piece.length := by
    intro missing state next supply rest piece answer
    have written := (Decompressor.outputSize_draw state supply missing).2
    rw [answer] at written
    exact written piece rfl
  have failed : ∀ {missing : Nat} {state next : Decompressor} {supply rest : Supply}
      {result : Except Deflate.DrawFailure (List UInt8)},
        state.draw supply missing = (result, next, rest) ->
          next.inflater.outputSize ≤ state.inflater.outputSize + missing := by
    intro missing state next supply rest result answer
    have bound := (Decompressor.outputSize_draw state supply missing).1
    rwa [answer] at bound
  fun_induction fill missing pieces state supply with
  | case1 pieces =>
    refine ⟨Nat.le_refl _, ?_⟩
    intro bytes filled
    cases filled
    refine ⟨?_, rfl⟩
    rw [List.length_flatten, List.length_flatten, List.map_reverse, List.sum_reverse]
    rfl
  | case2 _ _ _ _ _ _ _ _ answer =>
    constructor
    · exact failed answer
    · intro bytes filled
      contradiction
  | case3 _ _ _ _ _ _ _ answer =>
    constructor
    · exact failed answer
    · intro bytes filled
      contradiction
  | case4 missing pieces state supply some byte more next rest answer inductionHypothesis =>
    rcases drawn answer with ⟨fits, written⟩
    rcases inductionHypothesis with ⟨bound, exact⟩
    rw [List.length_cons] at fits written
    refine ⟨by omega, ?_⟩
    intro bytes filled
    rcases exact bytes filled with ⟨count, total⟩
    rw [List.flatten_cons, List.length_append, List.length_cons] at count
    exact ⟨by omega, by omega⟩

namespace Moment

/-- The accounts of a call with a budget of `limit` bytes that has begun when
`before` bytes had been written. -/
structure Accounted (limit before : Nat) (moment : Moment) : Prop where
  same : moment.progress.limit = limit
  total : moment.progress.charged + moment.progress.remaining = limit
  written : moment.state.inflater.outputSize = before + moment.progress.charged
  values : moment.progress.headers.valueCount + moment.progress.place.forLengths ≤
    moment.progress.charged

variable {limit before : Nat} {moment next : Moment}

/-- A field that is charged is paid out of what remains. -/
theorem Accounted.charge {size : Nat} {paid : Block.Progress}
    (accounted : moment.Accounted limit before) (charged : moment.Charged size paid) :
    size ≤ moment.progress.remaining ∧ paid.charged + paid.remaining = limit := by
  have total := accounted.total
  cases charged with
  | intro more fits =>
    refine ⟨fits, ?_⟩
    simp only [Block.Progress.charge]
    omega

theorem Charged.charged_eq {size : Nat} {paid : Block.Progress}
    (charged : moment.Charged size paid) : paid.charged = moment.progress.charged + size := by
  cases charged with
  | intro => rfl

/-- Every field keeps the accounts. -/
theorem Accounted.step (accounted : moment.Accounted limit before) (step : moment.Step next) :
    next.Accounted limit before := by
  cases step with
  | @field size paid further bytes state supply charged filled accepted =>
    have total := (accounted.charge charged).2
    have written := (outputSize_fill size [] moment.state moment.supply).2
    rw [filled] at written
    rcases written bytes rfl with ⟨count, outputSize⟩
    cases charged with
    | intro more fits =>
      have count : bytes.length = moment.progress.charge.size := count.trans (Nat.zero_add _)
      rcases Block.Progress.accept_eq_ok count accepted with ⟨same, paid, left, values⟩
      have before := accounted.values
      refine ⟨same.trans accounted.same, by rw [paid, left, total], ?_, ?_⟩
      · rw [paid, outputSize, accounted.written, Nat.add_assoc]
        rfl
      · rw [paid]
        rw [count] at values
        exact Nat.le_trans values (Nat.add_le_add_right before _)

/-- A call ends within the accounts. -/
theorem Accounted.stop {result : Except Error Headers} {state : Decompressor} {supply : Supply}
    (accounted : moment.Accounted limit before) (stops : moment.Stops (result, state, supply)) :
    state.inflater.outputSize ≤ before + limit ∧
      ∀ headers, result = .ok headers ->
        state.inflater.outputSize = before + (limit - moment.progress.remaining) ∧
          headers.valueCount ≤ limit := by
  have total := accounted.total
  have written := accounted.written
  cases stops with
  | finished done =>
    have values := accounted.values
    refine ⟨by omega, ?_⟩
    rintro headers ⟨⟩
    exact ⟨by omega, by omega⟩
  | refused large =>
    refine ⟨by omega, ?_⟩
    intro headers same
    contradiction
  | @broken size paid _ _ _ charged failed =>
    have bound := (outputSize_fill size [] moment.state moment.supply).1
    have fits := (accounted.charge charged).1
    rw [failed] at bound
    simp only at bound
    refine ⟨by omega, ?_⟩
    intro headers same
    contradiction
  | @rejected size paid _ _ _ _ charged filled refused =>
    have bound := (outputSize_fill size [] moment.state moment.supply).1
    have fits := (accounted.charge charged).1
    rw [filled] at bound
    simp only at bound
    refine ⟨by omega, ?_⟩
    intro headers same
    contradiction

/-- A call goes on from a moment as it would from there alone. -/
def Continues (answer : Except Error Headers × Decompressor × Supply) (moment : Moment) : Prop :=
  ∃ plan, moment.progress.Follows plan ∧ answer = carryOut plan moment.state moment.supply

theorem Continues.step {answer : Except Error Headers × Decompressor × Supply}
    (continues : moment.Continues answer) (step : moment.Step next) : next.Continues answer := by
  rcases continues with ⟨plan, follows, same⟩
  cases step with
  | field charged filled accepted =>
    cases charged with
    | intro more fits =>
      cases follows with
      | finished done => exact absurd done more
      | refused large => exact absurd fits (Nat.not_le.2 large)
      | @field _ next _ _ wrong right =>
        refine ⟨next _, right _ _ accepted, ?_⟩
        rw [same, carryOut, filled]

/-- A call ends at a field that does not fit, and nothing is done for the field. -/
theorem Continues.refused {answer : Except Error Headers × Decompressor × Supply}
    (continues : moment.Continues answer)
    (large : moment.progress.remaining < moment.progress.size) :
    answer = (.error (.blockTooLarge moment.progress.limit), moment.state, moment.supply) := by
  rcases continues with ⟨plan, follows, same⟩
  cases follows with
  | finished done =>
    rw [Block.Progress.size, done] at large
    exact absurd large (Nat.not_lt_zero _)
  | refused => rw [same, carryOut]
  | field more fits => exact absurd fits (Nat.not_le.2 large)

end Moment

/-- A call goes on from every moment as it has begun. -/
theorem continues_opening {decoder : Decoder} {source : Source} {arrivals : Arrivals}
    {moment : Moment} (reaches : (decoder.opening source arrivals).Reaches moment) :
    moment.Continues (carryOut (Block.read decoder.config.maxBlockSize) decoder.context
      ((decoder.attach source).supplyWith arrivals)) := by
  refine reaches.preserves (fun _ _ continues step => continues.step step) ?_
  exact ⟨_, Block.Progress.follows_read decoder.config.maxBlockSize, rfl⟩

/-- A call keeps its accounts from the first field on. -/
theorem accounted_of_reaches {decoder : Decoder} {source : Source} {arrivals : Arrivals}
    {moment : Moment} (reaches : (decoder.opening source arrivals).Reaches moment) :
    moment.Accounted decoder.config.maxBlockSize decoder.delivered := by
  refine reaches.preserves (fun _ _ accounted step => accounted.step step) ?_
  exact ⟨rfl, Nat.zero_add _, rfl, Nat.le_refl 0⟩

/-- What a call costs. -/
structure WithinBudget (decoder : Decoder) (source : Source) (arrivals : Arrivals) : Prop where
  /-- It takes no more bytes out of the decompressor than the budget allows. -/
  delivered_le : (decoder.decodeFrom source arrivals).2.2.delivered ≤
    decoder.delivered + decoder.config.maxBlockSize
  /-- The next call has the whole budget again. -/
  config_eq : (decoder.decodeFrom source arrivals).2.2.config = decoder.config
  /-- What has been charged and what remains make up the budget at every moment. -/
  accounted : decoder.poisoned = false ->
    ∀ moment, (decoder.opening source arrivals).Reaches moment ->
      moment.Accounted decoder.config.maxBlockSize decoder.delivered
  /-- No buffer is longer than what remains before its charge. -/
  charged : decoder.poisoned = false ->
    ∀ moment, (decoder.opening source arrivals).Reaches moment ->
      ∀ size paid, moment.Charged size paid -> size ≤ moment.progress.remaining ∧
        paid.charged + paid.remaining = decoder.config.maxBlockSize
  /-- A charge that does not fit ends the call there and then, with the decompressor, the
  intake and the arrivals as they are. -/
  refused : decoder.poisoned = false ->
    ∀ moment, (decoder.opening source arrivals).Reaches moment ->
      moment.progress.remaining < moment.progress.size ->
      decoder.decodeFrom source arrivals = decoder.conclude
        (.error (.blockTooLarge decoder.config.maxBlockSize), moment.state, moment.supply)
  /-- If headers are returned, then all bytes that were taken have been charged, and there
  are no more values than bytes. -/
  stopped : decoder.poisoned = false ->
    ∃ last answer, (decoder.opening source arrivals).Reaches last ∧ last.Stops answer ∧
      decoder.decodeFrom source arrivals = decoder.conclude answer ∧
      ∀ headers, (decoder.decodeFrom source arrivals).1 = .ok headers ->
        (decoder.decodeFrom source arrivals).2.2.delivered = decoder.delivered +
            (decoder.config.maxBlockSize - last.progress.remaining) ∧
          headers.valueCount ≤ decoder.config.maxBlockSize

/-- Whatever the sources hold, a call stays within the budget, and one that is not turned
away keeps its accounts at every moment. -/
theorem decodeFrom_within_budget (decoder : Decoder) (source : Source) (arrivals : Arrivals) :
    WithinBudget decoder source arrivals := by
  cases healthy : decoder.poisoned with
  | true =>
    have turnedAway : ∀ {Conclusion : Prop}, decoder.poisoned = false -> Conclusion :=
      fun other => Bool.noConfusion (healthy.symm.trans other)
    refine ⟨?_, ?_, turnedAway, turnedAway, turnedAway, turnedAway⟩
    · rw [decodeFrom_of_poisoned healthy]
      exact Nat.le_add_right _ _
    · rw [decodeFrom_of_poisoned healthy]
  | false =>
    rcases decodeFrom_stops healthy source arrivals with ⟨last, answer, reaches, stops, same⟩
    have ends := (accounted_of_reaches reaches).stop stops
    constructor
    · rw [same]
      exact ends.1
    · rw [same]
      rfl
    · exact fun _ moment reached => accounted_of_reaches reached
    · exact fun _ moment reached _ _ charged => (accounted_of_reaches reached).charge charged
    · intro _ moment reached large
      rw [decodeFrom_eq healthy, (continues_opening reached).refused large,
        (accounted_of_reaches reached).same]
    · refine fun _ => ⟨last, answer, reaches, stops, same, ?_⟩
      intro headers done
      rw [same] at done ⊢
      exact ends.2 headers done

/-- The block of `storedEntry` has fourteen bytes.  They are the whole budget. -/
theorem within_budget_storedEntry :
    ∃ last answer, ({ config := ⟨14⟩ } : Decoder).decodeFrom (.ofBytes storedEntry) {} =
        ({ config := ⟨14⟩ } : Decoder).conclude answer ∧
      (({ config := ⟨14⟩ } : Decoder).opening (.ofBytes storedEntry) {}).Reaches last ∧
      last.Stops answer ∧ answer.2.1.inflater.outputSize = 14 - last.progress.remaining := by
  have within := decodeFrom_within_budget { config := ⟨14⟩ } (.ofBytes storedEntry) {}
  rcases within.stopped rfl with ⟨last, answer, reaches, stops, same, success⟩
  have done : (({ config := ⟨14⟩ } : Decoder).decodeFrom (.ofBytes storedEntry) {}).1 =
      .ok (Block.meaning [⟨"a", "b"⟩]) := by decide +kernel
  have spent := (success _ done).1
  rw [same] at spent
  exact ⟨last, answer, same, reaches, stops, spent.trans (Nat.zero_add _)⟩

end Decoder
end HeaderCodec
