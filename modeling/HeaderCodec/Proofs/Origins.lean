import HeaderCodec.Proofs.Restraint

namespace HeaderCodec

/-!
# Where errors come from

The end of the stream, a fault in it and the failure of a source all make a field come
up short, and on their way to the caller they share one channel.  Here each error that
a call returns is traced back.  `Decoder.Origin` lists the possible origins with their
evidence: the bytes that have been inflated and that no block begins with, an inflater
that has ended or failed, or a read that has failed.

Sources and errors correspond with one exception.  A source may fail with the kind of
failure that a reader uses to say that a buffer could not be filled.  `Error.ofSource`
takes this for the end of the stream, and so the caller is told of a malformed block,
although no byte of the stream says so.
-/

namespace Deflate
namespace Decompressor

variable {state dry : Decompressor} {supply before rest : Supply} {room asked : Nat}
  {failure : Failure}

/-- A draw fails because of a source when the last of its reads does. -/
theorem reads_of_draw (state : Decompressor) (supply : Supply) (room : Nat)
    (failed : (state.draw supply room).1 = .error (.source failure)) :
    ∃ asked before, Reads room state supply asked (state.draw supply room).2.1 before ∧
      before.read asked = (.error failure, (state.draw supply room).2.2) := by
  fun_induction draw state supply room with
  | case1 => cases failed
  | case2 => cases failed
  | case3 => cases failed
  | case4 => cases failed
  | case5 _ supply some next starved _ _ read =>
    cases failed
    exact ⟨_, supply, .now some starved, read⟩
  | case6 _ _ some _ starved _ _ read inductionHypothesis =>
    rcases inductionHypothesis failed with ⟨asked, before, reads, last⟩
    exact ⟨asked, before, .later some starved read reads, last⟩

theorem Reads.room_ne_zero (reads : Reads room state supply asked dry before) : room ≠ 0 := by
  cases reads with
  | now some => exact some
  | later some => exact some

end Decompressor
end Deflate

/-! ## Errors of the layout -/

namespace Block

/-- The errors to which a plan of reading can come. -/
inductive IsLayoutError : Error -> Prop where
  | malformed (fault : LayoutFault) : IsLayoutError (.malformed fault)
  | blockTooLarge (limit : Nat) : IsLayoutError (.blockTooLarge limit)

theorem isLayoutError_of_accept (progress : Progress) (bytes : List UInt8) (error : Error) :
    progress.accept bytes = .error error -> IsLayoutError error := by
  fun_cases Progress.accept progress bytes with
  | case1 =>
    rintro ⟨⟩
    exact .blockTooLarge _
  | case4 | case5 | case8 =>
    rintro ⟨⟩
    exact .malformed _
  | case2 | case3 | case6 | case7 | case9 | case10 =>
    intro accepted
    contradiction

theorem isLayoutError_of_follow {progress : Progress} {plan : Plan Headers}
    {bytes rest : List UInt8} {error : Error} (follows : progress.Follows plan)
    (done : plan.follow bytes = some (.error error, rest)) : IsLayoutError error := by
  induction follows generalizing bytes with
  | finished => cases done
  | refused =>
    cases done
    exact .blockTooLarge _
  | @field progress next _ _ wrong right inductionHypothesis =>
    rw [Plan.follow] at done
    split at done
    · cases accepted : progress.charge.accept (bytes.take progress.size) with
      | error other =>
        rw [wrong _ _ accepted] at done
        cases done
        exact isLayoutError_of_accept _ _ _ accepted
      | ok further => exact inductionHypothesis _ further accepted done
    · cases done

end Block

namespace Decoder

open Block (Progress)
open Deflate (Decompressor Inflater)

/-! ## Reads that fail -/

section

variable {missing asked : Nat} {state dry : Decompressor} {supply before rest : Supply}
  {failure : Failure}

/-- A buffer is not filled when a read for it fails. -/
theorem Fetches.fill_eq (fetches : Fetches missing state supply asked dry before)
    (read : before.read asked = (.error failure, rest)) (pieces : List (List UInt8)) :
    fill missing pieces state supply = (.error (Error.ofSource failure), dry, rest) := by
  induction fetches generalizing pieces with
  | now reads =>
    rw [fill, if_neg reads.room_ne_zero, Decompressor.draw_of_reads reads, read]
    rfl
  | @later missing _ state _ _ supply _ _ byte bytes drawn _ inductionHypothesis =>
    have some : missing ≠ 0 := by
      intro none
      rw [none, Decompressor.draw, if_pos rfl] at drawn
      cases drawn
    rw [fill, if_neg some, drawn]
    exact inductionHypothesis read ((byte :: bytes) :: pieces)

/-- A call fails when one of its reads does. -/
theorem Reading.fst_decodeFrom {decoder : Decoder} {source : Source} {arrivals : Arrivals}
    {through : Nat} (healthy : decoder.poisoned = false)
    (reading : decoder.Reading source arrivals through asked before)
    (failed : (before.read asked).1 = .error failure) :
    (decoder.decodeFrom source arrivals).1 = .error (Error.ofSource failure) := by
  cases reading with
  | @intro moment size _ paid dry _ reaches charged fetches =>
    have unfilled := fetches.fill_eq (Prod.ext failed rfl) []
    rcases continues_opening reaches with ⟨plan, follows, same⟩
    rw [Decoder.fst_decodeFrom healthy, same]
    cases charged with
    | intro more fits =>
      cases follows with
      | finished done => exact absurd done more
      | refused large => exact absurd fits (Nat.not_le.2 large)
      | field => rw [carryOut, unfilled]

end

/-! ## Fields that come up short -/

section

variable {attached : List Source} {loaded : List (List UInt8)} {taken : List Bool}
  {bytes : List UInt8} {missing : Nat} {state : Decompressor} {supply : Supply} {error : Error}

/-- Why a buffer cannot be filled: the stream ends in the middle of it, or what has
been read is rejected, or a read fails. -/
inductive Lacks (attached : List Source) (bytes : List UInt8) (missing : Nat)
    (state : Decompressor) (supply : Supply) : Error -> Decompressor -> Supply -> Prop where
  | ended {drawn : List UInt8} {next : Decompressor} {rest : Supply}
      (few : drawn.length < missing) (phase : next.inflater.phase = .ended)
      (carried : Decompressor.CarriesOn attached (bytes ++ drawn) supply next rest) :
      Lacks attached bytes missing state supply (.malformed .truncated) next rest
  | rejected {reported : Deflate.Fault} {next : Decompressor} {rest : Supply}
      (rejects : Decompressor.Rejects (attached ++ supply.arrivals.queue) reported next rest) :
      Lacks attached bytes missing state supply (.compression (.fault reported)) next rest
  | failing {asked : Nat} {dry : Decompressor} {before rest : Supply} {failure : Failure}
      (fetches : Fetches missing state supply asked dry before)
      (read : before.read asked = (.error failure, rest)) :
      Lacks attached bytes missing state supply (Error.ofSource failure) dry rest

/-- The same holds when a part of the buffer has been filled before. -/
theorem Lacks.later {newly : List Source} {byte : UInt8} {more : List UInt8}
    {next last : Decompressor} {rest others : Supply}
    (drawn : state.draw supply missing = (.ok (byte :: more), next, rest))
    (fits : (byte :: more).length ≤ missing)
    (order : supply.arrivals.queue = newly ++ rest.arrivals.queue)
    (lacks : Lacks (attached ++ newly) (bytes ++ (byte :: more)) (missing - (more.length + 1)) next
      rest error last others) :
    Lacks attached bytes missing state supply error last others := by
  cases lacks with
  | @ended furtherDrawn _ _ few phase carried =>
    rw [List.append_assoc] at carried
    refine .ended ?_ phase (carried.trans order)
    rw [List.length_cons] at fits
    rw [List.length_append, List.length_cons]
    omega
  | rejected rejects =>
    rw [List.append_assoc, ← order] at rejects
    exact .rejected rejects
  | failing fetches read => exact .failing (.later drawn fetches) read

theorem lacks_of_fill (missing : Nat) (pieces : List (List UInt8)) (state : Decompressor)
    (supply : Supply) (books : state.Books attached loaded taken bytes supply.intake)
    (failed : (fill missing pieces state supply).1 = .error error) :
    Lacks attached bytes missing state supply error (fill missing pieces state supply).2.1
      (fill missing pieces state supply).2.2 := by
  fun_induction fill missing pieces state supply generalizing attached loaded taken bytes with
  | case1 => cases failed
  | case2 missing _ state supply _ failure next rest answer =>
    cases failed
    cases failure with
    | stream reported =>
      have rejects := Decompressor.rejects_of_draw state supply missing books
        (congrArg Prod.fst answer)
      rw [answer] at rejects
      exact .rejected rejects
    | source failure =>
      rcases Decompressor.reads_of_draw state supply missing (congrArg Prod.fst answer) with
          ⟨asked, before, reads, read⟩
      rw [answer] at reads read
      exact .failing (.now reads) read
  | case3 missing _ state supply some next rest answer =>
    cases failed
    have drawn := Decompressor.carriesOn_draw state supply missing books (congrArg Prod.fst answer)
    have phase := Decompressor.ended_of_draw some (congrArg Prod.fst answer)
    rw [answer] at drawn phase
    have none : ([] : List UInt8).length < missing := Nat.pos_of_ne_zero some
    exact .ended none phase drawn.2
  | case4 missing _ state supply some byte more next rest answer inductionHypothesis =>
    have drawn := Decompressor.carriesOn_draw state supply missing books (congrArg Prod.fst answer)
    rw [answer] at drawn
    rcases drawn with ⟨fits, newly, _, _, order, after⟩
    exact .later answer fits order (inductionHypothesis after failed)

end

/-! ## Moments along the plan of a call -/

namespace Moment

variable {attached : List Source} {bytes : List UInt8} {supply : Supply} {plan : Plan Headers}
  {moment next : Moment}

/-- A plan has been followed up to a moment.  What remains of it is to be followed
behind the bytes that have been drawn meanwhile. -/
def Replays (attached : List Source) (bytes : List UInt8) (supply : Supply)
    (plan : Plan Headers) (moment : Moment) : Prop :=
  ∃ drawn remaining,
    Decompressor.CarriesOn attached (bytes ++ drawn) supply moment.state moment.supply ∧
      moment.progress.Follows remaining ∧
      ∀ more, plan.follow (drawn ++ more) = remaining.follow more

/-- A field that is filled is followed too. -/
theorem Replays.fill {size : Nat} {paid : Progress} {field : List UInt8} {state : Decompressor}
    {rest : Supply} (replays : moment.Replays attached bytes supply plan)
    (charged : moment.Charged size paid)
    (filled : Decoder.fill size [] moment.state moment.supply = (.ok field, state, rest)) :
    ∃ drawn next, Decompressor.CarriesOn attached (bytes ++ drawn) supply state rest ∧
      (∀ error, paid.accept field = .error error -> next = .done (.error error)) ∧
      (∀ further, paid.accept field = .ok further -> further.Follows next) ∧
      ∀ more, plan.follow (drawn ++ more) = next.follow more := by
  rcases replays with ⟨drawn, remaining, ⟨newly, _, _, order, books⟩, follows, same⟩
  have carried := carriesOn_fill size [] moment.state moment.supply books (congrArg Prod.fst filled)
  rw [filled] at carried
  rcases carried with ⟨_, rfl, count, onward⟩
  cases charged with
  | intro more fits =>
    cases follows with
    | finished done => exact absurd done more
    | refused large => exact absurd fits (Nat.not_le.2 large)
    | @field _ next _ _ wrong right =>
      refine ⟨drawn ++ field, next field, ?_, wrong field, right field, fun others => ?_⟩
      · rw [← List.append_assoc]
        exact onward.trans order
      · rw [List.append_assoc, same, Plan.follow, if_pos (by rw [List.length_append]; omega),
          List.take_left' count, List.drop_left' count]

theorem Replays.step (replays : moment.Replays attached bytes supply plan)
    (step : moment.Step next) : next.Replays attached bytes supply plan := by
  cases step with
  | field charged filled accepted =>
    rcases replays.fill charged filled with ⟨drawn, remaining, carried, _, right, same⟩
    exact ⟨drawn, remaining, carried, right _ accepted, same⟩

/-- A plan whose next field does not fit comes to that error. -/
theorem Replays.refused (replays : moment.Replays attached bytes supply plan)
    (large : moment.progress.remaining < moment.progress.size) :
    ∃ drawn, Decompressor.CarriesOn attached (bytes ++ drawn) supply moment.state moment.supply ∧
      plan.follow drawn = some (.error (.blockTooLarge moment.progress.limit), []) := by
  rcases replays with ⟨drawn, remaining, carried, follows, same⟩
  have here := same []
  rw [List.append_nil] at here
  refine ⟨drawn, carried, ?_⟩
  cases follows with
  | finished done =>
    rw [Progress.size, done] at large
    exact absurd large (Nat.not_lt_zero _)
  | refused => rw [here, Plan.follow]
  | field more fits => exact absurd fits (Nat.not_le.2 large)

/-- A plan is in want of bytes as long as its next field is not filled. -/
theorem Replays.short {size : Nat} {paid : Progress}
    (replays : moment.Replays attached bytes supply plan) (charged : moment.Charged size paid) :
    ∃ drawn, Decompressor.CarriesOn attached (bytes ++ drawn) supply moment.state moment.supply ∧
      ∀ more, more.length < size -> plan.follow (drawn ++ more) = none := by
  rcases replays with ⟨drawn, remaining, carried, follows, same⟩
  refine ⟨drawn, carried, fun more few => ?_⟩
  cases charged with
  | intro notDone fits =>
    cases follows with
    | finished done => exact absurd done notDone
    | refused large => exact absurd fits (Nat.not_le.2 large)
    | field => rw [same, Plan.follow, if_neg (Nat.not_le.2 few)]

end Moment

/-! ## The origin of an error -/

section

variable {attached : List Source} {loaded : List (List UInt8)} {taken : List Bool}
  {bytes : List UInt8} {decoder : Decoder} {source : Source} {arrivals : Arrivals} {error : Error}

/-- Where an error of a call comes from: from the bytes that have been inflated, since
the plan of reading comes to it; from the end of the stream before the plan has come
to anything; from a fault in what has been read; or from a read that has failed. -/
inductive Origin (attached : List Source) (bytes : List UInt8) (decoder : Decoder)
    (source : Source) (arrivals : Arrivals) : Error -> Decompressor -> Supply -> Prop where
  | data {drawn : List UInt8} {error : Error} {next : Decompressor} {rest : Supply}
      (followed : (Block.read decoder.config.maxBlockSize).follow drawn =
        some (.error error, []))
      (carried : Decompressor.CarriesOn attached (bytes ++ drawn)
        ((decoder.attach source).supplyWith arrivals) next rest) :
      Origin attached bytes decoder source arrivals error next rest
  | ended {drawn : List UInt8} {next : Decompressor} {rest : Supply}
      (short : (Block.read decoder.config.maxBlockSize).follow drawn = none)
      (phase : next.inflater.phase = .ended)
      (carried : Decompressor.CarriesOn attached (bytes ++ drawn)
        ((decoder.attach source).supplyWith arrivals) next rest) :
      Origin attached bytes decoder source arrivals (.malformed .truncated) next rest
  | rejected {reported : Deflate.Fault} {next : Decompressor} {rest : Supply}
      (rejects : Decompressor.Rejects (attached ++ arrivals.queue) reported next rest) :
      Origin attached bytes decoder source arrivals (.compression (.fault reported)) next rest
  | failing {through asked : Nat} {before : Supply} {failure : Failure} {next : Decompressor}
      {rest : Supply} (reading : decoder.Reading source arrivals through asked before)
      (read : before.read asked = (.error failure, rest)) :
      Origin attached bytes decoder source arrivals (Error.ofSource failure) next rest

theorem origin_of_stops {last : Moment} {next : Decompressor} {rest : Supply}
    (reaches : (decoder.opening source arrivals).Reaches last)
    (replays : last.Replays attached bytes ((decoder.attach source).supplyWith arrivals)
      (Block.read decoder.config.maxBlockSize))
    (stops : last.Stops (.error error, next, rest)) :
    Origin attached bytes decoder source arrivals error next rest := by
  cases stops with
  | refused large =>
    rcases replays.refused large with ⟨drawn, carried, followed⟩
    exact .data followed carried
  | @broken size paid _ _ _ charged failed =>
    rcases replays.short charged with ⟨drawn, ⟨newly, _, _, order, books⟩, short⟩
    have lacks := lacks_of_fill size [] last.state last.supply books (congrArg Prod.fst failed)
    rw [failed] at lacks
    cases lacks with
    | ended few phase carried =>
      rw [List.append_assoc] at carried
      exact .ended (short _ few) phase (carried.trans order)
    | rejected rejects =>
      rw [List.append_assoc, ← order] at rejects
      exact .rejected rejects
    | failing fetches read => exact .failing (.intro reaches charged fetches) read
  | rejected charged filled refused =>
    rcases replays.fill charged filled with ⟨drawn, remaining, carried, wrong, _, same⟩
    have followed := same []
    rw [List.append_nil, wrong _ refused, Plan.follow] at followed
    exact .data followed carried

/-- Every error of a healthy decoder has an origin. -/
theorem origin_of_decodeFrom (healthy : decoder.poisoned = false)
    (books : decoder.context.Books attached loaded taken bytes (decoder.attach source).intake)
    (failed : (decoder.decodeFrom source arrivals).1 = .error error) :
    ∃ rest, Origin attached bytes decoder source arrivals error
      (decoder.decodeFrom source arrivals).2.2.context rest := by
  rcases decodeFrom_stops healthy source arrivals with
      ⟨last, ⟨result, next, rest⟩, reaches, stops, same⟩
  have replays : last.Replays attached bytes ((decoder.attach source).supplyWith arrivals)
      (Block.read decoder.config.maxBlockSize) := by
    refine reaches.preserves (fun _ _ replays step => replays.step step) ?_
    refine ⟨[], _, ?_, Progress.follows_read decoder.config.maxBlockSize, fun _ => rfl⟩
    rw [List.append_nil]
    exact .of_books books
  rw [same] at failed ⊢
  have here : result = .error error := failed
  subst here
  exact ⟨rest, origin_of_stops reaches replays stops⟩

theorem isLayoutError_of_followed {limit : Nat} {drawn : List UInt8}
    (followed : (Block.read limit).follow drawn = some (.error error, [])) :
    Block.IsLayoutError error :=
  Block.isLayoutError_of_follow (Progress.follows_read limit) followed

variable {next : Decompressor} {rest : Supply}

/-- An error of a source is the failure of a read. -/
theorem Origin.of_io {failure : Failure}
    (origin : Origin attached bytes decoder source arrivals (.io failure) next rest) :
    failure.kind ≠ .unexpectedEof ∧ ∃ through asked before,
      decoder.Reading source arrivals through asked before ∧
      (before.read asked).1 = .error failure := by
  generalize same : Error.io failure = error at origin
  cases origin with
  | data followed => cases same ▸ isLayoutError_of_followed followed
  | ended => cases same
  | rejected => cases same
  | @failing through asked before found _ _ reading read =>
    rw [Error.ofSource] at same
    split at same
    · cases same
    · rename_i kind
      cases same
      exact ⟨kind, through, asked, before, reading, congrArg Prod.fst read⟩

/-- A malformed block has its fault in the bytes, or the stream has ended inside, or a
source has said so. -/
theorem Origin.of_malformed {fault : LayoutFault}
    (origin : Origin attached bytes decoder source arrivals (.malformed fault) next rest) :
    (∃ drawn, (Block.read decoder.config.maxBlockSize).follow drawn =
        some (.error (.malformed fault), []) ∧
      Decompressor.CarriesOn attached (bytes ++ drawn)
        ((decoder.attach source).supplyWith arrivals) next rest) ∨
    (fault = .truncated ∧ ∃ drawn, (Block.read decoder.config.maxBlockSize).follow drawn = none ∧
      next.inflater.phase = .ended ∧ Decompressor.CarriesOn attached (bytes ++ drawn)
        ((decoder.attach source).supplyWith arrivals) next rest) ∨
    fault = .truncated ∧ ∃ through asked before failure,
      decoder.Reading source arrivals through asked before ∧
      (before.read asked).1 = .error failure ∧ failure.kind = .unexpectedEof := by
  generalize same : Error.malformed fault = error at origin
  cases origin with
  | data followed carried =>
    subst same
    exact Or.inl ⟨_, followed, carried⟩
  | ended short phase carried =>
    cases same
    exact Or.inr (Or.inl ⟨rfl, _, short, phase, carried⟩)
  | rejected => cases same
  | @failing through asked before found _ _ reading read =>
    rw [Error.ofSource] at same
    split at same
    · rename_i kind
      cases same
      have failed := congrArg Prod.fst read
      exact Or.inr (Or.inr ⟨rfl, through, asked, before, found, reading, failed, kind⟩)
    · cases same

/-- A fault of the stream is a fault of what has been read. -/
theorem Origin.of_compression {fault : StreamFault}
    (origin : Origin attached bytes decoder source arrivals (.compression fault) next rest) :
    ∃ reported, fault = .fault reported ∧
      Decompressor.Rejects (attached ++ arrivals.queue) reported next rest := by
  generalize same : Error.compression fault = error at origin
  cases origin with
  | data followed => cases same ▸ isLayoutError_of_followed followed
  | ended => cases same
  | rejected rejects =>
    cases same
    exact ⟨_, rfl, rejects⟩
  | failing =>
    rw [Error.ofSource] at same
    split at same
    · cases same
    · cases same

/-- A call inflates some bytes, whatever comes of it. -/
def Inflates (decoder : Decoder) (source : Source) (arrivals : Arrivals)
    (drawn : List UInt8) : Prop :=
  (decoder.decodeFrom source arrivals).2.2.context.inflater.output =
    decoder.context.inflater.output ++ drawn

theorem inflates_of_carriesOn {drawn : List UInt8} {supply rest : Supply}
    (books : decoder.context.Books attached loaded taken bytes (decoder.attach source).intake)
    (carried : Decompressor.CarriesOn attached (bytes ++ drawn) supply
      (decoder.decodeFrom source arrivals).2.2.context rest) :
    decoder.Inflates source arrivals drawn := by
  rcases carried with ⟨_, _, _, _, after⟩
  have before : decoder.context.inflater.output = bytes := books.course.output_eq
  rw [Inflates, before]
  exact after.course.output_eq

end

namespace Used

variable {config : DecoderConfig} {handed : List Source} {results : List (Except Error Headers)}
  {decoder : Decoder}

/-- How the errors of a call correspond to what has gone wrong, when the sources in
`handed` have been handed over before. -/
structure Traced (handed : List Source) (decoder : Decoder) (source : Source)
    (arrivals : Arrivals) : Prop where
  /-- If a read fails, then the call returns this very failure.  Only a failure of the
  kind of an unexpected end is taken for the end of the stream. -/
  failing : ∀ through asked before failure,
    decoder.Reading source arrivals through asked before ->
    (before.read asked).1 = .error failure ->
    (decoder.decodeFrom source arrivals).1 =
      .error (if failure.kind = .unexpectedEof then .malformed .truncated else .io failure)
  /-- A failure that is returned is that of a read. -/
  io : ∀ failure, (decoder.decodeFrom source arrivals).1 = .error (.io failure) ->
    failure.kind ≠ .unexpectedEof ∧ ∃ through asked before,
      decoder.Reading source arrivals through asked before ∧
      (before.read asked).1 = .error failure
  /-- A block is malformed if the bytes that have been inflated are no beginning of any
  block, or if the stream has ended before the block has.  The third case is that of
  the failure that is mistaken for this end. -/
  malformed : ∀ fault, (decoder.decodeFrom source arrivals).1 = .error (.malformed fault) ->
    (∃ drawn, decoder.Inflates source arrivals drawn ∧
      (Block.read decoder.config.maxBlockSize).follow drawn =
        some (.error (.malformed fault), [])) ∨
    (fault = .truncated ∧ ∃ drawn, decoder.Inflates source arrivals drawn ∧
      (Block.read decoder.config.maxBlockSize).follow drawn = none ∧
      (decoder.decodeFrom source arrivals).2.2.context.inflater.phase = .ended) ∨
    fault = .truncated ∧ ∃ through asked before failure,
      decoder.Reading source arrivals through asked before ∧
      (before.read asked).1 = .error failure ∧ failure.kind = .unexpectedEof
  /-- The stream is blamed for a fault of the bytes that the sources have delivered, at
  which the inflater has failed.  No read has failed. -/
  compression : ∀ fault, (decoder.decodeFrom source arrivals).1 = .error (.compression fault) ->
    (∃ found given rest, (fault = .fault found ∨ fault = .fault found.hasty) ∧
      Source.reach (handed ++ source :: arrivals.queue) = given ++ rest ∧
      (Inflater.fresh.expand (Bits.ofBytes given)).phase = .failed found ∧
      (decoder.decodeFrom source arrivals).2.2.context.inflater.phase = .failed found) ∧
    ∀ through asked before, decoder.Reading source arrivals through asked before ->
      ∃ bytes, (before.read asked).1 = .ok bytes

theorem errors_traced_to_origin (used : Used config handed results decoder)
    (healthy : decoder.poisoned = false) (source : Source) (arrivals : Arrivals) :
    Traced handed decoder source arrivals := by
  rcases used.booked healthy with ⟨blocks, booked⟩
  rcases booked.books with ⟨loaded, taken, books⟩
  have attached := books.attach source
  constructor
  · intro through asked before failure reading failed
    exact reading.fst_decodeFrom healthy failed
  · intro failure failed
    rcases origin_of_decodeFrom healthy attached failed with ⟨rest, origin⟩
    exact origin.of_io
  · intro fault failed
    rcases origin_of_decodeFrom healthy attached failed with ⟨rest, origin⟩
    rcases origin.of_malformed with
        ⟨drawn, followed, carried⟩ | ⟨rfl, drawn, short, phase, carried⟩ | cutOff
    · exact Or.inl ⟨drawn, inflates_of_carriesOn attached carried, followed⟩
    · have inflates := inflates_of_carriesOn attached carried
      exact Or.inr (Or.inl ⟨rfl, drawn, inflates, short, phase⟩)
    · exact Or.inr (Or.inr cutOff)
  · intro fault failed
    constructor
    · rcases origin_of_decodeFrom healthy attached failed with ⟨rest, origin⟩
      rcases origin.of_compression with ⟨reported, rfl, split, breaks, phase, report⟩
      rw [List.append_assoc] at split
      exact ⟨_, _, _, report.imp (congrArg StreamFault.fault) (congrArg StreamFault.fault), split,
        breaks, phase⟩
    · intro through asked before reading
      cases read : (before.read asked).1 with
      | ok bytes => exact ⟨bytes, rfl⟩
      | error failure =>
        have instead := reading.fst_decodeFrom healthy read
        rw [failed, Error.ofSource] at instead
        split at instead
        · cases instead
        · cases instead

end Used

/-- The first read of a fresh decoder comes before its first field. -/
theorem reading_fresh (source : Source) (arrivals : Arrivals) :
    ({} : Decoder).Reading source arrivals 4 Decompressor.chunk
      ((({} : Decoder).attach source).supplyWith arrivals) := by
  have fits : (Progress.start 262144).size ≤ (Progress.start 262144).remaining := by decide
  have charged : (({} : Decoder).opening source arrivals).Charged 4
      (Progress.start 262144).charge := .intro Block.Place.noConfusion fits
  have starved : (({} : Decompressor).advance 4).1 = .starved := by decide +kernel
  exact .intro .refl charged (.now (.now (by decide) (Prod.ext starved rfl)))

/-- A source that is cut off, and says so by the kind of its failure. -/
def cutOff : Source where
  events := [.failing { kind := .unexpectedEof, message := "early end" }]

/-- The failure of a source is lost, and the block is blamed. -/
theorem cutOff_blamed_on_block :
    ∃ through asked before failure, ({} : Decoder).Reading cutOff {} through asked before ∧
      (before.read asked).1 = .error failure ∧ failure.isInterruption = false ∧
      (({} : Decoder).decodeFrom cutOff {}).1 ≠ .error (.io failure) ∧
      (({} : Decoder).decodeFrom cutOff {}).1 = .error (.malformed .truncated) := by
  refine ⟨4, _, _, { kind := .unexpectedEof, message := "early end" }, reading_fresh cutOff {},
    ?_, ?_, ?_, ?_⟩
  all_goals decide +kernel

/-- A source that is cut off otherwise. -/
def goneAway : Source where
  events := [.failing { kind := .connectionReset, message := "peer gone" }]

namespace Used

theorem errors_traced_to_origin_goneAway :
    (({} : Decoder).decodeFrom goneAway {}).1 =
      .error (.io { kind := .connectionReset, message := "peer gone" }) := by
  have traced : Traced [] ({} : Decoder) goneAway {} :=
    Used.fresh.errors_traced_to_origin rfl goneAway {}
  have failed : (((({} : Decoder).attach goneAway).supplyWith {}).read Decompressor.chunk).1 =
      .error { kind := .connectionReset, message := "peer gone" } := by decide +kernel
  exact traced.failing 4 _ _ _ (reading_fresh goneAway {}) failed

end Used
end Decoder
end HeaderCodec
