import HeaderCodec.Proofs.Budget
import HeaderCodec.Proofs.Conservation
import HeaderCodec.Proofs.Deflate.Faults

namespace HeaderCodec

/-!
# Reading no further than necessary

A reader of a live connection must not ask for bytes that it can do without,
since they may never come.  The inflater makes this delicate: its input can be
used up while it still owes output, and bits of the last byte may not have been
taken yet.

`Decoder.Reading` is a read from the sources in the course of a call.  The bytes
that have been handed over until then stand for too little to fill the field that
is being read.  So when they stand for a whole block, its call comes back without
another read.  Nothing is assumed about the sources behind these bytes: they may
fail or stay open for ever.
-/

namespace Deflate

/-- Some bytes break no rule of the format, though they may end anywhere. -/
def Inflater.Clean (bytes : List UInt8) : Prop :=
  ∀ fault, (Inflater.fresh.expand (Bits.ofBytes bytes)).phase ≠ .failed fault

/-- Bytes that lead on break no rule. -/
theorem Inflater.clean_of_leads {stream bytes : List UInt8} {final : Inflater}
    (leads : Leads .fresh (Bits.ofBytes stream) bytes final) : Clean stream := by
  intro fault failed
  rw [expand_of_leads leads] at failed
  rcases leads with ⟨_, _, _, _, ended | ⟨asks, _⟩⟩
  · exact Phase.noConfusion (ended.symm.trans failed)
  · rw [failed] at asks
    contradiction

namespace Decompressor

variable {state dry next : Decompressor} {supply before : Supply} {room asked : Nat}

/-! ## Reads of a draw -/

/-- In the course of a draw, `dry` has used up its input and asks the sources for
more. -/
inductive Reads (room : Nat) : Decompressor -> Supply -> (asked : Nat) -> (dry : Decompressor) ->
    (before : Supply) -> Prop where
  | now {state dry : Decompressor} {supply : Supply} (some : room ≠ 0)
      (starved : state.advance room = (.starved, dry)) : Reads room state supply chunk dry supply
  | later {state next dry : Decompressor} {supply rest before : Supply} {bytes : List UInt8}
      {asked : Nat} (some : room ≠ 0) (starved : state.advance room = (.starved, next))
      (read : supply.read chunk = (.ok bytes, rest))
      (reads : Reads room (next.load bytes) rest asked dry before) :
      Reads room state supply asked dry before

/-- The answer of a draw depends on each of its reads. -/
theorem draw_of_reads (reads : Reads room state supply asked dry before) :
    state.draw supply room =
      match before.read asked with
      | (.error failure, rest) => (.error (.source failure), dry, rest)
      | (.ok bytes, rest) => (dry.load bytes).draw rest room := by
  induction reads with
  | @now state dry supply some starved =>
    rw [draw, if_neg some, starved]
    simp only
    split
    · rename_i failure rest read
      rw [read]
    · rename_i bytes rest read
      rw [read]
  | @later state next dry supply rest before bytes asked some starved read _
      inductionHypothesis =>
    rw [← inductionHypothesis, draw, if_neg some, starved]
    simp only
    split
    · rename_i failure others failed
      rw [read] at failed
      cases failed
    · rename_i more others again
      rw [read] at again
      cases again
      rfl

/-- A draw touches the sources by its reads only. -/
theorem supply_draw (state : Decompressor) (supply : Supply) (room : Nat) :
    (state.draw supply room).2.2 = supply ∨
      ∃ asked dry before, Reads room state supply asked dry before ∧
        (state.draw supply room).2.2 = (before.read asked).2 := by
  fun_induction draw state supply room with
  | case1 => exact Or.inl rfl
  | case2 => exact Or.inl rfl
  | case3 => exact Or.inl rfl
  | case4 => exact Or.inl rfl
  | case5 state supply some next starved failure rest read =>
    exact Or.inr ⟨_, next, supply, .now some starved, congrArg Prod.snd read.symm⟩
  | case6 state supply some next starved bytes rest read inductionHypothesis =>
    rcases inductionHypothesis with same | ⟨asked, dry, before, reads, last⟩
    · exact Or.inr ⟨_, next, supply, .now some starved, same.trans (congrArg Prod.snd read.symm)⟩
    · exact Or.inr ⟨asked, dry, before, .later some starved read reads, last⟩

/-! ## What a read is preceded by -/

/-- Whoever is starved has taken all bits at hand and needs another one. -/
theorem starved_of_advance (some : room ≠ 0)
    (starved : state.advance room = (.starved, dry)) :
    dry.unread = [] ∧ dry.inflater.phase.demand = .bit ∧
      Course state.inflater state.unread [] dry.inflater := by
  have after := congrArg Prod.snd starved
  have result := congrArg Prod.fst starved
  rw [snd_advance] at after
  cases moved_of_advance some starved with
  | starved used course =>
    have clean : ∀ fault, (state.inflater.run state.unread room).1.phase ≠ .failed fault := by
      intro fault phase
      simp only [advance, Inflater.fst_runPaced, phase] at result
      cases result
    rcases Inflater.course_run state.inflater state.unread room clean with
        ⟨_, written, _, run, _, _, noRoom⟩
    rw [fst_advance clean run.output_eq] at result
    by_cases more : written ≠ []
    · rw [if_pos more] at result
      cases result
    · rw [if_neg more] at result
      rw [not_not.1 more] at noRoom
      subst after
      cases asks : (state.inflater.run state.unread room).1.phase.demand with
      | bit => exact ⟨used, rfl, course⟩
      | room => exact absurd (noRoom asks).symm some
      | nothing =>
        rw [asks, if_pos rfl] at result
        cases result

variable {attached : List Source} {pieces : List (List UInt8)} {taken : List Bool}
  {bytes : List UInt8}

/-- The books are in order at every read of a draw, and nothing has been written
since the draw began. -/
theorem Reads.carriesOn (reads : Reads room state supply asked dry before)
    (books : Books attached pieces taken bytes state supply.intake) :
    room ≠ 0 ∧ asked = chunk ∧ dry.unread = [] ∧ dry.inflater.phase.demand = .bit ∧
      CarriesOn attached bytes supply dry before := by
  induction reads generalizing attached pieces taken with
  | now some starved =>
    rcases starved_of_advance some starved with
        ⟨used, asks, course⟩
    have after := books.advance (by rw [used, List.append_nil]) course
    rw [List.append_nil] at after
    exact ⟨some, rfl, used, asks, .of_books after⟩
  | later some starved read _ inductionHypothesis =>
    rcases carriesOn_load some books starved read with ⟨newly, _, _, order, loaded⟩
    rcases inductionHypothesis loaded with ⟨_, count, used, asks, carried⟩
    exact ⟨some, count, used, asks, carried.trans order⟩

theorem CarriesOn.outputSize_eq (carried : CarriesOn attached bytes supply next before) :
    next.inflater.outputSize = bytes.length := by
  rcases carried with ⟨_, _, _, _, books⟩
  rw [Inflater.outputSize_of_course books.course]
  exact Nat.zero_add _

/-- When all input is taken and more is needed, this is where the bytes lead that have
been taken off the front of the line. -/
theorem CarriesOn.dried (carried : CarriesOn attached bytes supply dry before)
    (used : dry.unread = []) (asks : dry.inflater.phase.demand = .bit) :
    ∃ newly given, supply.arrivals.queue = newly ++ before.arrivals.queue ∧
      Source.Yields (attached ++ newly) given before.intake.sources ∧
      Inflater.fresh.expand (Bits.ofBytes given) = dry.inflater := by
  rcases carried with ⟨newly, pieces, taken, order, books⟩
  rcases books.run with ⟨ended, run⟩
  have split := books.split
  rw [used, List.append_nil] at split
  refine ⟨newly, pieces.flatten, order, run.yields rfl, ?_⟩
  rw [← split]
  exact Inflater.expand_of_leads (.of_course books.course asks)

/-- What has been written then is all that these bytes stand for. -/
theorem CarriesOn.given (carried : CarriesOn attached bytes supply dry before)
    (used : dry.unread = []) (asks : dry.inflater.phase.demand = .bit) :
    ∃ given, Source.reach (attached ++ supply.arrivals.queue) = given ++ before.reach ∧
      Inflater.outputOf given = bytes := by
  rcases carried.dried used asks with ⟨newly, given, order, yields, whole⟩
  rcases carried with ⟨_, _, _, _, books⟩
  refine ⟨given, ?_, ?_⟩
  · rw [order, ← List.append_assoc]
    exact (yields.append before.arrivals.queue).reach_eq
  · rw [Inflater.outputOf, whole, books.course.output_eq]
    rfl

/-! ## Bytes that are sure to come -/

variable {final : Inflater}

/-- The bytes that can be drawn whatever happens behind the first failure. -/
def Prospect (final : Inflater) (bytes : List UInt8) (state : Decompressor) (supply : Supply) :
    Prop :=
  state.inflater.Leads (state.unread ++ Bits.ofBytes supply.reach) bytes final

/-- The bytes that can be drawn from the input at hand, with the sources as they
are. -/
def AtHand (untouched : Supply) (final : Inflater) (bytes : List UInt8) (state : Decompressor)
    (supply : Supply) : Prop :=
  supply = untouched ∧ state.inflater.Leads state.unread bytes final

theorem draw_of_prospect (state : Decompressor) (supply : Supply) (room : Nat)
    (positive : 0 < room) (some : bytes ≠ []) (prospect : Prospect final bytes state supply) :
    ∃ piece remaining next rest, state.draw supply room = (.ok piece, next, rest) ∧
      bytes = piece ++ remaining ∧ piece ≠ [] ∧ piece.length ≤ room ∧
      Prospect final remaining next rest := by
  have advanced : ∀ {state next : Decompressor} {supply : Supply} {result : Advance},
      Prospect final bytes state supply -> state.advance room = (result, next) ->
        Advanced bytes final room (Bits.ofBytes supply.reach) result next := by
    intro state next supply result prospect answer
    have general := advance_of_leads positive prospect
    rwa [answer] at general
  fun_induction draw state supply room with
  | case1 state supply none => exact absurd none (Nat.pos_iff_ne_zero.1 positive)
  | case2 state supply notZero piece next answer =>
    cases advanced prospect answer with
    | produced parts more fits leads => exact ⟨_, _, next, supply, rfl, parts, more, fits, leads⟩
  | case3 state supply notZero next answer =>
    cases advanced prospect answer with
    | ended nothing => exact absurd nothing some
  | case4 state supply notZero fault next answer =>
    cases advanced prospect answer
  | case5 state supply notZero next answer failure rest read =>
    have outcome := Supply.read_outcome (show 0 < chunk by decide) supply
    rw [read] at outcome
    cases advanced prospect answer with
    | starved used asks leads =>
      cases outcome with
      | failed nothing =>
        rw [nothing, Bits.ofBytes_nil] at leads
        exact absurd (leads.of_no_bits asks).2 some
  | case6 state supply notZero next answer more rest read inductionHypothesis =>
    have outcome := Supply.read_outcome (show 0 < chunk by decide) supply
    rw [read] at outcome
    cases advanced prospect answer with
    | starved used asks leads =>
      cases outcome with
      | delivered yields =>
        rw [Supply.reach, yields.reach_eq, Bits.ofBytes_append] at leads
        exact inductionHypothesis leads

theorem draw_of_atHand {untouched : Supply} (state : Decompressor) (supply : Supply) (room : Nat)
    (positive : 0 < room) (some : bytes ≠ []) (atHand : AtHand untouched final bytes state supply) :
    ∃ piece remaining next rest, state.draw supply room = (.ok piece, next, rest) ∧
      bytes = piece ++ remaining ∧ piece ≠ [] ∧ piece.length ≤ room ∧
      AtHand untouched final remaining next rest := by
  rcases atHand with ⟨same, leads⟩
  rw [← List.append_nil state.unread] at leads
  have advanced := advance_of_leads positive leads
  rw [draw, if_neg (Nat.pos_iff_ne_zero.1 positive)]
  generalize state.advance room = answer at advanced
  rcases answer with ⟨result, next⟩
  cases advanced with
  | @produced piece remaining _ parts more fits after =>
    rw [List.append_nil] at after
    exact ⟨piece, remaining, next, supply, rfl, parts, more, fits, same, after⟩
  | ended nothing => exact absurd nothing some
  | starved _ asks after => exact absurd (after.of_no_bits asks).2 some

end Decompressor
end Deflate

namespace Decoder

open Deflate (Decompressor Inflater)

/-! ## Reads of a call -/

/-- In the course of filling a buffer, `dry` has used up its input and asks the
sources for more. -/
inductive Fetches : (missing : Nat) -> Decompressor -> Supply -> (asked : Nat) ->
    (dry : Decompressor) -> (before : Supply) -> Prop where
  | now {missing asked : Nat} {state dry : Decompressor} {supply before : Supply}
      (reads : Decompressor.Reads missing state supply asked dry before) :
      Fetches missing state supply asked dry before
  | later {missing asked : Nat} {state next dry : Decompressor} {supply rest before : Supply}
      {byte : UInt8} {bytes : List UInt8}
      (drawn : state.draw supply missing = (.ok (byte :: bytes), next, rest))
      (fetches : Fetches (missing - (bytes.length + 1)) next rest asked dry before) :
      Fetches missing state supply asked dry before

/-- A call asks the sources for bytes.  The field that it is reading ends behind
the first `through` bytes of the block. -/
inductive Reading (decoder : Decoder) (source : Source) (arrivals : Arrivals) :
    (through asked : Nat) -> (before : Supply) -> Prop where
  | intro {moment : Moment} {size asked : Nat} {paid : Block.Progress} {dry : Decompressor}
      {before : Supply} (reaches : (decoder.opening source arrivals).Reaches moment)
      (charged : moment.Charged size paid)
      (fetches : Fetches size moment.state moment.supply asked dry before) :
      Reading decoder source arrivals paid.charged asked before

section

variable {attached : List Source} {pieces : List (List UInt8)} {taken : List Bool}
  {bytes : List UInt8} {missing asked : Nat} {state dry : Decompressor} {supply before : Supply}

/-- A buffer is filled without touching the sources, or by reading from them. -/
theorem supply_fill (missing : Nat) (pieces : List (List UInt8)) (state : Decompressor)
    (supply : Supply) :
    (fill missing pieces state supply).2.2 = supply ∨
      ∃ asked dry before, Fetches missing state supply asked dry before ∧
        (fill missing pieces state supply).2.2 = (before.read asked).2 := by
  have touched : ∀ {missing : Nat} {state next : Decompressor} {supply rest : Supply}
      {result : Except Deflate.DrawFailure (List UInt8)},
        state.draw supply missing = (result, next, rest) -> rest = supply ∨
          ∃ asked dry before, Fetches missing state supply asked dry before ∧
            rest = (before.read asked).2 := by
    intro missing state next supply rest result answer
    rcases Decompressor.supply_draw state supply missing with
        same | ⟨asked, dry, before, reads, last⟩
    · rw [answer] at same
      exact Or.inl same
    · rw [answer] at last
      exact Or.inr ⟨asked, dry, before, .now reads, last⟩
  fun_induction fill missing pieces state supply with
  | case1 => exact Or.inl rfl
  | case2 _ _ _ _ _ _ _ _ answer => exact touched answer
  | case3 _ _ _ _ _ _ _ answer => exact touched answer
  | case4 missing pieces state supply some byte more next rest answer inductionHypothesis =>
    rcases inductionHypothesis with same | ⟨asked, dry, before, fetches, last⟩
    · rw [same]
      exact touched answer
    · exact Or.inr ⟨asked, dry, before, .later answer fetches, last⟩

/-- Until a read of a field, fewer bytes have been written than the field has. -/
theorem Fetches.carriesOn (fetches : Fetches missing state supply asked dry before)
    (books : state.Books attached pieces taken bytes supply.intake) :
    asked = Decompressor.chunk ∧ dry.unread = [] ∧ dry.inflater.phase.demand = .bit ∧
      ∃ drawn, drawn.length < missing ∧
        Decompressor.CarriesOn attached (bytes ++ drawn) supply dry before := by
  induction fetches generalizing attached pieces taken bytes with
  | now reads =>
    rcases reads.carriesOn books with ⟨some, count, used, asks, carried⟩
    refine ⟨count, used, asks, [], Nat.pos_of_ne_zero some, ?_⟩
    rwa [List.append_nil]
  | @later missing asked state next dry supply rest before byte more answer fetches
      inductionHypothesis =>
    have drawn := Decompressor.carriesOn_draw state supply missing books (congrArg Prod.fst answer)
    rw [answer] at drawn
    rcases drawn with ⟨fits, newly, _, _, order, after⟩
    rcases inductionHypothesis after with ⟨count, used, asks, others, few, onward⟩
    refine ⟨count, used, asks, byte :: more ++ others, ?_, ?_⟩
    · rw [List.length_cons] at fits
      rw [List.length_append, List.length_cons]
      omega
    · rw [← List.append_assoc]
      exact onward.trans order

end

namespace Moment

variable {attached : List Source} {supply : Supply} {moment next : Moment}

/-- The books are in order at a moment of a call that has begun with some
sources. -/
def Booked (attached : List Source) (supply : Supply) (moment : Moment) : Prop :=
  ∃ written, Decompressor.CarriesOn attached written supply moment.state moment.supply

theorem Booked.step (booked : moment.Booked attached supply) (step : moment.Step next) :
    next.Booked attached supply := by
  rcases booked with ⟨written, newly, _, _, order, books⟩
  cases step with
  | @field count _ _ _ state rest charged filled accepted =>
    have carried := carriesOn_fill count [] moment.state moment.supply books
      (congrArg Prod.fst filled)
    rw [filled] at carried
    rcases carried with ⟨drawn, _, _, onward⟩
    exact ⟨written ++ drawn, onward.trans order⟩

/-- A call that succeeds has taken every field that it has charged. -/
theorem Continues.outputSize_le {answer : Except Error Headers × Decompressor × Supply}
    {headers : Headers} {size : Nat} {paid : Block.Progress}
    (continues : moment.Continues answer) (booked : moment.Booked attached supply)
    (charged : moment.Charged size paid) (done : answer.1 = .ok headers) :
    moment.state.inflater.outputSize + size ≤ answer.2.1.inflater.outputSize := by
  rcases continues with ⟨plan, follows, rfl⟩
  rcases booked with ⟨written, carried⟩
  have before := carried.outputSize_eq
  rcases carried with ⟨_, _, _, _, books⟩
  rcases carriesOn_carryOut plan books done with ⟨drawn, followed, onward⟩
  have after := onward.outputSize_eq
  rw [List.length_append] at after
  cases charged with
  | intro more fits =>
    cases follows with
    | finished last => exact absurd last more
    | refused large => exact absurd fits (Nat.not_le.2 large)
    | field =>
      rw [Plan.follow] at followed
      split at followed
      · rename_i enough
        omega
      · cases followed

end Moment

section

variable {decoder : Decoder} {source : Source} {arrivals : Arrivals} {attached : List Source}
  {pieces : List (List UInt8)} {taken : List Bool} {bytes : List UInt8} {moment : Moment}
  {through asked : Nat} {before : Supply}

/-- What a call leaves of the sources: all of it, or what its last read has left. -/
def LeftBy (decoder : Decoder) (source : Source) (arrivals : Arrivals) (rest : Supply) : Prop :=
  rest = (decoder.attach source).supplyWith arrivals ∨
    ∃ through asked before, decoder.Reading source arrivals through asked before ∧
      rest = (before.read asked).2

theorem LeftBy.fill {size : Nat} {paid : Block.Progress} {rest : Supply}
    (left : decoder.LeftBy source arrivals moment.supply)
    (reaches : (decoder.opening source arrivals).Reaches moment)
    (charged : moment.Charged size paid)
    (filled : (Decoder.fill size [] moment.state moment.supply).2.2 = rest) :
    decoder.LeftBy source arrivals rest := by
  rcases supply_fill size [] moment.state moment.supply with
      same | ⟨asked, dry, before, fetches, last⟩
  · rw [← filled, same]
    exact left
  · exact Or.inr ⟨paid.charged, asked, before, .intro reaches charged fetches,
      filled.symm.trans last⟩

theorem booked_of_reaches
    (books : decoder.context.Books attached pieces taken bytes (decoder.attach source).intake)
    (reaches : (decoder.opening source arrivals).Reaches moment) :
    moment.Booked attached ((decoder.attach source).supplyWith arrivals) :=
  reaches.preserves (fun _ _ booked step => booked.step step) ⟨bytes, .of_books books⟩

theorem supply_of_reaches (reaches : (decoder.opening source arrivals).Reaches moment) :
    decoder.LeftBy source arrivals moment.supply := by
  induction reaches with
  | refl => exact Or.inl rfl
  | @tail moment _ reaches step inductionHypothesis =>
    cases step with
    | field charged filled accepted =>
      exact inductionHypothesis.fill reaches charged (congrArg (fun answer => answer.2.2) filled)

/-- A call touches the sources by its reads only. -/
theorem supply_decodeFrom (healthy : decoder.poisoned = false) (source : Source)
    (arrivals : Arrivals) :
    ∃ rest : Supply, (decoder.decodeFrom source arrivals).2.1 = rest.arrivals ∧
      (decoder.decodeFrom source arrivals).2.2.intake = rest.intake ∧
      decoder.LeftBy source arrivals rest := by
  rcases decodeFrom_stops healthy source arrivals with ⟨last, answer, reaches, stops, same⟩
  refine ⟨answer.2.2, congrArg (fun outcome => outcome.2.1) same,
    congrArg (fun outcome => outcome.2.2.intake) same, ?_⟩
  have left := supply_of_reaches reaches
  cases stops with
  | finished => exact left
  | refused => exact left
  | broken charged failed =>
    exact left.fill reaches charged (congrArg (fun answer => answer.2.2) failed)
  | rejected charged filled refused =>
    exact left.fill reaches charged (congrArg (fun answer => answer.2.2) filled)

/-- At a read of a call the books are in order, all input at hand has been taken, and
the field that is being read is not filled yet. -/
theorem Reading.carriesOn
    (books : decoder.context.Books attached pieces taken bytes (decoder.attach source).intake)
    (reading : decoder.Reading source arrivals through asked before) :
    asked = Decompressor.chunk ∧ ∃ written dry, dry.unread = [] ∧
      dry.inflater.phase.demand = .bit ∧ written.length < decoder.delivered + through ∧
      Decompressor.CarriesOn attached written ((decoder.attach source).supplyWith arrivals) dry
        before := by
  cases reading with
  | @intro moment size _ paid dry _ reaches charged fetches =>
    rcases booked_of_reaches books reaches with ⟨written, carried⟩
    have written_eq := carried.outputSize_eq
    rcases carried with ⟨newly, _, _, order, books⟩
    rcases fetches.carriesOn books with ⟨count, used, asks, drawn, few, onward⟩
    refine ⟨count, written ++ drawn, dry, used, asks, ?_, onward.trans order⟩
    have accounted := accounted_of_reaches reaches
    have paid_eq := charged.charged_eq
    have size := accounted.written
    rw [List.length_append]
    omega

/-- Until a read of a call, what has been handed over stands for too little to fill
the field that is being read. -/
theorem Reading.given
    (books : decoder.context.Books attached pieces taken bytes (decoder.attach source).intake)
    (reading : decoder.Reading source arrivals through asked before) :
    asked = Decompressor.chunk ∧ ∃ given,
      Source.reach (attached ++ arrivals.queue) = given ++ before.reach ∧
      (Inflater.outputOf given).length < decoder.delivered + through := by
  rcases reading.carriesOn books with ⟨count, written, dry, used, asks, few, carried⟩
  rcases carried.given used asks with ⟨given, split, output⟩
  exact ⟨count, given, split, output ▸ few⟩

/-- A call that succeeds has taken every field for which it has read. -/
theorem Reading.through_le {headers : Headers} (healthy : decoder.poisoned = false)
    (books : decoder.context.Books attached pieces taken bytes (decoder.attach source).intake)
    (reading : decoder.Reading source arrivals through asked before)
    (done : (decoder.decodeFrom source arrivals).1 = .ok headers) :
    decoder.delivered + through ≤ (decoder.decodeFrom source arrivals).2.2.delivered := by
  cases reading with
  | @intro moment size _ paid _ _ reaches charged fetches =>
    rw [fst_decodeFrom healthy] at done
    have taken := (continues_opening reaches).outputSize_le (booked_of_reaches books reaches)
      charged done
    have written := (accounted_of_reaches reaches).written
    have paid_eq := charged.charged_eq
    rw [decodeFrom_eq healthy]
    refine Nat.le_trans ?_ taken
    omega

/-! ## Blocks that are there already -/

/-- Clean bytes behind those that have been taken lead on to what they stand
for. -/
theorem leads_of_books {more : List UInt8}
    (books : decoder.context.Books attached pieces taken bytes decoder.intake)
    (clean : Inflater.Clean (pieces.flatten ++ more)) :
    decoder.context.inflater.Leads (decoder.context.unread ++ Bits.ofBytes more)
      ((Inflater.outputOf (pieces.flatten ++ more)).drop decoder.delivered)
      (Inflater.fresh.expand (Bits.ofBytes (pieces.flatten ++ more))) := by
  have onward := books.expand_eq more
  rw [Inflater.Clean, onward] at clean
  have leads := Inflater.leads_expand _ clean
  rw [Inflater.outputFrom_eq] at leads
  rw [Inflater.outputOf, onward]
  exact leads

variable {entries : List Block.Entry} {rest : List UInt8}

/-- A block that is sure to come is returned, however the sources behind it
behave. -/
theorem decodeFrom_of_reach (healthy : decoder.poisoned = false)
    (books : decoder.context.Books attached pieces taken bytes (decoder.attach source).intake)
    (proper : Block.Proper entries)
    (fits : (Block.layout entries).length ≤ decoder.config.maxBlockSize)
    (clean : Inflater.Clean (Source.reach (attached ++ arrivals.queue)))
    (begins : (Inflater.outputOf (Source.reach (attached ++ arrivals.queue))).drop
      decoder.delivered = Block.layout entries ++ rest) :
    ∃ left next, decoder.decodeFrom source arrivals = (.ok (Block.meaning entries), left, next) ∧
      next.delivered = decoder.delivered + (Block.layout entries).length := by
  have split : Source.reach (attached ++ arrivals.queue) =
      pieces.flatten ++ ((decoder.attach source).supplyWith arrivals).reach :=
    Decompressor.Books.reach_eq
      (show decoder.context.Books attached pieces taken bytes
        ((decoder.attach source).supplyWith arrivals).intake from books)
  rw [split] at clean begins
  have leads := leads_of_books (show (decoder.attach source).context.Books attached pieces taken
    bytes (decoder.attach source).intake from books) clean
  have same : (decoder.attach source).delivered = decoder.delivered := rfl
  rw [same, begins] at leads
  have prospect : Decompressor.Prospect _ (Block.layout entries ++ rest) decoder.context
    ((decoder.attach source).supplyWith arrivals) := leads
  rcases carryOut_of_promise (fun _ => Decompressor.draw_of_prospect)
    (Block.read decoder.config.maxBlockSize) prospect (Block.follow_read proper rest fits) with
      ⟨state, supply, answer, after⟩
  have concluded := decodeFrom_eq healthy source arrivals
  rw [answer] at concluded
  refine ⟨_, _, concluded, ?_⟩
  -- What has been handed over is what is missing from the whole output.
  have whole := congrArg List.length (after.output_eq.symm.trans leads.output_eq)
  rw [List.length_append, List.length_append, List.length_append, Inflater.length_output,
    Inflater.length_output] at whole
  show state.inflater.outputSize = decoder.context.inflater.outputSize + _
  have before : (decoder.attach source).context = decoder.context := rfl
  rw [before] at whole
  omega

/-- A block that what has been handed over stands for is returned without a read.
The sources are left alone. -/
theorem decodeFrom_of_atHand (healthy : decoder.poisoned = false)
    (books : decoder.context.Books attached pieces taken bytes decoder.intake)
    (proper : Block.Proper entries)
    (fits : (Block.layout entries).length ≤ decoder.config.maxBlockSize)
    (clean : Inflater.Clean pieces.flatten)
    (begins : (Inflater.outputOf pieces.flatten).drop decoder.delivered =
      Block.layout entries ++ rest) (source : Source) (arrivals : Arrivals) :
    ∃ state, decoder.decodeFrom source arrivals = (.ok (Block.meaning entries), arrivals,
      { decoder.attach source with decompressor := some state }) := by
  rw [← List.append_nil pieces.flatten] at clean begins
  have leads := leads_of_books books clean
  rw [begins, Bits.ofBytes_nil, List.append_nil] at leads
  rcases carryOut_of_promise (fun _ => Decompressor.draw_of_atHand)
    (Block.read decoder.config.maxBlockSize)
    ⟨Eq.refl ((decoder.attach source).supplyWith arrivals), leads⟩
    (Block.follow_read proper rest fits) with ⟨state, supply, answer, untouched, _⟩
  subst untouched
  refine ⟨state, ?_⟩
  rw [decodeFrom_eq healthy, answer, attach, healthy]
  rfl

end

namespace Used

variable {config : DecoderConfig} {handed : List Source} {results : List (Except Error Headers)}
  {decoder : Decoder}

/-- How a call of a decoder treats its sources, when the sources in `handed` have
been handed over before. -/
structure Restrained (handed : List Source) (decoder : Decoder) (source : Source)
    (arrivals : Arrivals) : Prop where
  /-- The sources are touched by reads only. -/
  touched : ∃ rest : Supply, (decoder.decodeFrom source arrivals).2.1 = rest.arrivals ∧
    (decoder.decodeFrom source arrivals).2.2.intake = rest.intake ∧
    decoder.LeftBy source arrivals rest
  /-- A read asks for at most 4096 bytes.  What has been handed over until then
  stands for bytes that end before the field that is being read does. -/
  needed : ∀ through asked before, decoder.Reading source arrivals through asked before ->
    asked ≤ 4096 ∧ ∃ given,
      Source.reach (handed ++ source :: arrivals.queue) = given ++ before.reach ∧
      (Inflater.outputOf given).length < decoder.delivered + through
  /-- A block that can be reached is returned, and nothing is read for the sake of
  what is behind it. -/
  returned : ∀ entries rest, Block.Proper entries ->
    (Block.layout entries).length ≤ decoder.config.maxBlockSize ->
    Inflater.Clean (Source.reach (handed ++ source :: arrivals.queue)) ->
    (Inflater.outputOf (Source.reach (handed ++ source :: arrivals.queue))).drop
        decoder.delivered = Block.layout entries ++ rest ->
    (∃ left next, decoder.decodeFrom source arrivals = (.ok (Block.meaning entries), left, next) ∧
      next.delivered = decoder.delivered + (Block.layout entries).length) ∧
    ∀ through asked before, decoder.Reading source arrivals through asked before ->
      through ≤ (Block.layout entries).length
  /-- A block that has been handed over in earlier calls is returned without
  touching a source. -/
  untouched : ∀ given entries rest,
    Source.reach handed = given ++ Source.reach decoder.intake.sources ->
    Block.Proper entries -> (Block.layout entries).length ≤ decoder.config.maxBlockSize ->
    Inflater.Clean given ->
    (Inflater.outputOf given).drop decoder.delivered = Block.layout entries ++ rest ->
    ∃ state, decoder.decodeFrom source arrivals = (.ok (Block.meaning entries), arrivals,
      { decoder.attach source with decompressor := some state })

/-- A healthy decoder reads only for bytes that it cannot do without.  So it
returns as soon as what has been handed over stands for a whole block, even if
its sources stay open. -/
theorem reads_only_when_needed (used : Used config handed results decoder)
    (healthy : decoder.poisoned = false) (source : Source) (arrivals : Arrivals) :
    Restrained handed decoder source arrivals := by
  rcases used.booked healthy with ⟨blocks, booked⟩
  rcases booked.books with ⟨loaded, taken, books⟩
  have attached := books.attach source
  have line : handed ++ [source] ++ arrivals.queue = handed ++ source :: arrivals.queue :=
    List.append_assoc _ _ _
  constructor
  · exact supply_decodeFrom healthy source arrivals
  · intro through asked before reading
    rcases reading.given attached with ⟨count, given⟩
    exact ⟨Nat.le_of_eq count, line ▸ given⟩
  · intro entries rest proper fits clean begins
    rw [← line] at clean begins
    rcases decodeFrom_of_reach healthy attached proper fits clean begins with
        ⟨left, next, answer, size⟩
    refine ⟨⟨left, next, answer, size⟩, ?_⟩
    intro through asked before reading
    have within := reading.through_le healthy attached (congrArg Prod.fst answer)
    rw [answer] at within
    exact Nat.le_of_add_le_add_left (size ▸ within)
  · intro given entries rest split proper fits clean begins
    rcases books.run with ⟨ended, run⟩
    have same := List.append_cancel_right (split.symm.trans (run.yields rfl).reach_eq)
    subst same
    exact decodeFrom_of_atHand healthy books proper fits clean begins source arrivals

/-- A source that delivers `storedEntry` and whose next read would never come
back. -/
def openEnd : Source where
  events := [.data storedEntry, .failing { kind := .timedOut, message := "open" }]

theorem reads_only_when_needed_openEnd :
    (∃ left next, ({} : Decoder).decodeFrom openEnd {} =
        (.ok (Block.meaning [⟨"a", "b"⟩]), left, next) ∧ next.delivered = 14) ∧
      ∀ through asked before, Reading {} openEnd {} through asked before -> through ≤ 14 := by
  rcases leads_storedEntry with ⟨final, _, leads⟩
  have reach : Source.reach [openEnd] = storedEntry := by decide +kernel
  have clean : Inflater.Clean storedEntry := Inflater.clean_of_leads leads
  have begins : (Inflater.outputOf (Source.reach [openEnd])).drop 0 =
      Block.layout [⟨"a", "b"⟩] ++ [] := by
    rw [reach, Inflater.outputOf_of_leads leads]
    rfl
  have size : (Block.layout [⟨"a", "b"⟩]).length = 14 := by decide +kernel
  have calls : Restrained [] {} openEnd {} :=
    reads_only_when_needed .fresh rfl openEnd {}
  have returned := calls.returned [⟨"a", "b"⟩] [] proper_storedEntry (by decide +kernel)
    (reach.symm ▸ clean) begins
  rw [size] at returned
  exact returned

end Used

end Decoder
end HeaderCodec
