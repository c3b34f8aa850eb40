import HeaderCodec.Decoder
import HeaderCodec.Proofs.Deflate.Drawing
import HeaderCodec.Proofs.Deflate.ReadingBlocks
import HeaderCodec.Proofs.Grammar

namespace HeaderCodec
namespace Decoder

open Deflate (Decompressor Inflater)

/-!
# Decoding what will be decompressed

A decoder never sees the bytes that will be decompressed all at once.  Still its
answer is that of its plan followed along them: `carryOut_of_outlook` compares
the two.  Together with the grammar of blocks this tells which sequences of
bytes a decoder accepts, what it makes of them, and where the next block begins.

The bytes that will be decompressed are `forthcoming`.  They are defined by the
inflater alone, run with unlimited room on everything that has been attached or
is still to arrive.
-/

variable {state : Decompressor} {supply : Supply} {bytes : List UInt8} {final : Inflater}

/-! ## Following a plan -/

section

variable {Promised : List UInt8 -> Decompressor -> Supply -> Prop}

/-- A draw with room hands over a first part of the bytes that are promised, and
the others are still promised afterwards. -/
def Kept (Promised : List UInt8 -> Decompressor -> Supply -> Prop) : Prop :=
  ∀ bytes state supply room, 0 < room -> bytes ≠ [] -> Promised bytes state supply ->
    ∃ piece remaining next rest, state.draw supply room = (.ok piece, next, rest) ∧
      bytes = piece ++ remaining ∧ piece ≠ [] ∧ piece.length ≤ room ∧
      Promised remaining next rest

/-- As many bytes as are asked for are drawn, if as many are promised. -/
theorem fill_of_promise (kept : Kept Promised) (missing : Nat) (pieces : List (List UInt8))
    (state : Decompressor) (supply : Supply) (promise : Promised bytes state supply)
    (enough : missing ≤ bytes.length) :
    ∃ next rest, fill missing pieces state supply =
        (.ok (pieces.reverse.flatten ++ bytes.take missing), next, rest) ∧
      Promised (bytes.drop missing) next rest := by
  induction missing using Nat.strongRecOn generalizing pieces state supply bytes with
  | ind missing inductionHypothesis =>
    rw [fill]
    by_cases none : missing = 0
    · rw [if_pos none, none, List.take_zero, List.append_nil]
      exact ⟨state, supply, rfl, promise⟩
    · have more : bytes ≠ [] := fun nothing =>
        none (Nat.le_zero.1 (nothing ▸ enough : missing ≤ ([] : List UInt8).length))
      rcases kept bytes state supply missing (Nat.pos_of_ne_zero none) more promise with
          ⟨piece, remaining, next, rest, drawn, parts, some, fits, after⟩
      rcases List.exists_cons_of_ne_nil some with ⟨byte, others, rfl⟩
      subst parts
      rw [List.length_append, List.length_cons] at enough
      rw [List.length_cons] at fits
      rcases inductionHypothesis (missing - (others.length + 1))
        (by omega) ((byte :: others) :: pieces) next rest after (by omega) with
          ⟨last, left, filled, onward⟩
      have whole : (byte :: others).length ≤ missing := fits
      refine ⟨last, left, ?_, ?_⟩
      · rw [if_neg none, drawn]
        simp only [filled]
        rw [List.reverse_cons, List.flatten_concat, List.append_assoc, List.take_append,
          List.take_of_length_le whole]
        rfl
      · rw [List.drop_append, List.drop_of_length_le whole]
        exact onward

/-- A decoder's answer is that of its plan, followed along the bytes that are
promised. -/
theorem carryOut_of_promise {Result : Type} (kept : Kept Promised) (plan : Plan Result)
    {left : List UInt8} {result : Except Error Result} (promise : Promised bytes state supply)
    (followed : plan.follow bytes = some (result, left)) :
    ∃ next rest, carryOut plan state supply = (result, next, rest) ∧ Promised left next rest := by
  induction plan generalizing state supply bytes with
  | done answer =>
    rw [Plan.follow] at followed
    cases followed
    exact ⟨state, supply, rfl, promise⟩
  | take count plan inductionHypothesis =>
    rw [Plan.follow] at followed
    split at followed
    · rename_i enough
      rcases fill_of_promise kept count [] state supply promise enough with
          ⟨next, rest, filled, after⟩
      rw [carryOut, filled]
      exact inductionHypothesis _ after followed
    · cases followed

end

/-- The bytes that can still be drawn are promised as long as no source fails. -/
theorem kept_outlook (final : Inflater) :
    Kept fun bytes state supply => state.Outlook supply bytes final := by
  intro bytes state supply room positive some outlook
  have drawn := Decompressor.draw_of_outlook state supply room positive outlook
  generalize state.draw supply room = answer at drawn
  rcases answer with ⟨result, next, rest⟩
  cases drawn with
  | piece parts more fits after => exact ⟨_, _, next, rest, rfl, parts, more, fits, after⟩
  | ended nothing => exact absurd nothing some
  | abandoned nothing => exact absurd nothing some

/-- Without as many bytes as are asked for there is an error. -/
theorem fill_of_short (missing : Nat) (pieces : List (List UInt8)) (state : Decompressor)
    (supply : Supply) (outlook : state.Outlook supply bytes final)
    (few : bytes.length < missing) :
    ∃ error next rest, fill missing pieces state supply = (.error error, next, rest) := by
  induction missing using Nat.strongRecOn generalizing pieces state supply bytes with
  | ind missing inductionHypothesis =>
    rw [fill, if_neg (Nat.ne_zero_of_lt few)]
    have drawn :=
      Decompressor.draw_of_outlook state supply missing (Nat.zero_lt_of_lt few) outlook
    generalize state.draw supply missing = answer at drawn
    rcases answer with ⟨result, next, rest⟩
    cases drawn with
    | @piece piece remaining _ _ parts some fits after =>
      rcases List.exists_cons_of_ne_nil some with ⟨byte, more, rfl⟩
      subst parts
      rw [List.length_append, List.length_cons] at few
      exact inductionHypothesis (missing - (more.length + 1)) (by omega) ((byte :: more) :: pieces)
        next rest after (by omega)
    | ended => exact ⟨_, next, rest, rfl⟩
    | abandoned => exact ⟨_, next, rest, rfl⟩

/-- A decoder's answer is that of its plan, followed along the bytes that can
still be drawn.  What the plan leaves can be drawn afterwards. -/
theorem carryOut_of_outlook {Result : Type} (plan : Plan Result) {left : List UInt8}
    {result : Except Error Result} (outlook : state.Outlook supply bytes final)
    (followed : plan.follow bytes = some (result, left)) :
    ∃ next rest, carryOut plan state supply = (result, next, rest) ∧
      next.Outlook rest left final :=
  carryOut_of_promise (kept_outlook final) plan outlook followed

/-- A plan that asks for more bytes than there are ends with an error. -/
theorem carryOut_of_short {Result : Type} (plan : Plan Result)
    (outlook : state.Outlook supply bytes final) (short : plan.follow bytes = none) :
    ∃ error next rest, carryOut plan state supply = (.error error, next, rest) := by
  induction plan generalizing state supply bytes with
  | done answer => cases short
  | take count plan inductionHypothesis =>
    rw [Plan.follow] at short
    split at short
    · rename_i enough
      rcases fill_of_promise (kept_outlook final) count [] state supply outlook enough with
          ⟨next, rest, filled, after⟩
      rw [carryOut, filled]
      exact inductionHypothesis _ after short
    · rename_i few
      rcases fill_of_short count [] state supply outlook (Nat.not_le.1 few) with
          ⟨error, next, rest, failed⟩
      rw [carryOut, failed]
      exact ⟨error, next, rest, rfl⟩

/-! ## Decoders in use -/

section

variable {Holds : Decompressor -> Supply -> Prop}

/-- What every draw preserves is preserved by successive draws. -/
theorem fill_preserves
    (step : ∀ state supply room, Holds state supply ->
      Holds (state.draw supply room).2.1 (state.draw supply room).2.2)
    (missing : Nat) (pieces : List (List UInt8)) (state : Decompressor) (supply : Supply)
    (holds : Holds state supply) :
    Holds (fill missing pieces state supply).2.1 (fill missing pieces state supply).2.2 := by
  have kept : ∀ {missing : Nat} {state next : Decompressor} {supply rest : Supply}
      {result : Except Deflate.DrawFailure (List UInt8)}, Holds state supply ->
        state.draw supply missing = (result, next, rest) -> Holds next rest := by
    intro missing state next supply rest result holds answer
    have after := step state supply missing holds
    rw [answer] at after
    exact after
  fun_induction fill missing pieces state supply with
  | case1 => exact holds
  | case2 _ _ _ _ _ _ _ _ answer => exact kept holds answer
  | case3 _ _ _ _ _ _ _ answer => exact kept holds answer
  | case4 _ _ _ _ _ _ _ _ _ answer inductionHypothesis =>
    exact inductionHypothesis (kept holds answer)

theorem carryOut_preserves {Result : Type}
    (step : ∀ state supply room, Holds state supply ->
      Holds (state.draw supply room).2.1 (state.draw supply room).2.2)
    (plan : Plan Result) (state : Decompressor) (supply : Supply) (holds : Holds state supply) :
    Holds (carryOut plan state supply).2.1 (carryOut plan state supply).2.2 := by
  induction plan generalizing state supply with
  | done => exact holds
  | take count plan inductionHypothesis =>
    have kept := fill_preserves step count [] state supply holds
    rw [carryOut]
    generalize fill count [] state supply = answer at kept
    rcases answer with ⟨result, next, rest⟩
    cases result with
    | error error => exact kept
    | ok bytes => exact inductionHypothesis bytes next rest kept

end

/-- The decompressor of a decoder, which is a fresh one before the first
block. -/
def context (decoder : Decoder) : Decompressor :=
  decoder.decompressor.getD {}

/-! ## The bytes that will be decompressed -/

/-- What a decoder can draw from: what has been attached and what will
arrive. -/
def supplyWith (decoder : Decoder) (arrivals : Arrivals) : Supply where
  intake := decoder.intake
  arrivals := arrivals

/-- The state of the inflater when everything that can be drawn from has been
decompressed. -/
def expansion (decoder : Decoder) (arrivals : Arrivals) : Inflater :=
  decoder.context.inflater.expand
    (decoder.context.unread ++ Bits.ofBytes (decoder.supplyWith arrivals).content)

/-- The bytes that have been decompressed and handed over so far. -/
def delivered (decoder : Decoder) : Nat :=
  decoder.context.inflater.outputSize

/-- The bytes that will be decompressed, from the beginning of the next block
on. -/
def forthcoming (decoder : Decoder) (arrivals : Arrivals) : List UInt8 :=
  (decoder.expansion arrivals).outputFrom decoder.delivered

/-- No source will fail and the compressed stream breaks no rule. -/
structure Undisturbed (decoder : Decoder) (arrivals : Arrivals) : Prop where
  quiet : (decoder.supplyWith arrivals).Quiet
  clean : ∀ fault, (decoder.expansion arrivals).phase ≠ .failed fault

theorem outlook_forthcoming {decoder : Decoder} {arrivals : Arrivals}
    (undisturbed : decoder.Undisturbed arrivals) :
    decoder.context.Outlook (decoder.supplyWith arrivals) (decoder.forthcoming arrivals)
      (decoder.expansion arrivals) where
  quiet := undisturbed.quiet
  leads := Inflater.leads_expand _ undisturbed.clean

/-- Conversely, what a decoder has the outlook for is what will be
decompressed. -/
theorem forthcoming_of_outlook {decoder : Decoder} {arrivals : Arrivals}
    (outlook : decoder.context.Outlook (decoder.supplyWith arrivals) bytes final) :
    decoder.forthcoming arrivals = bytes := by
  have arrives : decoder.expansion arrivals = final := Inflater.expand_of_leads outlook.leads
  rw [forthcoming, arrives, Inflater.outputFrom_eq, outlook.leads.output_eq, delivered,
    ← Inflater.length_output, List.drop_left]

/-! ## Calls -/

/-- What a call returns and leaves when its plan has come to an answer. -/
def conclude (decoder : Decoder) (answer : Except Error Headers × Decompressor × Supply) :
    Except Error Headers × Arrivals × Decoder :=
  (answer.1, answer.2.2.arrivals,
    { intake := answer.2.2.intake
      decompressor := some answer.2.1
      config := decoder.config
      poisoned := match answer.1 with
        | .ok _ => false
        | .error _ => true })

/-- A call follows the plan of reading a block with everything at hand. -/
theorem decodeFrom_eq {decoder : Decoder} (healthy : decoder.poisoned = false) (source : Source)
    (arrivals : Arrivals) :
    decoder.decodeFrom source arrivals =
      decoder.conclude (carryOut (Block.read decoder.config.maxBlockSize) decoder.context
        ((decoder.attach source).supplyWith arrivals)) := by
  rcases decoder with ⟨intake, decompressor, config, poisoned⟩
  subst healthy
  rfl

/-- A poisoned decoder answers every call in the same way and is left alone. -/
theorem decodeFrom_of_poisoned {decoder : Decoder} (poisoned : decoder.poisoned = true)
    (source : Source) (arrivals : Arrivals) :
    decoder.decodeFrom source arrivals = (.error .poisoned, arrivals, decoder) := by
  rcases decoder with ⟨intake, decompressor, config, _⟩
  subst poisoned
  rfl

/-- A call that fails leaves the decoder poisoned. -/
theorem poisoned_of_error {decoder next : Decoder} {source : Source} {arrivals left : Arrivals}
    {error : Error} (healthy : decoder.poisoned = false)
    (answer : decoder.decodeFrom source arrivals = (.error error, left, next)) :
    next.poisoned = true := by
  rw [decodeFrom_eq healthy] at answer
  generalize carryOut (Block.read decoder.config.maxBlockSize) _ _ = outcome at answer
  rcases outcome with ⟨result, state, supply⟩
  cases answer
  rfl

/-- A call that succeeds leaves the decoder healthy. -/
theorem healthy_of_ok {decoder next : Decoder} {source : Source} {arrivals left : Arrivals}
    {headers : Headers} (healthy : decoder.poisoned = false)
    (answer : decoder.decodeFrom source arrivals = (.ok headers, left, next)) :
    next.poisoned = false := by
  rw [decodeFrom_eq healthy] at answer
  generalize carryOut (Block.read decoder.config.maxBlockSize) _ _ = outcome at answer
  rcases outcome with ⟨result, state, supply⟩
  cases answer
  rfl

/-- A block that begins what will be decompressed is decoded if it fits, and
what follows it is left for later calls. -/
theorem decodeFrom_of_outlook {decoder : Decoder} {source : Source} {arrivals : Arrivals}
    {entries : List Block.Entry} {rest : List UInt8} (healthy : decoder.poisoned = false)
    (outlook : decoder.context.Outlook ((decoder.attach source).supplyWith arrivals)
      (Block.layout entries ++ rest) final)
    (proper : Block.Proper entries)
    (fits : (Block.layout entries).length ≤ decoder.config.maxBlockSize) :
    ∃ left next, decoder.decodeFrom source arrivals = (.ok (Block.meaning entries), left, next) ∧
      next.context.Outlook (next.supplyWith left) rest final ∧ next.poisoned = false ∧
      next.config = decoder.config := by
  rcases carryOut_of_outlook _ outlook (Block.follow_read proper rest fits) with
      ⟨state, supply, answer, after⟩
  have concluded := decodeFrom_eq healthy source arrivals
  rw [answer] at concluded
  exact ⟨_, _, concluded, after, rfl, rfl⟩

theorem fst_decodeFrom {decoder : Decoder} (healthy : decoder.poisoned = false) (source : Source)
    (arrivals : Arrivals) :
    (decoder.decodeFrom source arrivals).1 =
      (carryOut (Block.read decoder.config.maxBlockSize) decoder.context
        ((decoder.attach source).supplyWith arrivals)).1 := by
  rw [decodeFrom_eq healthy, conclude]

/-- A call picks sources off the front of those that are to arrive.  The others
are left for later calls. -/
theorem queue_decodeFrom (decoder : Decoder) (source : Source) (arrivals : Arrivals) :
    (decoder.decodeFrom source arrivals).2.1.queue <:+ arrivals.queue := by
  rcases decoder with ⟨intake, decompressor, config, poisoned⟩
  cases poisoned with
  | true => exact List.suffix_refl _
  | false =>
    apply @carryOut_preserves (fun _ supply => supply.arrivals.queue <:+ arrivals.queue)
    · intro state supply room suffix
      exact (Decompressor.queue_draw state supply room).trans suffix
    · exact List.suffix_refl _

section

variable {decoder : Decoder} {source : Source} {arrivals : Arrivals} {entries : List Block.Entry}
  {rest : List UInt8}

theorem decodeFrom_of_begins (healthy : decoder.poisoned = false)
    (undisturbed : (decoder.attach source).Undisturbed arrivals) (proper : Block.Proper entries)
    (begins : (decoder.attach source).forthcoming arrivals = Block.layout entries ++ rest)
    (fits : (Block.layout entries).length ≤ decoder.config.maxBlockSize) :
    ∃ left next,
      decoder.decodeFrom source arrivals = (.ok (Block.meaning entries), left, next) ∧
      next.poisoned = false ∧ next.forthcoming left = rest ∧
      next.delivered = decoder.delivered + (Block.layout entries).length := by
  have outlook := outlook_forthcoming undisturbed
  rw [begins] at outlook
  rcases decodeFrom_of_outlook healthy outlook proper fits with
      ⟨left, next, answer, after, stillHealthy, _⟩
  refine ⟨left, next, answer, stillHealthy, forthcoming_of_outlook after, ?_⟩
  -- What has been handed over is what is missing from the whole output.
  have before := congrArg List.length outlook.leads.output_eq
  rw [after.leads.output_eq, List.length_append, List.length_append, List.length_append,
    Inflater.length_output, Inflater.length_output] at before
  have same : (decoder.attach source).context = decoder.context := rfl
  rw [same] at before
  rw [delivered, delivered]
  omega

theorem decodeFrom_of_large (healthy : decoder.poisoned = false)
    (undisturbed : (decoder.attach source).Undisturbed arrivals) (proper : Block.Proper entries)
    (begins : (decoder.attach source).forthcoming arrivals = Block.layout entries ++ rest)
    (large : decoder.config.maxBlockSize < (Block.layout entries).length) :
    (decoder.decodeFrom source arrivals).1 =
      .error (.blockTooLarge decoder.config.maxBlockSize) := by
  have outlook := outlook_forthcoming undisturbed
  rw [begins] at outlook
  rcases Block.follow_read_of_lt proper rest large with ⟨left, followed⟩
  rcases carryOut_of_outlook _ outlook followed with ⟨next, others, answer, _⟩
  rw [fst_decodeFrom healthy]
  exact congrArg Prod.fst answer

/-- Headers come from nothing but a block that fits. -/
theorem begins_of_decodeFrom {headers : Headers} (healthy : decoder.poisoned = false)
    (undisturbed : (decoder.attach source).Undisturbed arrivals)
    (done : (decoder.decodeFrom source arrivals).1 = .ok headers) :
    ∃ entries rest, Block.Proper entries ∧
      (decoder.attach source).forthcoming arrivals = Block.layout entries ++ rest ∧
      (Block.layout entries).length ≤ decoder.config.maxBlockSize ∧
      headers = Block.meaning entries := by
  have outlook := outlook_forthcoming undisturbed
  rw [fst_decodeFrom healthy] at done
  cases followed : (Block.read decoder.config.maxBlockSize).follow
      ((decoder.attach source).forthcoming arrivals) with
  | none =>
    rcases carryOut_of_short _ outlook followed with ⟨error, next, rest, failed⟩
    have answer := (congrArg Prod.fst failed).symm.trans done
    cases answer
  | some outcome =>
    rcases outcome with ⟨result, left⟩
    rcases carryOut_of_outlook _ outlook followed with ⟨next, rest, answer, _⟩
    have same : result = .ok headers := (congrArg Prod.fst answer).symm.trans done
    subst same
    rcases Block.block_of_follow followed with ⟨entries, proper, begins, fits, meant⟩
    exact ⟨entries, left, proper, begins, fits, meant⟩

end

/-- What a call does, by what will be decompressed in it. -/
structure Accepts (decoder : Decoder) (source : Source) (arrivals : Arrivals) : Prop where
  /-- It succeeds exactly when this begins with a block that fits. -/
  ok_iff : ∀ headers, (decoder.decodeFrom source arrivals).1 = .ok headers <->
    ∃ entries rest, Block.Proper entries ∧
      (decoder.attach source).forthcoming arrivals = Block.layout entries ++ rest ∧
      (Block.layout entries).length ≤ decoder.config.maxBlockSize ∧
      headers = Block.meaning entries
  /-- It then has taken the bytes of the block and no others, and the next call begins
  behind them. -/
  taken : ∀ entries rest, Block.Proper entries ->
    (decoder.attach source).forthcoming arrivals = Block.layout entries ++ rest ->
    (Block.layout entries).length ≤ decoder.config.maxBlockSize ->
    ∃ left next, decoder.decodeFrom source arrivals = (.ok (Block.meaning entries), left, next) ∧
      next.poisoned = false ∧ next.forthcoming left = rest ∧
      next.delivered = decoder.delivered + (Block.layout entries).length
  /-- A block that does not fit is refused for its size and for nothing else. -/
  tooLarge : ∀ entries rest, Block.Proper entries ->
    (decoder.attach source).forthcoming arrivals = Block.layout entries ++ rest ->
    decoder.config.maxBlockSize < (Block.layout entries).length ->
    (decoder.decodeFrom source arrivals).1 =
      .error (.blockTooLarge decoder.config.maxBlockSize)

/-- A healthy decoder accepts exactly the blocks that fit, as long as no source fails
and no rule of the stream is broken. -/
theorem decodeFrom_accepts {decoder : Decoder} {source : Source} {arrivals : Arrivals}
    (healthy : decoder.poisoned = false)
    (undisturbed : (decoder.attach source).Undisturbed arrivals) :
    Accepts decoder source arrivals := by
  refine ⟨fun headers => ⟨begins_of_decodeFrom healthy undisturbed, ?_⟩, ?_, ?_⟩
  · rintro ⟨entries, rest, proper, begins, fits, rfl⟩
    rcases decodeFrom_of_begins healthy undisturbed proper begins fits with
        ⟨left, next, answer, _⟩
    rw [answer]
  · intro entries rest proper begins fits
    exact decodeFrom_of_begins healthy undisturbed proper begins fits
  · intro entries rest proper begins large
    exact decodeFrom_of_large healthy undisturbed proper begins large

/-- The beginning of a stream, and a block of one entry in stored form. -/
def storedEntry : List UInt8 :=
  [0x78, 0x9c, 0x00, 0x0e, 0x00, 0xf1, 0xff, 0, 0, 0, 1, 0, 0, 0, 1, 0x61, 0, 0, 0, 1, 0x62]

theorem leads_storedEntry :
    ∃ final, final.phase = .number .blockHead 3 1 0 ∧
      Inflater.Leads .fresh (Bits.ofBytes storedEntry) (Block.layout [⟨"a", "b"⟩] ++ []) final := by
  have head : Deflate.Format.Head [0x78, 0x9c] [] := .plain ⟨rfl, rfl, by decide⟩ rfl
  have aligned : [false, false, false, false, false].length = Bits.padding (16 + 3) := rfl
  have block : Deflate.Format.Block false 16 [] _ (Block.layout [⟨"a", "b"⟩]) :=
    .stored aligned (by decide +kernel)
  rcases Inflater.course_head head with ⟨opened, opening, beginning⟩
  rcases Inflater.course_blocks (.next block .none) opening.history
    opening.consumed opening.final with ⟨after, _, stored⟩
  refine ⟨after.expect .blockHead 3, rfl, ?_⟩
  have leads := Inflater.Leads.of_course (beginning.trans stored) rfl
  refine Eq.subst (motive := fun bits => Inflater.Leads .fresh bits _ _) ?_ leads
  decide +kernel

theorem proper_storedEntry : Block.Proper [⟨"a", "b"⟩] := by
  refine ⟨by decide, ?_⟩
  intro entry member
  rcases List.mem_singleton.1 member with rfl
  exact ⟨by decide, by decide, by decide⟩

theorem decodeFrom_storedEntry :
    (({} : Decoder).decodeFrom (.ofBytes storedEntry) {}).1 =
      .ok (Block.meaning [⟨"a", "b"⟩]) := by
  rcases leads_storedEntry with ⟨final, asks, leads⟩
  have quiet : ((({} : Decoder).attach (.ofBytes storedEntry)).supplyWith {}).Quiet := by
    intro source member
    rcases List.mem_singleton.1 member with rfl
    exact Source.quiet_ofBytes _
  have clean : ∀ fault, ((({} : Decoder).attach (.ofBytes storedEntry)).expansion {}).phase ≠
      .failed fault := by
    intro fault failed
    have arrives := Inflater.expand_of_leads leads
    have phase := (congrArg Inflater.phase arrives).symm.trans failed
    rw [asks] at phase
    cases phase
  have accepts := decodeFrom_accepts rfl ⟨quiet, clean⟩
  exact (accepts.ok_iff _).2 ⟨[⟨"a", "b"⟩], [], proper_storedEntry,
    forthcoming_of_outlook ⟨quiet, leads⟩, by decide +kernel, rfl⟩

end Decoder
end HeaderCodec
