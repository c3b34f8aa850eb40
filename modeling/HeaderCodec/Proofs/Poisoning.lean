import HeaderCodec.Proofs.Calls
import HeaderCodec.Proofs.Conservation
import HeaderCodec.Proofs.Fields

namespace HeaderCodec

/-!
# Codecs that cannot be used any more

After a fatal error the two ends of a connection no longer have the same history,
and a codec that went on would only produce nonsense.  So it is poisoned.  A
refusal for the sake of the headers is not fatal, and a codec that was poisoned by
it would be dead for no reason.  Errors arise in many places and reach the caller
in many ways, and this is about all of them.

Both codecs keep the same discipline.  `Disciplined` states it for the results of
all calls so far, and one lemma tells how it is kept by one more call.  For the
calls of a codec it is enough then to know that a healthy one finds errors of its
own and is poisoned by the fatal ones, and that a poisoned one does nothing.
-/

/-! ## The discipline -/

variable {Result : Type}

/-- A call has ended with a fatal error. -/
def IsFatal (result : Except Error Result) : Prop :=
  ∃ error, result = .error error ∧ error.isFatal = true

theorem not_isFatal_ok (value : Result) : ¬IsFatal (.ok value) := by
  rintro ⟨error, same, _⟩
  cases same

theorem not_isFatal_invalidHeader (fault : HeaderFault) :
    ¬IsFatal (.error (.invalidHeader fault) : Except Error Result) := by
  rintro ⟨error, same, fatal⟩
  cases same
  contradiction

/-- The results of all calls of a codec, and whether it is poisoned after them. -/
structure Disciplined (results : List (Except Error Result)) (poisoned : Bool) : Prop where
  /-- A codec is poisoned by fatal errors and by nothing else. -/
  poisoned_iff : poisoned = true <-> ∃ result ∈ results, IsFatal result
  /-- Calls behind the first fatal error are turned away, and no others are. -/
  refused_iff : ∀ earlier result later, results = earlier ++ result :: later ->
    (result = .error .poisoned <-> ∃ before ∈ earlier, IsFatal before)

namespace Disciplined

variable {results : List (Except Error Result)} {result : Except Error Result}

theorem fresh : Disciplined ([] : List (Except Error Result)) false where
  poisoned_iff := by
    constructor
    · intro never
      contradiction
    · rintro ⟨result, member, _⟩
      exact absurd member List.not_mem_nil
  refused_iff := fun earlier result later split =>
    absurd split.symm (List.append_ne_nil_of_right_ne_nil earlier (List.cons_ne_nil result later))

/-- The last call is judged by what came before, and the others as they were. -/
theorem refused_snoc {poisoned : Bool} (disciplined : Disciplined results poisoned)
    (last : result = .error .poisoned <-> poisoned = true) :
    ∀ earlier other later, results ++ [result] = earlier ++ other :: later ->
      (other = .error .poisoned <-> ∃ before ∈ earlier, IsFatal before) := by
  intro earlier other later split
  rcases List.eq_nil_or_concat later with rfl | ⟨before, final, rfl⟩
  · rcases List.append_inj' split rfl with ⟨rfl, same⟩
    cases same
    exact last.trans disciplined.poisoned_iff
  · rw [List.concat_eq_append, ← List.cons_append, ← List.append_assoc] at split
    exact disciplined.refused_iff earlier other before (List.append_inj' split rfl).1

/-- A call without a fatal error leaves a codec healthy. -/
theorem calm (disciplined : Disciplined results false) (calm : ¬IsFatal result) :
    Disciplined (results ++ [result]) false where
  poisoned_iff := by
    constructor
    · intro never
      contradiction
    · rintro ⟨other, member, fatal⟩
      rcases List.mem_append.1 member with before | last
      · exact disciplined.poisoned_iff.2 ⟨other, before, fatal⟩
      · exact absurd (List.mem_singleton.1 last ▸ fatal) calm
  refused_iff := disciplined.refused_snoc
    ⟨fun same => absurd ⟨.poisoned, same, rfl⟩ calm, fun never => Bool.noConfusion never⟩

/-- A call that finds a fatal error poisons a codec. -/
theorem poison {error : Error} (disciplined : Disciplined results false)
    (fatal : error.isFatal = true) (own : error ≠ .poisoned) :
    Disciplined (results ++ [.error error]) true where
  poisoned_iff :=
    ⟨fun _ => ⟨_, List.mem_append_right _ (List.mem_singleton_self _), error, rfl, fatal⟩,
      fun _ => rfl⟩
  refused_iff := disciplined.refused_snoc
    ⟨fun same => absurd (Except.error.inj same) own, fun never => Bool.noConfusion never⟩

/-- A poisoned codec turns every call away. -/
theorem turnAway (disciplined : Disciplined results true) :
    Disciplined (results ++ [.error .poisoned]) true where
  poisoned_iff := by
    rcases disciplined.poisoned_iff.1 rfl with ⟨other, member, fatal⟩
    exact ⟨fun _ => ⟨other, List.mem_append_left _ member, fatal⟩, fun _ => rfl⟩
  refused_iff := disciplined.refused_snoc ⟨fun _ => rfl, fun _ => rfl⟩

end Disciplined

namespace Decoder

/-! ## Errors of a healthy decoder -/

/-- An error that ends the stream, found by the call that returns it. -/
def Breaks (error : Error) : Prop :=
  error.isFatal = true ∧ error ≠ .poisoned

theorem breaks_drawError (failure : Deflate.DrawFailure) : Breaks (drawError failure) := by
  cases failure with
  | stream fault => exact ⟨rfl, Error.noConfusion⟩
  | source failure =>
    rw [drawError, Error.ofSource]
    split
    · exact ⟨rfl, Error.noConfusion⟩
    · exact ⟨rfl, Error.noConfusion⟩

theorem breaks_fill {error : Error} (missing : Nat) (pieces : List (List UInt8))
    (state : Deflate.Decompressor) (supply : Supply)
    (failed : (fill missing pieces state supply).1 = .error error) : Breaks error := by
  rcases error_of_fill missing pieces state supply failed with ⟨failure, rfl⟩ | rfl
  · exact breaks_drawError failure
  · exact ⟨rfl, Error.noConfusion⟩

/-- Bytes that are no good are a fault of the layout, or announce too many
entries. -/
theorem breaks_accept (progress : Block.Progress) (bytes : List UInt8) (error : Error) :
    progress.accept bytes = .error error -> Breaks error := by
  fun_cases Block.Progress.accept progress bytes with
  | case1 | case4 | case5 | case8 =>
    rintro ⟨⟩
    exact ⟨rfl, Error.noConfusion⟩
  | case2 | case3 | case6 | case7 | case9 | case10 =>
    intro accepted
    contradiction

theorem Moment.Stops.breaks {moment : Moment} {error : Error} {state : Deflate.Decompressor}
    {supply : Supply} (stops : moment.Stops (.error error, state, supply)) : Breaks error := by
  cases stops with
  | refused => exact ⟨rfl, Error.noConfusion⟩
  | broken charged failed => exact breaks_fill _ _ _ _ (congrArg Prod.fst failed)
  | rejected charged filled refused => exact breaks_accept _ _ _ refused

theorem breaks_decodeFrom {decoder : Decoder} {source : Source} {arrivals : Arrivals}
    {error : Error} (healthy : decoder.poisoned = false)
    (failed : (decoder.decodeFrom source arrivals).1 = .error error) : Breaks error := by
  rcases decodeFrom_stops healthy source arrivals with
      ⟨last, ⟨result, state, supply⟩, _, stops, same⟩
  rw [same] at failed
  have result_eq : result = .error error := failed
  subst result_eq
  exact stops.breaks

/-! ## Runs of a decoder -/

namespace Used

variable {config : DecoderConfig} {handed : List Source} {results : List (Except Error Headers)}
  {decoder : Decoder}

theorem disciplined (used : Used config handed results decoder) :
    Disciplined results decoder.poisoned := by
  induction used with
  | fresh => exact .fresh
  | attach _ source inductionHypothesis => exact inductionHypothesis
  | @called _ _ _ decoder next source arrivals _ result _ healthy answer _ inductionHypothesis =>
    rw [healthy] at inductionHypothesis
    cases result with
    | ok headers =>
      rw [healthy_of_ok healthy answer]
      exact inductionHypothesis.calm (not_isFatal_ok headers)
    | error error =>
      rw [poisoned_of_error healthy answer]
      have breaks := breaks_decodeFrom healthy (congrArg Prod.fst answer)
      exact inductionHypothesis.poison breaks.1 breaks.2
  | @refused _ _ _ _ source arrivals _ _ _ poisoned answer inductionHypothesis =>
    rw [decodeFrom_of_poisoned poisoned] at answer
    cases answer
    rw [poisoned] at inductionHypothesis ⊢
    exact inductionHypothesis.turnAway

/-- A decoder never blames the headers. -/
theorem no_invalidHeader (used : Used config handed results decoder) (fault : HeaderFault) :
    .error (.invalidHeader fault) ∉ results := by
  induction used with
  | fresh => exact List.not_mem_nil
  | attach _ source inductionHypothesis => exact inductionHypothesis
  | called _ healthy answer _ inductionHypothesis =>
    intro member
    rcases List.mem_append.1 member with before | last
    · exact inductionHypothesis before
    · rw [← List.mem_singleton.1 last] at answer
      exact Bool.noConfusion (breaks_decodeFrom healthy (congrArg Prod.fst answer)).1
  | refused _ poisoned answer inductionHypothesis =>
    rw [decodeFrom_of_poisoned poisoned] at answer
    cases answer
    intro member
    rcases List.mem_append.1 member with before | last
    · exact inductionHypothesis before
    · cases List.mem_singleton.1 last

end Used

end Decoder

namespace Encoder

/-! ## Runs of an encoder -/

variable {State : Type} [Compressor State] {encoder : Encoder State}
  {results : List (Except Error Unit)}

/-- What can have been done with an encoder, and what all calls have come to. -/
def Used (config : EncoderConfig) (results : List (Except Error Unit))
    (encoder : Encoder State) : Prop :=
  ∃ calls, results = (({ config } : Encoder State).answers calls).1.map Answer.result ∧
    encoder = (({ config } : Encoder State).answers calls).2

theorem Used.fresh (config : EncoderConfig) : Used config [] ({ config } : Encoder State) :=
  ⟨[], rfl, rfl⟩

/-- One more call is a use. -/
theorem Used.answer {config : EncoderConfig} (used : Used config results encoder) (call : Call) :
    Used config (results ++ [(encoder.answer call).1.result]) (encoder.answer call).2 := by
  rcases used with ⟨calls, rfl, rfl⟩
  refine ⟨calls ++ [call], ?_, ?_⟩
  · rw [answers_append, List.map_append]
    rfl
  · rw [answers_append]
    rfl

theorem disciplined_encode (disciplined : Disciplined results encoder.poisoned)
    (healthy : encoder.poisoned = false) (headers : Headers) :
    Disciplined (results ++ [(encoder.encode headers).1.map fun _ => ()])
      (encoder.encode headers).2.poisoned := by
  have outcome := encoded encoder headers
  rw [healthy] at disciplined
  generalize encoder.encode headers = ended at outcome ⊢
  rcases ended with ⟨result, next⟩
  cases outcome with
  | turnedAway poisoned => exact Bool.noConfusion (healthy.symm.trans poisoned)
  | @refused fault =>
    rw [healthy]
    exact disciplined.calm (not_isFatal_invalidHeader fault)
  | lost _ _ failed =>
    rcases losesBlock_of_compress failed with ⟨text, rfl⟩ | ⟨failure, rfl⟩
    · exact disciplined.poison rfl Error.noConfusion
    · exact disciplined.poison rfl Error.noConfusion
  | sent =>
    rw [healthy]
    exact disciplined.calm (not_isFatal_ok ())

/-- One more call keeps the discipline. -/
theorem disciplined_answer (disciplined : Disciplined results encoder.poisoned) (call : Call) :
    Disciplined (results ++ [(encoder.answer call).1.result]) (encoder.answer call).2.poisoned := by
  cases state : encoder.poisoned with
  | true =>
    rw [state] at disciplined
    rw [answer_of_poisoned state, state]
    cases call with
    | encode => exact disciplined.turnAway
    | encodeTo => exact disciplined.turnAway
  | false =>
    cases call with
    | encode headers => exact disciplined_encode disciplined state headers
    | encodeTo headers sink =>
      have outcome := written encoder headers sink
      have encoding := disciplined_encode disciplined state headers
      rw [answer]
      generalize encoder.encodeTo headers sink = ended at outcome ⊢
      rcases ended with ⟨result, after, next⟩
      cases outcome with
      | failed encoded =>
        rw [encoded] at encoding
        exact encoding
      | broken =>
        rw [state] at disciplined
        exact disciplined.poison rfl Error.noConfusion
      | sent encoded =>
        rw [encoded] at encoding
        exact encoding

/-- Any number of calls keep the discipline. -/
theorem disciplined_answers (disciplined : Disciplined results encoder.poisoned)
    (calls : List Call) :
    Disciplined (results ++ (encoder.answers calls).1.map Answer.result)
      (encoder.answers calls).2.poisoned := by
  induction calls generalizing encoder results with
  | nil =>
    rw [answers, List.map_nil, List.append_nil]
    exact disciplined
  | cons call calls inductionHypothesis =>
    rw [answers, List.map_cons, List.append_cons]
    exact inductionHypothesis (disciplined_answer disciplined call)

theorem Used.disciplined {config : EncoderConfig} (used : Used config results encoder) :
    Disciplined results encoder.poisoned := by
  rcases used with ⟨calls, rfl, rfl⟩
  exact @disciplined_answers _ _ { config } [] .fresh calls

end Encoder

/-! ## Both codecs -/

/-- Whatever calls are made of a decoder or an encoder, it is poisoned exactly when
one of them has returned a fatal error.  The calls behind the first fatal error are
those that are turned away, and they change nothing: neither the decoder with its
sources, nor those that are to arrive, nor the encoder, nor the sink.  A decoder
never blames the headers. -/
theorem poisoned_by_fatal_errors {State : Type} [Compressor State] :
    (∀ config handed results (decoder : Decoder), Decoder.Used config handed results decoder ->
      Disciplined results decoder.poisoned ∧
        (∀ fault, .error (.invalidHeader fault) ∉ results) ∧
        (decoder.poisoned = true -> ∀ source arrivals,
          decoder.decodeFrom source arrivals = (.error .poisoned, arrivals, decoder))) ∧
    ∀ config results (encoder : Encoder State), Encoder.Used config results encoder ->
      Disciplined results encoder.poisoned ∧
        (encoder.poisoned = true -> ∀ headers sink,
          encoder.encode headers = (.error .poisoned, encoder) ∧
          encoder.encodeTo headers sink = (.error .poisoned, sink, encoder)) := by
  constructor
  · intro config handed results decoder used
    exact ⟨used.disciplined, used.no_invalidHeader, Decoder.decodeFrom_of_poisoned⟩
  · intro config results encoder used
    exact ⟨used.disciplined, Encoder.encode_of_poisoned⟩

/-- What is reported when the other end is gone. -/
def peerGone : Failure :=
  .ofKind .brokenPipe

/-- Headers that cannot be sent. -/
def nameless : Headers :=
  ({} : Headers).append "" "value"

/-- A decoder whose first source fails, and an encoder that refuses headers before
its sink fails.  Both turn the next call away. -/
theorem poisoned_by_peerGone :
    (∃ decoder, Decoder.Used {} [{ events := [.failing peerGone] }]
        [.error (.io peerGone), .error .poisoned] decoder ∧ decoder.poisoned = true) ∧
      ∃ encoder : Encoder Deflate.Deflater, Encoder.Used { level := 0 }
        [.error (.invalidHeader .emptyName), .error (.io peerGone), .error .poisoned] encoder ∧
        encoder.poisoned = true := by
  have both := @poisoned_by_fatal_errors Deflate.Deflater _
  constructor
  · have failed : (({} : Decoder).decodeFrom { events := [.failing peerGone] } {}).1 =
        .error (.io peerGone) := by decide +kernel
    have once : Decoder.Used {} _ _ _ := Decoder.Used.fresh.alone rfl _ failed
    have poisoned := (both.1 _ _ _ _ once).1.poisoned_iff.2
      ⟨_, List.mem_singleton_self _, _, rfl, rfl⟩
    have turnedAway := (both.1 _ _ _ _ once).2.2 poisoned
    exact ⟨_, once.refused poisoned (turnedAway (.ofBytes []) {}), poisoned⟩
  · have fresh : Encoder.Used { level := 0 } []
        ({ config := { level := 0 } } : Encoder Deflate.Deflater) := .fresh _
    have twice := (fresh.answer (.encode nameless)).answer
      (.encodeTo {} { events := [.failing peerGone] })
    have results : [] ++ [((({ config := { level := 0 } } : Encoder Deflate.Deflater).answer
        (.encode nameless)).1.result)] ++ [((({ config := { level := 0 } } :
          Encoder Deflate.Deflater).answer (.encode nameless)).2.answer
            (.encodeTo {} { events := [.failing peerGone] })).1.result] =
        [.error (.invalidHeader .emptyName), .error (.io peerGone)] := by decide +kernel
    rw [results] at twice
    have poisoned := (both.2 _ _ _ twice).1.poisoned_iff.2
      ⟨_, List.mem_cons_of_mem _ (List.mem_singleton_self _), _, rfl, rfl⟩
    have turnedAway := ((both.2 _ _ _ twice).2 poisoned {} {}).1
    have thrice := twice.answer (.encode {})
    rw [Encoder.answer, turnedAway] at thrice
    exact ⟨_, thrice, poisoned⟩

end HeaderCodec
