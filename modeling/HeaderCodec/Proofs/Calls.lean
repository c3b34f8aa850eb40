import HeaderCodec.Deflate.Deflater
import HeaderCodec.Encoder

namespace HeaderCodec

/-!
# Calls of an encoder

A run of an encoder is a list of calls together with the answers to them.  What has
been sent, and what the calls have come to, is read off the answers, so there is one
account of a run.

Little is known of a call when nothing is known of the compressor.  A call is turned away
or refused without anything having happened, or it loses the block and poisons the
encoder, or it sends the block.
-/

/-! ## Sinks that take everything -/

/-- What a write takes comes behind what was taken before. -/
theorem Sink.taken_accept (sink : Sink) (bytes : List UInt8) (size : Nat) :
    (sink.accept (bytes.take size)).taken.toList ++ bytes.drop size =
      sink.taken.toList ++ bytes := by
  rw [accept, Array.toList_appendList, List.append_assoc, List.take_append_drop]

/-- A sink that reports success has taken all bytes, behind those that it had
taken before. -/
theorem Sink.taken_writeAll {sink : Sink} {bytes : List UInt8}
    (done : (sink.writeAll bytes).1 = .ok ()) :
    (sink.writeAll bytes).2.taken.toList = sink.taken.toList ++ bytes := by
  fun_induction Sink.writeAll sink bytes with
  | case1 sink => exact (List.append_nil _).symm
  | case2 _ _ _ _ _ _ _ inductionHypothesis => exact inductionHypothesis done
  | case3 => cases done
  | case4 => cases done
  | case5 _ _ _ _ _ inductionHypothesis => exact inductionHypothesis done
  | case6 => cases done
  | case7 _ _ _ _ _ _ _ _ inductionHypothesis =>
    rw [inductionHypothesis done]
    exact Sink.taken_accept _ _ _
  | case8 => cases done
  | case9 _ _ _ _ _ _ inductionHypothesis =>
    rw [inductionHypothesis done]
    exact Sink.taken_accept _ _ _

/-! ## Compressors that do not fail -/

/-- The compressor never fails. -/
class Compressor.Steady (State : Type) [Compressor State] : Prop where
  starts : ∀ level, ∃ state : State, start level = .ok state
  compresses : ∀ (state : State) bytes, ∃ part next, compress state bytes = (.ok part, next)

instance : Compressor.Steady Deflate.Deflater where
  starts _ := ⟨_, rfl⟩
  compresses _ _ := ⟨_, _, rfl⟩

namespace Encoder

variable {State : Type} [Compressor State] {encoder next : Encoder State}

/-! ## One call -/

section

variable {headers : Headers}

/-- What a compressor reports when it fails.  It is never the fault of the headers. -/
def LosesBlock (error : Error) : Prop :=
  (∃ text, error = .compression (.stated ("dictionary rejected: " ++ text))) ∨
    ∃ failure, error = .io failure

theorem losesBlock_of_compress {level : Nat} {context after : Option State} {error : Error}
    (failed : compress level context headers = (.error error, after)) : LosesBlock error := by
  rw [compress] at failed
  cases resumed : resume level context with
  | error reason =>
    rw [resumed] at failed
    cases failed
    cases context with
    | some context => cases resumed
    | none =>
      rw [resume] at resumed
      split at resumed
      · cases resumed
      · cases resumed
        exact Or.inl ⟨_, rfl⟩
  | ok context =>
    rw [resumed] at failed
    simp only at failed
    split at failed
    · cases failed
    · cases failed
      exact Or.inr ⟨_, rfl⟩

theorem compress_of_steady [Compressor.Steady State] (level : Nat) (context : Option State)
    (headers : Headers) :
    ∃ block after, compress level context headers = (.ok block, some after) := by
  have resumed : ∃ state, resume level context = .ok state := by
    cases context with
    | some context => exact ⟨context, rfl⟩
    | none =>
      rcases (Compressor.Steady.starts level : ∃ state : State, _) with ⟨state, started⟩
      exact ⟨state, by rw [resume, started]⟩
  rcases resumed with ⟨state, resumed⟩
  rcases Compressor.Steady.compresses state (Block.write headers) with ⟨part, after, done⟩
  exact ⟨part, after, by rw [compress, resumed]; simp only [done]⟩

/-- How encoding can end. -/
inductive Encoded (encoder : Encoder State) (headers : Headers) :
    Except Error (List UInt8) -> Encoder State -> Prop where
  | turnedAway (poisoned : encoder.poisoned = true) :
      Encoded encoder headers (.error .poisoned) encoder
  | refused {fault : HeaderFault} (healthy : encoder.poisoned = false)
      (faulty : fault? headers = some fault) :
      Encoded encoder headers (.error (.invalidHeader fault)) encoder
  | lost {error : Error} {context : Option State} (healthy : encoder.poisoned = false)
      (faultless : fault? headers = none)
      (failed : compress encoder.config.level encoder.context headers = (.error error, context)) :
      Encoded encoder headers (.error error) { encoder with context, poisoned := true }
  | sent {block : List UInt8} {context : Option State} (healthy : encoder.poisoned = false)
      (faultless : fault? headers = none)
      (done : compress encoder.config.level encoder.context headers = (.ok block, context)) :
      Encoded encoder headers (.ok block) { encoder with context }

theorem encoded (encoder : Encoder State) (headers : Headers) :
    Encoded encoder headers (encoder.encode headers).1 (encoder.encode headers).2 := by
  rcases encoder with ⟨context, config, _ | _⟩
  · rw [encode]
    cases found : fault? headers with
    | some fault => exact .refused rfl found
    | none =>
      simp only
      cases answer : compress config.level context headers with
      | mk result after =>
        cases result with
        | ok block => exact .sent rfl found answer
        | error error => exact .lost rfl found answer
  · exact .turnedAway rfl

/-- How a call with a sink can end. -/
inductive Written (encoder : Encoder State) (headers : Headers) (sink : Sink) :
    Except Error Unit -> Sink -> Encoder State -> Prop where
  | failed {error : Error} {next : Encoder State}
      (answer : encoder.encode headers = (.error error, next)) :
      Written encoder headers sink (.error error) sink next
  | broken {block : List UInt8} {next : Encoder State} {failure : Failure} {after : Sink}
      (answer : encoder.encode headers = (.ok block, next))
      (stopped : sink.writeAll block = (.error failure, after)) :
      Written encoder headers sink (.error (.io failure)) after { next with poisoned := true }
  | sent {block : List UInt8} {next : Encoder State} {after : Sink}
      (answer : encoder.encode headers = (.ok block, next))
      (done : sink.writeAll block = (.ok (), after)) :
      Written encoder headers sink (.ok ()) after next

theorem written (encoder : Encoder State) (headers : Headers) (sink : Sink) :
    Written encoder headers sink (encoder.encodeTo headers sink).1
      (encoder.encodeTo headers sink).2.1 (encoder.encodeTo headers sink).2.2 := by
  rw [encodeTo]
  cases answer : encoder.encode headers with
  | mk result next =>
    cases result with
    | error error => exact .failed answer
    | ok block =>
      simp only
      cases written : sink.writeAll block with
      | mk result after =>
        cases result with
        | error failure => exact .broken answer written
        | ok => exact .sent answer written

/-- A poisoned encoder turns headers away and is left alone, and so is the sink. -/
theorem encode_of_poisoned (poisoned : encoder.poisoned = true) (headers : Headers)
    (sink : Sink) :
    encoder.encode headers = (.error .poisoned, encoder) ∧
      encoder.encodeTo headers sink = (.error .poisoned, sink, encoder) := by
  rcases encoder with ⟨context, config, _⟩
  subst poisoned
  exact ⟨rfl, rfl⟩

/-- Headers with a fault are refused, and nothing happens to the encoder or the
sink. -/
theorem refused_of_fault {fault : HeaderFault} (healthy : encoder.poisoned = false)
    (faulty : fault? headers = some fault) (sink : Sink) :
    encoder.encode headers = (.error (.invalidHeader fault), encoder) ∧
      encoder.encodeTo headers sink = (.error (.invalidHeader fault), sink, encoder) := by
  rcases encoder with ⟨context, config, _⟩
  subst healthy
  have refused : encode ⟨context, config, false⟩ headers =
      (.error (.invalidHeader fault), ⟨context, config, false⟩) := by rw [encode, faulty]
  refine ⟨refused, ?_⟩
  rw [encodeTo, refused]

/-- What a failing call that is no refusal says. -/
theorem losesBlock_of_encode {error : Error} (healthy : encoder.poisoned = false)
    (faultless : fault? headers = none) (answer : encoder.encode headers = (.error error, next)) :
    LosesBlock error ∧ next.poisoned = true := by
  have outcome := encoded encoder headers
  rw [answer] at outcome
  cases outcome with
  | turnedAway poisoned => exact Bool.noConfusion (healthy.symm.trans poisoned)
  | refused _ faulty =>
    rw [faultless] at faulty
    cases faulty
  | lost _ _ failed => exact ⟨losesBlock_of_compress failed, rfl⟩

theorem encode_of_steady [Compressor.Steady State] (healthy : encoder.poisoned = false)
    (faultless : fault? headers = none) :
    ∃ block next, encoder.encode headers = (.ok block, next) ∧ next.poisoned = false := by
  rcases encoder with ⟨context, config, _⟩
  subst healthy
  rcases compress_of_steady config.level context headers with ⟨block, after, done⟩
  exact ⟨block, ⟨some after, config, false⟩, by rw [encode, faultless]; simp only [done], rfl⟩

end

/-! ## Runs -/

/-- A call of an encoder. -/
inductive Call where
  | encode (headers : Headers)
  | encodeTo (headers : Headers) (sink : Sink)

def Call.headers : Call -> Headers
  | .encode headers => headers
  | .encodeTo headers _ => headers

/-- What a call returns, and what has become of its sink. -/
inductive Answer where
  | encoded (result : Except Error (List UInt8))
  | written (result : Except Error Unit) (sink : Sink)

/-- Whether a call has succeeded, and if not, why. -/
def Answer.result : Answer -> Except Error Unit
  | .encoded result => result.map fun _ => ()
  | .written result _ => result

/-- Whether a call has been refused for the sake of the headers. -/
def Answer.isRefusal : Answer -> Bool
  | .encoded (.error (.invalidHeader _)) => true
  | .written (.error (.invalidHeader _)) _ => true
  | _ => false

def answer (encoder : Encoder State) : Call -> Answer × Encoder State
  | .encode headers => (.encoded (encoder.encode headers).1, (encoder.encode headers).2)
  | .encodeTo headers sink =>
    (.written (encoder.encodeTo headers sink).1 (encoder.encodeTo headers sink).2.1,
      (encoder.encodeTo headers sink).2.2)

/-- The answers to successive calls, and the encoder after them. -/
def answers (encoder : Encoder State) : List Call -> List Answer × Encoder State
  | [] => ([], encoder)
  | call :: calls =>
    ((encoder.answer call).1 :: ((encoder.answer call).2.answers calls).1,
      ((encoder.answer call).2.answers calls).2)

theorem answers_append (encoder : Encoder State) (calls later : List Call) :
    encoder.answers (calls ++ later) =
      ((encoder.answers calls).1 ++ ((encoder.answers calls).2.answers later).1,
        ((encoder.answers calls).2.answers later).2) := by
  induction calls generalizing encoder with
  | nil => rfl
  | cons call calls inductionHypothesis =>
    rw [List.cons_append, answers, inductionHypothesis]
    rfl

/-- How a poisoned encoder answers. -/
def turnAway : Call -> Answer
  | .encode _ => .encoded (.error .poisoned)
  | .encodeTo _ sink => .written (.error .poisoned) sink

theorem answer_of_poisoned (poisoned : encoder.poisoned = true) (call : Call) :
    encoder.answer call = (turnAway call, encoder) := by
  cases call with
  | encode headers => rw [answer, (encode_of_poisoned poisoned headers {}).1, turnAway]
  | encodeTo headers sink => rw [answer, (encode_of_poisoned poisoned headers sink).2, turnAway]

theorem answers_of_poisoned (poisoned : encoder.poisoned = true) (calls : List Call) :
    encoder.answers calls = (calls.map turnAway, encoder) := by
  induction calls with
  | nil => rfl
  | cons call later inductionHypothesis =>
    rw [answers, answer_of_poisoned poisoned, inductionHypothesis, List.map_cons]

/-! ## What is sent -/

/-- Headers that have been sent, and the bytes that were sent for them. -/
structure Transmission where
  headers : Headers
  block : List UInt8

/-- What a call has sent if it has succeeded.  Written to a sink, that is what the sink
has taken. -/
def Call.sent? : Call -> Answer -> Option Transmission
  | .encode headers, .encoded (.ok block) => some { headers, block }
  | .encodeTo headers sink, .written (.ok ()) after =>
    some { headers, block := after.taken.toList.drop sink.taken.size }
  | _, _ => none

/-- What successive calls send. -/
def transmissions (encoder : Encoder State) (calls : List Call) : List Transmission :=
  (calls.zip (encoder.answers calls).1).filterMap fun pair => pair.1.sent? pair.2

theorem transmissions_cons (encoder : Encoder State) (call : Call) (calls : List Call) :
    encoder.transmissions (call :: calls) =
      (call.sent? (encoder.answer call).1).toList ++
        (encoder.answer call).2.transmissions calls := by
  rw [transmissions, answers, List.zip_cons_cons, List.filterMap_cons]
  cases call.sent? (encoder.answer call).1 <;> rfl

theorem transmissions_append (encoder : Encoder State) (calls later : List Call) :
    encoder.transmissions (calls ++ later) =
      encoder.transmissions calls ++ (encoder.answers calls).2.transmissions later := by
  induction calls generalizing encoder with
  | nil => rfl
  | cons call calls inductionHypothesis =>
    rw [List.cons_append, transmissions_cons, transmissions_cons, inductionHypothesis,
      List.append_assoc, answers]

/-- How a call can end: it sends a block, or does nothing at all, or loses a
block. -/
inductive Performed (encoder : Encoder State) (headers : Headers) :
    Option Transmission -> Encoder State -> Prop where
  | sent {block : List UInt8} {context : Option State} (healthy : encoder.poisoned = false)
      (accepted : fault? headers = none)
      (done : compress encoder.config.level encoder.context headers = (.ok block, context)) :
      Performed encoder headers (some { headers, block }) { encoder with context }
  | nothing : Performed encoder headers none encoder
  | lost {next : Encoder State} (poisoned : next.poisoned = true) :
      Performed encoder headers none next

theorem performed_of_error {headers : Headers} {error : Error}
    (answer : encoder.encode headers = (.error error, next)) :
    Performed encoder headers none next := by
  have outcome := encoded encoder headers
  rw [answer] at outcome
  cases outcome with
  | turnedAway => exact .nothing
  | refused => exact .nothing
  | lost => exact .lost rfl

theorem performed_of_ok {headers : Headers} {block : List UInt8}
    (answer : encoder.encode headers = (.ok block, next)) :
    Performed encoder headers (some { headers, block }) next := by
  have outcome := encoded encoder headers
  rw [answer] at outcome
  cases outcome with
  | sent healthy faultless done => exact .sent healthy faultless done

theorem performed (encoder : Encoder State) (call : Call) :
    Performed encoder call.headers (call.sent? (encoder.answer call).1)
      (encoder.answer call).2 := by
  cases call with
  | encode headers =>
    rw [answer]
    cases encoded : encoder.encode headers with
    | mk result next =>
      cases result with
      | error error => exact performed_of_error encoded
      | ok block => exact performed_of_ok encoded
  | encodeTo headers sink =>
    have outcome := written encoder headers sink
    rw [answer]
    generalize encoder.encodeTo headers sink = ended at outcome ⊢
    rcases ended with ⟨result, after, next⟩
    cases outcome with
    | failed encoded => exact performed_of_error encoded
    | broken => exact .lost rfl
    | @sent block _ _ encoded done =>
      have taken := @Sink.taken_writeAll sink block
      rw [done] at taken
      have whole : after.taken.toList.drop sink.taken.size = block := by
        rw [taken rfl, ← Array.length_toList, List.drop_left]
      rw [Call.sent?, whole]
      exact performed_of_ok encoded

/-- Nothing is sent by a poisoned encoder. -/
theorem transmissions_of_poisoned (poisoned : encoder.poisoned = true) (calls : List Call) :
    encoder.transmissions calls = [] := by
  induction calls with
  | nil => rfl
  | cons call calls inductionHypothesis =>
    rw [transmissions_cons, answer_of_poisoned poisoned, inductionHypothesis, List.append_nil]
    cases call <;> rfl

/-- A call that sends something does so behind what was sent before. -/
theorem transmissions_of_sent {calls : List Call} {call : Call} {sent : Transmission}
    (answer : call.sent? ((encoder.answers calls).2.answer call).1 = some sent)
    (later : List Call) :
    encoder.transmissions (calls ++ call :: later) = encoder.transmissions calls ++
      sent :: ((encoder.answers calls).2.answer call).2.transmissions later := by
  rw [transmissions_append, transmissions_cons, answer, Option.toList_some, List.singleton_append]

theorem headers_of_sent {call : Call} {sent : Transmission}
    (answer : call.sent? (encoder.answer call).1 = some sent) : call.headers = sent.headers := by
  have outcome := performed encoder call
  rw [answer] at outcome
  generalize (encoder.answer call).2 = next at outcome
  cases outcome
  rfl

/-- Only headers that were given are sent. -/
theorem headers_of_mem_transmissions {calls : List Call} {sent : Transmission}
    (member : sent ∈ encoder.transmissions calls) :
    ∃ call ∈ calls, call.headers = sent.headers := by
  induction calls generalizing encoder with
  | nil => cases member
  | cons call calls inductionHypothesis =>
    rw [transmissions_cons] at member
    rcases List.mem_append.1 member with here | later
    · exact ⟨call, List.mem_cons_self, headers_of_sent (Option.mem_toList.1 here)⟩
    · rcases inductionHypothesis later with ⟨other, inside, same⟩
      exact ⟨other, List.mem_cons_of_mem call inside, same⟩

theorem fits_of_calls {calls : List Call} {limit : Nat}
    (small : ∀ call ∈ calls, (Block.write call.headers).length ≤ limit) :
    ∀ sent ∈ encoder.transmissions calls, (Block.write sent.headers).length ≤ limit := by
  intro sent member
  rcases headers_of_mem_transmissions member with ⟨call, inside, same⟩
  rw [← same]
  exact small call inside

/-- Headers that are accepted are all sent when no sink is involved and the compressor
does not fail. -/
theorem headers_transmissions_encode [Compressor.Steady State] {maps : List Headers}
    (healthy : encoder.poisoned = false) (accepted : ∀ headers ∈ maps, fault? headers = none) :
    (encoder.transmissions (maps.map .encode)).map Transmission.headers = maps := by
  induction maps generalizing encoder with
  | nil => rfl
  | cons headers maps inductionHypothesis =>
    rcases List.forall_mem_cons.1 accepted with ⟨here, later⟩
    rcases encode_of_steady healthy here with ⟨block, next, encoded, still⟩
    rw [List.map_cons, transmissions_cons, answer, encoded]
    exact congrArg (headers :: ·) (inductionHypothesis still later)

end Encoder
end HeaderCodec
