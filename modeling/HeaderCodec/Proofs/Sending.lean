import HeaderCodec.Proofs.Accepted
import HeaderCodec.Proofs.Calls
import HeaderCodec.Proofs.Deflate.ReadingBlocks
import HeaderCodec.Proofs.Deflate.Writing

namespace HeaderCodec

/-!
# What an encoder sends

A receiver can follow an encoder if the compressor holds nothing back.  `Flushing` says
what this means: the part of a stream that is put out for some bytes consists of whole
blocks that stand for these bytes, and none of them is the last one.  How the bytes are
compressed is left open, and `Deflater` is only one way to do it.

An encoder and a receiver of its blocks keep a state each for the whole of a
connection.  `Meets` says that the receiver has read what has been sent: it has the
output in its history, stands at the end of the last part, and expects another block.
Each block that is sent leads a receiver from such a state to the next one, and on the way
it writes exactly the bytes of the block.  So the blocks of all calls that succeed form
one chain of courses, whatever calls stand between them.
-/

/-! ## Compressors that hold nothing back -/

namespace Deflate

open Format (Blocks Head)

/-- The next part of a stream, of which `stream` has been put out for `output`.  The
first part begins with the head, which announces the dictionary. -/
inductive NextPart : (stream output part bytes : List UInt8) -> Prop where
  | first {head body bytes : List UInt8} (begins : Head head Dictionary.bytes)
      (inner : Blocks (8 * head.length) Dictionary.bytes (Bits.ofBytes body) bytes) :
      NextPart [] [] (head ++ body) bytes
  | later {stream output part bytes : List UInt8} (begun : stream ≠ [])
      (inner : Blocks (8 * stream.length) (Dictionary.bytes ++ output) (Bits.ofBytes part)
        bytes) :
      NextPart stream output part bytes

theorem Format.Head.ne_nil {head history : List UInt8} (begins : Head head history) :
    head ≠ [] := by
  cases begins with
  | plain => exact List.cons_ne_nil _ _
  | preset => exact List.cons_ne_nil _ _

end Deflate

namespace Compressor

open Deflate (Deflater NextPart)

variable {State : Type} [Compressor State]

/-- What can have been done with a compressor that has not failed: the stream that it has
put out, and the bytes that it has been given. -/
inductive Sent : State -> (stream output : List UInt8) -> Prop where
  | start {level : Nat} {state : State} (started : Compressor.start level = .ok state) :
      Sent state [] []
  | compress {state next : State} {stream output part bytes : List UInt8}
      (sent : Sent state stream output)
      (done : Compressor.compress state bytes = (.ok part, next)) :
      Sent next (stream ++ part) (output ++ bytes)

/-- A compressor holds nothing back. -/
class Flushing (State : Type) [Compressor State] : Prop where
  flushes : ∀ {state next : State} {stream output part bytes : List UInt8},
    Sent state stream output -> Compressor.compress state bytes = (.ok part, next) ->
    NextPart stream output part bytes

/-- What is known of a deflater from the stream that it has put out. -/
inductive Keeps : Deflater -> (stream output : List UInt8) -> Prop where
  | head {deflater : Deflater} {level : Nat} (pending : deflater.pending = Deflater.head level)
      (history : deflater.window.history.toList = Dictionary.bytes) : Keeps deflater [] []
  | body {deflater : Deflater} {stream output : List UInt8} (begun : stream ≠ [])
      (pending : deflater.pending = [])
      (history : deflater.window.history.toList = Dictionary.bytes ++ output) :
      Keeps deflater stream output

variable {deflater : Deflater} {stream output : List UInt8}

/-- A deflater puts out whole blocks and ends them at a byte boundary. -/
theorem Keeps.compress (keeps : Keeps deflater stream output) (bytes : List UInt8) :
    NextPart stream output (deflater.compress bytes).1 bytes ∧
      Keeps (deflater.compress bytes).2 (stream ++ (deflater.compress bytes).1)
        (output ++ bytes) := by
  have aligned : ∀ size : Nat, 8 * size % 8 = 0 := fun size => Nat.mul_mod_right 8 size
  cases keeps with
  | @head level pending history =>
    have begins := Deflater.isHead_head level
    rcases Deflater.blocks_compressBits deflater.level deflater.window bytes
      (aligned (Deflater.head level).length) with ⟨blocks, whole, grown⟩
    rw [history, ← Bits.ofBytes_toBytes _ whole] at blocks
    rw [Deflater.compress, pending]
    refine ⟨.first begins blocks, .body ?_ rfl ?_⟩
    · exact List.append_ne_nil_of_left_ne_nil (List.cons_ne_nil _ _) _
    · rw [grown, Array.toList_append, history]
      rfl
  | body begun pending history =>
    rcases Deflater.blocks_compressBits deflater.level deflater.window bytes
      (aligned stream.length) with ⟨blocks, whole, grown⟩
    rw [history, ← Bits.ofBytes_toBytes _ whole] at blocks
    rw [Deflater.compress, pending]
    refine ⟨.later begun blocks, .body ?_ rfl ?_⟩
    · exact List.append_ne_nil_of_left_ne_nil begun _
    · rw [grown, Array.toList_append, history, List.append_assoc]

theorem Sent.keeps (sent : Sent deflater stream output) : Keeps deflater stream output := by
  induction sent with
  | @start level _ started =>
    cases started
    exact .head rfl (Deflater.history_start level)
  | compress _ done inductionHypothesis =>
    cases done
    exact (inductionHypothesis.compress _).2

instance : Flushing Deflater where
  flushes sent done := by
    cases done
    exact (sent.keeps.compress _).1

end Compressor

namespace Encoder

open Compressor (Flushing Sent)
open Deflate (Course Inflater NextPart)

/-! ## Blocks of an encoder -/

variable {State : Type} [Compressor State]

/-- Each block in turn is the next part of the stream, for headers that an encoder
accepts. -/
inductive Produced : (stream output : List UInt8) -> List Transmission -> Prop where
  | done (stream output : List UInt8) : Produced stream output []
  | next {stream output : List UInt8} {sent : Transmission} {later : List Transmission}
      (accepted : fault? sent.headers = none)
      (part : NextPart stream output sent.block (Block.write sent.headers))
      (further : Produced (stream ++ sent.block) (output ++ Block.write sent.headers) later) :
      Produced stream output (sent :: later)

/-- The stream of an encoder, which begins with the first block. -/
inductive Stream : Option State -> (stream output : List UInt8) -> Prop where
  | fresh : Stream none [] []
  | begun {state : State} {stream output : List UInt8} (sent : Sent state stream output) :
      Stream (some state) stream output

variable {stream output : List UInt8}

/-- A block that is compressed is the next part of the stream. -/
theorem Stream.compress [Flushing State] {context after : Option State} {level : Nat}
    {headers : Headers} {block : List UInt8} (streams : Stream context stream output)
    (done : compress level context headers = (.ok block, after)) :
    NextPart stream output block (Block.write headers) ∧
      Stream after (stream ++ block) (output ++ Block.write headers) := by
  have resumed : ∃ state, resume level context = .ok state ∧ Sent state stream output := by
    cases streams with
    | @begun state _ _ sent => exact ⟨state, rfl, sent⟩
    | fresh =>
      cases started : (Compressor.start level : Except String State) with
      | ok state => exact ⟨state, by rw [resume, started], .start started⟩
      | error text =>
        rw [Encoder.compress, resume, started] at done
        cases done
  rcases resumed with ⟨state, resumed, sent⟩
  rw [Encoder.compress, resumed] at done
  simp only at done
  cases answer : Compressor.compress state (Block.write headers) with
  | mk result next =>
    rw [answer] at done
    cases result with
    | error failure => cases done
    | ok part =>
      cases done
      exact ⟨Flushing.flushes sent answer, .begun (sent.compress answer)⟩

theorem produced_transmissions [Flushing State] {encoder : Encoder State}
    (streams : Stream encoder.context stream output) (calls : List Call) :
    Produced stream output (encoder.transmissions calls) := by
  induction calls generalizing encoder stream output with
  | nil => exact .done stream output
  | cons call calls inductionHypothesis =>
    have outcome := performed encoder call
    rw [transmissions_cons]
    generalize encoder.answer call = ended at outcome ⊢
    rcases ended with ⟨answer, next⟩
    generalize call.sent? answer = sent at outcome ⊢
    cases outcome with
    | sent _ accepted done =>
      rcases streams.compress done with ⟨part, onward⟩
      exact .next accepted part (inductionHypothesis onward)
    | nothing => exact inductionHypothesis streams
    | lost poisoned =>
      rw [transmissions_of_poisoned poisoned]
      exact .done stream output

/-- The first blocks are produced in the same way as all of them. -/
theorem Produced.take {sent : List Transmission} (produced : Produced stream output sent)
    (count : Nat) : Produced stream output (sent.take count) := by
  induction produced generalizing count with
  | done =>
    rw [List.take_nil]
    exact .done _ _
  | next accepted part _ inductionHypothesis =>
    cases count with
    | zero => exact .done _ _
    | succ count => exact .next accepted part (inductionHypothesis count)

theorem Produced.accepted {sent : List Transmission} (produced : Produced stream output sent) :
    ∀ one ∈ sent, fault? one.headers = none := by
  induction produced with
  | done =>
    intro one member
    cases member
  | next accepted _ _ inductionHypothesis =>
    exact List.forall_mem_cons.2 ⟨accepted, inductionHypothesis⟩

/-! ## A receiver beside the encoder -/

/-- The receiver has read what has been sent, and stands behind it. -/
inductive Meets : (stream output : List UInt8) -> Inflater -> Prop where
  | fresh : Meets [] [] .fresh
  | begun {stream output : List UInt8} {before : Inflater} (begun : stream ≠ [])
      (history : before.history.toList = Dictionary.bytes ++ output)
      (place : before.consumed = 8 * stream.length) (more : before.final = false) :
      Meets stream output (before.expect .blockHead 3)

variable {state : Inflater}

theorem Meets.asks (meets : Meets stream output state) : state.phase.demand = .bit := by
  cases meets with
  | fresh => rfl
  | begun => rfl

/-- Blocks lead a receiver on that expects them. -/
theorem Meets.of_blocks {before : Inflater} {position : Nat} {history body bytes : List UInt8}
    (inner : Deflate.Format.Blocks position history (Bits.ofBytes body) bytes)
    (same : before.history.toList = history) (place : before.consumed = position)
    (more : before.final = false) (begun : stream ≠ [])
    (whole : history ++ bytes = Dictionary.bytes ++ output)
    (size : position + 8 * body.length = 8 * stream.length) :
    ∃ after, Meets stream output after ∧
      Course (before.expect .blockHead 3) (Bits.ofBytes body) bytes after := by
  rcases Inflater.course_blocks inner same place more with ⟨after, passed, course⟩
  refine ⟨_, .begun begun ?_ ?_ (passed.final.trans more), course⟩
  · rw [passed.history, same, whole]
  · rw [passed.consumed, place, Bits.length_ofBytes, size]

/-- The next part of a stream leads a receiver on and writes its bytes. -/
theorem Meets.course (meets : Meets stream output state) {part bytes : List UInt8}
    (next : NextPart stream output part bytes) :
    ∃ after, Meets (stream ++ part) (output ++ bytes) after ∧
      Course state (Bits.ofBytes part) bytes after := by
  cases next with
  | later begun inner =>
    cases meets with
    | fresh => contradiction
    | begun _ history place more =>
      apply Meets.of_blocks inner history place more
      · exact List.append_ne_nil_of_left_ne_nil begun _
      · rw [List.append_assoc]
      · rw [List.length_append]
        omega
  | @first head body _ begins inner =>
    cases meets with
    | begun begun => contradiction
    | fresh =>
      rcases Inflater.course_head begins with ⟨opened, opening, beginning⟩
      have onward := @Meets.of_blocks (head ++ body) bytes opened _ _ body bytes inner
        opening.history opening.consumed opening.final
        (List.append_ne_nil_of_left_ne_nil begins.ne_nil _) rfl
        (by rw [List.length_append]; omega)
      rcases onward with ⟨after, meets, course⟩
      refine ⟨after, meets, ?_⟩
      rw [Bits.ofBytes_append]
      exact beginning.trans course

/-! ## Chains of blocks -/

/-- Each block in turn leads the receiver on and writes the bytes of headers
that an encoder accepts. -/
inductive Chained : Inflater -> List Transmission -> Prop where
  | done (state : Inflater) : Chained state []
  | next {state after : Inflater} {sent : Transmission} {later : List Transmission}
      (accepted : fault? sent.headers = none)
      (course : Course state (Bits.ofBytes sent.block) (Block.write sent.headers) after)
      (asks : after.phase.demand = .bit) (further : Chained after later) :
      Chained state (sent :: later)

/-- What is compressed block after block leads a receiver on that stands where the
encoder stands. -/
theorem Produced.chained {sent : List Transmission} (produced : Produced stream output sent)
    (meets : Meets stream output state) : Chained state sent := by
  induction produced generalizing state with
  | done => exact .done state
  | next accepted part _ inductionHypothesis =>
    rcases meets.course part with ⟨after, meetsAgain, course⟩
    exact .next accepted course meetsAgain.asks (inductionHypothesis meetsAgain)

/-- All that is sent leads the receiver through all blocks. -/
theorem Chained.leads {sent : List Transmission} (chained : Chained state sent)
    (asks : state.phase.demand = .bit) :
    ∃ final, state.Leads (Bits.ofBytes (sent.flatMap Transmission.block))
      (sent.flatMap fun one => Block.write one.headers) final := by
  induction chained with
  | done state => exact ⟨state, .of_course (.rest state) asks⟩
  | next _ course asksAgain _ inductionHypothesis =>
    rcases inductionHypothesis asksAgain with ⟨final, onward⟩
    refine ⟨final, ?_⟩
    rw [List.flatMap_cons, List.flatMap_cons, Bits.ofBytes_append]
    exact (Inflater.Leads.of_course course asksAgain).append asksAgain onward

end Encoder
end HeaderCodec
