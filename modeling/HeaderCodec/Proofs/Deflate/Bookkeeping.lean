import HeaderCodec.Proofs.Deflate.Drawing
import HeaderCodec.Proofs.Handover

namespace HeaderCodec
namespace Deflate

/-!
# Keeping books of the input

Nothing is assumed here about the compressed stream.  It may be broken, and then
a draw may come upon the fault sooner or later, depending on how the input is
cut.  But as long as draws succeed, every bit of the input has its place: the
inflater has taken it, or the decompressor holds it, or the intake does.  `Books`
records these places together with the course of the inflater, and a draw that
succeeds carries them on.
-/

namespace Decompressor

variable {state : Decompressor} {room : Nat}

/-- How the input at hand can be advanced on, whatever it is. -/
inductive Moved (state : Decompressor) (room : Nat) : Advance -> Decompressor -> Prop where
  | produced {piece : List UInt8} {taken : List Bool} {next : Decompressor}
      (fits : piece.length ≤ room) (split : state.unread = taken ++ next.unread)
      (course : Course state.inflater taken piece next.inflater) :
      Moved state room (.produced piece) next
  | ended {taken : List Bool} {next : Decompressor} (split : state.unread = taken ++ next.unread)
      (course : Course state.inflater taken [] next.inflater) : Moved state room .ended next
  | starved {next : Decompressor} (used : next.unread = [])
      (course : Course state.inflater state.unread [] next.inflater) :
      Moved state room .starved next
  | failed {fault : Fault} {next : Decompressor} : Moved state room (.failed fault) next

theorem moved_advance (positive : 0 < room) :
    Moved state room (state.advance room).1 (state.advance room).2 := by
  by_cases failed : ∃ fault, (state.inflater.run state.unread room).1.phase = .failed fault
  · rcases failed with ⟨fault, phase⟩
    have result : ∃ fault, (state.advance room).1 = .failed fault := by
      simp only [advance, Inflater.fst_runPaced, phase]
      exact ⟨_, rfl⟩
    rcases result with ⟨reported, result⟩
    rw [result]
    exact .failed
  · have clean := not_exists.1 failed
    rcases Inflater.course_run state.inflater state.unread room clean with
        ⟨taken, written, split, course, fits, noBits, noRoom⟩
    rw [fst_advance clean course.output_eq, snd_advance]
    cases written with
    | cons byte more =>
      rw [if_pos (List.cons_ne_nil byte more)]
      exact .produced fits split course
    | nil =>
      rw [if_neg (not_not_intro rfl)]
      cases asks : (state.inflater.run state.unread room).1.phase.demand with
      | nothing =>
        rw [if_pos rfl]
        exact .ended split course
      | bit =>
        rw [if_neg Demand.noConfusion]
        have used := noBits asks
        rw [used, List.append_nil] at split
        exact .starved used (split ▸ course)
      | room => exact absurd (noRoom asks) (Nat.ne_of_lt positive)

theorem moved_of_advance {result : Advance} {next : Decompressor} (some : room ≠ 0)
    (answer : state.advance room = (result, next)) :
    Moved state room result next := by
  have moved := @moved_advance state room (Nat.pos_of_ne_zero some)
  rwa [answer] at moved

/-- The places of all input: a run of the intake has handed over some pieces, and
their bits have been taken on a course that has written some bytes, or are held.
What is held is the end of a single chunk. -/
structure Books (attached : List Source) (pieces : List (List UInt8)) (taken : List Bool)
    (bytes : List UInt8) (state : Decompressor) (intake : Intake) : Prop where
  run : ∃ ended, Intake.Run attached (pieces.map .ok) ended intake .resting
  course : Course .fresh taken bytes state.inflater
  split : taken ++ state.unread = Bits.ofBytes pieces.flatten
  held : ∃ before chunk, pieces.flatten = before ++ chunk ∧ chunk.length ≤ Decompressor.chunk ∧
    state.unread <:+ Bits.ofBytes chunk

theorem books_fresh : Books [] [] [] [] {} {} where
  run := ⟨[], .start⟩
  course := .rest {}
  split := rfl
  held := ⟨[], [], rfl, Nat.zero_le _, List.suffix_refl _⟩

section

variable {attached : List Source} {pieces : List (List UInt8)} {taken : List Bool}
  {bytes : List UInt8} {intake : Intake}

theorem Books.attach (books : Books attached pieces taken bytes state intake) (source : Source) :
    Books (attached ++ [source]) pieces taken bytes state (intake.attach source) where
  run := books.run.imp fun _ run => run.attach source
  course := books.course
  split := books.split
  held := books.held

/-- What quiet sources hold is what has been handed over and what is still to be
drawn from. -/
theorem Books.content_eq (books : Books attached pieces taken bytes state intake)
    (quiet : ∀ source ∈ attached, source.Quiet) :
    attached.flatMap Source.content = pieces.flatten ++ intake.sources.flatMap Source.content := by
  rcases books.run with ⟨ended, run⟩
  rcases run.inLine quiet with ⟨others, inLine⟩
  rw [List.map_injective_iff.2 (fun _ _ => Except.ok.inj) inLine.results_eq]
  exact (inLine.line.content_eq quiet).1

/-- What has been written is the beginning of what any stream stands for that
begins with the sources. -/
theorem Books.prefix_outputOf {stream : List UInt8}
    (books : Books attached pieces taken bytes state intake)
    (quiet : ∀ source ∈ attached, source.Quiet)
    (begins : attached.flatMap Source.content <+: stream) :
    bytes <+: Inflater.outputOf stream := by
  rcases begins with ⟨beyond, rfl⟩
  have split : Bits.ofBytes (attached.flatMap Source.content ++ beyond) = taken ++
      (state.unread ++ Bits.ofBytes (intake.sources.flatMap Source.content ++ beyond)) := by
    rw [books.content_eq quiet, List.append_assoc, Bits.ofBytes_append, ← books.split,
      List.append_assoc]
  exact Inflater.output_prefix_outputOf books.course split

/-- Input at hand that is taken goes from one place to another. -/
theorem Books.advance {next : Decompressor} {more : List Bool} {piece : List UInt8}
    (books : Books attached pieces taken bytes state intake)
    (split : state.unread = more ++ next.unread)
    (course : Course state.inflater more piece next.inflater) :
    Books attached pieces (taken ++ more) (bytes ++ piece) next intake where
  run := books.run
  course := books.course.trans course
  split := by rw [List.append_assoc, ← split, books.split]
  held := by
    rcases books.held with ⟨before, chunk, parts, short, suffix⟩
    have shorter : next.unread <:+ state.unread := ⟨more, split.symm⟩
    exact ⟨before, chunk, parts, short, shorter.trans suffix⟩

/-- A chunk is loaded when all input before it has been taken. -/
theorem Books.load {other : Intake} {newly ended : List Source} {chunk : List UInt8}
    (books : Books attached pieces taken bytes state intake) (used : state.unread = [])
    (run : Intake.Run (attached ++ newly) (pieces.map .ok ++ [.ok chunk]) ended other .resting)
    (short : chunk.length ≤ Decompressor.chunk) :
    Books (attached ++ newly) (pieces ++ [chunk]) taken bytes (state.load chunk) other where
  run := ⟨ended, by rwa [List.map_append, List.map_singleton]⟩
  course := books.course
  split := by
    have before := books.split
    rw [used, List.append_nil] at before
    rw [before, Decompressor.load, List.flatten_concat, Bits.ofBytes_append]
  held := ⟨pieces.flatten, chunk, List.flatten_concat, short, List.suffix_refl _⟩

end

/-- A decompressor stands behind some bytes that it has consumed, within a chunk
that it has loaded, and has written some bytes.  Fewer than eight bits of the
last byte that was consumed may not have been taken yet. -/
structure Stands (state : Decompressor) (consumed chunk : List UInt8) (position : Nat)
    (bytes : List UInt8) : Prop where
  inside : position ≤ chunk.length
  short : chunk.length ≤ Decompressor.chunk
  ends : chunk.take position <:+ consumed
  place : ∃ taken partly, partly.length < 8 ∧ Bits.ofBytes consumed = taken ++ partly ∧
    state.unread = partly ++ Bits.ofBytes (chunk.drop position) ∧
    Course .fresh taken bytes state.inflater ∧ state.inflater.consumed = taken.length

theorem Stands.outputSize_eq {consumed chunk bytes : List UInt8} {position : Nat}
    (stands : state.Stands consumed chunk position bytes) :
    state.inflater.outputSize = bytes.length := by
  rcases stands.place with ⟨_, _, _, _, _, course, _⟩
  rw [← Inflater.length_output, course.output_eq]
  rfl

/-- The books tell where a decompressor stands in what has been handed over. -/
theorem Books.stands {attached : List Source} {pieces : List (List UInt8)} {taken : List Bool}
    {bytes : List UInt8} {intake : Intake}
    (books : Books attached pieces taken bytes state intake) :
    ∃ consumed chunk position, state.Stands consumed chunk position bytes ∧
      pieces.flatten = consumed ++ chunk.drop position := by
  rcases books.held with ⟨before, chunk, parts, short, suffix⟩
  rcases Bits.exists_drop_of_suffix suffix with ⟨position, partly, inside, few, unread⟩
  have whole : pieces.flatten = before ++ chunk.take position ++ chunk.drop position := by
    rw [parts, List.append_assoc, List.take_append_drop]
  refine ⟨before ++ chunk.take position, chunk, position, ?_, whole⟩
  refine ⟨inside, short, List.suffix_append _ _, taken, partly, few, ?_, unread, books.course, ?_⟩
  · have split := books.split
    rw [whole, Bits.ofBytes_append (before ++ _), unread, ← List.append_assoc] at split
    exact (List.append_cancel_right split).symm
  · rw [Inflater.consumed_of_course books.course]
    exact Nat.zero_add _

/-- The books are carried on: sources are taken from the front of those that are
to arrive, and some bytes are written. -/
def CarriesOn (attached : List Source) (bytes : List UInt8) (supply : Supply)
    (next : Decompressor) (rest : Supply) : Prop :=
  ∃ newly pieces taken, supply.arrivals.queue = newly ++ rest.arrivals.queue ∧
    Books (attached ++ newly) pieces taken bytes next rest.intake

theorem CarriesOn.of_books {attached : List Source} {pieces : List (List UInt8)}
    {taken : List Bool} {bytes : List UInt8} {supply : Supply}
    (books : Books attached pieces taken bytes state supply.intake) :
    CarriesOn attached bytes supply state supply :=
  ⟨[], pieces, taken, rfl, (List.append_nil attached).symm ▸ books⟩

theorem CarriesOn.trans {attached newly : List Source} {bytes : List UInt8}
    {supply middle rest : Supply} {next : Decompressor}
    (split : supply.arrivals.queue = newly ++ middle.arrivals.queue)
    (onward : CarriesOn (attached ++ newly) bytes middle next rest) :
    CarriesOn attached bytes supply next rest := by
  rcases onward with ⟨later, pieces, taken, order, books⟩
  refine ⟨newly ++ later, pieces, taken, ?_, ?_⟩
  · rw [split, order, List.append_assoc]
  · rwa [← List.append_assoc]

/-- A chunk is read when all input at hand has been taken without writing
anything. -/
theorem carriesOn_load {attached : List Source} {pieces : List (List UInt8)} {taken : List Bool}
    {bytes more : List UInt8} {next : Decompressor} {supply rest : Supply} (some : room ≠ 0)
    (books : Books attached pieces taken bytes state supply.intake)
    (starved : state.advance room = (.starved, next))
    (read : supply.read chunk = (.ok more, rest)) :
    CarriesOn attached bytes supply (next.load more) rest := by
  cases moved_of_advance some starved with
  | starved used course =>
    have advanced := books.advance (by rw [used, List.append_nil]) course
    rw [List.append_nil] at advanced
    rcases advanced.run with ⟨ended, run⟩
    rcases run.read chunk with ⟨newly, met, order, outcome⟩
    have short := Supply.length_read supply chunk
    rw [read] at order outcome short
    rcases outcome with onward | ⟨failed, _⟩
    · exact ⟨newly, _, _, order, advanced.load used onward (short more rfl)⟩
    · cases failed

/-- A draw that succeeds has written what it returns, and no more than there is
room for. -/
theorem carriesOn_draw {attached : List Source} {pieces : List (List UInt8)} {taken : List Bool}
    {bytes piece : List UInt8} (state : Decompressor) (supply : Supply) (room : Nat)
    (books : Books attached pieces taken bytes state supply.intake)
    (drawn : (state.draw supply room).1 = .ok piece) :
    piece.length ≤ room ∧
      CarriesOn attached (bytes ++ piece) supply (state.draw supply room).2.1
        (state.draw supply room).2.2 := by
  fun_induction draw state supply room generalizing attached pieces taken with
  | case1 state supply =>
    cases drawn
    exact ⟨Nat.zero_le _, .of_books ((List.append_nil bytes).symm ▸ books)⟩
  | case2 state supply notZero produced next answer =>
    cases drawn
    cases moved_of_advance notZero answer with
    | produced fits split course => exact ⟨fits, .of_books (books.advance split course)⟩
  | case3 state supply notZero next answer =>
    cases drawn
    cases moved_of_advance notZero answer with
    | ended split course => exact ⟨Nat.zero_le _, .of_books (books.advance split course)⟩
  | case4 => cases drawn
  | case5 => cases drawn
  | case6 state supply notZero next answer more rest read inductionHypothesis =>
    rcases carriesOn_load notZero books answer read with ⟨newly, _, _, order, loaded⟩
    rcases inductionHypothesis loaded drawn with ⟨fits, carried⟩
    exact ⟨fits, carried.trans order⟩

end Decompressor

end Deflate
end HeaderCodec
