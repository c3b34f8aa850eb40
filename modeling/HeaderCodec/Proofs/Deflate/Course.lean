import HeaderCodec.Proofs.Deflate.Steps

namespace HeaderCodec
namespace Deflate

/-!
# Courses of decompression

A course is a record of what an inflater does: the bits that it takes, the
bytes that it writes, and the state to which this leads.  A state asks for one
thing at a time, so its course is determined by the bits alone, and whoever
feeds it can only decide how far it gets.  This is what makes decompression
resumable.  However the bits are cut, and however little room is offered at a
time, the inflater stays on the same course.

`Leads` adds to a course that it goes as far as the bits allow: either the
stream has ended and the remaining bits are left alone, or all bits are taken
and another one is needed.  It says exactly which bytes can ever be had from
given bits, and it excludes faults.  The main statement is `leads_run`: a run on
a first part of the bits, with any room, writes a first part of these bytes, and
what is left of the bits leads to what is left of the bytes.
-/

/-- From one state to another, taking exactly the given bits and writing
exactly the given bytes. -/
inductive Course : Inflater -> List Bool -> List UInt8 -> Inflater -> Prop where
  | rest (state : Inflater) : Course state [] [] state
  | feed {state final : Inflater} {bit : Bool} {bits : List Bool} {bytes : List UInt8}
      (asks : state.phase.demand = .bit) (later : Course (state.feed bit) bits bytes final) :
      Course state (bit :: bits) bytes final
  | emit {state final : Inflater} {byte : UInt8} {bits : List Bool} {bytes : List UInt8}
      (asks : state.phase.demand = .room) (writes : state.emit.output = state.output ++ [byte])
      (later : Course state.emit bits bytes final) :
      Course state bits (byte :: bytes) final

namespace Course

theorem trans {first second third : Inflater} {bits more : List Bool} {bytes others : List UInt8}
    (before : Course first bits bytes second) (after : Course second more others third) :
    Course first (bits ++ more) (bytes ++ others) third := by
  induction before with
  | rest => exact after
  | feed asks _ inductionHypothesis => exact .feed asks (inductionHypothesis after)
  | emit asks writes _ inductionHypothesis => exact .emit asks writes (inductionHypothesis after)

/-- The output grows by the bytes of the course. -/
theorem output_eq {state final : Inflater} {bits : List Bool} {bytes : List UInt8}
    (course : Course state bits bytes final) : final.output = state.output ++ bytes := by
  induction course with
  | rest => simp
  | feed _ _ inductionHypothesis => rw [inductionHypothesis, Inflater.output_feed]
  | emit _ writes _ inductionHypothesis =>
    rw [inductionHypothesis, writes, List.append_assoc, List.singleton_append]

end Course

/-- All bytes that can ever be had from the given bits are the given ones, and
there is no fault among the bits. -/
def Inflater.Leads (state : Inflater) (bits : List Bool) (bytes : List UInt8)
    (final : Inflater) : Prop :=
  ∃ taken beyond, bits = taken ++ beyond ∧ Course state taken bytes final ∧
    (final.phase = .ended ∨ (final.phase.demand = .bit ∧ beyond = []))

/-- Why a run along a course stops: it needs bits and has none, it needs room
and has none, or the stream has ended. -/
def Inflater.StopsFor (state final : Inflater) (bits : List Bool) (noRoom : Prop)
    (remaining : List UInt8) : Prop :=
  (state.phase.demand = .bit ∧ bits = []) ∨ (state.phase.demand = .room ∧ noRoom) ∨
    (state.phase = .ended ∧ state = final ∧ remaining = [])

namespace Inflater

variable {state final : Inflater} {bits : List Bool} {bytes : List UInt8}

/-- The bits of a course are counted. -/
theorem consumed_of_course (course : Course state bits bytes final) :
    final.consumed = state.consumed + bits.length := by
  induction course with
  | rest => rfl
  | feed asks _ inductionHypothesis =>
    rw [inductionHypothesis, consumed_feed asks, List.length_cons]
    omega
  | emit asks _ _ inductionHypothesis => rw [inductionHypothesis, (frame_emit asks).2.1]

theorem Leads.output_eq (leads : state.Leads bits bytes final) :
    final.output = state.output ++ bytes := by
  rcases leads with ⟨taken, beyond, split, course, closes⟩
  exact course.output_eq

/-- A course that needs another bit at its end leads there. -/
theorem Leads.of_course (course : Course state bits bytes final)
    (asks : final.phase.demand = .bit) : state.Leads bits bytes final :=
  ⟨bits, [], (List.append_nil bits).symm, course, Or.inr ⟨asks, rfl⟩⟩

/-- What follows a state that needs another bit can be added. -/
theorem Leads.append {next : Inflater} {more : List Bool} {others : List UInt8}
    (leads : state.Leads bits bytes final) (asks : final.phase.demand = .bit)
    (after : final.Leads more others next) :
    state.Leads (bits ++ more) (bytes ++ others) next := by
  rcases leads with ⟨taken, beyond, split, course, closes⟩
  rcases after with ⟨takenAfter, beyondAfter, splitAfter, courseAfter, closesAfter⟩
  have nothingBeyond : beyond = [] := by
    rcases closes with ended | ⟨_, nothing⟩
    · rw [ended] at asks
      contradiction
    · exact nothing
  subst nothingBeyond
  refine ⟨taken ++ takenAfter, beyondAfter, ?_, course.trans courseAfter, closesAfter⟩
  rw [split, splitAfter, List.append_nil, List.append_assoc]

/-! ## What a state needs determines how its course begins -/

theorem Leads.of_bit {bit : Bool} (asks : state.phase.demand = .bit)
    (leads : state.Leads (bit :: bits) bytes final) : (state.feed bit).Leads bits bytes final := by
  rcases leads with ⟨taken, beyond, split, course, closes⟩
  cases course with
  | rest =>
    rcases closes with ended | ⟨_, nothing⟩
    · rw [ended] at asks
      contradiction
    · rw [nothing] at split
      contradiction
  | feed _ later =>
    rw [List.cons_append, List.cons.injEq] at split
    rcases split with ⟨same, split⟩
    subst same
    exact ⟨_, beyond, split, later, closes⟩
  | emit room =>
    rw [asks] at room
    contradiction

theorem Leads.of_room (asks : state.phase.demand = .room)
    (leads : state.Leads bits bytes final) :
    ∃ byte rest, bytes = byte :: rest ∧ state.emit.output = state.output ++ [byte] ∧
      state.emit.Leads bits rest final := by
  rcases leads with ⟨taken, beyond, split, course, closes⟩
  cases course with
  | rest =>
    rcases closes with ended | ⟨bit, _⟩
    · rw [ended] at asks
      contradiction
    · rw [asks] at bit
      contradiction
  | feed bit =>
    rw [asks] at bit
    contradiction
  | emit _ writes later => exact ⟨_, _, rfl, writes, taken, beyond, split, later, closes⟩

theorem Leads.of_nothing (asks : state.phase.demand = .nothing)
    (leads : state.Leads bits bytes final) :
    state.phase = .ended ∧ state = final ∧ bytes = [] := by
  rcases leads with ⟨taken, beyond, split, course, closes⟩
  cases course with
  | rest =>
    rcases closes with ended | ⟨bit, _⟩
    · exact ⟨ended, rfl, rfl⟩
    · rw [asks] at bit
      contradiction
  | feed bit =>
    rw [asks] at bit
    contradiction
  | emit room =>
    rw [asks] at room
    contradiction

/-- Without bits a state that needs one stays where it is. -/
theorem Leads.of_no_bits (asks : state.phase.demand = .bit)
    (leads : state.Leads [] bytes final) : state = final ∧ bytes = [] := by
  rcases leads with ⟨taken, beyond, split, course, closes⟩
  rcases List.append_eq_nil_iff.1 split.symm with ⟨rfl, rfl⟩
  cases course with
  | rest => exact ⟨rfl, rfl⟩
  | emit room =>
    rw [asks] at room
    contradiction

/-! ## Runs -/

/-- A run stays on the course on which the bits lead, whatever part of the bits
is at hand and whatever room there is. -/
theorem leads_run (state : Inflater) (bits : List Bool) (room : Nat) {later : List Bool}
    (leads : state.Leads (bits ++ later) bytes final) :
    ∃ written remaining, bytes = written ++ remaining ∧ written.length ≤ room ∧
      (state.run bits room).1.output = state.output ++ written ∧
      (state.run bits room).1.Leads ((state.run bits room).2 ++ later) remaining final ∧
      (state.run bits room).1.StopsFor final (state.run bits room).2
        (written.length = room) remaining := by
  fun_induction run state bits room generalizing bytes with
  | case1 state bit rest room asks inductionHypothesis =>
    rcases inductionHypothesis (leads.of_bit asks) with
        ⟨written, remaining, parts, fits, output, after, stops⟩
    exact ⟨written, remaining, parts, fits, output_feed state bit ▸ output, after, stops⟩
  | case2 state bits room asks inductionHypothesis =>
    rcases leads.of_room asks with ⟨byte, others, rfl, writes, next⟩
    rcases inductionHypothesis next with ⟨written, remaining, rfl, fits, output, after, stops⟩
    refine ⟨byte :: written, remaining, rfl, Nat.succ_le_succ fits, ?_, after, ?_⟩
    · rw [output, writes, List.append_assoc, List.singleton_append]
    · simpa only [StopsFor, List.length_cons, Nat.succ_eq_add_one, Nat.add_right_cancel_iff]
        using stops
  | case3 state room bits noBit noRoom =>
    refine ⟨[], bytes, rfl, Nat.zero_le _, (List.append_nil _).symm, leads, ?_⟩
    cases asks : state.phase.demand with
    | bit =>
      cases bits with
      | nil => exact Or.inl ⟨asks, rfl⟩
      | cons bit rest => exact absurd rfl (noBit bit rest asks)
    | room =>
      cases room with
      | zero => exact Or.inr (Or.inl ⟨asks, rfl⟩)
      | succ room => exact absurd rfl (noRoom room asks)
    | nothing => exact Or.inr (Or.inr (leads.of_nothing asks))

end Inflater

end Deflate
end HeaderCodec
