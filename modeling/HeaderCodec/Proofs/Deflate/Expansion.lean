import HeaderCodec.Proofs.Deflate.Course

namespace HeaderCodec
namespace Deflate

/-!
# Every state has a course

`Inflater.expand` runs with unlimited room, so it tells what a state makes of
some bits before anyone asks how the bits and the room are dealt out.  Here it is
shown to follow the course of the state.  Whenever `expand` meets no fault, the
bits lead to the very state that it returns, and the bytes are those that it adds
to the output.

When there is a fault, what was written before it remains.  `Inflater.outputOf`
is that, for all bytes of a stream at once, and whatever a course writes on these
bytes is a first part of it.
-/

namespace Inflater

variable {state : Inflater}

/-! ## Unlimited room -/

theorem run_emit {bits : List Bool} {room : Nat} (asks : state.phase.demand = .room) :
    state.run bits (room + 1) = state.emit.run bits room := by
  rw [run]
  exact asks

/-- Without bits and without a need for room a run does nothing. -/
theorem run_nil {room : Nat} (asks : state.phase.demand ≠ .room) :
    state.run [] room = (state, []) := by
  rw [run]
  · intro bit rest _ present
    contradiction
  · intro less present _
    exact asks present

theorem owes_of_room (asks : state.phase.demand = .room) : 0 < state.owes := by
  unfold owes
  split
  · exact Nat.one_pos
  · exact Nat.lt_of_lt_of_le Nat.one_pos (Nat.le_max_right _ _)
  · rename_i notOwed notCopy
    cases phase : state.phase with
    | owed byte after => exact absurd phase (notOwed byte after)
    | copy codes distance length => exact absurd phase (notCopy codes distance length)
    | _ =>
      rw [phase] at asks
      contradiction

theorem owes_of_not_room (asks : state.phase.demand ≠ .room) : state.owes = 0 := by
  unfold owes
  split
  · rename_i phase
    exact absurd (by rw [phase]; rfl) asks
  · rename_i phase
    exact absurd (by rw [phase]; rfl) asks
  · rfl

theorem demand_beginStored (left : Nat) : (state.beginStored left).phase.demand = .bit := by
  cases left with
  | zero =>
    rw [beginStored, endBlock]
    split <;> rfl
  | succ left => rfl

/-- Each byte written is one that was owed. -/
theorem owes_emit (asks : state.phase.demand = .room) : state.emit.owes < state.owes := by
  have owed := owes_of_room asks
  cases phase : state.phase with
  | owed byte after =>
    have settled : state.emit.phase.demand ≠ .room := by
      rw [emit, phase]
      cases after with
      | stored left =>
        intro room
        exact Demand.noConfusion ((demand_beginStored left).symm.trans room)
      | symbol codes => exact Demand.noConfusion
    rw [owes_of_not_room settled]
    exact owed
  | copy codes distance length =>
    have total : state.owes = max length 1 := by rw [owes, phase]
    rw [emit, phase]
    dsimp only
    split
    · split
      · exact owed
      · rename_i more
        rw [total]
        simp only [owes, beginCopy]
        omega
    · exact owed
  | _ =>
    rw [phase] at asks
    contradiction

/-- With room for all that is owed, and no fault, a run without bits follows the
course of the state until it needs a bit or has ended. -/
theorem course_run_nil (room : Nat) (enough : state.owes ≤ room)
    (clean : forall fault, (state.run [] room).1.phase ≠ .failed fault) :
    ∃ bytes, Course state [] bytes (state.run [] room).1 ∧
      (state.run [] room).1.phase.demand ≠ .room := by
  induction room generalizing state with
  | zero =>
    have asks : state.phase.demand ≠ .room := fun asks =>
      absurd (owes_of_room asks) (Nat.not_lt.2 enough)
    rw [run_nil asks]
    exact ⟨[], .rest state, asks⟩
  | succ room inductionHypothesis =>
    by_cases asks : state.phase.demand = .room
    · rw [run_emit asks] at clean ⊢
      have less := owes_emit asks
      have noFault : state.emit.phase ≠ .failed .distanceTooFar := by
        intro fault
        have stays : state.emit.phase.demand ≠ .room := by
          rw [fault]
          exact Demand.noConfusion
        rw [run_nil stays] at clean
        exact clean _ fault
      rcases output_emit asks noFault with ⟨byte, writes⟩
      rcases inductionHypothesis (by omega) clean with ⟨bytes, course, settled⟩
      exact ⟨byte :: bytes, .emit asks writes course, settled⟩
    · rw [run_nil asks]
      exact ⟨[], .rest state, asks⟩

/-- A state that needs nothing is not changed by bits and room. -/
theorem expand_fold_of_nothing (asks : state.phase.demand = .nothing) (bits : List Bool) :
    bits.foldl (fun state bit => (state.feed bit).settle) state = state := by
  have stays : forall bit, (state.feed bit).settle = state := by
    intro bit
    have same : state.feed bit = state := by
      unfold feed
      split <;> first | rfl | (rename_i phase; rw [phase] at asks; contradiction)
    have notRoom : state.phase.demand ≠ .room := by
      rw [asks]
      exact Demand.noConfusion
    rw [same, settle, run_nil notRoom]
  induction bits with
  | nil => rfl
  | cons bit rest inductionHypothesis => rw [List.foldl_cons, stays, inductionHypothesis]

theorem leads_expand_fold (bits : List Bool) (settled : state.phase.demand ≠ .room)
    (clean : forall fault,
      (bits.foldl (fun state bit => (state.feed bit).settle) state).phase ≠ .failed fault) :
    ∃ bytes, state.Leads bits bytes
      (bits.foldl (fun state bit => (state.feed bit).settle) state) := by
  induction bits generalizing state with
  | nil =>
    refine ⟨[], [], [], rfl, .rest state, ?_⟩
    cases phase : state.phase with
    | ended => exact Or.inl phase
    | failed fault => exact absurd phase (clean fault)
    | owed | copy =>
      rw [phase] at settled
      exact absurd rfl settled
    | _ =>
      refine Or.inr ⟨?_, rfl⟩
      rw [List.foldl_nil, phase]
      rfl
  | cons bit rest inductionHypothesis =>
    cases asks : state.phase.demand with
    | room => exact absurd asks settled
    | nothing =>
      rw [expand_fold_of_nothing asks] at clean ⊢
      refine ⟨[], [], bit :: rest, rfl, .rest state, Or.inl ?_⟩
      cases phase : state.phase with
      | ended => rfl
      | failed fault => exact absurd phase (clean fault)
      | _ =>
        rw [phase] at asks
        contradiction
    | bit =>
      rw [List.foldl_cons] at clean ⊢
      have noFault : forall fault, (state.feed bit).settle.phase ≠ .failed fault := by
        intro fault phase
        have asks : (state.feed bit).settle.phase.demand = .nothing := by
          rw [phase]
          rfl
        rw [expand_fold_of_nothing asks] at clean
        exact clean fault phase
      rcases course_run_nil _ (Nat.le_refl _) noFault with ⟨bytes, written, settled⟩
      rcases inductionHypothesis settled clean with
          ⟨others, taken, beyond, split, course, closes⟩
      refine ⟨bytes ++ others, bit :: taken, beyond, ?_, ?_, closes⟩
      · rw [split, List.cons_append]
      · exact .feed asks (written.trans course)

/-- Bits that `expand` takes without a fault lead to what it returns, and the
bytes are those that it adds to the output. -/
theorem leads_expand (bits : List Bool)
    (clean : forall fault, (state.expand bits).phase ≠ .failed fault) :
    state.Leads bits ((state.expand bits).outputFrom state.outputSize) (state.expand bits) := by
  have noFault : forall fault, state.settle.phase ≠ .failed fault := by
    intro fault phase
    have asks : state.settle.phase.demand = .nothing := by
      rw [phase]
      rfl
    rw [expand, expand_fold_of_nothing asks] at clean
    exact clean fault phase
  rcases course_run_nil _ (Nat.le_refl _) noFault with ⟨bytes, written, settled⟩
  rcases leads_expand_fold bits settled clean with
      ⟨others, taken, beyond, split, course, closes⟩
  have leads : state.Leads bits (bytes ++ others) (state.expand bits) :=
    ⟨taken, beyond, split, written.trans course, closes⟩
  have added : (state.expand bits).outputFrom state.outputSize = bytes ++ others := by
    rw [outputFrom_eq, leads.output_eq, ← length_output, List.drop_left]
  rwa [added]

/-- Room beyond what is owed makes no difference without bits. -/
theorem run_nil_of_enough {first second : Nat} (enoughFirst : state.owes ≤ first)
    (enoughSecond : state.owes ≤ second) : state.run [] first = state.run [] second := by
  induction first generalizing state second with
  | zero =>
    have asks : state.phase.demand ≠ .room := fun asks =>
      absurd (owes_of_room asks) (Nat.not_lt.2 enoughFirst)
    rw [run_nil asks, run_nil asks]
  | succ first inductionHypothesis =>
    by_cases asks : state.phase.demand = .room
    · have less := owes_emit asks
      cases second with
      | zero => exact absurd (owes_of_room asks) (Nat.not_lt.2 enoughSecond)
      | succ second =>
        rw [run_emit asks, run_emit asks]
        exact inductionHypothesis (by omega) (by omega)
    · rw [run_nil asks, run_nil asks]

theorem settle_of_not_room (asks : state.phase.demand ≠ .room) : state.settle = state := by
  rw [settle, run_nil asks]

theorem settle_emit (asks : state.phase.demand = .room) : state.settle = state.emit.settle := by
  have less := owes_emit asks
  rcases Nat.exists_eq_succ_of_ne_zero (Nat.pos_iff_ne_zero.1 (owes_of_room asks)) with ⟨owed, size⟩
  rw [settle, settle, size, run_emit asks, run_nil_of_enough (by omega) (Nat.le_refl _)]

/-- `expand` follows every course, and goes on from where it ends. -/
theorem expand_of_course {taken : List Bool} {bytes : List UInt8} {final : Inflater}
    (course : Course state taken bytes final) (beyond : List Bool) :
    state.expand (taken ++ beyond) = final.expand beyond := by
  induction course with
  | rest => rfl
  | feed asks _ inductionHypothesis =>
    have notRoom : Phase.demand _ ≠ .room := fun room => Demand.noConfusion (asks.symm.trans room)
    rw [expand, settle_of_not_room notRoom, List.cons_append, List.foldl_cons]
    exact inductionHypothesis
  | emit asks _ _ inductionHypothesis =>
    rw [expand, settle_emit asks]
    exact inductionHypothesis

/-- Wherever bits lead, `expand` arrives there too. -/
theorem expand_of_leads {bits : List Bool} {bytes : List UInt8} {final : Inflater}
    (leads : state.Leads bits bytes final) : state.expand bits = final := by
  rcases leads with ⟨taken, beyond, split, course, closes⟩
  have notRoom : final.phase.demand ≠ .room := by
    rcases closes with ended | ⟨asks, _⟩
    · rw [ended]
      exact Demand.noConfusion
    · rw [asks]
      exact Demand.noConfusion
  rw [split, expand_of_course course, expand, settle_of_not_room notRoom]
  rcases closes with ended | ⟨_, nothing⟩
  · exact expand_fold_of_nothing (by rw [ended]; rfl) beyond
  · rw [nothing, List.foldl_nil]

/-! ## Input of any kind -/

/-- Without a fault at its end, a run follows the course of the state.  It stops
for want of bits or of room, or because nothing is needed any more. -/
theorem course_run (state : Inflater) (bits : List Bool) (room : Nat)
    (clean : ∀ fault, (state.run bits room).1.phase ≠ .failed fault) :
    ∃ taken written, bits = taken ++ (state.run bits room).2 ∧
      Course state taken written (state.run bits room).1 ∧ written.length ≤ room ∧
      ((state.run bits room).1.phase.demand = .bit -> (state.run bits room).2 = []) ∧
      ((state.run bits room).1.phase.demand = .room -> written.length = room) := by
  fun_induction run state bits room with
  | case1 state bit rest room asks inductionHypothesis =>
    rcases inductionHypothesis clean with
        ⟨taken, written, split, course, fits, noBits, noRoom⟩
    exact ⟨bit :: taken, written, congrArg (bit :: ·) split, .feed asks course, fits, noBits,
      noRoom⟩
  | case2 state bits room asks inductionHypothesis =>
    have noFault : state.emit.phase ≠ .failed .distanceTooFar := by
      intro fault
      -- A state that has failed goes nowhere, so the run ends with the fault.
      have same : (state.emit.run bits room).1 = state.emit := by
        rw [run]
        · intro bit rest needs
          rw [fault] at needs
          contradiction
        · intro less needs
          rw [fault] at needs
          contradiction
      exact clean _ (same ▸ fault)
    rcases output_emit asks noFault with ⟨byte, writes⟩
    rcases inductionHypothesis clean with
        ⟨taken, written, split, course, fits, noBits, noRoom⟩
    exact ⟨taken, byte :: written, split, .emit asks writes course, Nat.succ_le_succ fits, noBits,
      fun needs => congrArg (· + 1) (noRoom needs)⟩
  | case3 state room bits noBit noRoom =>
    refine ⟨[], [], rfl, .rest state, Nat.zero_le _, ?_, ?_⟩
    · intro asks
      cases bits with
      | nil => rfl
      | cons bit rest => exact absurd rfl (noBit bit rest asks)
    · intro asks
      cases room with
      | zero => rfl
      | succ room => exact absurd rfl (noRoom room asks)

/-- A run never takes output back, whatever its input. -/
theorem output_run (state : Inflater) (bits : List Bool) (room : Nat) :
    state.output <+: (state.run bits room).1.output := by
  fun_induction Inflater.run state bits room with
  | case1 state bit _ _ _ inductionHypothesis =>
    rw [← output_feed state bit]
    exact inductionHypothesis
  | case2 state _ _ asks inductionHypothesis =>
    refine List.IsPrefix.trans ?_ inductionHypothesis
    rcases frame_emit asks with ⟨start, _, _, ⟨byte, history⟩ | ⟨history, _⟩⟩
    · rw [output_of_push start history]
      exact List.prefix_append _ _
    · exact ⟨[], by rw [List.append_nil, output, output, start, history]⟩
  | case3 => exact List.prefix_refl _

theorem output_expand (state : Inflater) (bits : List Bool) :
    state.output <+: (state.expand bits).output := by
  have settled : ∀ state : Inflater, state.output <+: state.settle.output :=
    fun state => output_run state [] _
  have folded : ∀ state : Inflater, state.output <+:
      (bits.foldl (fun state bit => (state.feed bit).settle) state).output := by
    induction bits with
    | nil => exact fun _ => List.prefix_refl _
    | cons bit rest inductionHypothesis =>
      intro state
      have onward := settled (state.feed bit)
      rw [output_feed] at onward
      exact onward.trans (inductionHypothesis _)
  exact (settled state).trans (folded _)

/-- All that some bytes of a stream stand for, up to the first fault among them.
If they break no rule of the format, it is all that the format says. -/
def outputOf (bytes : List UInt8) : List UInt8 :=
  (Inflater.fresh.expand (Bits.ofBytes bytes)).output

/-- Bytes stand for what they lead to. -/
theorem outputOf_of_leads {stream bytes : List UInt8} {final : Inflater}
    (leads : Leads .fresh (Bits.ofBytes stream) bytes final) : outputOf stream = bytes := by
  rw [outputOf, expand_of_leads leads, leads.output_eq]
  rfl

/-- What a course has written is the beginning of what follows from its bits,
whatever comes behind them. -/
theorem output_prefix_outputOf {taken beyond : List Bool} {bytes stream : List UInt8}
    {final : Inflater} (course : Course .fresh taken bytes final)
    (split : Bits.ofBytes stream = taken ++ beyond) : bytes <+: outputOf stream := by
  have written : final.output = bytes := course.output_eq
  rw [outputOf, split, expand_of_course course, ← written]
  exact output_expand final beyond

end Inflater

end Deflate
end HeaderCodec
