import HeaderCodec.Proofs.Deflate.Bookkeeping
import HeaderCodec.Proofs.Reach

namespace HeaderCodec
namespace Deflate

/-!
# Faults and ends

A draw that comes back without bytes has met the end of the stream, a fault in it, or
a source that failed.  Here the first two are traced to the input.  The way in which
a run is fed has no say in the matter: `Inflater.expand_run` says that from every
state that a run leads to the remaining bits lead on to the same state at last, a
fault included.  So a fault that a draw reports is a fault of the bytes that have been
read until then, without any regard to what the sources do behind them.
-/

namespace Inflater

variable {state : Inflater}

/-- A run with any room stays on the way to where all bits lead. -/
theorem expand_run (state : Inflater) (bits : List Bool) (room : Nat) (more : List Bool) :
    (state.run bits room).1.expand ((state.run bits room).2 ++ more) =
      state.expand (bits ++ more) := by
  fun_induction run state bits room with
  | case1 state bit rest room asks inductionHypothesis =>
    have notRoom : state.phase.demand ≠ .room := by
      rw [asks]
      exact Demand.noConfusion
    rw [inductionHypothesis, expand, expand, settle_of_not_room notRoom, List.cons_append,
      List.foldl_cons]
  | case2 state bits room asks inductionHypothesis =>
    rw [inductionHypothesis, expand, expand, settle_emit asks]
  | case3 => rfl

/-- Nothing leads on from a state that needs nothing. -/
theorem expand_of_nothing (asks : state.phase.demand = .nothing) (bits : List Bool) :
    state.expand bits = state := by
  have notRoom : state.phase.demand ≠ .room := by
    rw [asks]
    exact Demand.noConfusion
  rw [expand, settle_of_not_room notRoom, expand_fold_of_nothing asks]

/-- What comes behind an end or a fault makes no difference. -/
theorem expand_append_of_nothing {bits : List Bool}
    (asks : (state.expand bits).phase.demand = .nothing) (more : List Bool) :
    state.expand (bits ++ more) = state.expand bits := by
  rw [expand, List.foldl_append]
  exact expand_fold_of_nothing asks more

end Inflater

/-- A fault is reported by its name, or as one that is not told apart. -/
theorem Pace.report_eq (pace : Pace) (fault : Fault) :
    pace.report fault = fault ∨ pace.report fault = fault.hasty := by
  cases pace with
  | careful => exact Or.inl rfl
  | hasty => exact Or.inr rfl
  | granted => exact Or.inl rfl

namespace Decompressor

variable {state next : Decompressor} {room : Nat} {reported : Fault}

/-! ## The input at hand -/

/-- What each answer says about the state that the input at hand has led to. -/
inductive Results : Advance -> Decompressor -> Prop where
  | produced {piece : List UInt8} {next : Decompressor} (some : piece ≠ []) :
      Results (.produced piece) next
  | ended {next : Decompressor} (phase : next.inflater.phase = .ended) : Results .ended next
  | starved {next : Decompressor} : Results .starved next
  | failed {fault reported : Fault} {next : Decompressor}
      (phase : next.inflater.phase = .failed fault)
      (report : reported = fault ∨ reported = fault.hasty) : Results (.failed reported) next

theorem results_advance (state : Decompressor) (room : Nat) :
    Results (state.advance room).1 (state.advance room).2 := by
  rw [snd_advance]
  simp only [advance, Inflater.fst_runPaced]
  split
  · rename_i fault phase
    exact .failed phase (Pace.report_eq _ fault)
  · rename_i sane
    split
    · rename_i more
      refine .produced ?_
      rw [Inflater.outputFrom_eq, ← List.length_pos_iff, List.length_drop, Inflater.length_output]
      omega
    · split
      · rename_i asks
        refine .ended ?_
        cases phase : (state.inflater.run state.unread room).1.phase with
        | ended => rfl
        | failed fault => exact absurd phase (sane fault)
        | _ =>
          rw [phase] at asks
          contradiction
      · exact .starved

theorem results_of_advance {result : Advance} (answer : state.advance room = (result, next)) :
    Results result next := by
  have results := results_advance state room
  rwa [answer] at results

/-- The input at hand leads on to where it leads without any limit of room. -/
theorem expand_of_advance {result : Advance} (answer : state.advance room = (result, next))
    (more : List Bool) :
    next.inflater.expand (next.unread ++ more) = state.inflater.expand (state.unread ++ more) := by
  have after := congrArg Prod.snd answer
  rw [snd_advance] at after
  subst after
  exact Inflater.expand_run state.inflater state.unread room more

/-! ## Draws -/

/-- A draw with room returns nothing only at the end of the stream. -/
theorem ended_of_draw {state : Decompressor} {supply : Supply} (some : room ≠ 0)
    (drawn : (state.draw supply room).1 = .ok []) :
    (state.draw supply room).2.1.inflater.phase = .ended := by
  fun_induction draw state supply room with
  | case1 => contradiction
  | case2 _ _ _ _ _ answer =>
    cases drawn
    cases results_of_advance answer with
    | produced some => exact absurd rfl some
  | case3 _ _ _ _ answer =>
    cases results_of_advance answer with
    | ended phase => exact phase
  | case4 => cases drawn
  | case5 => cases drawn
  | case6 _ _ _ _ _ _ _ _ inductionHypothesis => exact inductionHypothesis drawn

/-- A fault of the first bytes of a line is reported.  Nothing else of the line has
been read. -/
inductive Rejects (line : List Source) (reported : Fault) (next : Decompressor)
    (rest : Supply) : Prop where
  | intro {given : List UInt8} {fault : Fault}
      (split : Source.reach line = given ++ rest.reach)
      (breaks : (Inflater.fresh.expand (Bits.ofBytes given)).phase = .failed fault)
      (failed : next.inflater.phase = .failed fault)
      (report : reported = fault ∨ reported = fault.hasty) : Rejects line reported next rest

/-- Input that has been read and input that has not make up the line. -/
theorem Books.reach_eq {attached : List Source} {pieces : List (List UInt8)} {taken : List Bool}
    {bytes : List UInt8} {supply : Supply}
    (books : Books attached pieces taken bytes state supply.intake) :
    Source.reach (attached ++ supply.arrivals.queue) = pieces.flatten ++ supply.reach := by
  rcases books.run with ⟨ended, run⟩
  exact ((run.yields rfl).append supply.arrivals.queue).reach_eq

/-- What all input that has been read leads to, and any more. -/
theorem Books.expand_eq {attached : List Source} {pieces : List (List UInt8)} {taken : List Bool}
    {bytes : List UInt8} {intake : Intake} (books : Books attached pieces taken bytes state intake)
    (more : List UInt8) :
    Inflater.fresh.expand (Bits.ofBytes (pieces.flatten ++ more)) =
      state.inflater.expand (state.unread ++ Bits.ofBytes more) := by
  rw [Bits.ofBytes_append, ← books.split, List.append_assoc, Inflater.expand_of_course books.course]

/-- An inflater that needs nothing more stands where the whole line leads. -/
theorem Books.expand_reach {attached : List Source} {pieces : List (List UInt8)}
    {taken : List Bool} {bytes : List UInt8} {supply : Supply}
    (books : Books attached pieces taken bytes state supply.intake)
    (asks : state.inflater.phase.demand = .nothing) :
    Inflater.fresh.expand (Bits.ofBytes (Source.reach (attached ++ supply.arrivals.queue))) =
      state.inflater := by
  rw [books.reach_eq, books.expand_eq, Inflater.expand_of_nothing asks]

/-- What has been written is the beginning of what the whole line stands for. -/
theorem Books.prefix_outputOf_reach {attached : List Source} {pieces : List (List UInt8)}
    {taken : List Bool} {bytes : List UInt8} {supply : Supply}
    (books : Books attached pieces taken bytes state supply.intake) :
    bytes <+: Inflater.outputOf (Source.reach (attached ++ supply.arrivals.queue)) := by
  have split : Bits.ofBytes (Source.reach (attached ++ supply.arrivals.queue)) =
      taken ++ (state.unread ++ Bits.ofBytes supply.reach) := by
    rw [books.reach_eq, Bits.ofBytes_append, ← books.split, List.append_assoc]
  exact Inflater.output_prefix_outputOf books.course split

/-- A draw that fails because of the stream has met a fault in what has been read. -/
theorem rejects_of_draw {attached : List Source} {pieces : List (List UInt8)} {taken : List Bool}
    {bytes : List UInt8} (state : Decompressor) (supply : Supply) (room : Nat)
    (books : Books attached pieces taken bytes state supply.intake)
    (drawn : (state.draw supply room).1 = .error (.stream reported)) :
    Rejects (attached ++ supply.arrivals.queue) reported (state.draw supply room).2.1
      (state.draw supply room).2.2 := by
  fun_induction draw state supply room generalizing attached pieces taken with
  | case1 => cases drawn
  | case2 => cases drawn
  | case3 => cases drawn
  | case4 state supply _ fault next answer =>
    cases drawn
    cases results_of_advance answer with
    | failed phase report =>
      have asks : next.inflater.phase.demand = .nothing := by
        rw [phase]
        rfl
      have all := books.expand_eq []
      rw [List.append_nil, ← expand_of_advance answer, Inflater.expand_of_nothing asks] at all
      exact .intro books.reach_eq ((congrArg Inflater.phase all).trans phase) phase report
  | case5 => cases drawn
  | case6 state supply some next answer more rest read inductionHypothesis =>
    rcases carriesOn_load some books answer read with ⟨newly, _, _, order, loaded⟩
    rw [order, ← List.append_assoc]
    exact inductionHypothesis loaded drawn

end Decompressor

end Deflate
end HeaderCodec
