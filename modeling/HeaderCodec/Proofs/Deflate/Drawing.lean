import HeaderCodec.Deflate.Decompressor
import HeaderCodec.Proofs.Deflate.Expansion
import HeaderCodec.Proofs.Delivery

namespace HeaderCodec
namespace Deflate

/-!
# What can be drawn

A decompressor holds input that it has not taken, and its sources hold more.
The bits of both together lead the inflater to all bytes that can ever be
drawn, and `Outlook` says so.  A draw removes a first part of these bytes and
keeps the outlook for the rest, whatever room it is given, wherever the input
is cut, and whenever the sources arrive.  This is the invariant under which
everything that reads through a decompressor is reasoned about.
-/

namespace Decompressor

/-- The bytes that can still be drawn, and the state to which drawing all of
them leads. -/
structure Outlook (state : Decompressor) (supply : Supply) (bytes : List UInt8)
    (final : Inflater) : Prop where
  quiet : supply.Quiet
  leads : state.inflater.Leads (state.unread ++ Bits.ofBytes supply.content) bytes final

variable {state : Decompressor} {bytes : List UInt8} {final : Inflater} {room : Nat}

/-- How the same bytes are spread over quiet sources makes no difference. -/
theorem Outlook.of_content_eq {supply other : Supply} (outlook : state.Outlook supply bytes final)
    (quiet : other.Quiet) (same : other.content = supply.content) :
    state.Outlook other bytes final where
  quiet := quiet
  leads := same ▸ outlook.leads

theorem Outlook.of_sources_eq {supply other : Supply} (outlook : state.Outlook supply bytes final)
    (same : other.sources = supply.sources) : state.Outlook other bytes final := by
  apply outlook.of_content_eq fun source member => outlook.quiet source (same ▸ member)
  rw [Supply.content_eq, Supply.content_eq, same]

/-- A source at the end of the line adds to what can be drawn. -/
theorem Outlook.append {supply other : Supply} {source : Source} {more : List UInt8}
    {next : Inflater} (outlook : state.Outlook supply bytes final)
    (asks : final.phase.demand = .bit) (line : other.sources = supply.sources ++ [source])
    (quiet : source.Quiet) (leads : final.Leads (Bits.ofBytes source.content) more next) :
    state.Outlook other (bytes ++ more) next where
  quiet := by
    intro member inside
    rw [line] at inside
    rcases List.mem_append.1 inside with before | last
    · exact outlook.quiet member before
    · exact List.mem_singleton.1 last ▸ quiet
  leads := by
    rw [Supply.content_eq, line, List.flatMap_append, List.flatMap_singleton, ← Supply.content_eq,
      Bits.ofBytes_append, ← List.append_assoc]
    exact outlook.leads.append asks leads

/-! ## The input at hand -/

theorem snd_advance (state : Decompressor) (room : Nat) :
    (state.advance room).2 =
      { inflater := (state.inflater.run state.unread room).1
        unread := (state.inflater.run state.unread room).2 } := by
  simp only [advance, Inflater.fst_runPaced, Inflater.snd_fst_runPaced]

/-- Without a fault the result is told by what has been written. -/
theorem fst_advance {written : List UInt8}
    (clean : ∀ fault, (state.inflater.run state.unread room).1.phase ≠ .failed fault)
    (output : (state.inflater.run state.unread room).1.output =
      state.inflater.output ++ written) :
    (state.advance room).1 =
      if written ≠ [] then .produced written
      else if (state.inflater.run state.unread room).1.phase.demand = .nothing then .ended
      else .starved := by
  have size : (state.inflater.run state.unread room).1.outputSize =
      state.inflater.outputSize + written.length := by
    rw [← Inflater.length_output, output, List.length_append, Inflater.length_output]
  -- `clean` rules the first case of the match out.
  simp only [advance, Inflater.fst_runPaced]
  rw [Inflater.outputFrom_eq, output, ← Inflater.length_output, List.drop_left,
    Inflater.length_output, size]
  simp only [Nat.lt_add_right_iff_pos, List.length_pos_iff]

/-- How far the input at hand can lead when there is more to come later. -/
inductive Advanced (bytes : List UInt8) (final : Inflater) (room : Nat) (later : List Bool) :
    Advance -> Decompressor -> Prop where
  | produced {piece remaining : List UInt8} {next : Decompressor}
      (parts : bytes = piece ++ remaining) (some : piece ≠ []) (fits : piece.length ≤ room)
      (leads : next.inflater.Leads (next.unread ++ later) remaining final) :
      Advanced bytes final room later (.produced piece) next
  | ended {next : Decompressor} (nothing : bytes = []) (ended : final.phase = .ended)
      (leads : next.inflater.Leads (next.unread ++ later) [] final) :
      Advanced bytes final room later .ended next
  | starved {next : Decompressor} (used : next.unread = [])
      (asks : next.inflater.phase.demand = .bit)
      (leads : next.inflater.Leads later bytes final) :
      Advanced bytes final room later .starved next

theorem advance_of_leads {later : List Bool} (positive : 0 < room)
    (leads : state.inflater.Leads (state.unread ++ later) bytes final) :
    Advanced bytes final room later (state.advance room).1 (state.advance room).2 := by
  rcases Inflater.leads_run state.inflater state.unread room leads with
      ⟨written, remaining, parts, fits, output, after, stops⟩
  have clean : ∀ fault, (state.inflater.run state.unread room).1.phase ≠ .failed fault := by
    intro fault phase
    have asks : (state.inflater.run state.unread room).1.phase.demand = .nothing := by
      rw [phase]
      rfl
    exact Phase.noConfusion ((after.of_nothing asks).1.symm.trans phase)
  rw [fst_advance clean output, snd_advance]
  cases written with
  | cons byte more =>
    rw [if_pos (List.cons_ne_nil byte more)]
    exact .produced parts (List.cons_ne_nil byte more) fits after
  | nil =>
    rw [if_neg (not_not_intro rfl)]
    rw [List.nil_append] at parts
    subst parts
    rcases stops with ⟨asks, used⟩ | ⟨_, full⟩ | ⟨ended, same, nothing⟩
    · rw [asks, if_neg Demand.noConfusion]
      rw [used, List.nil_append] at after
      exact .starved used asks after
    · rw [List.length_nil] at full
      omega
    · rw [ended, if_pos (show Phase.ended.demand = .nothing from rfl)]
      subst nothing
      exact .ended rfl (same ▸ ended) after

/-! ## A draw -/

/-- How a draw with room can end when the sources are quiet. -/
inductive Drawn (bytes : List UInt8) (final : Inflater) (room : Nat) :
    Except DrawFailure (List UInt8) -> Decompressor -> Supply -> Prop where
  | piece {piece remaining : List UInt8} {next : Decompressor} {rest : Supply}
      (parts : bytes = piece ++ remaining) (some : piece ≠ []) (fits : piece.length ≤ room)
      (outlook : next.Outlook rest remaining final) : Drawn bytes final room (.ok piece) next rest
  | ended {next : Decompressor} {rest : Supply} (nothing : bytes = [])
      (ended : final.phase = .ended) (outlook : next.Outlook rest [] final) :
      Drawn bytes final room (.ok []) next rest
  | abandoned {failure : Failure} {next : Decompressor} {rest : Supply} (nothing : bytes = [])
      (asks : final.phase.demand = .bit) (outlook : next.Outlook rest [] final) :
      Drawn bytes final room (.error (.source failure)) next rest

/-- A draw takes a first part of what can be drawn.  It comes back without bytes
only when there are none, because the stream has ended or because the sources
hold nothing more. -/
theorem draw_of_outlook (state : Decompressor) (supply : Supply) (room : Nat)
    (positive : 0 < room) (outlook : state.Outlook supply bytes final) :
    Drawn bytes final room (state.draw supply room).1 (state.draw supply room).2.1
      (state.draw supply room).2.2 := by
  fun_induction draw state supply room with
  | case1 state supply none => exact absurd none (Nat.pos_iff_ne_zero.1 positive)
  | case2 state supply notZero piece next answer =>
    have advanced := advance_of_leads positive outlook.leads
    rw [answer] at advanced
    cases advanced with
    | produced parts some fits leads => exact .piece parts some fits ⟨outlook.quiet, leads⟩
  | case3 state supply notZero next answer =>
    have advanced := advance_of_leads positive outlook.leads
    rw [answer] at advanced
    cases advanced with
    | ended nothing ended leads => exact .ended nothing ended ⟨outlook.quiet, leads⟩
  | case4 state supply notZero fault next answer =>
    have advanced := advance_of_leads positive outlook.leads
    rw [answer] at advanced
    cases advanced
  | case5 state supply notZero next answer failure rest read =>
    have advanced := advance_of_leads positive outlook.leads
    have outcome := Supply.read_of_quiet (show 0 < chunk by decide) outlook.quiet
    rw [answer] at advanced
    rw [read] at outcome
    cases outcome with
    | abandoned nothing still quiet =>
      cases advanced with
      | starved used asks leads =>
        rw [nothing, Bits.ofBytes_nil] at leads
        rcases leads.of_no_bits asks with ⟨same, none⟩
        refine .abandoned none (same ▸ asks) ⟨quiet, ?_⟩
        rw [used, still, Bits.ofBytes_nil, List.append_nil]
        exact none ▸ leads
  | case6 state supply notZero next answer more rest read inductionHypothesis =>
    have advanced := advance_of_leads positive outlook.leads
    have outcome := Supply.read_of_quiet (show 0 < chunk by decide) outlook.quiet
    rw [answer] at advanced
    rw [read] at outcome
    cases outcome with
    | delivered short parts quiet =>
      cases advanced with
      | starved used asks leads =>
        rw [parts, Bits.ofBytes_append] at leads
        exact inductionHypothesis ⟨quiet, leads⟩

theorem queue_draw (state : Decompressor) (supply : Supply) (room : Nat) :
    (state.draw supply room).2.2.arrivals.queue <:+ supply.arrivals.queue := by
  fun_induction draw state supply room with
  | case1 => exact List.suffix_refl _
  | case2 => exact List.suffix_refl _
  | case3 => exact List.suffix_refl _
  | case4 => exact List.suffix_refl _
  | case5 _ supply _ _ _ _ _ read =>
    have taken := Supply.queue_read supply chunk
    rw [read] at taken
    exact taken
  | case6 _ supply _ _ _ _ _ read inductionHypothesis =>
    have taken := Supply.queue_read supply chunk
    rw [read] at taken
    exact inductionHypothesis.trans taken

end Decompressor

end Deflate
end HeaderCodec
