import HeaderCodec.Proofs.Deflate.Drawing
import HeaderCodec.Proofs.Deflate.ReadingBlocks

namespace HeaderCodec
namespace Deflate

/-!
# Drawing from whole streams

Draws from a stream of the format return what the stream stands for, and say so
when they have returned all of it.  The stream may be the work of any encoder.
How it is cut into reads and how much room each draw has is of no consequence,
except for how the output is cut into pieces.
-/

/-- What a stream of the format stands for is its output, whatever follows it. -/
theorem Inflater.outputOf_of_isStream {stream output : List UInt8}
    (isStream : Format.IsStream stream output) (beyond : List UInt8) :
    outputOf (stream ++ beyond) = output := by
  rcases course_stream isStream with ⟨final, ended, course⟩
  have leads : Leads .fresh (Bits.ofBytes (stream ++ beyond)) output final :=
    ⟨Bits.ofBytes stream, Bits.ofBytes beyond, Bits.ofBytes_append _ _, course, Or.inl ended⟩
  exact outputOf_of_leads leads

namespace Decompressor

/-- The results of successive draws with the given rooms. -/
def drawAll (state : Decompressor) (supply : Supply) :
    List Nat -> List (Except DrawFailure (List UInt8))
  | [] => []
  | room :: rooms =>
    let (result, next, rest) := state.draw supply room
    result :: next.drawAll rest rooms

/-- Draws on a course that ends with the stream return first all bytes of the
course and then nothing, and none of them fails. -/
theorem drawAll_of_outlook {state : Decompressor} {supply : Supply} {bytes : List UInt8}
    {final : Inflater} {rooms : List Nat} (outlook : state.Outlook supply bytes final)
    (ended : final.phase = .ended) (positive : ∀ room ∈ rooms, 0 < room) :
    ∃ pieces : List (List UInt8), state.drawAll supply rooms = pieces.map .ok ∧
      pieces.flatten <+: bytes ∧
      ∀ index room piece, rooms[index]? = some room -> pieces[index]? = some piece ->
        piece.length ≤ room ∧ (piece = [] <-> (pieces.take index).flatten = bytes) := by
  induction rooms generalizing state supply bytes with
  | nil => exact ⟨[], rfl, List.nil_prefix, fun index room piece here => by cases here⟩
  | cons room rooms inductionHypothesis =>
    have here := positive room List.mem_cons_self
    have later := fun other member => positive other (List.mem_cons_of_mem room member)
    have drawn := draw_of_outlook state supply room here outlook
    rw [drawAll]
    generalize state.draw supply room = answer at drawn
    rcases answer with ⟨result, next, rest⟩
    cases drawn with
    | @piece piece remaining _ _ parts some fits after =>
      rcases inductionHypothesis after later with ⟨pieces, results, ⟨more, onward⟩, each⟩
      refine ⟨piece :: pieces, ?_, ⟨more, ?_⟩, ?_⟩
      · rw [List.map_cons, ← results]
      · rw [List.flatten_cons, List.append_assoc, onward, parts]
      · intro index room piece present found
        cases index with
        | zero =>
          rcases Option.some.inj present with rfl
          rcases Option.some.inj found with rfl
          refine ⟨fits, fun none => absurd none some, fun all => ?_⟩
          rw [parts] at all
          exact (List.append_eq_nil_iff.1 all.symm).1
        | succ index =>
          rcases each index room piece present found with ⟨short, exhausted⟩
          refine ⟨short, exhausted.trans ?_⟩
          rw [List.take_succ_cons, List.flatten_cons, parts, List.append_cancel_left_eq]
    | ended nothing _ after =>
      subst nothing
      rcases inductionHypothesis after later with ⟨pieces, results, onward, each⟩
      refine ⟨[] :: pieces, ?_, onward, ?_⟩
      · rw [List.map_cons, ← results]
      · intro index room piece present found
        cases index with
        | zero =>
          rcases Option.some.inj found with rfl
          exact ⟨Nat.zero_le room, fun _ => rfl, fun _ => rfl⟩
        | succ index =>
          rw [List.take_succ_cons, List.flatten_cons, List.nil_append]
          exact each index room piece present found
    | abandoned _ asks _ =>
      rw [ended] at asks
      contradiction

/-- Draws from any stream of the format return what it stands for.  The pieces
put together are a first part of it, a piece is empty exactly when all of it has
been returned before, and no draw fails.  What the sources hold beyond the
stream is of no consequence. -/
theorem drawAll_of_isStream {stream output beyond : List UInt8} {supply : Supply}
    {rooms : List Nat} (isStream : Format.IsStream stream output) (quiet : supply.Quiet)
    (holds : supply.content = stream ++ beyond) (positive : ∀ room ∈ rooms, 0 < room) :
    ∃ pieces : List (List UInt8),
      ({} : Decompressor).drawAll supply rooms = pieces.map .ok ∧ pieces.flatten <+: output ∧
      ∀ index room piece, rooms[index]? = some room -> pieces[index]? = some piece ->
        piece.length ≤ room ∧ (piece = [] <-> (pieces.take index).flatten = output) := by
  rcases Inflater.course_stream isStream with ⟨final, ended, course⟩
  have leads : Inflater.Leads .fresh ([] ++ Bits.ofBytes supply.content) output final := by
    refine ⟨Bits.ofBytes stream, Bits.ofBytes beyond, ?_, course, Or.inl ended⟩
    rw [List.nil_append, holds, Bits.ofBytes_append]
  exact drawAll_of_outlook ⟨quiet, leads⟩ ended positive

/-- A byte and a copy that repeats it, in a stream without a dictionary. -/
theorem isStream_of_copy :
    Format.IsStream [0x78, 0x9c, 0x4b, 0x04, 0x02, 0x00, 0x03, 0xce, 0x01, 0x85]
      [0x61, 0x61, 0x61, 0x61] := by
  have isWord : ∀ {lengths : List Nat} {symbol : Nat} (length : Nat),
      lengths[symbol]? = some length -> 0 < length ∧ length ≤ CodeTree.maxLength ->
        CanonicalCode.IsCodeWord lengths symbol
          (Bits.ofNat length (CanonicalCode.wordValue lengths symbol length)).reverse :=
    fun length used bounds => ⟨length, used, bounds.1, bounds.2, rfl⟩
  have ends : Format.Symbols .fixed [0x61, 0x61, 0x61, 0x61] _ [] :=
    .ends (isWord 7 rfl (by decide))
  have three : Format.Says Format.CodeLengths.fixed.literals Format.firstLength lengthClasses
      (3 + 0) _ := .of (show lengthClasses[0]? = _ from rfl) (by decide) (isWord 7 rfl (by decide))
  have one : Format.Says Format.CodeLengths.fixed.distances 0 distanceClasses (1 + 0) _ :=
    .of (show distanceClasses[0]? = _ from rfl) (by decide) (isWord 5 rfl (by decide))
  have isCopy : Format.IsCopy [0x61] 1 [0x61, 0x61, 0x61] := ⟨by decide, by decide, by decide⟩
  have copies : Format.Symbols .fixed [0x61] _ ([0x61, 0x61, 0x61] ++ []) :=
    .copy three one isCopy ends
  have symbols : Format.Symbols .fixed [] _ [0x61, 0x61, 0x61, 0x61] :=
    .literal (isWord 8 rfl (by decide)) copies
  have head : Format.Head [0x78, 0x9c] [] := .plain ⟨rfl, rfl, by decide⟩ rfl
  refine @Format.IsStream.of _ _ _ _ _ _ _ [false, false] head .none (.fixed symbols) ?_ ?_
  · decide +kernel
  · decide +kernel

theorem drawAll_copy :
    ∃ pieces : List (List UInt8),
      ({} : Decompressor).drawAll
          { intake := { pending := [.ofBytes [0x78, 0x9c, 0x4b], .ofBytes [0x04, 0x02, 0x00]] }
            arrivals := { queue := [.ofBytes [0x03, 0xce, 0x01, 0x85]] } } [1, 5, 2, 1] =
        pieces.map .ok ∧ pieces.flatten <+: [0x61, 0x61, 0x61, 0x61] ∧
      ∀ index room piece, [1, 5, 2, 1][index]? = some room -> pieces[index]? = some piece ->
        piece.length ≤ room ∧
          (piece = [] <-> (pieces.take index).flatten = [0x61, 0x61, 0x61, 0x61]) := by
  refine drawAll_of_isStream isStream_of_copy ?_ (List.append_nil _).symm ?_
  · intro source member
    simp only [Supply.sources, List.nil_append, List.cons_append, List.mem_cons,
      List.not_mem_nil, or_false] at member
    rcases member with rfl | rfl | rfl <;> exact Source.quiet_ofBytes _
  · decide

end Decompressor

end Deflate
end HeaderCodec
