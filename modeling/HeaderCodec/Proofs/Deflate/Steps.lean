import HeaderCodec.Deflate.Inflater

namespace HeaderCodec
namespace Deflate

/-!
# What a step changes

An inflater goes on by bits and by room.  Here both steps are said by what they
leave alone.  A bit is counted, and it never changes the output.  Room brings one
byte of output, unless a match reaches back too far.

Inside the blocks a bit leaves the whole history alone, and `Continues` says so of
everything that can follow a complete number or code word.  Only before the first
block does the history change with a bit, when the dictionary is put before the
output, and the output begins behind it then.
-/

/-- Whether a phase lies before the first block. -/
def Phase.isEarly : Phase -> Bool
  | .number .streamHead .. | .number .dictionaryId .. => true
  | _ => false

namespace Inflater

variable {state : Inflater}

/-- Going on inside the blocks leaves the history alone, and the number of bits
that have been taken. -/
structure Continues (before after : Inflater) : Prop where
  history : after.history = before.history
  start : after.start = before.start
  consumed : after.consumed = before.consumed
  late : after.phase.isEarly = false

theorem Continues.output_eq {after : Inflater} (continues : state.Continues after) :
    after.output = state.output := by
  rw [output, output, continues.history, continues.start]

/-! ## What follows a complete number or code word stays inside the blocks -/

theorem continues_fail (fault : Fault) : state.Continues (state.fail fault) :=
  ⟨rfl, rfl, rfl, rfl⟩

theorem continues_endBlock : state.Continues state.endBlock := by
  unfold endBlock
  split <;> exact ⟨rfl, rfl, rfl, rfl⟩

theorem continues_beginSymbol (codes : Codes) : state.Continues (state.beginSymbol codes) :=
  ⟨rfl, rfl, rfl, rfl⟩

theorem continues_beginStored (left : Nat) : state.Continues (state.beginStored left) := by
  cases left with
  | zero => exact continues_endBlock
  | succ left => exact ⟨rfl, rfl, rfl, rfl⟩

theorem continues_continueLengths (table : LengthTable) :
    state.Continues (state.continueLengths table) := by
  unfold continueLengths
  split
  · exact ⟨rfl, rfl, rfl, rfl⟩
  · unfold beginCodes
    split
    · exact continues_fail _
    · split
      · exact continues_fail _
      · split
        · exact continues_fail _
        · exact continues_beginSymbol _

theorem continues_onBlockHead (value : Nat) : state.Continues (state.onBlockHead value) := by
  unfold onBlockHead
  simp only
  split <;> exact ⟨rfl, rfl, rfl, rfl⟩

theorem continues_onStoredLengths (value : Nat) :
    state.Continues (state.onStoredLengths value) := by
  unfold onStoredLengths
  simp only
  split
  · exact continues_beginStored _
  · exact continues_fail _

theorem continues_onTableSizes (value : Nat) : state.Continues (state.onTableSizes value) := by
  unfold onTableSizes
  simp only
  split <;> exact ⟨rfl, rfl, rfl, rfl⟩

theorem continues_onWidth (sizes : TableSizes) (widths : List Nat) :
    state.Continues (state.onWidth sizes widths) := by
  unfold onWidth
  split
  · exact ⟨rfl, rfl, rfl, rfl⟩
  · split
    · exact continues_fail _
    · exact continues_continueLengths _

theorem continues_onRepetition (table : LengthTable) (length : Option Nat) (count : Nat) :
    state.Continues (state.onRepetition table length count) := by
  unfold onRepetition
  split
  · exact continues_fail _
  · simp only
    split
    · exact continues_fail _
    · exact continues_continueLengths _

theorem continues_onChecksum (value : Nat) : state.Continues (state.onChecksum value) := by
  unfold onChecksum
  split <;> exact ⟨rfl, rfl, rfl, rfl⟩

theorem continues_onNumber {field : Field} {missing place value : Nat}
    (late : (Phase.number field missing place value).isEarly = false) (read : Nat) :
    state.Continues (state.onNumber field read) := by
  cases field with
  | streamHead => contradiction
  | dictionaryId => contradiction
  | blockHead => exact continues_onBlockHead _
  | storedLengths => exact continues_onStoredLengths _
  | storedByte => exact ⟨rfl, rfl, rfl, rfl⟩
  | tableSizes => exact continues_onTableSizes _
  | width => exact continues_onWidth _ _
  | repetition => exact continues_onRepetition _ _ _
  | lengthExtra => exact ⟨rfl, rfl, rfl, rfl⟩
  | distanceExtra => exact ⟨rfl, rfl, rfl, rfl⟩
  | checksum => exact continues_onChecksum _

theorem continues_onLengthSymbol (table : LengthTable) (symbol : Nat) :
    state.Continues (state.onLengthSymbol table symbol) := by
  unfold onLengthSymbol
  split
  · exact continues_continueLengths _
  · split
    · exact ⟨rfl, rfl, rfl, rfl⟩
    · split <;> exact ⟨rfl, rfl, rfl, rfl⟩

theorem continues_onSymbol (codes : Codes) (symbol : Nat) :
    state.Continues (state.onSymbol codes symbol) := by
  unfold onSymbol
  split
  · exact ⟨rfl, rfl, rfl, rfl⟩
  · exact continues_endBlock
  · exact ⟨rfl, rfl, rfl, rfl⟩
  · exact ⟨rfl, rfl, rfl, rfl⟩
  · exact continues_fail _

theorem continues_onDistanceSymbol (codes : Codes) (length symbol : Nat) :
    state.Continues (state.onDistanceSymbol codes length symbol) := by
  unfold onDistanceSymbol
  split <;> exact ⟨rfl, rfl, rfl, rfl⟩

/-! ## Bits -/

/-- The state with one more bit counted as taken. -/
def count (state : Inflater) : Inflater :=
  { state with consumed := state.consumed + 1 }

/-- Inside the blocks a bit is counted and leaves the history alone. -/
theorem continues_feed (late : state.phase.isEarly = false) (asks : state.phase.demand = .bit)
    (bit : Bool) : state.count.Continues (state.feed bit) := by
  unfold feed
  split
  · rename_i field missing place value phase
    rw [phase] at late
    dsimp only
    split
    · exact continues_onNumber late _
    · exact ⟨rfl, rfl, rfl, by cases field <;> exact late⟩
  · dsimp only
    split
    · exact continues_onLengthSymbol _ _
    · exact ⟨rfl, rfl, rfl, rfl⟩
    · exact ⟨rfl, rfl, rfl, rfl⟩
  · dsimp only
    split
    · exact continues_onSymbol _ _
    · exact ⟨rfl, rfl, rfl, rfl⟩
    · exact ⟨rfl, rfl, rfl, rfl⟩
  · dsimp only
    split
    · exact continues_onDistanceSymbol _ _ _
    · exact ⟨rfl, rfl, rfl, rfl⟩
    · exact ⟨rfl, rfl, rfl, rfl⟩
  all_goals
    rename_i phase
    rw [phase] at asks
    contradiction

/-- A state that asks for no bit takes none. -/
theorem feed_of_not_bit (asks : state.phase.demand ≠ .bit) (bit : Bool) :
    state.feed bit = state := by
  rcases state with ⟨history, start, consumed, symbolStart, last, phase, within⟩
  cases phase with
  | owed => rfl
  | copy => rfl
  | ended => rfl
  | failed => rfl
  | _ => exact absurd rfl asks

/-- The output stays where it is behind the dictionary. -/
theorem output_install : state.install.output = state.output := by
  show (Dictionary.history ++ state.history).toList.drop
    (Dictionary.history.size + state.start) = state.output
  rw [Array.toList_append, ← Array.length_toList, List.drop_length_add_append]
  rfl

theorem output_onStreamHead (value : Nat) : (state.onStreamHead value).output = state.output := by
  unfold onStreamHead
  dsimp only
  split
  · rfl
  · split
    · rfl
    · split
      · rfl
      · split <;> rfl

theorem output_onDictionaryId (value : Nat) :
    (state.onDictionaryId value).output = state.output := by
  unfold onDictionaryId
  split
  · exact output_install
  · rfl

/-- Before the blocks a bit changes the history at most ahead of the output. -/
theorem output_feed_of_early (early : state.phase.isEarly = true) (bit : Bool) :
    (state.feed bit).output = state.output := by
  unfold feed
  split
  · rename_i field missing place value phase
    rw [phase] at early
    dsimp only
    generalize (if bit then value + place else value) = read
    split
    · cases field with
      | streamHead => exact output_onStreamHead read
      | dictionaryId => exact output_onDictionaryId read
      | _ => contradiction
    · rfl
  all_goals
    rename_i phase
    exact absurd early (by rw [phase]; exact Bool.noConfusion)

/-- A bit never changes the output. -/
theorem output_feed (state : Inflater) (bit : Bool) : (state.feed bit).output = state.output := by
  by_cases asks : state.phase.demand = .bit
  · cases early : state.phase.isEarly with
    | false => exact (continues_feed early asks bit).output_eq
    | true => exact output_feed_of_early early bit
  · rw [feed_of_not_bit asks]

theorem consumed_onStreamHead (value : Nat) :
    (state.onStreamHead value).consumed = state.consumed := by
  unfold onStreamHead
  dsimp only
  split
  · rfl
  · split
    · rfl
    · split
      · rfl
      · split <;> rfl

theorem consumed_onDictionaryId (value : Nat) :
    (state.onDictionaryId value).consumed = state.consumed := by
  unfold onDictionaryId
  split <;> rfl

theorem consumed_feed_of_early (early : state.phase.isEarly = true) (bit : Bool) :
    (state.feed bit).consumed = state.consumed + 1 := by
  unfold feed
  split
  · rename_i field missing place value phase
    rw [phase] at early
    dsimp only
    generalize (if bit then value + place else value) = read
    split
    · cases field with
      | streamHead => exact consumed_onStreamHead read
      | dictionaryId => exact consumed_onDictionaryId read
      | _ => contradiction
    · rfl
  all_goals
    rename_i phase
    rw [phase] at early
    contradiction

/-- A bit that is asked for is counted. -/
theorem consumed_feed (asks : state.phase.demand = .bit) (bit : Bool) :
    (state.feed bit).consumed = state.consumed + 1 := by
  cases early : state.phase.isEarly with
  | false => exact (continues_feed early asks bit).consumed
  | true => exact consumed_feed_of_early early bit

/-! ## Room -/

/-- Room brings one byte, or the fault that a match reaches back too far. -/
theorem frame_emit (asks : state.phase.demand = .room) :
    state.emit.start = state.start ∧ state.emit.consumed = state.consumed ∧
      state.emit.phase.isEarly = false ∧
      ((∃ byte, state.emit.history = state.history.push byte) ∨
        (state.emit.history = state.history ∧ state.emit.phase = .failed .distanceTooFar)) := by
  unfold emit
  split
  · rename_i byte after _
    cases after with
    | stored left =>
      have onward := @continues_beginStored (state.write byte) left
      exact ⟨onward.start, onward.consumed, onward.late, Or.inl ⟨byte, onward.history⟩⟩
    | symbol codes => exact ⟨rfl, rfl, rfl, Or.inl ⟨byte, rfl⟩⟩
  · split
    · dsimp only
      split <;> exact ⟨rfl, rfl, rfl, Or.inl ⟨_, rfl⟩⟩
    · exact ⟨rfl, rfl, rfl, Or.inr ⟨rfl, rfl⟩⟩
  · rename_i notOwed notCopy
    cases phase : state.phase with
    | owed byte after => exact absurd phase (notOwed byte after)
    | copy codes distance length => exact absurd phase (notCopy codes distance length)
    | _ =>
      rw [phase] at asks
      contradiction

/-- A byte that goes into the history goes into the output. -/
theorem output_of_push {after : Inflater} {byte : UInt8} (start : after.start = state.start)
    (history : after.history = state.history.push byte) :
    after.output = state.output ++ [byte] := by
  rw [output, output, start, history, Array.toList_push]
  exact List.drop_append_of_le_length (Array.length_toList ▸ state.within)

/-- Without a fault, room brings one byte of output. -/
theorem output_emit (asks : state.phase.demand = .room)
    (clean : state.emit.phase ≠ .failed .distanceTooFar) :
    ∃ byte, state.emit.output = state.output ++ [byte] := by
  rcases frame_emit asks with ⟨start, _, _, ⟨byte, history⟩ | ⟨_, fault⟩⟩
  · exact ⟨byte, output_of_push start history⟩
  · exact absurd fault clean

end Inflater

end Deflate
end HeaderCodec
