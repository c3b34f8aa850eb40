import HeaderCodec.Proofs.Deflate.Expansion
import HeaderCodec.Proofs.Deflate.Format

namespace HeaderCodec
namespace Deflate

/-!
# The inflater reads the format

Whatever the format describes, the inflater has a course that takes its bits
and writes its bytes.  The lemmas go through the parts of the format from the
smallest on: numbers, code words, copies, symbols, descriptions of codes,
blocks.  Each of them starts at the state that is about to read the part and
ends at the state that the last bit of it leads to, so they are put together by
`Course.trans`.

What a part leaves of a state is `Passed`: the history has grown by what was
written, the bits taken have been counted, and nothing else that later parts
look at is different.
-/

namespace Inflater

/-- The state after some bits and bytes, as far as later parts of a stream look
at it. -/
structure Passed (before : Inflater) (bits : List Bool) (bytes : List UInt8)
    (after : Inflater) : Prop where
  history : after.history.toList = before.history.toList ++ bytes
  consumed : after.consumed = before.consumed + bits.length
  final : after.final = before.final

/-- Two states that differ in nothing that later parts look at. -/
theorem Passed.of_eq {first second third : Inflater} {bits : List Bool} {bytes : List UInt8}
    (after : second.Passed bits bytes third) (history : second.history = first.history)
    (consumed : second.consumed = first.consumed) (final : second.final = first.final) :
    first.Passed bits bytes third where
  history := history ▸ after.history
  consumed := consumed ▸ after.consumed
  final := after.final.trans final

theorem Passed.trans {first second third : Inflater} {bits more : List Bool}
    {bytes others : List UInt8} (before : first.Passed bits bytes second)
    (after : second.Passed more others third) :
    first.Passed (bits ++ more) (bytes ++ others) third where
  history := by rw [after.history, before.history, List.append_assoc]
  consumed := by rw [after.consumed, before.consumed, List.length_append, Nat.add_assoc]
  final := after.final.trans before.final

/-- One more bit before. -/
theorem Passed.cons {first second third : Inflater} {bit : Bool} {bits : List Bool}
    {bytes : List UInt8} (after : second.Passed bits bytes third)
    (history : second.history = first.history)
    (consumed : second.consumed = first.consumed + 1) (final : second.final = first.final) :
    first.Passed (bit :: bits) bytes third where
  history := history ▸ after.history
  consumed := by
    rw [after.consumed, consumed, List.length_cons]
    omega
  final := after.final.trans final

variable {state : Inflater}

/-! ## Numbers -/

theorem toNat_ofNat_of_lt {width value : Nat} (small : value < 2 ^ width) :
    Bits.toNat (Bits.ofNat width value) = value := by
  rw [Bits.toNat_ofNat, Nat.one_shiftLeft]
  exact Nat.mod_eq_of_lt small

/-- What comes later counts more. -/
theorem toNat_append (first second : List Bool) :
    Bits.toNat (first ++ second) = Bits.toNat first + 2 ^ first.length * Bits.toNat second := by
  induction first with
  | nil => simp [Bits.toNat]
  | cons bit rest inductionHypothesis =>
    rw [List.cons_append, Bits.toNat, inductionHypothesis, Bits.toNat, List.length_cons,
      Nat.pow_succ', Nat.mul_add, ← Nat.mul_assoc, Nat.add_assoc]

/-- Two numbers side by side are read as one. -/
theorem toNat_ofNat_append {width value : Nat} (small : value < 2 ^ width) (more : List Bool) :
    Bits.toNat (Bits.ofNat width value ++ more) = value + 2 ^ width * Bits.toNat more := by
  rw [toNat_append, toNat_ofNat_of_lt small, Bits.length_ofNat]

/-- A number behind some padding. -/
theorem toNat_behind (padding bits : List Bool) :
    Bits.toNat (padding ++ bits) >>> padding.length = Bits.toNat bits := by
  have small : Bits.toNat padding < 2 ^ padding.length :=
    Nat.one_shiftLeft _ ▸ Bits.toNat_lt padding
  rw [toNat_append, Nat.shiftRight_eq_div_pow, Nat.add_mul_div_left _ _ (Nat.two_pow_pos _),
    Nat.div_eq_of_lt small, Nat.zero_add]

/-- A number is acted on when its last bit has been taken. -/
theorem course_number {field : Field} {missing place value : Nat} {bits : List Bool}
    (size : bits.length = missing) (some : 0 < missing)
    (phase : state.phase = .number field missing place value) :
    ∃ after, state.Passed bits [] after ∧
      Course state bits [] (after.onNumber field (value + place * Bits.toNat bits)) := by
  induction bits generalizing state missing place value with
  | nil =>
    rw [← size] at some
    contradiction
  | cons bit rest inductionHypothesis =>
    have asks : state.phase.demand = .bit := by
      rw [phase]
      rfl
    have read : (if bit then value + place else value) + 2 * place * Bits.toNat rest =
        value + place * Bits.toNat (bit :: rest) := by
      have double : 2 * place * Bits.toNat rest = place * (2 * Bits.toNat rest) := by
        rw [Nat.mul_assoc, Nat.mul_left_comm]
      rw [Bits.toNat, Nat.mul_add, double]
      cases bit with
      | false => simp
      | true =>
        rw [if_pos rfl, Bool.toNat_true]
        omega
    cases rest with
    | nil =>
      have last : missing ≤ 1 := Nat.le_of_eq size.symm
      have done : state.feed bit = { state with consumed := state.consumed + 1 }.onNumber field
          (value + place * Bits.toNat [bit]) := by
        rw [← read, Bits.toNat, Nat.mul_zero, Nat.add_zero, feed, phase]
        exact if_pos last
      refine ⟨{ state with consumed := state.consumed + 1 }, ?_, ?_⟩
      · exact ⟨(List.append_nil _).symm, rfl, rfl⟩
      · apply Course.feed asks
        rw [done]
        exact .rest _
    | cons next others =>
      have more : ¬ missing ≤ 1 := by
        rw [List.length_cons, List.length_cons] at size
        omega
      have step : state.feed bit = { state with
          consumed := state.consumed + 1
          phase := .number field (missing - 1) (2 * place)
            (if bit then value + place else value) } := by
        rw [feed, phase]
        exact if_neg more
      have fewer : (next :: others).length = missing - 1 := by
        rw [← size]
        rfl
      rcases inductionHypothesis fewer (by omega)
        (congrArg Inflater.phase step) with ⟨after, passed, course⟩
      refine ⟨after, ?_, ?_⟩
      · rw [step] at passed
        exact passed.cons rfl rfl rfl
      · rw [read] at course
        exact .feed asks course

/-- A number that has been expected is read whole. -/
theorem course_expect (state : Inflater) (field : Field) {width : Nat} {bits : List Bool}
    (size : bits.length = width) (some : 0 < width) :
    ∃ after, state.Passed bits [] after ∧
      Course (state.expect field width) bits [] (after.onNumber field (Bits.toNat bits)) := by
  have expected : (state.expect field width).phase = .number field width 1 0 := rfl
  rcases course_number size some expected with ⟨after, passed, course⟩
  rw [Nat.zero_add, Nat.one_mul] at course
  exact ⟨after, passed.of_eq rfl rfl rfl, course⟩

/-- What exceeds the base of a class is read as a number, unless it takes no bits. -/
theorem course_excess (state : Inflater) (field : Field) {width excess : Nat}
    (small : excess < 2 ^ width) :
    ∃ after, state.Passed (Bits.ofNat width excess) [] after ∧
      Course (if width = 0 then state.onNumber field 0 else state.expect field width)
        (Bits.ofNat width excess) [] (after.onNumber field excess) := by
  cases width with
  | zero =>
    have none : excess = 0 := Nat.lt_one_iff.1 small
    rw [none, Bits.ofNat]
    exact ⟨state, ⟨(List.append_nil _).symm, rfl, rfl⟩, .rest _⟩
  | succ width =>
    have read := course_expect state field (Bits.length_ofNat (width + 1) excess)
      (Nat.succ_pos width)
    rwa [toNat_ofNat_of_lt small] at read

/-! ## Code words -/

/-- The phases that go down a code tree, one for each place in it, and act on
the symbol at a leaf. -/
structure Descends (phase : CodeTree -> Phase) (act : Inflater -> Nat -> Inflater) : Prop where
  asks : ∀ tree, (phase tree).demand = .bit
  atLeaf : ∀ {state : Inflater} {tree : CodeTree} {bit : Bool} {symbol : Nat},
    state.phase = phase tree -> tree.branch bit = .leaf symbol ->
      state.feed bit = act { state with consumed := state.consumed + 1 } symbol
  atNode : ∀ {state : Inflater} {tree zero one : CodeTree} {bit : Bool},
    state.phase = phase tree -> tree.branch bit = .node zero one ->
      state.feed bit =
        { state with consumed := state.consumed + 1, phase := phase (.node zero one) }

theorem descends_lengthSymbol (table : LengthTable) :
    Descends (.lengthSymbol table) (·.onLengthSymbol table ·) where
  asks := fun _ => rfl
  atLeaf := fun phase branch => by
    rw [feed, phase]
    simp only [branch]
  atNode := fun phase branch => by
    rw [feed, phase]
    simp only [branch]

theorem descends_symbol (codes : Codes) : Descends (.symbol codes) (·.onSymbol codes ·) where
  asks := fun _ => rfl
  atLeaf := fun phase branch => by
    rw [feed, phase]
    simp only [branch]
  atNode := fun phase branch => by
    rw [feed, phase]
    simp only [branch]

theorem descends_distanceSymbol (codes : Codes) (length : Nat) :
    Descends (.distanceSymbol codes length) (·.onDistanceSymbol codes length ·) where
  asks := fun _ => rfl
  atLeaf := fun phase branch => by
    rw [feed, phase]
    simp only [branch]
  atNode := fun phase branch => by
    rw [feed, phase]
    simp only [branch]

theorem follow_absent (word : List Bool) : CodeTree.absent.follow word = .absent := by
  induction word with
  | nil => rfl
  | cons bit rest inductionHypothesis => exact inductionHypothesis

/-- A code word leads to its symbol. -/
theorem Descends.course_word {phase : CodeTree -> Phase} {act : Inflater -> Nat -> Inflater}
    (descends : Descends phase act) (state : Inflater) {tree : CodeTree} {word : List Bool}
    {symbol : Nat} (path : tree.follow word = .leaf symbol) (some : word ≠ [])
    (here : state.phase = phase tree) :
    ∃ after, state.Passed word [] after ∧ Course state word [] (act after symbol) := by
  induction word generalizing state tree with
  | nil => contradiction
  | cons bit rest inductionHypothesis =>
    have asks : state.phase.demand = .bit := here ▸ descends.asks tree
    rw [CodeTree.follow] at path
    cases rest with
    | nil =>
      have leaf := descends.atLeaf here path
      refine ⟨{ state with consumed := state.consumed + 1 }, ?_, ?_⟩
      · exact ⟨(List.append_nil _).symm, rfl, rfl⟩
      · apply Course.feed asks
        rw [leaf]
        exact .rest _
    | cons next others =>
      cases branch : tree.branch bit with
      | absent =>
        rw [branch, follow_absent] at path
        contradiction
      | leaf found =>
        rw [branch] at path
        have nowhere : CodeTree.absent = .leaf symbol := (follow_absent others).symm.trans path
        contradiction
      | node zero one =>
        have step := descends.atNode here branch
        rw [branch] at path
        rcases inductionHypothesis _ path (List.cons_ne_nil _ _)
          (congrArg Inflater.phase step) with ⟨after, passed, course⟩
        refine ⟨after, ?_, .feed asks course⟩
        rw [step] at passed
        exact passed.cons rfl rfl rfl

/-! ## Bytes of output -/

theorem passed_write (byte : UInt8) : state.Passed [] [byte] (state.write byte) where
  history := Array.toList_push
  consumed := rfl
  final := rfl

/-- A byte that is owed has been written. -/
theorem course_owed (state : Inflater) (byte : UInt8) (codes : Codes) :
    Course { state with phase := .owed byte (.symbol codes) } [] [byte]
      ((state.write byte).beginSymbol codes) := by
  refine .emit rfl ?_ (.rest _)
  exact @output_of_push { state with phase := .owed byte (.symbol codes) } _ _ rfl rfl

theorem course_owed_stored (state : Inflater) (byte : UInt8) (left : Nat) :
    Course { state with phase := .owed byte (.stored left) } [] [byte]
      ((state.write byte).beginStored left) := by
  refine .emit rfl ?_ ?_
  · have onward := @continues_beginStored (state.write byte) left
    exact @output_of_push { state with phase := .owed byte (.stored left) } _ _ onward.start
      onward.history
  · exact .rest _

/-- The bytes of a stored block. -/
theorem course_stored (state : Inflater) (bytes : List UInt8) :
    ∃ after, state.Passed (Bits.ofBytes bytes) bytes after ∧
      Course (state.beginStored bytes.length) (Bits.ofBytes bytes) bytes after.endBlock := by
  induction bytes generalizing state with
  | nil =>
    exact ⟨state, ⟨(List.append_nil _).symm, rfl, rfl⟩, .rest _⟩
  | cons byte rest inductionHypothesis =>
    have back : UInt8.ofNat (Bits.toNat (Bits.ofNat 8 byte.toNat)) = byte := by
      rw [toNat_ofNat_of_lt byte.toNat_lt, UInt8.ofNat_toNat]
    rcases course_expect state (.storedByte rest.length)
      (Bits.length_ofNat 8 byte.toNat) (by decide) with ⟨read, passedRead, reading⟩
    rw [onNumber, back] at reading
    rcases inductionHypothesis (read.write byte) with ⟨after, passedLater, later⟩
    have whole := (passedRead.trans (passed_write byte)).trans passedLater
    have course := (reading.trans (course_owed_stored read byte rest.length)).trans later
    rw [List.append_nil, ← Bits.ofBytes_cons, List.nil_append, List.singleton_append]
      at whole course
    exact ⟨after, whole, course⟩

/-- Room for the next byte of a copy brings the byte that stands one distance
before it. -/
theorem emit_copy {codes : Codes} {distance length : Nat} {byte : UInt8}
    (phase : state.phase = .copy codes distance length)
    (reaches : 0 < distance ∧ distance ≤ state.history.size)
    (there : state.history[state.history.size - distance]? = some byte) :
    state.emit =
      if length ≤ 1 then (state.write byte).beginSymbol codes
      else (state.write byte).beginCopy codes distance (length - 1) := by
  rw [Array.getElem?_eq_getElem (Nat.sub_lt_self reaches.1 reaches.2), Option.some.injEq] at there
  rw [emit, phase]
  simp only [dif_pos reaches, there]

theorem course_copy {codes : Codes} {distance : Nat} {piece : List UInt8}
    (isCopy : Format.IsCopy state.history.toList distance piece) (some : piece ≠ []) :
    ∃ after, state.Passed [] piece after ∧
      Course (state.beginCopy codes distance piece.length) [] piece (after.beginSymbol codes) := by
  induction piece generalizing state with
  | nil => contradiction
  | cons byte rest inductionHypothesis =>
    have there := isCopy.first_eq
    rw [Array.length_toList, Array.getElem?_toList] at there
    have copying : (state.beginCopy codes distance (byte :: rest).length).phase =
        .copy codes distance (byte :: rest).length := rfl
    have step := emit_copy copying ⟨isCopy.positive, Array.length_toList ▸ isCopy.within⟩ there
    have writes : (state.beginCopy codes distance (byte :: rest).length).emit.output =
        (state.beginCopy codes distance (byte :: rest).length).output ++ [byte] := by
      apply output_of_push
      · rw [step]
        split <;> rfl
      · rw [step]
        split <;> rfl
    cases rest with
    | nil =>
      refine ⟨_, passed_write byte, .emit rfl writes ?_⟩
      rw [step]
      exact .rest _
    | cons next others =>
      have more : ¬ (byte :: next :: others).length ≤ 1 := by
        rw [List.length_cons, List.length_cons]
        omega
      have further : Format.IsCopy (state.write byte).history.toList distance (next :: others) := by
        rw [write, Array.toList_push]
        exact isCopy.tail
      rcases inductionHypothesis further (List.cons_ne_nil _ _) with ⟨after, passedLater, later⟩
      refine ⟨after, (passed_write byte).trans passedLater, .emit rfl writes ?_⟩
      rw [step, if_neg more]
      exact later

/-! ## Symbols -/

/-- The trees of a block's codes have the code words that the lengths define. -/
structure Agrees (codes : Codes) (lengths : Format.CodeLengths) : Prop where
  literals : ∀ {symbol : Nat} {word : List Bool},
    CanonicalCode.IsCodeWord lengths.literals symbol word ->
      codes.literals.follow word = .leaf symbol
  distances : ∀ {symbol : Nat} {word : List Bool},
    CanonicalCode.IsCodeWord lengths.distances symbol word ->
      codes.distances.follow word = .leaf symbol

theorem ofNat_literal (byte : UInt8) : Symbol.ofNat byte.toNat = .literal byte := by
  rw [Symbol.ofNat, if_pos byte.toNat_lt, UInt8.ofNat_toNat]

theorem ofNat_length {number base extraBits : Nat}
    (inClass : lengthClasses[number]? = some (base, extraBits)) :
    Symbol.ofNat (Format.firstLength + number) = .length base extraBits := by
  have notLiteral : ¬ Format.firstLength + number < 256 := by
    rw [Format.firstLength]
    omega
  have notEnd : ¬ Format.firstLength + number = 256 := by
    rw [Format.firstLength]
    omega
  rw [Symbol.ofNat, if_neg notLiteral, if_neg notEnd, Format.firstLength, Nat.add_sub_cancel_left,
    inClass]

variable {codes : Codes} {lengths : Format.CodeLengths}

theorem course_literalWord (state : Inflater) {symbol : Nat} {word : List Bool}
    (agrees : Agrees codes lengths)
    (isWord : CanonicalCode.IsCodeWord lengths.literals symbol word) :
    ∃ after, state.Passed word [] after ∧
      Course (state.beginSymbol codes) word [] (after.onSymbol codes symbol) := by
  rcases (descends_symbol codes).course_word
    (state.beginSymbol codes) (agrees.literals isWord) isWord.ne_nil rfl with
      ⟨after, passed, course⟩
  exact ⟨after, passed.of_eq rfl rfl rfl, course⟩

theorem onSymbol_length (state : Inflater) {number base extraBits : Nat}
    (inClass : lengthClasses[number]? = some (base, extraBits)) :
    state.onSymbol codes (Format.firstLength + number) =
      if extraBits = 0 then state.onNumber (.lengthExtra codes base) 0
      else state.expect (.lengthExtra codes base) extraBits := by
  rw [onSymbol, ofNat_length inClass]
  cases extraBits with
  | zero => rfl
  | succ => rfl

theorem onDistanceSymbol_distance (state : Inflater) {length number base extraBits : Nat}
    (inClass : distanceClasses[number]? = some (base, extraBits)) :
    state.onDistanceSymbol codes length number =
      if extraBits = 0 then state.onNumber (.distanceExtra codes length base) 0
      else state.expect (.distanceExtra codes length base) extraBits := by
  rw [onDistanceSymbol, inClass]
  cases extraBits with
  | zero => rfl
  | succ => rfl

/-- A length: a symbol and what exceeds the base of its class. -/
theorem course_length (state : Inflater) {value : Nat} {bits : List Bool}
    (agrees : Agrees codes lengths)
    (isSaid : Format.Says lengths.literals Format.firstLength lengthClasses value bits) :
    ∃ after, state.Passed bits [] after ∧
      Course (state.beginSymbol codes) bits [] (after.beginDistance codes value) := by
  cases isSaid with
  | @of number base extraBits excess word inClass small isWord =>
    rcases course_literalWord state agrees isWord with ⟨middle, passed, course⟩
    rcases course_excess middle (.lengthExtra codes base) small with ⟨after, passedExtra, extra⟩
    rw [onSymbol_length middle inClass] at course
    exact ⟨after, passed.trans passedExtra, course.trans extra⟩

/-- A distance is read in the same way, in the other code. -/
theorem course_distance (state : Inflater) {value length : Nat} {bits : List Bool}
    (agrees : Agrees codes lengths)
    (isSaid : Format.Says lengths.distances 0 distanceClasses value bits) :
    ∃ after, state.Passed bits [] after ∧
      Course (state.beginDistance codes length) bits [] (after.beginCopy codes value length) := by
  cases isSaid with
  | @of number base extraBits excess word inClass small isWord =>
    rw [Nat.zero_add] at isWord
    rcases (descends_distanceSymbol codes length).course_word
      (state.beginDistance codes length) (agrees.distances isWord) isWord.ne_nil rfl with
        ⟨middle, passedHere, course⟩
    have passed : state.Passed word [] middle := passedHere.of_eq rfl rfl rfl
    rcases course_excess middle (.distanceExtra codes length base) small with
        ⟨after, passedExtra, extra⟩
    rw [onDistanceSymbol_distance middle inClass] at course
    exact ⟨after, passed.trans passedExtra, course.trans extra⟩

/-- No length is zero. -/
theorem Says.positive {firstSymbol value : Nat} {widths : List Nat} {bits : List Bool}
    (isSaid : Format.Says widths firstSymbol lengthClasses value bits) : 0 < value := by
  have positive : ∀ used ∈ lengthClasses, 0 < used.1 := by decide
  cases isSaid with
  | of inClass => exact Nat.add_pos_left (positive _ (List.mem_of_getElem? inClass)) _

theorem course_symbols {history piece : List UInt8} {bits : List Bool}
    (agrees : Agrees codes lengths) (symbols : Format.Symbols lengths history bits piece)
    (here : state.history.toList = history) :
    ∃ after, state.Passed bits piece after ∧
      Course (state.beginSymbol codes) bits piece after.endBlock := by
  induction symbols generalizing state with
  | ends isWord => exact course_literalWord state agrees isWord
  | @literal history piece byte word bits isWord later inductionHypothesis =>
    rcases course_literalWord state agrees isWord with ⟨read, passedRead, reading⟩
    rw [onSymbol, ofNat_literal] at reading
    have passed := passedRead.trans (passed_write byte)
    rcases inductionHypothesis (here ▸ passed.history) with ⟨after, passedLater, laterCourse⟩
    have whole := passed.trans passedLater
    have course := (reading.trans (course_owed read byte codes)).trans laterCourse
    rw [List.append_nil, List.nil_append, List.singleton_append] at whole course
    exact ⟨after, whole, course⟩
  | @copy history copied piece distance lengthBits distanceBits bits saysLength saysDistance isCopy
      later inductionHypothesis =>
    rcases course_length state agrees saysLength with ⟨sized, passedLength, lengthCourse⟩
    rcases course_distance sized agrees saysDistance with
        ⟨placed, passedDistance, distanceCourse⟩
    have passedBoth := passedLength.trans passedDistance
    have there : Format.IsCopy placed.history.toList distance copied := by
      rw [passedBoth.history, here, List.append_nil, List.append_nil]
      exact isCopy
    have some : copied ≠ [] := List.length_pos_iff.1 (Says.positive saysLength)
    rcases course_copy there some with ⟨wrote, passedWrote, writing⟩
    have passed := passedBoth.trans passedWrote
    rcases inductionHypothesis (here ▸ passed.history) with ⟨after, passedLater, laterCourse⟩
    have whole := passed.trans passedLater
    have course := ((lengthCourse.trans distanceCourse).trans writing).trans laterCourse
    rw [List.append_nil, List.append_nil, List.nil_append] at whole course
    exact ⟨after, whole, course⟩

end Inflater

end Deflate
end HeaderCodec
