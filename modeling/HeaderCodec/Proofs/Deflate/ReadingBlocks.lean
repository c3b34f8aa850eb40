import HeaderCodec.Proofs.Deflate.Reading

namespace HeaderCodec
namespace Deflate

/-!
# The inflater reads blocks and streams

The upper half of the format: the descriptions of codes, the blocks, and the
stream around them.  `course_blocks` is what a peer needs that never sees the
end of a stream, and `course_closed` is about whole streams.  Neither asks for
room or for input; that is dealt out by whoever runs the inflater, and
`leads_run` says that it makes no difference.
-/

namespace Inflater

variable {state : Inflater}

/-! ## Code lengths -/

theorem course_widths (state : Inflater) (sizes : TableSizes) {widths : List Nat} (done : List Nat)
    (narrow : ∀ width ∈ widths, width < 2 ^ 3) (some : widths ≠ [])
    (count : done.length + widths.length = sizes.widths) :
    ∃ after, state.Passed (widths.flatMap (Bits.ofNat 3)) [] after ∧
      Course (state.expect (.width sizes done) 3) (widths.flatMap (Bits.ofNat 3)) []
        (after.onWidth sizes (widths.reverse ++ done)) := by
  induction widths generalizing state done with
  | nil => contradiction
  | cons width rest inductionHypothesis =>
    rcases course_expect state (.width sizes done)
      (Bits.length_ofNat 3 width) (by decide) with ⟨middle, passed, course⟩
    rw [onNumber, toNat_ofNat_of_lt (narrow width List.mem_cons_self)] at course
    rw [List.flatMap_cons, List.reverse_cons, List.append_assoc, List.singleton_append]
    cases rest with
    | nil =>
      rw [List.flatMap_nil, List.append_nil, List.reverse_nil, List.nil_append]
      exact ⟨middle, passed, course⟩
    | cons next others =>
      have more : (width :: done).length < sizes.widths := by
        simp only [List.length_cons] at count ⊢
        omega
      rw [onWidth, if_pos more] at course
      have fewer : (width :: done).length + (next :: others).length = sizes.widths := by
        simp only [List.length_cons] at count ⊢
        omega
      rcases inductionHypothesis middle (width :: done)
        (fun inner member => narrow inner (List.mem_cons_of_mem width member))
        (List.cons_ne_nil _ _) fewer with ⟨after, passedLater, later⟩
      exact ⟨after, passed.trans passedLater, course.trans later⟩

/-- A length that is described on its own. -/
theorem course_lengthSymbol (state : Inflater) {table : LengthTable} {length : Nat}
    {word : List Bool} (path : table.code.follow word = .leaf length) (some : word ≠ []) (short : length < 16)
    (fits : table.lengths.length < table.sizes.literals + table.sizes.distances) :
    ∃ after, state.Passed word [] after ∧
      Course (state.continueLengths table) word []
        (after.continueLengths { table with lengths := length :: table.lengths }) := by
  rcases (descends_lengthSymbol table).course_word
    { state with phase := .lengthSymbol table table.code } path some rfl with
      ⟨after, passed, course⟩
  rw [onLengthSymbol, if_pos short] at course
  rw [continueLengths, if_pos fits]
  exact ⟨after, passed.of_eq rfl rfl rfl, course⟩

/-- What the inflater does at a symbol that stands for a length several times. -/
theorem onLengthSymbol_repeats {table : LengthTable} {symbol length least width : Nat}
    (repeats : Format.Repeats table.lengths.head? symbol length least width) (state : Inflater) :
    state.onLengthSymbol table symbol =
      state.expect (.repetition table (some length) least) width := by
  generalize latest : table.lengths.head? = last at repeats
  cases repeats with
  | last =>
    rw [onLengthSymbol, latest]
    rfl
  | zero => rfl
  | zeroOften => rfl

theorem Repeats.positive {last : Option Nat} {symbol length least width : Nat}
    (repeats : Format.Repeats last symbol length least width) : 0 < least ∧ 0 < width := by
  cases repeats <;> decide

theorem course_repetition (state : Inflater) {table : LengthTable}
    {symbol length least width excess : Nat} {word : List Bool}
    (repeats : Format.Repeats table.lengths.head? symbol length least width)
    (path : table.code.follow word = .leaf symbol) (some : word ≠ [])
    (small : excess < 2 ^ width)
    (fits : table.lengths.length + (least + excess) ≤
      table.sizes.literals + table.sizes.distances) :
    ∃ after, state.Passed (word ++ Bits.ofNat width excess) [] after ∧
      Course (state.continueLengths table) (word ++ Bits.ofNat width excess) []
        (after.continueLengths
          { table with lengths := List.replicate (least + excess) length ++ table.lengths }) := by
  rcases Repeats.positive repeats with ⟨often, wide⟩
  rcases (descends_lengthSymbol table).course_word
    { state with phase := .lengthSymbol table table.code } path some rfl with
      ⟨named, passedHere, naming⟩
  have passedWord : state.Passed word [] named := passedHere.of_eq rfl rfl rfl
  rw [onLengthSymbol_repeats repeats] at naming
  rcases course_expect named (.repetition table (.some length) least)
    (Bits.length_ofNat width excess) wide with ⟨after, passedExtra, extra⟩
  have notTooMany : ¬ table.sizes.literals + table.sizes.distances <
      (List.replicate (least + excess) length ++ table.lengths).length := by
    rw [List.length_append, List.length_replicate]
    omega
  rw [onNumber, toNat_ofNat_of_lt small, onRepetition] at extra
  simp only [if_neg notTooMany] at extra
  refine ⟨after, passedWord.trans passedExtra, ?_⟩
  rw [continueLengths, if_pos (by omega)]
  exact naming.trans extra

/-- The lengths of all code words are collected as they are described. -/
theorem course_lengths (state : Inflater) {widths lengths : List Nat} {last : Option Nat}
    {bits : List Bool} (written : Format.Lengths widths last bits lengths) (table : LengthTable)
    (agrees : ∀ {symbol : Nat} {word : List Bool},
      CanonicalCode.IsCodeWord widths symbol word -> table.code.follow word = .leaf symbol)
    (latest : table.lengths.head? = last)
    (count : table.lengths.length + lengths.length =
      table.sizes.literals + table.sizes.distances) :
    ∃ after, state.Passed bits [] after ∧
      Course (state.continueLengths table) bits []
        (after.beginCodes table.sizes (table.lengths.reverse ++ lengths)) := by
  induction written generalizing state table with
  | none =>
    have enough : ¬ table.lengths.length < table.sizes.literals + table.sizes.distances := by
      rw [List.length_nil] at count
      omega
    refine ⟨state, ⟨(List.append_nil _).symm, rfl, rfl⟩, ?_⟩
    rw [continueLengths, if_neg enough, List.append_nil]
    exact .rest _
  | @once last length word bits lengths short isWord later inductionHypothesis =>
    rw [List.length_cons] at count
    have total : (length :: table.lengths).length + lengths.length =
        table.sizes.literals + table.sizes.distances := by
      rw [List.length_cons]
      omega
    rcases course_lengthSymbol state (agrees isWord) isWord.ne_nil short (by omega) with
        ⟨middle, passed, course⟩
    rcases inductionHypothesis middle { table with lengths := length :: table.lengths } agrees rfl
      total with ⟨after, passedLater, laterCourse⟩
    refine ⟨after, passed.trans passedLater, ?_⟩
    rw [List.reverse_cons, List.append_assoc] at laterCourse
    exact course.trans laterCourse
  | @often last symbol length least width excess word bits lengths repeats isWord small later
      inductionHypothesis =>
    rw [List.length_append, List.length_replicate] at count
    have total : (List.replicate (least + excess) length ++ table.lengths).length +
        lengths.length = table.sizes.literals + table.sizes.distances := by
      rw [List.length_append, List.length_replicate]
      omega
    have some := (Repeats.positive repeats).1
    have newest : (List.replicate (least + excess) length ++ table.lengths).head? =
        .some length := by
      rcases Nat.exists_eq_add_one_of_ne_zero (Nat.pos_iff_ne_zero.1 some) with ⟨less, more⟩
      rw [more, Nat.add_right_comm]
      rfl
    rcases course_repetition state (latest ▸ repeats)
      (agrees isWord) isWord.ne_nil small (by omega) with ⟨middle, passed, course⟩
    rcases inductionHypothesis middle
      { table with lengths := List.replicate (least + excess) length ++ table.lengths } agrees
      newest total with ⟨after, passedLater, laterCourse⟩
    refine ⟨after, passed.trans passedLater, ?_⟩
    rw [List.reverse_append, List.reverse_replicate, List.append_assoc] at laterCourse
    exact course.trans laterCourse

/-! ## Descriptions of codes -/

theorem share_le_of_isSingle {lengths : List Nat} (single : LengthSet.IsSingle lengths) :
    LengthSet.share lengths ≤ 1 <<< CodeTree.maxLength := by
  rw [LengthSet.IsSingle] at single
  rw [LengthSet.share, single]
  decide

theorem share_le_of_isEmpty {lengths : List Nat} (empty : LengthSet.IsEmpty lengths) :
    LengthSet.share lengths ≤ 1 <<< CodeTree.maxLength := by
  rw [LengthSet.IsEmpty] at empty
  rw [LengthSet.share, empty]
  decide

/-- The trees of the code words that some lengths define. -/
def treesOf (lengths : Format.CodeLengths) : Codes where
  literals := CodeTree.ofLengths lengths.literals
  distances := CodeTree.ofLengths lengths.distances

theorem agrees_of_share {lengths : Format.CodeLengths}
    (literals : LengthSet.share lengths.literals ≤ 1 <<< CodeTree.maxLength)
    (distances : LengthSet.share lengths.distances ≤ 1 <<< CodeTree.maxLength) :
    Agrees (treesOf lengths) lengths where
  literals := CodeTree.follow_ofLengths literals
  distances := CodeTree.follow_ofLengths distances

theorem agrees_fixed : Agrees Codes.fixed .fixed :=
  @agrees_of_share .fixed (by decide +kernel) (by decide +kernel)

theorem agrees_described (description : Format.Description) :
    Agrees (treesOf description.codes) description.codes := by
  apply agrees_of_share
  · rcases description.literalCode with complete | single
    · exact Nat.le_of_eq complete
    · exact share_le_of_isSingle single
  · rcases description.distanceCode with complete | single | empty
    · exact Nat.le_of_eq complete
    · exact share_le_of_isSingle single
    · exact share_le_of_isEmpty empty

/-- The numbers of code words as the inflater keeps them. -/
def sizesOf (description : Format.Description) : TableSizes where
  literals := description.codes.literals.length
  distances := description.codes.distances.length
  widths := description.widths.length

/-- All checks of a description succeed. -/
theorem beginCodes_described (description : Format.Description) :
    state.beginCodes (sizesOf description)
        (description.codes.literals ++ description.codes.distances) =
      state.beginSymbol (treesOf description.codes) := by
  have ends : ((description.codes.literals ++ description.codes.distances)[256]?).getD 0 ≠ 0 := by
    have inLiterals : 256 < description.codes.literals.length := description.literalCount.1
    have used := description.ends
    rw [Format.endOfBlock, List.getElem?_eq_getElem inLiterals] at used
    rw [List.getElem?_append_left inLiterals, List.getElem?_eq_getElem inLiterals]
    intro zero
    exact used (congrArg some zero)
  have literals : LengthSet.IsComplete description.codes.literals ∨
      LengthSet.IsEmpty description.codes.literals ∨
        LengthSet.IsSingle description.codes.literals := by
    rcases description.literalCode with complete | single
    · exact Or.inl complete
    · exact Or.inr (Or.inr single)
  have distances : LengthSet.IsComplete description.codes.distances ∨
      LengthSet.IsEmpty description.codes.distances ∨
        LengthSet.IsSingle description.codes.distances := by
    rcases description.distanceCode with complete | single | empty
    · exact Or.inl complete
    · exact Or.inr (Or.inr single)
    · exact Or.inr (Or.inl empty)
  rw [beginCodes, if_neg ends, sizesOf, List.take_left, List.drop_left,
    LengthSet.symbolCode?, LengthSet.symbolCode?, if_pos literals, if_pos distances]
  rfl

theorem onTableSizes_described (description : Format.Description) :
    state.onTableSizes ((description.codes.literals.length - 257) +
        2 ^ 5 * ((description.codes.distances.length - 1) +
          2 ^ 5 * (description.widths.length - 4))) =
      state.expect (.width (sizesOf description) []) 3 := by
  rcases description.literalCount with ⟨_, literals⟩
  rcases description.distanceCount with ⟨_, distances⟩
  rcases description.widthCount with ⟨_, widths⟩
  generalize parts : (description.codes.literals.length - 257) +
    2 ^ 5 * ((description.codes.distances.length - 1) +
      2 ^ 5 * (description.widths.length - 4)) = value
  have literalPart : value % 32 + 257 = description.codes.literals.length := by omega
  have distancePart : value / 32 % 32 + 1 = description.codes.distances.length := by omega
  have widthPart : value / 1024 + 4 = description.widths.length := by omega
  have notTooMany : ¬ (286 < description.codes.literals.length ∨
      30 < description.codes.distances.length) := by omega
  simp only [onTableSizes, literalPart, distancePart, widthPart, if_neg notTooMany, sizesOf]

theorem onWidth_described (description : Format.Description) :
    state.onWidth (sizesOf description) description.widths.reverse =
      state.continueLengths
        { sizes := sizesOf description
          code := CodeTree.ofLengths (lengthSymbolWidths description.widths)
          lengths := [] } := by
  have all : ¬ description.widths.reverse.length < (sizesOf description).widths := by
    rw [List.length_reverse]
    exact Nat.lt_irrefl _
  rw [onWidth, if_neg all, List.reverse_reverse, LengthSet.lengthCode?,
    if_pos description.lengthCode]

theorem course_description (state : Inflater) (description : Format.Description) :
    ∃ after, state.Passed description.bits [] after ∧
      Course (state.expect .tableSizes 14) description.bits []
        (after.beginSymbol (treesOf description.codes)) := by
  rcases description.literalCount with ⟨_, literals⟩
  rcases description.distanceCount with ⟨_, distances⟩
  rcases description.widthCount with ⟨least, widths⟩
  have some : description.widths ≠ [] := List.length_pos_iff.1 (by omega)
  have size : (Bits.ofNat 5 (description.codes.literals.length - 257) ++
      Bits.ofNat 5 (description.codes.distances.length - 1) ++
        Bits.ofNat 4 (description.widths.length - 4)).length = 14 := by
    simp only [List.length_append, Bits.length_ofNat]
  rcases course_expect state .tableSizes size (by decide) with ⟨sized, passedSizes, sizing⟩
  rw [List.append_assoc, toNat_ofNat_append (by omega), toNat_ofNat_append (by omega),
    toNat_ofNat_of_lt (by omega), ← List.append_assoc, onNumber,
    onTableSizes_described] at sizing
  rcases course_widths sized (sizesOf description) [] description.narrow some (Nat.zero_add _) with
      ⟨widened, passedWidths, widening⟩
  rw [List.append_nil, onWidth_described] at widening
  have passed := passedSizes.trans passedWidths
  rcases course_lengths widened description.written
    { sizes := sizesOf description
      code := CodeTree.ofLengths (lengthSymbolWidths description.widths)
      lengths := [] }
    (CodeTree.follow_ofLengths (Nat.le_of_eq description.lengthCode)) rfl
    (by rw [List.length_nil, Nat.zero_add, List.length_append]; rfl) with
      ⟨after, passedLengths, lengthening⟩
  rw [List.reverse_nil, List.nil_append, beginCodes_described] at lengthening
  exact ⟨after, passed.trans passedLengths, (sizing.trans widening).trans lengthening⟩

/-! ## Blocks -/

/-- The last-block flag and the type of a block are one number. -/
theorem course_blockHead (state : Inflater) (isLast : Bool) (kind : Nat) (small : kind < 2 ^ 2) :
    ∃ after, state.Passed ([isLast] ++ Bits.ofNat 2 kind) [] after ∧
      Course (state.expect .blockHead 3) ([isLast] ++ Bits.ofNat 2 kind) []
        (after.onBlockHead (isLast.toNat + 2 * kind)) := by
  have size : ([isLast] ++ Bits.ofNat 2 kind).length = 3 := rfl
  rcases course_expect state .blockHead size (by decide) with ⟨after, passed, course⟩
  rw [List.singleton_append, Bits.toNat, toNat_ofNat_of_lt small] at course
  exact ⟨after, passed, course⟩

/-- The flag of a block is kept until the block ends. -/
theorem Passed.flagged {before after last : Inflater} {bits more : List Bool}
    {bytes : List UInt8} {isLast : Bool} (head : before.Passed bits [] after)
    (body : { after with final := isLast }.Passed more bytes last) :
    { before with final := isLast }.Passed (bits ++ more) bytes last := by
  have flag : { before with final := isLast }.Passed bits [] { after with final := isLast } :=
    ⟨head.history, head.consumed, rfl⟩
  exact flag.trans body

/-- The length of a stored block comes twice, the second time as its complement. -/
theorem course_storedLengths (state : Inflater) (padding : List Bool) {length : Nat}
    (short : length < 2 ^ 16) :
    ∃ after, state.Passed
        (padding ++ Bits.ofNat 16 length ++ Bits.ofNat 16 (2 ^ 16 - 1 - length)) [] after ∧
      Course (state.expect (.storedLengths padding.length) (padding.length + 32))
        (padding ++ Bits.ofNat 16 length ++ Bits.ofNat 16 (2 ^ 16 - 1 - length)) []
        (after.beginStored length) := by
  have size : (padding ++ Bits.ofNat 16 length ++
      Bits.ofNat 16 (2 ^ 16 - 1 - length)).length = padding.length + 32 := by
    simp only [List.length_append, Bits.length_ofNat]
  rcases course_expect state (.storedLengths padding.length) size (Nat.succ_pos _) with
      ⟨after, passed, course⟩
  have complement : 2 ^ 16 - 1 - length < 2 ^ 16 := by omega
  have number : Bits.toNat (padding ++ Bits.ofNat 16 length ++
      Bits.ofNat 16 (2 ^ 16 - 1 - length)) >>> padding.length =
      length + 2 ^ 16 * (2 ^ 16 - 1 - length) := by
    rw [List.append_assoc, toNat_behind, toNat_ofNat_append short, toNat_ofNat_of_lt complement]
  have first : (length + 2 ^ 16 * (2 ^ 16 - 1 - length)) % 65536 = length := by omega
  have second : (length + 2 ^ 16 * (2 ^ 16 - 1 - length)) / 65536 = 2 ^ 16 - 1 - length := by
    omega
  have consistent : length + (2 ^ 16 - 1 - length) = 65535 := by omega
  rw [onNumber, number, onStoredLengths] at course
  simp only [first, second, if_pos consistent] at course
  exact ⟨after, passed, course⟩

theorem course_block {isLast : Bool} {position : Nat} {history piece : List UInt8}
    {bits : List Bool} (block : Format.Block isLast position history bits piece)
    (here : state.history.toList = history) (place : state.consumed = position) :
    ∃ after, { state with final := isLast }.Passed bits piece after ∧
      Course (state.expect .blockHead 3) bits piece after.endBlock := by
  cases block with
  | @stored padding _ aligned short =>
    rcases course_blockHead state isLast 0 (by decide) with ⟨typed, head, typing⟩
    have kind : typed.onBlockHead (isLast.toNat + 2 * 0) =
        { typed with final := isLast }.expect (.storedLengths padding.length)
          (padding.length + 32) := by
      have position : Bits.padding typed.consumed = padding.length := by
        rw [head.consumed, place, aligned]
        rfl
      rw [onBlockHead, position]
      cases isLast <;> rfl
    rw [kind] at typing
    rcases course_storedLengths { typed with final := isLast } padding short with
        ⟨sized, sizes, sizing⟩
    rcases course_stored sized piece with ⟨after, stored, storing⟩
    exact ⟨after, head.flagged (sizes.trans stored), typing.trans (sizing.trans storing)⟩
  | fixed symbols =>
    rcases course_blockHead state isLast 1 (by decide) with ⟨typed, head, typing⟩
    have kind : typed.onBlockHead (isLast.toNat + 2 * 1) =
        { typed with final := isLast }.beginSymbol .fixed := by
      cases isLast <;> rfl
    have there : { typed with final := isLast }.history.toList = history := by
      rw [head.history, here, List.append_nil]
    rw [kind] at typing
    rcases course_symbols agrees_fixed symbols there with ⟨after, body, reading⟩
    exact ⟨after, head.flagged body, typing.trans reading⟩
  | described description symbols =>
    rcases course_blockHead state isLast 2 (by decide) with ⟨typed, head, typing⟩
    have kind : typed.onBlockHead (isLast.toNat + 2 * 2) =
        { typed with final := isLast }.expect .tableSizes 14 := by
      cases isLast <;> rfl
    rw [kind] at typing
    rcases course_description { typed with final := isLast } description with
        ⟨ready, described, describing⟩
    have there : ready.history.toList = history := by
      rw [described.history, head.history, here, List.append_nil, List.append_nil]
    rcases course_symbols (agrees_described description) symbols there with
        ⟨after, body, reading⟩
    exact ⟨after, head.flagged (described.trans body), typing.trans (describing.trans reading)⟩

/-- Blocks of which none is the last one lead from one block's beginning to
another's. -/
theorem course_blocks {position : Nat} {history piece : List UInt8} {bits : List Bool}
    (blocks : Format.Blocks position history bits piece) (here : state.history.toList = history)
    (place : state.consumed = position) (more : state.final = false) :
    ∃ after, state.Passed bits piece after ∧
      Course (state.expect .blockHead 3) bits piece (after.expect .blockHead 3) := by
  induction blocks generalizing state with
  | none => exact ⟨state, ⟨(List.append_nil _).symm, rfl, rfl⟩, .rest _⟩
  | next block later inductionHypothesis =>
    rcases course_block block here place with ⟨middle, passedHere, course⟩
    have passed : state.Passed _ _ middle := passedHere.of_eq rfl rfl more.symm
    have continues : middle.final = false := passed.final.trans more
    rw [endBlock, continues] at course
    rcases inductionHypothesis (here ▸ passed.history)
      (place ▸ passed.consumed) continues with ⟨after, passedLater, laterCourse⟩
    exact ⟨after, passed.trans passedLater, course.trans laterCourse⟩

/-! ## Streams -/

/-- Bytes taken as one number have the first byte least significant. -/
theorem toNat_ofBytes (bytes : List UInt8) :
    Bits.toNat (Bits.ofBytes bytes) = Word.ofBytes bytes.reverse := by
  induction bytes with
  | nil => rfl
  | cons byte rest inductionHypothesis =>
    rw [Bits.ofBytes_cons, toNat_ofNat_append byte.toNat_lt, inductionHypothesis,
      List.reverse_cons, Word.ofBytes, Word.ofBytes, List.foldl_append]
    simp only [List.foldl_cons, List.foldl_nil]
    omega

/-- A word is read with its bytes in the opposite order, and swapped back. -/
theorem swap_toNat_ofBytes {value : Nat} (small : value < Word.limit) :
    Word.swap (Bits.toNat (Bits.ofBytes (Word.toBytes value))) = value := by
  have four : (Word.toBytes value).reverse.length = 4 := by
    rw [List.length_reverse, Word.length_toBytes]
  rw [toNat_ofBytes, Word.swap, Word.toBytes_ofBytes _ four, List.reverse_reverse,
    Word.ofBytes_toBytes value small]

/-- The state before the first block. -/
structure Opened (head initial : List UInt8) (state : Inflater) : Prop where
  history : state.history.toList = initial
  consumed : state.consumed = 8 * head.length
  final : state.final = false

theorem onStreamHead_eq {method flags : UInt8} (bytes : Format.HeadBytes method flags) :
    state.onStreamHead (method.toNat + 2 ^ 8 * flags.toNat) =
      if flags.toNat / 32 % 2 = 1 then state.expect .dictionaryId 32
      else state.expect .blockHead 3 := by
  have small := method.toNat_lt
  have first : (method.toNat + 2 ^ 8 * flags.toNat) % 256 = method.toNat := by omega
  have second : (method.toNat + 2 ^ 8 * flags.toNat) / 256 = flags.toNat := by omega
  have checked : ¬ (method.toNat * 256 + flags.toNat) % 31 ≠ 0 := not_not_intro bytes.checked
  have deflated : ¬ method.toNat % 16 ≠ 8 := not_not_intro bytes.deflated
  have window : ¬ 7 < method.toNat / 16 := Nat.not_lt.2 bytes.window
  simp only [onStreamHead, first, second, if_neg checked, if_neg deflated, if_neg window]

theorem course_headBytes {method flags : UInt8} (bytes : Format.HeadBytes method flags) :
    ∃ after, Inflater.fresh.Passed (Bits.ofBytes [method, flags]) [] after ∧
      Course .fresh (Bits.ofBytes [method, flags]) []
        (if flags.toNat / 32 % 2 = 1 then after.expect .dictionaryId 32
        else after.expect .blockHead 3) := by
  have fresh : Inflater.fresh.phase = .number .streamHead 16 1 0 := rfl
  rcases course_number (Bits.length_ofBytes [method, flags]) (Nat.succ_pos 15) fresh with
      ⟨after, passed, course⟩
  have value : Bits.toNat (Bits.ofBytes [method, flags]) =
      method.toNat + 2 ^ 8 * flags.toNat := by
    rw [Bits.ofBytes_cons, toNat_ofNat_append method.toNat_lt, Bits.ofBytes_cons,
      Bits.ofBytes_nil, List.append_nil, toNat_ofNat_of_lt flags.toNat_lt]
  rw [Nat.zero_add, Nat.one_mul, value, onNumber, onStreamHead_eq bytes] at course
  exact ⟨after, passed, course⟩

theorem course_head {head initial : List UInt8} (begins : Format.Head head initial) :
    ∃ after, Opened head initial after ∧
      Course .fresh (Bits.ofBytes head) [] (after.expect .blockHead 3) := by
  cases begins with
  | plain bytes unannounced =>
    rcases course_headBytes bytes with ⟨after, passed, course⟩
    rw [if_neg (by omega)] at course
    exact ⟨after, ⟨passed.history, passed.consumed, passed.final⟩, course⟩
  | preset bytes announced =>
    rcases course_headBytes bytes with ⟨middle, passed, course⟩
    rw [if_pos announced] at course
    rcases course_expect middle .dictionaryId (Bits.length_ofBytes (Word.toBytes Dictionary.id))
      (by decide) with ⟨after, passedId, identifying⟩
    have small : Dictionary.id < Word.limit := by
      rw [Dictionary.id_eq]
      decide
    rw [onNumber, onDictionaryId, if_pos (swap_toNat_ofBytes small)] at identifying
    refine ⟨after.install, ⟨?_, ?_, passedId.final.trans passed.final⟩, ?_⟩
    · have nothing : after.history.toList = [] := by
        rw [passedId.history, passed.history]
        rfl
      rw [install, Array.toList_append, nothing, List.append_nil]
      rfl
    · have counted := passedId.consumed.trans (congrArg (· + _) passed.consumed)
      rw [install, counted, List.length_append, Bits.length_ofBytes]
      rfl
    · rw [Bits.ofBytes_append]
      exact course.trans identifying

/-- How a stream closes: it has ended if its last word is the checksum of what has been
written, and it is broken otherwise. -/
theorem course_trailer {padding : List Bool} {output : List UInt8} {trailer : Nat}
    (aligned : padding.length = Bits.padding state.consumed) (last : state.final = true)
    (written : state.output = output) (small : trailer < Word.limit) :
    ∃ after, after.phase =
        (if trailer = (Checksum.ofBytes output).word then .ended else .failed .checksum) ∧
      Course state.endBlock (padding ++ Bits.ofBytes (Word.toBytes trailer)) [] after := by
  have size : (padding ++ Bits.ofBytes (Word.toBytes trailer)).length = padding.length + 32 := by
    rw [List.length_append, Bits.length_ofBytes, Word.length_toBytes]
  rcases course_expect state (.checksum padding.length) size (Nat.succ_pos _) with
      ⟨after, passed, course⟩
  have same : after.output = output := by
    have unchanged := (continues_onChecksum _).output_eq.symm.trans course.output_eq
    rw [unchanged, List.append_nil]
    exact written
  rw [onNumber, toNat_behind, onChecksum, same, swap_toNat_ofBytes small] at course
  rw [endBlock, if_pos last, ← aligned]
  refine ⟨_, ?_, course⟩
  split
  · rfl
  · rfl

/-- The inflater takes a whole stream, with any word in place of the checksum, and
writes what the stream stands for. -/
theorem course_closed {stream output : List UInt8} (isStream : Format.IsStream stream output) :
    ∃ front, Bits.ofBytes stream =
        front ++ Bits.ofBytes (Word.toBytes (Checksum.ofBytes output).word) ∧
      ∀ trailer < Word.limit, ∃ final, final.phase =
          (if trailer = (Checksum.ofBytes output).word then .ended else .failed .checksum) ∧
        Course .fresh (front ++ Bits.ofBytes (Word.toBytes trailer)) output final := by
  cases isStream with
  | @of head initial first last blocks lastBlock padding begins inner final aligned whole =>
    refine ⟨_, whole, fun trailer small => ?_⟩
    rcases course_head begins with ⟨opened, opening, headCourse⟩
    rcases course_blocks inner opening.history opening.consumed opening.final with
        ⟨middle, passedInner, innerCourse⟩
    rcases course_block final
      (opening.history ▸ passedInner.history) (opening.consumed ▸ passedInner.consumed) with
        ⟨closed, passedLast, lastCourse⟩
    have course := (headCourse.trans innerCourse).trans lastCourse
    have written : closed.output = first ++ last :=
      continues_endBlock.output_eq.symm.trans course.output_eq
    have place : padding.length = Bits.padding closed.consumed := by
      rw [aligned, passedLast.consumed]
      simp only
      rw [passedInner.consumed, opening.consumed]
    rcases course_trailer place passedLast.final written small with ⟨after, phase, closing⟩
    refine ⟨after, phase, ?_⟩
    have course := course.trans closing
    rw [List.nil_append, List.append_nil] at course
    rw [List.append_assoc _ padding]
    exact course

/-- The inflater takes a whole stream and writes what the stream stands for. -/
theorem course_stream {stream output : List UInt8} (isStream : Format.IsStream stream output) :
    ∃ final, final.phase = .ended ∧ Course .fresh (Bits.ofBytes stream) output final := by
  rcases course_closed isStream with ⟨front, whole, closes⟩
  rcases closes _ (Checksum.word_ofBytes_lt output) with ⟨final, phase, course⟩
  rw [if_pos rfl] at phase
  exact ⟨final, phase, whole ▸ course⟩

/-- A finished stream is taken likewise, and its last word decides whether it is
broken in the end. -/
theorem course_finished {stream output : List UInt8} {trailer : Nat}
    (finished : Format.IsFinished stream output trailer) :
    ∃ final, final.phase =
        (if trailer = (Checksum.ofBytes output).word then .ended else .failed .checksum) ∧
      Course .fresh (Bits.ofBytes stream) output final := by
  rcases finished.body with ⟨body, rfl, isStream⟩
  rcases course_closed isStream with ⟨front, whole, closes⟩
  rw [Bits.ofBytes_append] at whole
  rw [Bits.ofBytes_append, List.append_cancel_right whole]
  exact closes trailer finished.small

end Inflater

end Deflate
end HeaderCodec
