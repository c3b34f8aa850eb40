import HeaderCodec.Deflate.Deflater
import HeaderCodec.Proofs.Deflate.Format

namespace HeaderCodec
namespace Deflate

/-!
# The deflater writes the format

Each part of a stream that a `Deflater` writes consists of blocks of the format
that stand for the bytes it was given.  This holds at every level and for
whatever the index of the window proposes, because a proposal is compared with
the input before it becomes a copy.

A part begins and ends at a byte boundary, since it ends with a stored block.
So the position at which it begins matters to nobody, and the parts of a session
can be sent one by one.
-/

open Format (CodeLengths Says IsCopy Symbols Block Blocks)
open CanonicalCode (IsCodeWord)

/-! ## Symbols -/

/-- The code word of a symbol that is used is the canonical one. -/
theorem isCodeWord_wordBits {lengths : List Nat} {symbol length : Nat}
    (fits : LengthSet.share lengths ≤ 1 <<< CodeTree.maxLength)
    (used : lengths[symbol]? = some length) (positive : 0 < length)
    (short : length ≤ CodeTree.maxLength) :
    IsCodeWord lengths symbol (Token.wordBits (CodeTree.ofLengths lengths) symbol) := by
  have isWord : IsCodeWord lengths symbol
      (Bits.ofNat length (CanonicalCode.wordValue lengths symbol length)).reverse :=
    ⟨length, used, positive, short, rfl⟩
  rw [Token.wordBits, CodeTree.codeWord?_ofLengths fits isWord]
  exact isWord

theorem isCodeWord_literal {symbol : Nat} (small : symbol < 288) :
    IsCodeWord CodeLengths.fixed.literals symbol
      (Token.wordBits Codes.fixed.literals symbol) := by
  have used : ∀ length ∈ fixedLiteralLengths, 0 < length ∧ length ≤ CodeTree.maxLength := by
    decide +kernel
  have size : fixedLiteralLengths.length = 288 := by
    rw [fixedLiteralLengths]
    simp only [List.length_append, List.length_replicate]
  have inside : symbol < fixedLiteralLengths.length := size ▸ small
  have bounds := used _ (List.getElem_mem inside)
  exact isCodeWord_wordBits (by decide +kernel) (List.getElem?_eq_getElem inside) bounds.1 bounds.2

theorem isCodeWord_distance {symbol : Nat} (small : symbol < 32) :
    IsCodeWord CodeLengths.fixed.distances symbol
      (Token.wordBits Codes.fixed.distances symbol) := by
  have used : ∀ length ∈ fixedDistanceLengths, 0 < length ∧ length ≤ CodeTree.maxLength := by
    decide +kernel
  have size : fixedDistanceLengths.length = 32 := List.length_replicate
  have inside : symbol < fixedDistanceLengths.length := size ▸ small
  have bounds := used _ (List.getElem_mem inside)
  exact isCodeWord_wordBits (by decide +kernel) (List.getElem?_eq_getElem inside) bounds.1 bounds.2

/-- Classes that leave no value out from the first base up to a limit. -/
def areGraded (limit : Nat) : List (Nat × Nat) -> Bool
  | [] => false
  | [(base, extraBits)] => decide (limit < base + 2 ^ extraBits)
  | (base, extraBits) :: (next, nextExtra) :: rest =>
    decide (next ≤ base + 2 ^ extraBits) && areGraded limit ((next, nextExtra) :: rest)

/-- The class of a value holds it. -/
theorem classOf_holds {limit value : Nat} {classes : List (Nat × Nat)} (number : Nat)
    (graded : areGraded limit classes = true) (small : value ≤ limit)
    (large : ∀ used ∈ classes.head?, used.1 ≤ value) :
    ∃ above base extraBits, classOf value number classes = (number + above, base, extraBits) ∧
      classes[above]? = some (base, extraBits) ∧ base ≤ value ∧
        value - base < 2 ^ extraBits := by
  fun_induction classOf value number classes with
  | case1 => contradiction
  | case2 number base extraBits =>
    have above := large (base, extraBits) rfl
    have below := of_decide_eq_true graded
    simp only at above
    exact ⟨0, base, extraBits, rfl, rfl, above, by omega⟩
  | case3 number base extraBits next nextExtra rest reaches inductionHypothesis =>
    rcases inductionHypothesis
      (Bool.and_eq_true_iff.1 graded).2 (fun used first => Option.some.inj first ▸ reaches) with
        ⟨above, found, foundExtra, same, inClass, lower, upper⟩
    refine ⟨above + 1, found, foundExtra, ?_, inClass, lower, upper⟩
    rw [same, Nat.add_assoc, Nat.add_comm 1]
  | case4 number base extraBits next nextExtra rest stays =>
    have above := large (base, extraBits) rfl
    have below := of_decide_eq_true (Bool.and_eq_true_iff.1 graded).1
    simp only at above
    exact ⟨0, base, extraBits, rfl, rfl, above, by omega⟩

/-! ## Tokens -/

/-- Tokens spell some input after a history. -/
inductive Spells : (history : List UInt8) -> List Token -> (input : List UInt8) -> Prop where
  | none {history : List UInt8} : Spells history [] []
  | literal {history input : List UInt8} {byte : UInt8} {tokens : List Token}
      (later : Spells (history ++ [byte]) tokens input) :
      Spells history (.literal byte :: tokens) (byte :: input)
  | copy {history copied input : List UInt8} {distance : Nat} {tokens : List Token}
      (long : 3 ≤ copied.length) (short : copied.length ≤ Window.maxLength)
      (near : distance ≤ Window.maxDistance) (isCopy : IsCopy history distance copied)
      (later : Spells (history ++ copied) tokens input) :
      Spells history (.copy copied.length distance :: tokens) (copied ++ input)

theorem bits_copy {history copied : List UInt8} {distance : Nat} (long : 3 ≤ copied.length)
    (short : copied.length ≤ Window.maxLength) (near : distance ≤ Window.maxDistance)
    (isCopy : IsCopy history distance copied) :
    ∃ lengthBits distanceBits,
      Token.bits (.copy copied.length distance) = lengthBits ++ distanceBits ∧
      Says CodeLengths.fixed.literals Format.firstLength lengthClasses copied.length lengthBits ∧
      Says CodeLengths.fixed.distances 0 distanceClasses distance distanceBits := by
  have lengthsGraded : areGraded Window.maxLength lengthClasses = true := by decide
  have distancesGraded : areGraded Window.maxDistance distanceClasses = true := by decide
  rcases classOf_holds 0 lengthsGraded short (fun used first => Option.some.inj first ▸ long) with
      ⟨lengthClass, lengthBase, lengthExtra, lengthEq, lengthIn, lengthAbove, lengthBelow⟩
  rcases classOf_holds 0 distancesGraded near
    (fun used first => Option.some.inj first ▸ isCopy.positive) with
      ⟨place, base, extraBits, distanceEq, distanceIn, above, below⟩
  rw [Nat.zero_add] at lengthEq distanceEq
  rcases List.getElem?_eq_some_iff.1 lengthIn with ⟨lengthInside, _⟩
  rcases List.getElem?_eq_some_iff.1 distanceIn with ⟨distanceInside, _⟩
  have lengthSmall : lengthClass < 29 := lengthInside
  have distanceSmall : place < 30 := distanceInside
  have sizes : 257 + lengthClass < 288 := by omega
  have places : 0 + place < 32 := by omega
  refine ⟨Token.wordBits Codes.fixed.literals (257 + lengthClass) ++
      Bits.ofNat lengthExtra (copied.length - lengthBase),
    Token.wordBits Codes.fixed.distances (0 + place) ++ Bits.ofNat extraBits (distance - base),
    ?_, ?_, ?_⟩
  · rw [Token.bits, lengthEq, distanceEq, Nat.zero_add, ← List.append_assoc]
  · have isSaid := Says.of lengthIn lengthBelow (isCodeWord_literal sizes)
    rw [Nat.add_sub_cancel' lengthAbove] at isSaid
    exact isSaid
  · have isSaid := Says.of distanceIn below (isCodeWord_distance places)
    rw [Nat.add_sub_cancel' above] at isSaid
    exact isSaid

/-- Written in the fixed codes, tokens are symbols that stand for what they
spell. -/
theorem symbols_of_spells {history input : List UInt8} {tokens : List Token}
    (spells : Spells history tokens input) :
    Symbols .fixed history
      (tokens.flatMap Token.bits ++ Token.wordBits Codes.fixed.literals 256) input := by
  induction spells with
  | none =>
    have small : 256 < 288 := by decide
    rw [List.flatMap_nil, List.nil_append]
    exact .ends (isCodeWord_literal small)
  | @literal history input byte tokens later inductionHypothesis =>
    have small : byte.toNat < 288 := Nat.lt_trans byte.toNat_lt (by decide)
    rw [List.flatMap_cons, List.append_assoc]
    exact .literal (isCodeWord_literal small) inductionHypothesis
  | copy long short near isCopy later inductionHypothesis =>
    rcases bits_copy long short near isCopy with
        ⟨lengthBits, distanceBits, bits, saysLength, saysDistance⟩
    rw [List.flatMap_cons, List.append_assoc, bits]
    exact .copy saysLength saysDistance isCopy inductionHypothesis

/-! ## Repetitions -/

namespace Window

/-- Where the history agrees with the input it does so byte by byte. -/
theorem commonLength_spec (history : Array UInt8) (place limit : Nat) (input : List UInt8) :
    commonLength history place limit input ≤ limit ∧
      commonLength history place limit input ≤ input.length ∧
      ∀ index, index < commonLength history place limit input ->
        place + index < history.size ∧ history[place + index]? = input[index]? := by
  fun_induction commonLength history place limit input with
  | case1 => exact ⟨Nat.zero_le _, Nat.zero_le _, fun index less => absurd less (Nat.not_lt_zero _)⟩
  | case2 => exact ⟨Nat.zero_le _, Nat.zero_le _, fun index less => absurd less (Nat.not_lt_zero _)⟩
  | case3 place limit byte rest here inductionHypothesis =>
    rcases inductionHypothesis with ⟨short, inside, same⟩
    refine ⟨Nat.succ_le_succ short, Nat.succ_le_succ inside, ?_⟩
    intro index less
    cases index with
    | zero =>
      rcases Array.getElem?_eq_some_iff.1 here with ⟨present, _⟩
      exact ⟨present, here⟩
    | succ index =>
      have later := same index (Nat.lt_of_succ_lt_succ less)
      rw [Nat.add_assoc, Nat.add_comm 1] at later
      exact later
  | case4 => exact ⟨Nat.zero_le _, Nat.zero_le _, fun index less => absurd less (Nat.not_lt_zero _)⟩

/-- What is proposed is nothing, or an agreement at a place that is near. -/
theorem longest_spec (window : Window) (input : List UInt8) :
    (window.longest input).1 = 0 ∨
      ((window.longest input).1 =
          commonLength window.history (window.longest input).2 maxLength input ∧
        window.history.size - (window.longest input).2 ≤ maxDistance) := by
  rw [longest]
  generalize window.candidates input = places
  have kept : ∀ best : Nat × Nat,
      (best.1 = 0 ∨ (best.1 = commonLength window.history best.2 maxLength input ∧
        window.history.size - best.2 ≤ maxDistance)) ->
      let last := places.foldl
        (fun best place =>
          let length := commonLength window.history place maxLength input
          if best.1 < length ∧ window.history.size - place ≤ maxDistance then (length, place)
          else best)
        best
      last.1 = 0 ∨ (last.1 = commonLength window.history last.2 maxLength input ∧
        window.history.size - last.2 ≤ maxDistance) := by
    induction places with
    | nil =>
      intro best holds
      exact holds
    | cons place rest inductionHypothesis =>
      intro best holds
      apply inductionHypothesis
      simp only
      split
      · rename_i better
        exact Or.inr ⟨rfl, better.2⟩
      · exact holds
  exact kept (0, 0) (Or.inl rfl)

/-- The first part of the input with which a match agrees is a copy. -/
theorem isCopy_of_match {window : Window} {input : List UInt8} {length distance : Nat}
    (found : window.match? input = some (length, distance)) :
    length ≤ input.length ∧ 3 ≤ length ∧ length ≤ maxLength ∧ distance ≤ maxDistance ∧
      IsCopy window.history.toList distance (input.take length) := by
  have proposed := longest_spec window input
  rw [match?] at found
  generalize window.longest input = best at found proposed
  rcases best with ⟨size, place⟩
  simp only at found proposed
  split at found
  · rename_i long
    simp only [Option.some.injEq, Prod.mk.injEq] at found
    rcases found with ⟨rfl, rfl⟩
    rcases proposed with nothing | ⟨agreement, near⟩
    · omega
    · rcases commonLength_spec window.history place maxLength input with ⟨short, inside, same⟩
      rw [← agreement] at short inside same
      have first := (same 0 (by omega)).1
      refine ⟨inside, long, short, near, ⟨by omega, ?_, ?_⟩⟩
      · rw [Array.length_toList]
        omega
      · intro index less
        rw [List.length_take_of_le inside] at less
        rcases same index less with ⟨present, equal⟩
        have position : window.history.toList.length + index - (window.history.size - place) =
            place + index := by
          rw [Array.length_toList]
          omega
        rw [position, List.getElem?_append_left (Array.length_toList ▸ present),
          @Array.getElem?_toList _ window.history, equal, List.getElem?_take_of_lt less]
  · cases found

/-- Whatever repetitions are found, the tokens spell the input, and the input
joins the history. -/
theorem tokenize_spells (window : Window) (written : List Token) (input : List UInt8) :
    ∃ tokens, (window.tokenize written input).1 = written.reverse ++ tokens ∧
      Spells window.history.toList tokens input ∧
      (window.tokenize written input).2.history = window.history ++ input.toArray := by
  fun_induction tokenize window written input with
  | case1 window written =>
    exact ⟨[], (List.append_nil _).symm, .none, by simp⟩
  | case2 window written byte rest length distance found inductionHypothesis =>
    rcases isCopy_of_match found with ⟨inside, long, short, near, isCopy⟩
    rcases inductionHypothesis with ⟨tokens, split, spells, history⟩
    have size : ((byte :: rest).take length).length = length := List.length_take_of_le inside
    have others : rest.drop (length - 1) = (byte :: rest).drop length := by
      rcases Nat.exists_eq_add_one_of_ne_zero (show length ≠ 0 by omega) with ⟨less, rfl⟩
      rfl
    have whole := List.take_append_drop length (byte :: rest)
    rw [others] at split spells history ⊢
    refine ⟨.copy length distance :: tokens, ?_, ?_, ?_⟩
    · rw [split, List.reverse_cons, List.append_assoc, List.singleton_append]
    · rw [history_pushAll, Array.toList_append] at spells
      have copy : Spells window.history.toList _ _ :=
        .copy (by omega) (by omega) near isCopy spells
      rw [whole, size] at copy
      exact copy
    · rw [history, history_pushAll, Array.append_assoc,
        List.append_toArray ((byte :: rest).take length), whole]
  | case3 window written byte rest nothing inductionHypothesis =>
    rcases inductionHypothesis with ⟨tokens, split, spells, history⟩
    rw [history_push] at spells history
    refine ⟨.literal byte :: tokens, ?_, ?_, ?_⟩
    · rw [split, List.reverse_cons, List.append_assoc, List.singleton_append]
    · rw [Array.toList_push] at spells
      exact .literal spells
    · rw [history]
      simp

end Window

/-! ## Blocks -/

/-- Where a byte boundary is depends on a position only up to whole bytes. -/
theorem padding_eq {first second : Nat} (same : first % 8 = second % 8) :
    Bits.padding first = Bits.padding second := by
  rw [Bits.padding, Bits.padding, same]

theorem length_storedBlock (position : Nat) (bytes : List UInt8) :
    (position + (storedBlock position bytes).length) % 8 = 0 := by
  have aligned := Bits.padding_spec (position + 3)
  simp only [storedBlock, List.length_append, List.length_cons, List.length_nil,
    List.length_replicate, Bits.length_ofNat, Bits.length_ofBytes]
  omega

theorem block_storedBlock (here : Nat) {position : Nat} {bytes : List UInt8}
    (history : List UInt8) (same : here % 8 = position % 8) (short : bytes.length ≤ maxStored) :
    Block false position history (storedBlock here bytes) bytes := by
  have small : bytes.length < 2 ^ 16 := Nat.lt_of_le_of_lt short (by decide)
  have padding : (List.replicate (Bits.padding (here + 3)) false).length =
      Bits.padding (position + 3) := by
    rw [List.length_replicate]
    exact padding_eq (by omega)
  have block : Block false position history _ bytes := .stored padding small
  rw [storedBlock]
  simp only [← List.append_assoc] at block ⊢
  exact block

theorem Format.Blocks.append {position : Nat} {history piece others : List UInt8}
    {bits more : List Bool} (first : Blocks position history bits piece)
    (second : Blocks (position + bits.length) (history ++ piece) more others) :
    Blocks position history (bits ++ more) (piece ++ others) := by
  induction first with
  | none =>
    rw [List.append_nil] at second
    exact second
  | next block later inductionHypothesis =>
    rw [List.append_assoc, List.append_assoc]
    rw [List.length_append, ← Nat.add_assoc, ← List.append_assoc] at second
    exact .next block (inductionHypothesis second)

theorem Format.Block.blocks {position : Nat} {history piece : List UInt8} {bits : List Bool}
    (block : Block false position history bits piece) : Blocks position history bits piece := by
  have alone := Blocks.next block .none
  rw [List.append_nil, List.append_nil] at alone
  exact alone

namespace Deflater

theorem blocks_storedBlocks {position : Nat} (bytes : List UInt8) (history : List UInt8)
    (aligned : position % 8 = 0) :
    Blocks position history (storedBlocks bytes) bytes ∧ (storedBlocks bytes).length % 8 = 0 := by
  fun_induction storedBlocks bytes generalizing position history with
  | case1 => exact ⟨.none, rfl⟩
  | case2 bytes some inductionHypothesis =>
    have short : (bytes.take maxStored).length ≤ maxStored := by
      rw [List.length_take]
      exact Nat.min_le_left _ _
    have block := block_storedBlock 0 history aligned.symm short
    have whole := length_storedBlock 0 (bytes.take maxStored)
    rw [Nat.zero_add] at whole
    have onward : (position + (storedBlock 0 (bytes.take maxStored)).length) % 8 = 0 := by omega
    rcases inductionHypothesis (history ++ bytes.take maxStored) onward with ⟨later, size⟩
    have blocks := Blocks.next block later
    rw [List.take_append_drop] at blocks
    refine ⟨blocks, ?_⟩
    rw [List.length_append]
    omega

/-- The next part of a stream consists of blocks that stand for the given bytes,
and it ends at a byte boundary. -/
theorem blocks_compressBits {position : Nat} (level : Nat) (window : Window)
    (bytes : List UInt8) (aligned : position % 8 = 0) :
    Blocks position window.history.toList (compressBits level window bytes).1 bytes ∧
      (compressBits level window bytes).1.length % 8 = 0 ∧
      (compressBits level window bytes).2.history = window.history ++ bytes.toArray := by
  have marker : ∀ (here place : Nat) (history : List UInt8), here % 8 = place % 8 ->
      Blocks place history (storedBlock here []) [] := fun here place history same =>
    (block_storedBlock here history same (Nat.zero_le _)).blocks
  rw [compressBits]
  split
  · rcases blocks_storedBlocks bytes window.history.toList aligned with ⟨blocks, size⟩
    have last := length_storedBlock 0 []
    have closed := blocks.append (marker 0 _ _ (by omega))
    rw [List.append_nil] at closed
    refine ⟨closed, ?_, Window.history_pushAll _ _⟩
    rw [List.length_append]
    omega
  · rcases Window.tokenize_spells window [] bytes with ⟨tokens, split, spells, history⟩
    rw [List.reverse_nil, List.nil_append] at split
    simp only [split]
    have last := length_storedBlock (fixedBlock tokens).length []
    have block : Block false position window.history.toList (fixedBlock tokens) bytes := by
      have fixed : Block false position _ _ bytes := .fixed (symbols_of_spells spells)
      rw [fixedBlock, List.append_assoc]
      exact fixed
    have closed := block.blocks.append
      (marker (fixedBlock tokens).length _ _ (by omega))
    rw [List.append_nil] at closed
    refine ⟨closed, ?_, history⟩
    rw [List.length_append]
    exact last

/-! ## The beginning of a stream -/

/-- At every level the beginning of a stream is well formed and announces the
dictionary. -/
theorem isHead_head (level : Nat) : Format.Head (head level) Dictionary.bytes := by
  have steps : effort level < 4 := by
    unfold effort
    repeat' split
    all_goals decide
  have valid : ∀ step < 4, (methodByte * 256 + (step * 64 + 32 +
      (31 - (methodByte * 256 + (step * 64 + 32)) % 31))) % 31 = 0 ∧
      (step * 64 + 32 + (31 - (methodByte * 256 + (step * 64 + 32)) % 31)) < 256 ∧
      (step * 64 + 32 + (31 - (methodByte * 256 + (step * 64 + 32)) % 31)) / 32 % 2 = 1 := by
    decide
  rcases valid (effort level) steps with ⟨checked, small, announced⟩
  have flags : (UInt8.ofNat (flagByte level)).toNat = flagByte level :=
    UInt8.toNat_ofNat_of_lt' small
  exact .preset ⟨by rw [flags]; exact checked, rfl, by decide⟩ (by rw [flags]; exact announced)

theorem history_start (level : Nat) :
    (start level).window.history.toList = Dictionary.bytes := by
  rw [start, Window.history_pushAll]
  simp [Window.empty]

end Deflater

end Deflate
end HeaderCodec
