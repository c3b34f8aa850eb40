import HeaderCodec.Bytes.Bits
import HeaderCodec.Deflate.CodeTree
import Mathlib.Algebra.Group.Nat.Defs

namespace HeaderCodec
namespace Deflate

/-!
# Canonical code words, by counting

The format defines the code words of a list of lengths by counting.  The least
word of each length follows from the numbers of shorter words, and within one
length the words ascend with the symbols.  `IsCodeWord` is that definition, and
it mentions no tree.

`CodeTree.ofLengths` finds the words in another way, by hanging symbols at the
first free place.  The two agree, and `follow_ofLengths` says so: wherever the
words do not claim more than all code space, the path that the definition gives
ends at the leaf of its symbol.

The argument measures code space.  A word of length `length` takes one part in
`2 ^ length` of it, and `space` adds this up for a queue of symbols, in units of
the longest words.  The symbols before one in the queue take exactly the space
to the left of its leaf, because short words come first and every piece is a
multiple of those after it.
-/

namespace CanonicalCode

/-- The least code word of some length, as a number. -/
def leastWord (lengths : List Nat) : Nat -> Nat
  | 0 => 0
  | length + 1 => 2 * (leastWord lengths length + if length = 0 then 0 else lengths.count length)

/-- The code word of a symbol that has the given length, as a number. -/
def wordValue (lengths : List Nat) (symbol length : Nat) : Nat :=
  leastWord lengths length + (lengths.take symbol).count length

/-- The code word of a symbol.  Code words are written with the most significant
bit first. -/
def IsCodeWord (lengths : List Nat) (symbol : Nat) (word : List Bool) : Prop :=
  ∃ length, lengths[symbol]? = some length ∧ 0 < length ∧ length ≤ CodeTree.maxLength ∧
    word = (Bits.ofNat length (wordValue lengths symbol length)).reverse

theorem IsCodeWord.ne_nil {lengths : List Nat} {symbol : Nat} {word : List Bool}
    (isWord : IsCodeWord lengths symbol word) : word ≠ [] := by
  rcases isWord with ⟨length, _, positive, _, rfl⟩
  intro empty
  have none := congrArg List.length empty
  rw [List.length_reverse, Bits.length_ofNat, List.length_nil] at none
  omega

end CanonicalCode

namespace CodeTree

/-! ## The space that a queue of symbols takes -/

/-- The code space of a queue of symbols, in units of the longest words. -/
def space : List (Nat × Nat) -> Nat
  | [] => 0
  | used :: rest => 2 ^ (maxLength - used.1) + space rest

@[simp] theorem space_nil : space [] = 0 := rfl

@[simp] theorem space_cons (used : Nat × Nat) (rest : List (Nat × Nat)) :
    space (used :: rest) = 2 ^ (maxLength - used.1) + space rest := rfl

@[simp] theorem space_append (first second : List (Nat × Nat)) :
    space (first ++ second) = space first + space second := by
  induction first with
  | nil => exact (Nat.zero_add _).symm
  | cons used rest inductionHypothesis =>
    rw [List.cons_append, space_cons, space_cons, inductionHypothesis, Nat.add_assoc]

/-- A queue whose words belong at some depth or below, short words first. -/
structure InOrder (depth : Nat) (queue : List (Nat × Nat)) : Prop where
  deep : ∀ used ∈ queue, depth ≤ used.1 ∧ used.1 ≤ maxLength
  ascending : queue.Pairwise fun first second => first.1 ≤ second.1

namespace InOrder

variable {depth : Nat} {queue : List (Nat × Nat)}

theorem of_append {first : List (Nat × Nat)} (inOrder : InOrder depth (first ++ queue)) :
    InOrder depth queue where
  deep := fun used member => inOrder.deep used (List.mem_append_right first member)
  ascending := (List.pairwise_append.1 inOrder.ascending).2.1

/-- When the first word does not end at some depth, none does. -/
theorem deeper {length symbol : Nat} (inOrder : InOrder depth ((length, symbol) :: queue))
    (notHere : length ≠ depth) : InOrder (depth + 1) ((length, symbol) :: queue) where
  deep := by
    have least := (inOrder.deep _ List.mem_cons_self).1
    intro used member
    refine ⟨?_, (inOrder.deep used member).2⟩
    rcases List.mem_cons.1 member with rfl | later
    · simp only at least ⊢
      omega
    · have above := (List.pairwise_cons.1 inOrder.ascending).1 used later
      simp only at least above
      omega
  ascending := inOrder.ascending

/-- The space before a word is a multiple of its own. -/
theorem dvd_space {used : Nat × Nat} {before after : List (Nat × Nat)}
    (inOrder : InOrder depth (before ++ used :: after)) :
    2 ^ (maxLength - used.1) ∣ space before := by
  have shorter := (List.pairwise_append.1 inOrder.ascending).2.2
  clear inOrder
  induction before with
  | nil => exact Nat.dvd_zero _
  | cons first rest inductionHypothesis =>
    have here : first.1 ≤ used.1 := shorter first List.mem_cons_self used List.mem_cons_self
    rw [space_cons]
    apply Nat.dvd_add
    · exact Nat.pow_dvd_pow 2 (Nat.sub_le_sub_left here maxLength)
    · exact inductionHypothesis fun other member =>
        shorter other (List.mem_cons_of_mem first member)

end InOrder

/-! ## Growing a tree fills its space from the left -/

/-- With more levels to go, a queue whose words are all longer is shared out
between two branches. -/
theorem grow_of_deeper {levels depth length symbol : Nat} {rest : List (Nat × Nat)}
    (notHere : length ≠ depth) :
    grow (levels + 1) depth ((length, symbol) :: rest) =
      (node (grow levels (depth + 1) ((length, symbol) :: rest)).1
          (grow levels (depth + 1) (grow levels (depth + 1) ((length, symbol) :: rest)).2).1,
        (grow levels (depth + 1) (grow levels (depth + 1) ((length, symbol) :: rest)).2).2) := by
  rw [grow, if_neg notHere]

/-- A tree takes as many symbols as fill it. -/
theorem grow_fills {levels depth : Nat} {queue : List (Nat × Nat)}
    (whole : levels + depth = maxLength) (inOrder : InOrder depth queue)
    (much : 2 ^ levels ≤ space queue) :
    ∃ hung, queue = hung ++ (grow levels depth queue).2 ∧ space hung = 2 ^ levels := by
  induction levels generalizing depth queue with
  | zero =>
    cases queue with
    | nil => simp at much
    | cons head rest =>
      rcases head with ⟨length, symbol⟩
      have bounds := inOrder.deep _ List.mem_cons_self
      have here : length = depth := by
        simp only at bounds
        omega
      have full : maxLength - length = 0 := by omega
      refine ⟨[(length, symbol)], ?_, ?_⟩
      · rw [grow, if_pos here, List.singleton_append]
      · rw [space_cons, space_nil, full, Nat.add_zero]
  | succ levels inductionHypothesis =>
    cases queue with
    | nil =>
      have positive := Nat.two_pow_pos (levels + 1)
      rw [space_nil] at much
      omega
    | cons head rest =>
      rcases head with ⟨length, symbol⟩
      by_cases here : length = depth
      · have full : maxLength - length = levels + 1 := by omega
        refine ⟨[(length, symbol)], ?_, ?_⟩
        · rw [grow, if_pos here, List.singleton_append]
        · rw [space_cons, space_nil, full, Nat.add_zero]
      · have deeper := inOrder.deeper here
        have double := Nat.pow_succ 2 levels
        rcases inductionHypothesis (by omega) deeper (by omega) with ⟨left, leftSplit, leftSpace⟩
        have total : space left +
            space (grow levels (depth + 1) ((length, symbol) :: rest)).2 =
              space ((length, symbol) :: rest) := by
          rw [← space_append, ← leftSplit]
        have others : InOrder (depth + 1)
            (grow levels (depth + 1) ((length, symbol) :: rest)).2 := by
          rw [leftSplit] at deeper
          exact deeper.of_append
        rcases inductionHypothesis (by omega) others (by omega) with ⟨right, rightSplit, rightSpace⟩
        refine ⟨left ++ right, ?_, ?_⟩
        · rw [grow_of_deeper here, List.append_assoc, ← rightSplit]
          exact leftSplit
        · rw [space_append]
          omega

/-- A tree holds no symbols but those taken from the queue. -/
theorem grow_holds (levels depth : Nat) (queue : List (Nat × Nat)) :
    ∃ hung, queue = hung ++ (grow levels depth queue).2 ∧
      ∀ symbol, (∀ used ∈ hung, used.2 ≠ symbol) ->
        (grow levels depth queue).1.codeWord? symbol = none := by
  induction levels generalizing depth queue with
  | zero =>
    cases queue with
    | nil => exact ⟨[], rfl, fun _ _ => rfl⟩
    | cons head rest =>
      rcases head with ⟨length, first⟩
      rw [grow]
      split
      · refine ⟨[(length, first)], rfl, ?_⟩
        intro symbol absent
        exact if_neg (absent _ List.mem_cons_self)
      · exact ⟨[], rfl, fun _ _ => rfl⟩
  | succ levels inductionHypothesis =>
    cases queue with
    | nil => exact ⟨[], rfl, fun _ _ => rfl⟩
    | cons head rest =>
      rcases head with ⟨length, first⟩
      by_cases here : length = depth
      · rw [grow, if_pos here]
        refine ⟨[(length, first)], rfl, ?_⟩
        intro symbol absent
        exact if_neg (absent _ List.mem_cons_self)
      · rcases inductionHypothesis (depth + 1) ((length, first) :: rest) with
            ⟨left, leftSplit, notLeft⟩
        rcases inductionHypothesis (depth + 1) (grow levels (depth + 1) ((length, first) :: rest)).2
          with ⟨right, rightSplit, notRight⟩
        refine ⟨left ++ right, ?_, ?_⟩
        · rw [grow_of_deeper here, List.append_assoc, ← rightSplit]
          exact leftSplit
        · intro symbol absent
          have absentLeft := notLeft symbol fun used member =>
            absent used (List.mem_append_left right member)
          have absentRight := notRight symbol fun used member =>
            absent used (List.mem_append_right left member)
          rw [grow_of_deeper here, codeWord?, absentLeft, absentRight]
          rfl

/-- The way down from a tree with `levels` levels to the place at which `place`
units of its space lie to the left, `count` steps long. -/
def path : (levels count place : Nat) -> List Bool
  | levels + 1, count + 1, place =>
    if place < 2 ^ levels then false :: path levels count place
    else true :: path levels count (place - 2 ^ levels)
  | _, _, _ => []

/-- A word that ends at the root of a tree fills the tree, so no other can stand
before the one that is looked for. -/
theorem codeWord?_grow_of_here {levels depth first length symbol : Nat}
    {before after rest : List (Nat × Nat)} {firstSymbol : Nat}
    (whole : levels + depth = maxLength) (here : first = depth)
    (queue : before ++ (length, symbol) :: after = (first, firstSymbol) :: rest)
    (fits : space before + 2 ^ (maxLength - length) ≤ 2 ^ levels) :
    (grow levels depth (before ++ (length, symbol) :: after)).1.codeWord? symbol =
      some (path levels (length - depth) (space before)) := by
  cases before with
  | nil =>
    rw [List.nil_append, List.cons.injEq, Prod.mk.injEq] at queue
    rcases queue with ⟨⟨rfl, rfl⟩, rfl⟩
    have none : length - depth = 0 := by omega
    have leafHere : (grow levels depth ((length, symbol) :: after)).1 = leaf symbol := by
      cases levels <;> rw [grow, if_pos here]
    rw [List.nil_append, leafHere, none, codeWord?, if_pos rfl]
    cases levels <;> rfl
  | cons other others =>
    rw [List.cons_append, List.cons.injEq] at queue
    rcases queue with ⟨rfl, -⟩
    have full : maxLength - first = levels := by omega
    have positive := Nat.two_pow_pos (maxLength - length)
    rw [space_cons, full] at fits
    omega

theorem add_le_of_dvd {unit place size : Nat} (ofPlace : unit ∣ place) (ofSize : unit ∣ size)
    (below : place < size) : place + unit ≤ size := by
  rcases ofPlace with ⟨count, rfl⟩
  rcases ofSize with ⟨total, rfl⟩
  have less : count < total := Nat.lt_of_mul_lt_mul_left below
  exact Nat.mul_le_mul_left unit less

/-- A first part of the queue that takes no more space than what stands before
some symbol is a first part of that. -/
theorem split_before {first second before after : List (Nat × Nat)} {used : Nat × Nat}
    (split : before ++ used :: after = first ++ second) (less : space first ≤ space before) :
    ∃ others, before = first ++ others ∧ second = others ++ used :: after := by
  rcases List.append_eq_append_iff.1 split with ⟨excess, longer, later⟩ | ⟨others, shorter, rest⟩
  · cases excess with
    | nil =>
      refine ⟨[], ?_, ?_⟩
      · rw [longer, List.append_nil, List.append_nil]
      · rw [List.nil_append]
        exact later.symm
    | cons head tail =>
      have positive := Nat.two_pow_pos (maxLength - head.1)
      rw [longer, space_append, space_cons] at less
      omega
  · exact ⟨others, shorter, rest⟩

/-- Each symbol hangs where the space of those before it ends. -/
theorem codeWord?_grow {levels depth length symbol : Nat} {before after : List (Nat × Nat)}
    (whole : levels + depth = maxLength)
    (inOrder : InOrder depth (before ++ (length, symbol) :: after))
    (new : ∀ used ∈ before, used.2 ≠ symbol)
    (fits : space before + 2 ^ (maxLength - length) ≤ 2 ^ levels) :
    (grow levels depth (before ++ (length, symbol) :: after)).1.codeWord? symbol =
      some (path levels (length - depth) (space before)) := by
  induction levels generalizing depth before with
  | zero =>
    cases queue : before ++ (length, symbol) :: after with
    | nil => exact absurd queue (by simp)
    | cons head rest =>
      have bounds := inOrder.deep head (queue ▸ List.mem_cons_self)
      rw [← queue]
      exact codeWord?_grow_of_here whole (by omega) queue fits
  | succ levels inductionHypothesis =>
    cases queue : before ++ (length, symbol) :: after with
    | nil => exact absurd queue (by simp)
    | cons head rest =>
      rcases head with ⟨first, firstSymbol⟩
      by_cases here : first = depth
      · rw [← queue]
        exact codeWord?_grow_of_here whole here queue fits
      · rw [grow_of_deeper here, ← queue]
        have deeper : InOrder (depth + 1) (before ++ (length, symbol) :: after) := by
          rw [queue] at inOrder ⊢
          exact inOrder.deeper here
        have below := deeper.deep (length, symbol) (List.mem_append_right before List.mem_cons_self)
        simp only at below
        have oneMore : length - depth = length - (depth + 1) + 1 := by omega
        have double := Nat.pow_succ 2 levels
        rw [oneMore, path]
        by_cases low : space before < 2 ^ levels
        · have unit : 2 ^ (maxLength - length) ∣ 2 ^ levels := Nat.pow_dvd_pow 2 (by omega)
          have fitsLeft := add_le_of_dvd deeper.dvd_space unit low
          rw [if_pos low, codeWord?, inductionHypothesis (by omega) deeper new fitsLeft]
        · have much : 2 ^ levels ≤ space (before ++ (length, symbol) :: after) := by
            rw [space_append]
            omega
          rcases grow_fills (by omega) deeper much with ⟨left, split, leftSpace⟩
          rcases split_before split (by omega) with ⟨others, rfl, later⟩
          rcases grow_holds levels (depth + 1) (left ++ others ++ (length, symbol) :: after) with
              ⟨hung, hungSplit, holds⟩
          have sameHung : left = hung := List.append_cancel_right (split.symm.trans hungSplit)
          have notLeft := holds symbol fun used member =>
            new used (List.mem_append_left others (sameHung ▸ member))
          have newRight := fun used member => new used (List.mem_append_right left member)
          rw [space_append] at fits
          rw [List.append_assoc] at deeper
          rw [if_neg low, codeWord?, notLeft, later, space_append, leftSpace,
            Nat.add_sub_cancel_left,
            inductionHypothesis (by omega) deeper.of_append newRight (by omega)]
          rfl

/-! ## The queue of all symbols -/

/-- The symbols with words of one length, in order. -/
def ofLength (lengths : List Nat) (length : Nat) : List (Nat × Nat) :=
  lengths.zipIdx.filter fun used => used.1 == length

theorem canonicalOrder_eq (lengths : List Nat) :
    canonicalOrder lengths =
      (List.range maxLength).flatMap fun short => ofLength lengths (short + 1) := rfl

theorem fst_of_mem_ofLength {lengths : List Nat} {length : Nat} {used : Nat × Nat}
    (member : used ∈ ofLength lengths length) : used.1 = length :=
  eq_of_beq (List.mem_filter.1 member).2

theorem inOrder_canonicalOrder (lengths : List Nat) : InOrder 1 (canonicalOrder lengths) where
  deep := by
    intro used member
    rcases List.mem_flatMap.1 member with ⟨short, inRange, inLength⟩
    have below := List.mem_range.1 inRange
    have same := fst_of_mem_ofLength inLength
    omega
  ascending := by
    rw [canonicalOrder_eq, List.pairwise_flatMap]
    constructor
    · intro short _
      apply List.pairwise_of_forall_mem_list
      intro first firstMember second secondMember
      exact Nat.le_of_eq
        ((fst_of_mem_ofLength firstMember).trans (fst_of_mem_ofLength secondMember).symm)
    · refine List.Pairwise.imp ?_ List.pairwise_lt_range
      intro short next less first firstMember second secondMember
      rw [fst_of_mem_ofLength firstMember, fst_of_mem_ofLength secondMember]
      omega

/-- No symbol stands twice in the queue. -/
theorem distinct_canonicalOrder (lengths : List Nat) :
    (canonicalOrder lengths).Pairwise fun first second => first.2 ≠ second.2 := by
  rw [canonicalOrder_eq, List.pairwise_flatMap]
  constructor
  · intro short _
    apply List.Pairwise.filter
    apply List.pairwise_map.1
    rw [List.zipIdx_map_snd]
    exact List.nodup_range'
  · refine List.Pairwise.imp ?_ List.pairwise_lt_range
    intro short next less first firstMember second secondMember same
    have firstLength := List.mem_zipIdx_iff_getElem?.1 (List.mem_filter.1 firstMember).1
    have secondLength := List.mem_zipIdx_iff_getElem?.1 (List.mem_filter.1 secondMember).1
    rw [fst_of_mem_ofLength firstMember, same] at firstLength
    rw [fst_of_mem_ofLength secondMember, firstLength, Option.some.injEq] at secondLength
    omega

/-- Symbols with words of one length take equal shares. -/
theorem space_of_same_length {queue : List (Nat × Nat)} {length : Nat}
    (same : ∀ used ∈ queue, used.1 = length) :
    space queue = queue.length * 2 ^ (maxLength - length) := by
  induction queue with
  | nil => simp
  | cons head rest inductionHypothesis =>
    rw [space_cons, same head List.mem_cons_self,
      inductionHypothesis fun used member => same used (List.mem_cons_of_mem head member),
      List.length_cons, Nat.succ_mul, Nat.add_comm]

theorem length_filter_zipIdx (lengths : List Nat) (start length : Nat) :
    ((lengths.zipIdx start).filter fun used => used.1 == length).length = lengths.count length := by
  induction lengths generalizing start with
  | nil => rfl
  | cons head rest inductionHypothesis =>
    rw [List.zipIdx_cons, List.filter_cons, List.count_cons]
    split
    · rw [List.length_cons, inductionHypothesis]
    · rw [inductionHypothesis, Nat.add_zero]

theorem space_ofLength (lengths : List Nat) (length : Nat) :
    space (ofLength lengths length) = lengths.count length * 2 ^ (maxLength - length) := by
  rw [space_of_same_length fun used member => fst_of_mem_ofLength member, ofLength,
    length_filter_zipIdx]

open CanonicalCode (leastWord wordValue IsCodeWord)

/-- All shorter words together take the space before the least word of a
length. -/
theorem space_shorter (lengths : List Nat) (count : Nat) (few : count < maxLength) :
    space ((List.range count).flatMap fun short => ofLength lengths (short + 1)) =
      leastWord lengths (count + 1) * 2 ^ (maxLength - (count + 1)) := by
  induction count with
  | zero => simp [leastWord]
  | succ count inductionHypothesis =>
    have half : 2 ^ (maxLength - (count + 1)) = 2 * 2 ^ (maxLength - (count + 1 + 1)) := by
      rw [← Nat.pow_succ']
      congr 1
      omega
    have next : leastWord lengths (count + 1 + 1) =
        2 * (leastWord lengths (count + 1) + lengths.count (count + 1)) := by
      rw [leastWord, if_neg (Nat.succ_ne_zero count)]
    rw [List.range_succ, List.flatMap_append, space_append, List.flatMap_singleton,
      inductionHypothesis (by omega), space_ofLength, ← Nat.add_mul, half, next, ← Nat.mul_assoc,
      Nat.mul_comm _ 2]

/-- Before a symbol stand the shorter words and those of earlier symbols, and
their space is the number of its own word. -/
theorem canonicalOrder_split {lengths : List Nat} {symbol length : Nat}
    (used : lengths[symbol]? = some length) (positive : 0 < length)
    (bounded : length ≤ maxLength) :
    ∃ before after, canonicalOrder lengths = before ++ (length, symbol) :: after ∧
      space before = wordValue lengths symbol length * 2 ^ (maxLength - length) := by
  rcases List.getElem?_eq_some_iff.1 used with ⟨inside, here⟩
  rcases (⟨length - 1, by omega⟩ : ∃ short, length = short + 1) with ⟨short, rfl⟩
  have range : List.range maxLength =
      List.range short ++ short :: (List.range (maxLength - (short + 1))).map (short + 1 + ·) := by
    have sum : maxLength = short + 1 + (maxLength - (short + 1)) := by omega
    calc List.range maxLength
        = List.range (short + 1 + (maxLength - (short + 1))) := congrArg List.range sum
      _ = _ := by
        rw [List.range_add, List.range_succ, List.append_assoc, List.singleton_append]
  have parts : lengths.zipIdx = (lengths.take symbol).zipIdx ++
      (short + 1, symbol) :: (lengths.drop (symbol + 1)).zipIdx (symbol + 1) := by
    have size : (lengths.take symbol).length = symbol :=
      List.length_take_of_le (Nat.le_of_lt inside)
    calc lengths.zipIdx
        = (lengths.take symbol ++ lengths.drop symbol).zipIdx := by rw [List.take_append_drop]
      _ = _ := by
        rw [List.zipIdx_append, List.drop_eq_getElem_cons inside, List.zipIdx_cons, here, size,
          Nat.zero_add]
  have ofShort : ofLength lengths (short + 1) = ofLength (lengths.take symbol) (short + 1) ++
      (short + 1, symbol) ::
        ((lengths.drop (symbol + 1)).zipIdx (symbol + 1)).filter
          fun used => used.1 == short + 1 := by
    rw [ofLength, parts, List.filter_append, List.filter_cons_of_pos (by simp)]
    rfl
  have order := canonicalOrder_eq lengths
  rw [range, List.flatMap_append, List.flatMap_cons, ofShort, List.append_assoc, List.cons_append,
    ← List.append_assoc] at order
  refine ⟨_, _, order, ?_⟩
  rw [space_append, space_shorter lengths short (by omega), space_ofLength, ← Nat.add_mul]
  rfl

/-! ## No more than all code space -/

/-- The space of the words up to some length. -/
def shareUpTo (longest : Nat) : List Nat -> Nat
  | [] => 0
  | length :: rest =>
    (if 0 < length ∧ length ≤ longest then 2 ^ (maxLength - length) else 0) + shareUpTo longest rest

theorem shareUpTo_succ (lengths : List Nat) (longest : Nat) :
    shareUpTo (longest + 1) lengths =
      shareUpTo longest lengths +
        lengths.count (longest + 1) * 2 ^ (maxLength - (longest + 1)) := by
  induction lengths with
  | nil => simp [shareUpTo]
  | cons length rest inductionHypothesis =>
    simp only [shareUpTo, inductionHypothesis, List.count_cons, beq_iff_eq, Nat.add_mul]
    by_cases new : length = longest + 1
    · have notBefore : ¬ (0 < length ∧ length ≤ longest) := by omega
      have now : 0 < length ∧ length ≤ longest + 1 := by omega
      rw [if_neg notBefore, if_pos now, if_pos new, new]
      omega
    · have same : (0 < length ∧ length ≤ longest + 1) <-> (0 < length ∧ length ≤ longest) := by
        omega
      simp only [same, if_neg new]
      omega

theorem space_eq_shareUpTo (lengths : List Nat) (longest : Nat) :
    space ((List.range longest).flatMap fun short => ofLength lengths (short + 1)) =
      shareUpTo longest lengths := by
  induction longest with
  | zero =>
    have nothing : shareUpTo 0 lengths = 0 := by
      induction lengths with
      | nil => rfl
      | cons length rest inductionHypothesis =>
        rw [shareUpTo, inductionHypothesis, if_neg (by omega)]
    rw [nothing]
    rfl
  | succ longest inductionHypothesis =>
    rw [List.range_succ, List.flatMap_append, space_append, List.flatMap_singleton,
      inductionHypothesis, space_ofLength, shareUpTo_succ]

theorem shareUpTo_le_share (lengths : List Nat) (longest : Nat) :
    shareUpTo longest lengths ≤ LengthSet.share lengths := by
  induction lengths with
  | nil => exact Nat.le_refl 0
  | cons length rest inductionHypothesis =>
    by_cases used : 0 < length
    · have one : LengthSet.share (length :: rest) =
          2 ^ (maxLength - length) + LengthSet.share rest := by
        rw [LengthSet.share, List.filter_cons_of_pos (by simpa using used), List.foldr_cons,
          Nat.one_shiftLeft]
        rfl
      rw [shareUpTo, one]
      apply Nat.add_le_add _ inductionHypothesis
      split
      · exact Nat.le_refl _
      · exact Nat.zero_le _
    · have none : LengthSet.share (length :: rest) = LengthSet.share rest := by
        rw [LengthSet.share, List.filter_cons_of_neg (by simpa using used)]
        rfl
      rw [shareUpTo, none, if_neg fun both => used both.1, Nat.zero_add]
      exact inductionHypothesis

/-! ## Paths are code words -/

theorem ofNat_succ_last (width value : Nat) (small : value < 2 ^ (width + 1)) :
    Bits.ofNat (width + 1) value =
      Bits.ofNat width (if value < 2 ^ width then value else value - 2 ^ width) ++
        [decide (2 ^ width ≤ value)] := by
  induction width generalizing value with
  | zero =>
    have cases : value = 0 ∨ value = 1 := by omega
    rcases cases with rfl | rfl <;> rfl
  | succ width inductionHypothesis =>
    have double := Nat.pow_succ 2 width
    have doubleAgain := Nat.pow_succ 2 (width + 1)
    have half : value / 2 < 2 ^ (width + 1) := by omega
    rw [Bits.ofNat, inductionHypothesis _ half]
    by_cases low : value < 2 ^ (width + 1)
    · have lowHalf : value / 2 < 2 ^ width := by omega
      have noBit : ¬ 2 ^ width ≤ value / 2 := by omega
      have noTop : ¬ 2 ^ (width + 1) ≤ value := by omega
      simp only [if_pos low, if_pos lowHalf, noBit, noTop, decide_false, Bits.ofNat,
        List.cons_append]
    · have highHalf : ¬ value / 2 < 2 ^ width := by omega
      have bit : 2 ^ width ≤ value / 2 := by omega
      have top : 2 ^ (width + 1) ≤ value := by omega
      have parity : (value - 2 ^ (width + 1)) % 2 = value % 2 := by omega
      have halved : (value - 2 ^ (width + 1)) / 2 = value / 2 - 2 ^ width := by omega
      simp only [if_neg low, if_neg highHalf, bit, top, decide_true, Bits.ofNat,
        List.cons_append, parity, halved]

/-- A path down a tree spells the number of its place. -/
theorem path_eq (levels count value : Nat) (short : count ≤ levels) (small : value < 2 ^ count) :
    path levels count (value * 2 ^ (levels - count)) = (Bits.ofNat count value).reverse := by
  induction levels generalizing count value with
  | zero =>
    have none : count = 0 := by omega
    subst none
    rfl
  | succ levels inductionHypothesis =>
    cases count with
    | zero => rfl
    | succ count =>
      have scale : 2 ^ levels = 2 ^ count * 2 ^ (levels - count) := by
        rw [← Nat.pow_add]
        congr 1
        omega
      have positive := Nat.two_pow_pos (levels - count)
      have compare : value * 2 ^ (levels - count) < 2 ^ levels <-> value < 2 ^ count := by
        rw [scale]
        exact Nat.mul_lt_mul_right positive
      have double := Nat.pow_succ 2 count
      rw [Nat.add_sub_add_right, path, ofNat_succ_last count value small, List.reverse_append]
      by_cases low : value < 2 ^ count
      · have noTop : ¬ 2 ^ count ≤ value := by omega
        rw [if_pos (compare.2 low), if_pos low, inductionHypothesis count value (by omega) low]
        simp only [noTop, decide_false, List.reverse_singleton, List.singleton_append]
      · have top : 2 ^ count ≤ value := by omega
        have less : value * 2 ^ (levels - count) - 2 ^ levels =
            (value - 2 ^ count) * 2 ^ (levels - count) := by
          rw [scale, Nat.sub_mul]
        rw [if_neg fun below => low (compare.1 below), if_neg low, less,
          inductionHypothesis count (value - 2 ^ count) (by omega) (by omega)]
        simp only [top, decide_true, List.reverse_singleton, List.singleton_append]

/-- Where the words of the given lengths do not claim more than all code space,
the path to the leaf of a symbol is its code word. -/
theorem codeWord?_ofLengths {lengths : List Nat} {symbol : Nat} {word : List Bool}
    (fits : LengthSet.share lengths ≤ 1 <<< maxLength) (isWord : IsCodeWord lengths symbol word) :
    (ofLengths lengths).codeWord? symbol = some word := by
  rcases isWord with ⟨length, used, positive, bounded, rfl⟩
  rcases canonicalOrder_split used positive bounded with ⟨before, after, order, place⟩
  have inOrder := inOrder_canonicalOrder lengths
  have distinct := distinct_canonicalOrder lengths
  rw [order] at inOrder distinct
  have new := fun used member =>
    (List.pairwise_append.1 distinct).2.2 used member (length, symbol) List.mem_cons_self
  have room : space before + 2 ^ (maxLength - length) ≤ 2 ^ maxLength := by
    have all := space_eq_shareUpTo lengths maxLength
    have share := shareUpTo_le_share lengths maxLength
    rw [← canonicalOrder_eq, order, space_append, space_cons] at all
    rw [Nat.one_shiftLeft] at fits
    simp only at all
    omega
  have whole : (grow maxLength 0 (canonicalOrder lengths)).1 = ofLengths lengths := by
    have lowest := inOrder.deep
    rw [← order] at lowest
    cases queue : canonicalOrder lengths with
    | nil =>
      rw [queue] at order
      exact absurd order.symm (by simp)
    | cons head rest =>
      have above := (lowest head (queue ▸ List.mem_cons_self)).1
      rcases head with ⟨first, firstSymbol⟩
      have notRoot : first ≠ 0 := by
        simp only at above
        omega
      rw [show maxLength = (maxLength - 1) + 1 from rfl, grow_of_deeper notRoot, ofLengths, queue]
  have root : maxLength + 0 = maxLength := rfl
  have found := codeWord?_grow root
    ⟨fun used member => ⟨Nat.zero_le _, (inOrder.deep used member).2⟩, inOrder.ascending⟩ new room
  have small : wordValue lengths symbol length < 2 ^ length := by
    have scale : 2 ^ maxLength = 2 ^ length * 2 ^ (maxLength - length) := by
      rw [← Nat.pow_add]
      congr 1
      omega
    have unit := Nat.two_pow_pos (maxLength - length)
    rw [place, scale] at room
    exact Nat.lt_of_mul_lt_mul_right (Nat.lt_of_lt_of_le (Nat.lt_add_of_pos_right unit) room)
  rwa [← order, whole, place, Nat.sub_zero, path_eq maxLength length _ bounded small] at found

theorem follow_ofLengths {lengths : List Nat} {symbol : Nat} {word : List Bool}
    (fits : LengthSet.share lengths ≤ 1 <<< maxLength) (isWord : IsCodeWord lengths symbol word) :
    (ofLengths lengths).follow word = leaf symbol :=
  follow_codeWord? (codeWord?_ofLengths fits isWord)

end CodeTree

end Deflate
end HeaderCodec
