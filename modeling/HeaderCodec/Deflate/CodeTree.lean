namespace HeaderCodec
namespace Deflate

/-!
# Prefix codes as trees

A block of a compressed stream describes a code only by the length of each
symbol's code word.  The words themselves follow from the lengths: shorter
words come before longer ones, words of one length are in the order of their
symbols, and each word is the least that is possible.  A tree in which code
words are paths makes this short.  Walking it from left to right meets the
leaves in exactly that order, so the tree is grown by taking the symbols in
order of length and hanging each one at the first place of its depth.

No list of lengths is refused by `grow`; which lists describe a code is the
separate matter of `LengthSet`, stated by the sum of the shares of the code
space that the words take.  A set may leave code space unused in two
cases that the format admits, and then the tree has `absent` branches.
-/

/-- A prefix code.  A code word is the path to a leaf, and an `absent` branch
is the beginning of no code word. -/
inductive CodeTree where
  | absent
  | leaf (symbol : Nat)
  | node (zero one : CodeTree)
deriving DecidableEq, Repr, Inhabited

namespace CodeTree

/-- The branch below a node for one bit of a code word. -/
def branch : CodeTree -> Bool -> CodeTree
  | node zero one, bit => if bit then one else zero
  | _, _ => absent

/-- The greatest length of a code word. -/
def maxLength : Nat := 15

/-- The symbols that have a code word, each with its length, in the order of
their code words.  The symbol at position `i` of `lengths` is `i`, and length
zero means that a symbol is not used. -/
def canonicalOrder (lengths : List Nat) : List (Nat × Nat) :=
  (List.range maxLength).flatMap fun short =>
    lengths.zipIdx.filter fun used => used.1 == short + 1

/-- The tree at some depth, with `levels` more levels to go, that begins with
the first symbol of the queue, and the symbols that did not fit into it. -/
def grow : (levels depth : Nat) -> List (Nat × Nat) -> CodeTree × List (Nat × Nat)
  | _, _, [] => (absent, [])
  | 0, depth, (length, symbol) :: rest =>
    if length = depth then (leaf symbol, rest) else (absent, (length, symbol) :: rest)
  | levels + 1, depth, (length, symbol) :: rest =>
    if length = depth then (leaf symbol, rest)
    else
      let zero := grow levels (depth + 1) ((length, symbol) :: rest)
      let one := grow levels (depth + 1) zero.2
      (node zero.1 one.1, one.2)

/-- The code of a list of lengths.  Its root is always a node, so that at least
one bit is read even where no symbol has a code word. -/
def ofLengths (lengths : List Nat) : CodeTree :=
  let zero := grow (maxLength - 1) 1 (canonicalOrder lengths)
  let one := grow (maxLength - 1) 1 zero.2
  node zero.1 one.1

/-- The code word of a symbol: the path to its first leaf. -/
def codeWord? (symbol : Nat) : CodeTree -> Option (List Bool)
  | absent => none
  | leaf found => if found = symbol then some [] else none
  | node zero one =>
    match zero.codeWord? symbol with
    | some path => some (false :: path)
    | none => (one.codeWord? symbol).map (true :: ·)

/-- Follow a path down a tree. -/
def follow : CodeTree -> List Bool -> CodeTree
  | tree, [] => tree
  | tree, bit :: rest => (tree.branch bit).follow rest

@[simp] theorem branch_node (zero one : CodeTree) (bit : Bool) :
    (node zero one).branch bit = if bit then one else zero := rfl

theorem follow_codeWord? {symbol : Nat} {tree : CodeTree} {path : List Bool}
    (found : tree.codeWord? symbol = some path) : tree.follow path = leaf symbol := by
  induction tree generalizing path with
  | absent => simp [codeWord?] at found
  | leaf other =>
    simp only [codeWord?] at found
    split at found
    · rename_i same
      simp only [Option.some.injEq] at found
      subst found
      simp [follow, same]
    · contradiction
  | node zero one zeroHypothesis oneHypothesis =>
    simp only [codeWord?] at found
    split at found
    · rename_i below inZero
      simp only [Option.some.injEq] at found
      subst found
      simpa [follow] using zeroHypothesis inZero
    · rename_i notInZero
      obtain ⟨below, inOne, rfl⟩ := Option.map_eq_some_iff.1 found
      simpa [follow] using oneHypothesis inOne

end CodeTree

/-! ## Which lists of lengths describe a code -/

namespace LengthSet

/-- The share of the code space that the words of the given lengths take, in
units of a word of the greatest length. -/
def share (lengths : List Nat) : Nat :=
  (lengths.filter (0 < ·)).foldr (fun length rest => 1 <<< (CodeTree.maxLength - length) + rest) 0

/-- Every sequence of bits begins with a code word, and no two words collide. -/
def IsComplete (lengths : List Nat) : Prop :=
  share lengths = 1 <<< CodeTree.maxLength

/-- No symbol is used. -/
def IsEmpty (lengths : List Nat) : Prop :=
  lengths.filter (0 < ·) = []

/-- A single symbol is used, with a word of one bit. -/
def IsSingle (lengths : List Nat) : Prop :=
  lengths.filter (0 < ·) = [1]

instance (lengths : List Nat) : Decidable (IsComplete lengths) :=
  inferInstanceAs (Decidable (_ = _))

instance (lengths : List Nat) : Decidable (IsEmpty lengths) :=
  inferInstanceAs (Decidable (_ = _))

instance (lengths : List Nat) : Decidable (IsSingle lengths) :=
  inferInstanceAs (Decidable (_ = _))

/-- The code of literals or of distances.  Unused code space is admitted when
there is no symbol, or only one and its word has one bit. -/
def symbolCode? (lengths : List Nat) : Option CodeTree :=
  if IsComplete lengths ∨ IsEmpty lengths ∨ IsSingle lengths then
    some (CodeTree.ofLengths lengths)
  else none

/-- The code in which the lengths of the other codes are written.  It must be
complete, unless it has no symbol at all; then each bit stands for length
zero. -/
def lengthCode? (lengths : List Nat) : Option CodeTree :=
  if IsComplete lengths then some (CodeTree.ofLengths lengths)
  else if IsEmpty lengths then some (.node (.leaf 0) (.leaf 0))
  else none

end LengthSet

end Deflate
end HeaderCodec
