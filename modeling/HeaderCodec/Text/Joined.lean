import HeaderCodec.Bytes.Utf8

namespace HeaderCodec
namespace Text

/-!
# Values joined by NUL

A block gives each name a single text.  Several values are joined with a NUL
between them, so a value that holds NUL cannot be sent, and an empty text is
one empty value.  Splitting and joining undo each other, except that a list
without values has no joined form of its own.
-/

/-- The character between values. -/
def separator : Char := '\x00'

/-- Join values. -/
def join (values : List String) : String :=
  String.ofList ([separator].intercalate (values.map String.toList))

/-- Split a text into the values that were joined. -/
def split (text : String) : List String :=
  (text.toList.splitOn separator).map String.ofList

/-- The number of bytes of joined values, counted without joining them. -/
def joinedLength (values : List String) : Nat :=
  values.foldl (fun length value => length + value.utf8ByteSize) (values.length - 1)

/-- Whether a text holds the separator. -/
def hasSeparator (text : String) : Bool :=
  text.toList.contains separator

theorem split_ne_nil (text : String) : split text ≠ [] := by
  simp [split]

theorem join_singleton (value : String) : join [value] = value := by
  rw [join, List.map_singleton, List.intercalate_singleton, String.ofList_toList]

theorem join_cons_cons (value next : String) (others : List String) :
    join (value :: next :: others) =
      value ++ String.singleton separator ++ join (next :: others) := by
  apply String.toList_inj.1
  simp only [join, List.map_cons, List.intercalate_cons_cons, String.toList_append,
    String.toList_ofList, String.toList_singleton]

/-- A separator is a border: what is before it and what is behind it are split on
their own. -/
theorem split_append (before behind : String) :
    split (before ++ String.singleton separator ++ behind) = split before ++ split behind := by
  have cuts := @List.splitOnP_append_cons Char (· == separator) before.toList behind.toList
    separator (beq_self_eq_true separator)
  unfold split
  rw [← List.map_append, String.toList_append, String.toList_append, String.toList_singleton,
    List.append_assoc, List.singleton_append]
  exact congrArg (List.map String.ofList) cuts

theorem joinedLength_singleton (value : String) : joinedLength [value] = value.utf8ByteSize :=
  Nat.zero_add _

/-- A value that others follow costs one byte more, for the separator. -/
theorem joinedLength_cons_cons (value next : String) (others : List String) :
    joinedLength (value :: next :: others) =
      value.utf8ByteSize + 1 + joinedLength (next :: others) := by
  have start : others.length + 1 + value.utf8ByteSize = value.utf8ByteSize + 1 + others.length := by
    omega
  calc joinedLength (value :: next :: others)
    _ = (next :: others).foldl (fun length value => length + value.utf8ByteSize)
          (value.utf8ByteSize + 1 + others.length) := by rw [← start]; rfl
    _ = value.utf8ByteSize + 1 + joinedLength (next :: others) :=
      List.foldl_hom (value.utf8ByteSize + 1 + ·) fun _ _ => Nat.add_assoc _ _ _

end Text
end HeaderCodec
