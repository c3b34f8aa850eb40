import HeaderCodec.Proofs.Gathering
import HeaderCodec.Proofs.PeerView

namespace HeaderCodec

/-!
# Values and their joined text

A name may have any number of values, but a block gives it one text.  Any values can be
joined, also those that are not found again, and what is found instead is easily said: the
pieces of each value, one value after the other.  So values are found again just when there
are any and none of them can be cut.  `Joinable` is what an encoder has to make sure of,
and it is all that is needed.  In the other direction nothing has to be assumed, since every
text is the joined form of its pieces.

The length of a joined text is found in two ways.  It is counted before anything is
written, and it is measured when the text is written with its length before it.  Both give
the same number for all values.  A word does not hold every number, though, and the
encoder's limit is the exact one: beyond it, what is written is no text of the layout.
-/

namespace Text

/-! ## Joining and splitting -/

/-- Values that are found again in their joined text.  A list without values is not: it is
joined to the same text as one empty value. -/
structure Joinable (values : List String) : Prop where
  nonempty : values ≠ []
  clean : ∀ value ∈ values, separator ∉ value.toList

/-- Joined values are cut where each of them is cut, and between them. -/
theorem split_join_eq_flatMap {values : List String} (nonempty : values ≠ []) :
    split (join values) = values.flatMap split := by
  induction values with
  | nil => exact absurd rfl nonempty
  | cons value rest inductionHypothesis =>
    cases rest with
    | nil => rw [join_singleton, List.flatMap_cons, List.flatMap_nil, List.append_nil]
    | cons next others =>
      rw [List.flatMap_cons, join_cons_cons, split_append,
        inductionHypothesis (List.cons_ne_nil next others)]

theorem joinable_split (text : String) : Joinable (split text) where
  nonempty := split_ne_nil text
  clean _ := separator_not_mem_split

/-- The pieces of a text are the only values that can be found again in it. -/
theorem split_eq_iff {text : String} {values : List String} :
    split text = values <-> Joinable values ∧ join values = text := by
  constructor
  · rintro rfl
    exact ⟨joinable_split text, join_split text⟩
  · rintro ⟨joinable, rfl⟩
    apply split_join joinable.nonempty
    intro value member
    apply Bool.eq_false_iff.2
    intro holds
    exact joinable.clean value member ((hasSeparator_iff value).1 holds)

theorem split_join_iff {values : List String} :
    split (join values) = values <-> Joinable values := by
  rw [split_eq_iff]
  exact and_iff_left rfl

/-! ## The length of a joined text -/

theorem joinedLength_eq (values : List String) :
    joinedLength values = (values.map String.utf8ByteSize).sum + (values.length - 1) := by
  induction values with
  | nil => rfl
  | cons value rest inductionHypothesis =>
    cases rest with
    | nil =>
      rw [joinedLength_singleton, List.map_singleton, List.sum_singleton]
      rfl
    | cons next others =>
      rw [joinedLength_cons_cons, inductionHypothesis]
      simp only [List.map_cons, List.sum_cons, List.length_cons]
      omega

end Text

namespace Block

/-- The length before the text is the one that was counted. -/
theorem writeEntry_eq (name : String) (values : List String) :
    writeEntry ⟨name, values⟩ =
      writeText name ++ (Word.toBytes (Text.joinedLength values) ++
        Utf8.encode (Text.join values)) := by
  rw [← Text.length_encode_join]
  rfl

theorem isText_writeText_join_iff (values : List String) :
    IsText (Utf8.encode (Text.join values)) (writeText (Text.join values)) <->
      Text.joinedLength values < Word.limit := by
  rw [isText_writeText_iff, Text.length_encode_join]

end Block

/-! ## Both directions -/

namespace Text

/-- How values are found in the text that joins them. -/
structure FoundAgain (values : List String) : Prop where
  /-- They come back if none of them can be cut, and there are any. -/
  split_join_iff : split (join values) = values <-> Joinable values
  /-- Of other values the pieces are found. -/
  split_join_eq_flatMap : values ≠ [] -> split (join values) = values.flatMap split

/-- How a text is the joined form of its pieces. -/
structure CutUp (text : String) : Prop where
  /-- It is cut at every separator and nowhere else. -/
  splits : Splits text (split text)
  joinable : Joinable (split text)
  join_split : join (split text) = text

/-- What the length is that is counted for values. -/
structure Counted (values : List String) : Prop where
  /-- It counts their bytes and the separators between them. -/
  joinedLength_eq :
    joinedLength values = (values.map String.utf8ByteSize).sum + (values.length - 1)
  /-- It counts the bytes of the text that is written for them. -/
  length_encode_join : (Utf8.encode (join values)).length = joinedLength values
  /-- It stands before that text as a word. -/
  writeEntry_eq : ∀ name, Block.writeEntry ⟨name, values⟩ = Block.writeText name ++
    (Word.toBytes (joinedLength values) ++ Utf8.encode (join values))
  /-- Both together are a text of the layout as long as it is below the limit. -/
  isText_iff : Block.IsText (Utf8.encode (join values)) (Block.writeText (join values)) <->
    joinedLength values < Word.limit

/-- Splitting undoes joining for the values that can be joined, and joining undoes
splitting for every text.  The length that is counted before is right for all values. -/
theorem join_split_inverse (values : List String) (text : String) :
    FoundAgain values ∧ CutUp text ∧ Counted values := by
  refine ⟨⟨split_join_iff, split_join_eq_flatMap⟩, ?_, ?_⟩
  · exact ⟨splits_split text, joinable_split text, join_split text⟩
  · exact ⟨joinedLength_eq values, length_encode_join values,
      fun name => Block.writeEntry_eq name values, Block.isText_writeText_join_iff values⟩

/-- Empty values come back from every place, and a value with a NUL comes back as two. -/
theorem join_split_inverse_emptyValues :
    Joinable ["", "a=1", "", ""] ∧
      split (join ["", "a=1", "", ""]) = ["", "a=1", "", ""] ∧
      joinedLength ["", "a=1", "", ""] = 6 ∧
      ["a\x00", "b"] ≠ [] ∧ split (join ["a\x00", "b"]) = ["a", "", "b"] := by
  have joinable : Joinable ["", "a=1", "", ""] := ⟨by decide, by decide⟩
  have some : ["a\x00", "b"] ≠ [] := by decide
  rcases join_split_inverse ["", "a=1", "", ""] "" with ⟨found, _, counted⟩
  refine ⟨joinable, found.split_join_iff.2 joinable, counted.joinedLength_eq, some, ?_⟩
  rw [(join_split_inverse ["a\x00", "b"] "").1.split_join_eq_flatMap some]
  decide +kernel

end Text

end HeaderCodec
