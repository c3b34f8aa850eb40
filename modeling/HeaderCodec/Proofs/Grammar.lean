import HeaderCodec.Block

namespace HeaderCodec
namespace Block

/-!
# The grammar of blocks

Which bytes are a block, and what they mean, is said here by writing: a block
is what `layout` writes for a list of entries.  The plan of reading is then
shown to accept exactly the blocks of the grammar that fit into its budget.

The plan charges its budget field by field and compares the number of entries
with the budget before it has seen any of them.  Neither is visible from
outside.  A block that fits is never refused on the way, and one that does not
fit is refused with the budget as the reason, wherever it is that the budget is
exceeded.
-/

/-- A name and the text of its joined values as they stand in a block. -/
structure Entry where
  name : String
  text : String
deriving DecidableEq, Repr

/-- How an entry is written. -/
def Entry.bytes (entry : Entry) : List UInt8 :=
  writeText entry.name ++ writeText entry.text

/-- An entry that may stand in a block. -/
structure Entry.Proper (entry : Entry) : Prop where
  named : entry.name ≠ ""
  shortName : (Utf8.encode entry.name).length < Word.limit
  shortText : (Utf8.encode entry.text).length < Word.limit

/-- How a block is written. -/
def layout (entries : List Entry) : List UInt8 :=
  Word.toBytes entries.length ++ entries.flatMap Entry.bytes

/-- Entries that make up a block. -/
structure Proper (entries : List Entry) : Prop where
  count : entries.length < Word.limit
  each : ∀ entry ∈ entries, entry.Proper

/-- What a block means: its texts are split into values, and all values are
collected under their names. -/
def meaning (entries : List Entry) : Headers :=
  Headers.ofList (entries.flatMap fun entry => (Text.split entry.text).map (entry.name, ·))

/-- Add the values of entries to headers, one entry at a time. -/
def collect (headers : Headers) (entries : List Entry) : Headers :=
  entries.foldl (fun headers entry => headers.appendAll entry.name (Text.split entry.text)) headers

theorem extend_values (headers : Headers) (name : String) (values : List String) :
    headers.extend (values.map (name, ·)) = headers.appendAll name values := by
  rw [Headers.appendAll_eq_foldl, Headers.extend, List.foldl_map]

theorem collect_eq (headers : Headers) (entries : List Entry) :
    collect headers entries =
      headers.extend (entries.flatMap fun entry =>
        (Text.split entry.text).map (entry.name, ·)) := by
  induction entries generalizing headers with
  | nil => rfl
  | cons entry rest inductionHypothesis =>
    rw [List.flatMap_cons, Headers.extend_append, extend_values, ← inductionHypothesis]
    rfl

theorem length_writeText (text : String) :
    (writeText text).length = 4 + (Utf8.encode text).length := by
  simp [writeText]

theorem length_bytes (entry : Entry) :
    entry.bytes.length = 8 + (Utf8.encode entry.name).length + (Utf8.encode entry.text).length := by
  rw [Entry.bytes, List.length_append, length_writeText, length_writeText]
  omega

/-- No entry takes less space than the least that is reckoned with. -/
theorem le_length_entries (entries : List Entry) :
    entries.length * leastEntrySize ≤ (entries.flatMap Entry.bytes).length := by
  induction entries with
  | nil => exact Nat.le_refl 0
  | cons entry rest inductionHypothesis =>
    have size := length_bytes entry
    rw [leastEntrySize] at inductionHypothesis ⊢
    rw [List.flatMap_cons, List.length_cons, List.length_append]
    omega

/-! ## Fields -/

variable {Result : Type} {limit remaining count : Nat} {bytes rest : List UInt8} {result : Result}
  {next : List UInt8 -> Nat -> Plan Result}

theorem follow_readField (field rest : List UInt8) (enough : field.length ≤ remaining) :
    (readField limit remaining field.length next).follow (field ++ rest) =
      (next field (remaining - field.length)).follow rest := by
  have present : field.length ≤ (field ++ rest).length := by
    rw [List.length_append]
    exact Nat.le_add_right _ _
  rw [readField, if_neg (Nat.not_lt.2 enough), Plan.follow, if_pos present, List.take_left,
    List.drop_left]

theorem follow_readField_of_lt (few : remaining < count) (bytes : List UInt8) :
    (readField limit remaining count next).follow bytes =
      some (.error (.blockTooLarge limit), bytes) := by
  rw [readField, if_pos few, Plan.follow]

/-- Only a field that is there and fits is read. -/
theorem field_of_follow
    (read : (readField limit remaining count next).follow bytes = some (.ok result, rest)) :
    ∃ field left, bytes = field ++ left ∧ field.length = count ∧ count ≤ remaining ∧
      (next field (remaining - count)).follow left = some (.ok result, rest) := by
  by_cases few : remaining < count
  · rw [follow_readField_of_lt few] at read
    cases read
  · rw [readField, if_neg few, Plan.follow] at read
    split at read
    · rename_i present
      exact ⟨bytes.take count, bytes.drop count, (List.take_append_drop count bytes).symm,
        List.length_take_of_le present, Nat.le_of_not_lt few, read⟩
    · cases read

theorem follow_readWord {next : Nat -> Nat -> Plan Result} {value : Nat}
    (small : value < Word.limit) (rest : List UInt8) (enough : 4 ≤ remaining) :
    (readWord limit remaining next).follow (Word.toBytes value ++ rest) =
      (next value (remaining - 4)).follow rest := by
  apply (follow_readField (Word.toBytes value) rest enough).trans
  rw [Word.ofBytes_toBytes value small]
  rfl

theorem word_of_follow {next : Nat -> Nat -> Plan Result}
    (read : (readWord limit remaining next).follow bytes = some (.ok result, rest)) :
    ∃ value left, bytes = Word.toBytes value ++ left ∧ value < Word.limit ∧ 4 ≤ remaining ∧
      (next value (remaining - 4)).follow left = some (.ok result, rest) := by
  rcases field_of_follow read with ⟨field, left, rfl, four, enough, later⟩
  refine ⟨Word.ofBytes field, left, ?_, Word.ofBytes_lt field four, enough, later⟩
  rw [Word.toBytes_ofBytes field four]

/-! ## Texts -/

theorem follow_readText {text : String} (short : (Utf8.encode text).length < Word.limit)
    (rest : List UInt8) (enough : (writeText text).length ≤ remaining) :
    (readText limit remaining next).follow (writeText text ++ rest) =
      (next (Utf8.encode text) (remaining - (writeText text).length)).follow rest := by
  rw [length_writeText] at enough ⊢
  rw [readText, writeText, List.append_assoc, follow_readWord short _ (by omega),
    follow_readField _ _ (by omega), Nat.sub_sub]

/-- A text that does not fit is refused before its length or after it. -/
theorem follow_readText_of_lt {text : String} (short : (Utf8.encode text).length < Word.limit)
    (rest : List UInt8) (few : remaining < (writeText text).length) :
    ∃ left, (readText limit remaining next).follow (writeText text ++ rest) =
      some (.error (.blockTooLarge limit), left) := by
  rw [length_writeText] at few
  rw [readText, writeText, List.append_assoc]
  by_cases word : 4 ≤ remaining
  · rw [follow_readWord short _ word, follow_readField_of_lt (by omega)]
    exact ⟨_, rfl⟩
  · rw [readWord, follow_readField_of_lt (by omega)]
    exact ⟨_, rfl⟩

theorem text_of_follow
    (read : (readText limit remaining next).follow bytes = some (.ok result, rest)) :
    ∃ field left, bytes = Word.toBytes field.length ++ field ++ left ∧
      field.length < Word.limit ∧ 4 + field.length ≤ remaining ∧
      (next field (remaining - (4 + field.length))).follow left = some (.ok result, rest) := by
  rcases word_of_follow read with ⟨value, others, rfl, small, four, later⟩
  rcases field_of_follow later with ⟨field, left, rfl, rfl, enough, last⟩
  refine ⟨field, left, (List.append_assoc _ _ _).symm, small, by omega, ?_⟩
  rw [← Nat.sub_sub]
  exact last

/-! ## Entries -/

variable {headers found : Headers}

theorem not_isEmpty {name : String} (named : name ≠ "") : name.isEmpty = false := by
  rw [Bool.eq_false_iff]
  intro empty
  exact named (String.isEmpty_iff.1 empty)

theorem follow_readEntry {entry : Entry} (proper : entry.Proper) (rest : List UInt8)
    (enough : entry.bytes.length ≤ remaining) :
    (readEntries limit (count + 1) remaining headers).follow (entry.bytes ++ rest) =
      (readEntries limit count (remaining - entry.bytes.length)
        (headers.appendAll entry.name (Text.split entry.text))).follow rest := by
  have parts : entry.bytes.length =
      (writeText entry.name).length + (writeText entry.text).length := List.length_append
  rw [readEntries, Entry.bytes, List.append_assoc,
    follow_readText proper.shortName _ (by omega)]
  simp only [Utf8.decode?_encode, not_isEmpty proper.named, Bool.false_eq_true, if_false]
  rw [follow_readText proper.shortText _ (by omega)]
  simp only [Utf8.decode?_encode]
  rw [List.length_append, Nat.sub_sub]

theorem follow_readEntry_of_lt {entry : Entry} (proper : entry.Proper) (rest : List UInt8)
    (few : remaining < entry.bytes.length) :
    ∃ left, (readEntries limit (count + 1) remaining headers).follow (entry.bytes ++ rest) =
      some (.error (.blockTooLarge limit), left) := by
  have parts : entry.bytes.length =
      (writeText entry.name).length + (writeText entry.text).length := List.length_append
  rw [readEntries, Entry.bytes, List.append_assoc]
  by_cases name : (writeText entry.name).length ≤ remaining
  · rw [follow_readText proper.shortName _ name]
    simp only [Utf8.decode?_encode, not_isEmpty proper.named, Bool.false_eq_true, if_false]
    exact follow_readText_of_lt proper.shortText rest (by omega)
  · exact follow_readText_of_lt proper.shortName _ (by omega)

/-- Only a proper entry is read. -/
theorem entry_of_follow
    (read : (readEntries limit (count + 1) remaining headers).follow bytes =
      some (.ok found, rest)) :
    ∃ (entry : Entry) (left : List UInt8), entry.Proper ∧ bytes = entry.bytes ++ left ∧
      entry.bytes.length ≤ remaining ∧
      (readEntries limit count (remaining - entry.bytes.length)
        (headers.appendAll entry.name (Text.split entry.text))).follow left =
          some (.ok found, rest) := by
  rw [readEntries] at read
  rcases text_of_follow read with ⟨nameBytes, others, rfl, shortName, nameFits, afterName⟩
  cases decodedName : Utf8.decode? nameBytes with
  | none =>
    simp only [decodedName, malformed, Plan.follow] at afterName
    cases afterName
  | some name =>
    simp only [decodedName] at afterName
    by_cases empty : name.isEmpty = true
    · simp only [if_pos empty, malformed, Plan.follow] at afterName
      cases afterName
    · simp only [if_neg empty] at afterName
      rcases text_of_follow afterName with ⟨textBytes, left, rfl, shortText, textFits, afterText⟩
      cases decodedText : Utf8.decode? textBytes with
      | none =>
        simp only [decodedText, malformed, Plan.follow] at afterText
        cases afterText
      | some text =>
        simp only [decodedText] at afterText
        rcases Utf8.encode_of_decode? decodedName with rfl
        rcases Utf8.encode_of_decode? decodedText with rfl
        have size := length_bytes ⟨name, text⟩
        have named : name ≠ "" := fun same => empty (String.isEmpty_iff.2 same)
        refine ⟨⟨name, text⟩, left, ⟨named, shortName, shortText⟩, ?_, ?_, ?_⟩
        · simp only [Entry.bytes, writeText, List.append_assoc]
        · simp only at size
          omega
        · have charged : remaining - (Entry.mk name text).bytes.length =
              remaining - (4 + (Utf8.encode name).length) -
                (4 + (Utf8.encode text).length) := by
            simp only at size
            omega
          rw [charged]
          exact afterText

theorem follow_readEntries (entries : List Entry) (proper : ∀ entry ∈ entries, entry.Proper)
    (rest : List UInt8) (enough : (entries.flatMap Entry.bytes).length ≤ remaining) :
    (readEntries limit entries.length remaining headers).follow
        (entries.flatMap Entry.bytes ++ rest) = some (.ok (collect headers entries), rest) := by
  induction entries generalizing remaining headers with
  | nil => rfl
  | cons entry others inductionHypothesis =>
    rw [List.flatMap_cons, List.length_append] at enough
    have later := fun other member => proper other (List.mem_cons_of_mem entry member)
    rw [List.flatMap_cons, List.length_cons, List.append_assoc,
      follow_readEntry (proper entry List.mem_cons_self) _ (by omega),
      inductionHypothesis later (by omega)]
    rfl

theorem follow_readEntries_of_lt (entries : List Entry) (proper : ∀ entry ∈ entries, entry.Proper)
    (rest : List UInt8) (few : remaining < (entries.flatMap Entry.bytes).length) :
    ∃ left, (readEntries limit entries.length remaining headers).follow
        (entries.flatMap Entry.bytes ++ rest) = some (.error (.blockTooLarge limit), left) := by
  induction entries generalizing remaining headers with
  | nil => contradiction
  | cons entry others inductionHypothesis =>
    have here := proper entry List.mem_cons_self
    have later := fun other member => proper other (List.mem_cons_of_mem entry member)
    rw [List.flatMap_cons, List.length_append] at few
    rw [List.flatMap_cons, List.length_cons, List.append_assoc]
    by_cases fits : entry.bytes.length ≤ remaining
    · rw [follow_readEntry here _ fits]
      exact inductionHypothesis later (by omega)
    · exact follow_readEntry_of_lt here _ (by omega)

theorem entries_of_follow
    (read : (readEntries limit count remaining headers).follow bytes = some (.ok found, rest)) :
    ∃ entries : List Entry, entries.length = count ∧ (∀ entry ∈ entries, entry.Proper) ∧
      bytes = entries.flatMap Entry.bytes ++ rest ∧
      (entries.flatMap Entry.bytes).length ≤ remaining ∧ found = collect headers entries := by
  induction count generalizing remaining headers bytes with
  | zero =>
    rw [readEntries, Plan.follow] at read
    cases read
    exact ⟨[], rfl, fun _ member => absurd member List.not_mem_nil, rfl, Nat.zero_le _, rfl⟩
  | succ count inductionHypothesis =>
    rcases entry_of_follow read with ⟨entry, left, proper, rfl, fits, later⟩
    rcases inductionHypothesis later with ⟨entries, size, others, rfl, enough, rfl⟩
    refine ⟨entry :: entries, congrArg (· + 1) size, ?_, ?_, ?_, rfl⟩
    · intro other member
      rcases List.mem_cons.1 member with rfl | behind
      · exact proper
      · exact others other behind
    · rw [List.flatMap_cons, List.append_assoc]
    · rw [List.flatMap_cons, List.length_append]
      omega

/-! ## Blocks -/

variable {entries : List Entry}

theorem length_layout (entries : List Entry) :
    (layout entries).length = 4 + (entries.flatMap Entry.bytes).length := by
  rw [layout, List.length_append, Word.length_toBytes]

/-- A block that fits is read, whatever follows it. -/
theorem follow_read (proper : Proper entries) (rest : List UInt8)
    (fits : (layout entries).length ≤ limit) :
    (read limit).follow (layout entries ++ rest) = some (.ok (meaning entries), rest) := by
  have least := le_length_entries entries
  rw [length_layout] at fits
  rw [read, layout, List.append_assoc, follow_readWord proper.count _ (by omega),
    if_neg (by omega), follow_readEntries entries proper.each rest (by omega), collect_eq]
  rfl

/-- A block that does not fit is refused for that reason. -/
theorem follow_read_of_lt (proper : Proper entries) (rest : List UInt8)
    (large : limit < (layout entries).length) :
    ∃ left, (read limit).follow (layout entries ++ rest) =
      some (.error (.blockTooLarge limit), left) := by
  rw [length_layout] at large
  rw [read, layout, List.append_assoc]
  by_cases word : 4 ≤ limit
  · rw [follow_readWord proper.count _ word]
    split
    · exact ⟨_, rfl⟩
    · exact follow_readEntries_of_lt entries proper.each rest (by omega)
  · rw [readWord, follow_readField_of_lt (by omega)]
    exact ⟨_, rfl⟩

/-- Nothing but a block that fits is read. -/
theorem block_of_follow (done : (read limit).follow bytes = some (.ok found, rest)) :
    ∃ entries, Proper entries ∧ bytes = layout entries ++ rest ∧
      (layout entries).length ≤ limit ∧ found = meaning entries := by
  rcases word_of_follow done with ⟨count, left, rfl, small, word, later⟩
  split at later
  · cases later
  · rcases entries_of_follow later with ⟨entries, rfl, proper, rfl, fits, rfl⟩
    refine ⟨entries, ⟨small, proper⟩, (List.append_assoc _ _ _).symm, ?_, collect_eq _ _⟩
    rw [length_layout]
    omega

end Block
end HeaderCodec
