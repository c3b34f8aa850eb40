import HeaderCodec.Encoder
import HeaderCodec.Proofs.Grammar

namespace HeaderCodec

/-!
# Headers that can be sent

Headers are well formed, and those that an encoder accepts are written as a block
that means the same headers.  So nothing is lost between
writing and reading: neither the order of values, nor empty ones, nor the
spelling of names, although names are lower-cased a second time when they are
read.
-/

/-! ## Texts -/

namespace Text

/-- Joined values are found again when no value holds the separator. -/
theorem split_join {values : List String} (some : values ≠ [])
    (clean : ∀ value ∈ values, hasSeparator value = false) : split (join values) = values := by
  have absent : ∀ text ∈ values.map String.toList, separator ∉ text := by
    intro text member
    rcases List.mem_map.1 member with ⟨value, inside, rfl⟩
    intro holds
    have found : hasSeparator value = true := List.contains_iff_mem.2 holds
    rw [clean value inside] at found
    contradiction
  have nonempty : values.map String.toList ≠ [] := fun none => some (List.map_eq_nil_iff.1 none)
  rw [split, join, String.toList_ofList, List.splitOn_intercalate separator absent nonempty,
    List.map_map]
  have back : String.ofList ∘ String.toList = id := by
    funext text
    exact String.ofList_toList
  rw [back, List.map_id]

theorem length_encode (text : String) : (Utf8.encode text).length = text.utf8ByteSize := by
  rw [Utf8.encode, Array.length_toList]
  rfl

/-- The length that is counted is the length of what is joined. -/
theorem utf8ByteSize_join (values : List String) :
    (join values).utf8ByteSize = joinedLength values := by
  induction values with
  | nil => rfl
  | cons value rest inductionHypothesis =>
    cases rest with
    | nil => rw [join_singleton, joinedLength_singleton]
    | cons next others =>
      rw [join_cons_cons, joinedLength_cons_cons, String.utf8ByteSize_append,
        String.utf8ByteSize_append, inductionHypothesis]
      rfl

theorem length_encode_join (values : List String) :
    (Utf8.encode (join values)).length = joinedLength values := by
  rw [length_encode, utf8ByteSize_join]

end Text

/-! ## Entries in order -/

namespace Headers

/-- A change of a name beyond all others adds an entry at the end. -/
theorem change_of_above {name : String} (values : List String -> List String)
    {entries : List Header} (above : ∀ header ∈ entries, header.name < name) :
    change name values entries = entries ++ [⟨name, values []⟩] := by
  induction entries with
  | nil => rfl
  | cons first rest inductionHypothesis =>
    have here := above first List.mem_cons_self
    have later := fun header member => above header (List.mem_cons_of_mem first member)
    rw [change, if_neg (Std.ne_of_lt here), if_neg (Std.not_lt.2 (Std.le_of_lt here)),
      inductionHypothesis later, List.cons_append]

end Headers

/-! ## What is accepted is understood -/

namespace Block

/-- Headers as the entries of a block. -/
def entriesOf (headers : Headers) : List Entry :=
  headers.entries.map fun header => ⟨header.name, Text.join header.values⟩

theorem write_eq (headers : Headers) : write headers = layout (entriesOf headers) := by
  rw [write, layout, entriesOf, List.length_map, List.flatMap_map]
  rfl

/-- What an encoder makes sure of before it sends an entry. -/
structure Sendable (header : Header) : Prop where
  named : header.name ≠ ""
  shortName : header.name.utf8ByteSize < Word.limit
  clean : ∀ value ∈ header.values, Text.hasSeparator value = false
  shortValues : Text.joinedLength header.values < Word.limit

theorem sendable_of_accepted {header : Header} (accepted : Encoder.entryFault? header = none) :
    Sendable header := by
  rw [Encoder.entryFault?] at accepted
  by_cases empty : header.name.isEmpty = true
  · rw [if_pos empty] at accepted
    contradiction
  · rw [if_neg empty] at accepted
    by_cases unencodable : Text.hasSeparator header.name = true ∨
        Word.limit ≤ header.name.utf8ByteSize
    · rw [if_pos unencodable] at accepted
      contradiction
    · rw [if_neg unencodable] at accepted
      by_cases nul : header.values.any Text.hasSeparator = true
      · rw [if_pos nul] at accepted
        contradiction
      · rw [if_neg nul] at accepted
        by_cases long : Word.limit ≤ Text.joinedLength header.values
        · rw [if_pos long] at accepted
          contradiction
        · refine ⟨fun none => empty (String.isEmpty_iff.2 none), ?_, ?_, Nat.not_le.1 long⟩
          · exact Nat.not_le.1 fun much => unencodable (Or.inr much)
          · intro value member
            rw [Bool.eq_false_iff]
            intro holds
            exact nul (List.any_eq_true.2 ⟨value, member, holds⟩)

theorem accepted_iff (headers : Headers) :
    Encoder.fault? headers = none <->
      headers.size < Word.limit ∧
        ∀ header ∈ headers.entries, Encoder.entryFault? header = none := by
  rw [Encoder.fault?]
  split
  · rename_i many
    constructor
    · intro none
      contradiction
    · intro few
      exact absurd few.1 (Nat.not_lt.2 many)
  · rename_i few
    rw [List.findSome?_eq_none_iff]
    constructor
    · intro all
      exact ⟨Nat.not_le.1 few, all⟩
    · intro both
      exact both.2

variable {headers : Headers}

theorem proper_of_accepted (accepted : Encoder.fault? headers = none) :
    Proper (entriesOf headers) := by
  rcases (accepted_iff headers).1 accepted with ⟨few, each⟩
  constructor
  · rw [entriesOf, List.length_map]
    exact few
  · intro entry member
    rcases List.mem_map.1 member with ⟨header, inside, rfl⟩
    have sendable := sendable_of_accepted (each header inside)
    refine ⟨sendable.named, ?_, ?_⟩
    · rw [Text.length_encode]
      exact sendable.shortName
    · rw [Text.length_encode_join]
      exact sendable.shortValues

/-- Entries in order are added one behind the other. -/
theorem entries_collect (headers : Headers) (rest : List Header)
    (ordered : ((headers.entries ++ rest).map Header.name).Pairwise (· < ·))
    (sendable : ∀ header ∈ rest, Sendable header)
    (lowered : ∀ header ∈ rest, Text.lowerCase header.name = header.name)
    (valued : ∀ header ∈ rest, header.values ≠ []) :
    (collect headers (rest.map fun header => ⟨header.name, Text.join header.values⟩)).entries =
      headers.entries ++ rest := by
  induction rest generalizing headers with
  | nil => exact (List.append_nil _).symm
  | cons header others inductionHypothesis =>
    rcases List.forall_mem_cons.1 sendable with ⟨sendableHere, sendableLater⟩
    rcases List.forall_mem_cons.1 lowered with ⟨loweredHere, loweredLater⟩
    rcases List.forall_mem_cons.1 valued with ⟨valuedHere, valuedLater⟩
    have above : ∀ other ∈ headers.entries, other.name < header.name := by
      intro other member
      rw [List.map_append, List.pairwise_append] at ordered
      exact ordered.2.2 other.name (List.mem_map_of_mem member) header.name List.mem_cons_self
    have values : Text.split (Text.join header.values) = header.values :=
      Text.split_join valuedHere sendableHere.clean
    have added : (headers.appendAll header.name header.values).entries =
        headers.entries ++ [header] := by
      rw [Headers.entries_appendAll _ _ valuedHere, loweredHere, Headers.change_of_above _ above]
      rfl
    rw [List.append_cons, ← added] at ordered ⊢
    rw [List.map_cons, collect, List.foldl_cons, values]
    exact inductionHypothesis _ ordered sendableLater loweredLater valuedLater

/-- A block that is written for accepted headers means these headers. -/
theorem meaning_entriesOf (accepted : Encoder.fault? headers = none) :
    meaning (entriesOf headers) = headers := by
  have each := ((accepted_iff headers).1 accepted).2
  have wellFormed := headers.wellFormed
  have whole := entries_collect {} headers.entries wellFormed.ascending
    (fun header member => sendable_of_accepted (each header member)) wellFormed.lowered
    wellFormed.valued
  rw [collect_eq] at whole
  exact Headers.ext whole

end Block

end HeaderCodec
