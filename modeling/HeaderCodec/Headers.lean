import HeaderCodec.Text.LowerCase
import HeaderCodec.Text.Quoted

namespace HeaderCodec

/-!
# Headers

What a header block carries: names, each with one or more values.  Names are
lower-cased on the way in and whenever one is looked up, so spellings that have
the same lower case meet in one entry.  Entries stand in ascending order of
their names.  The order of characters by code point is also the order of the
UTF-8 bytes, so this is the order on the wire.  The values of an entry keep the
order in which they were appended.

Headers carry with them that they are well formed: ascending names, each in lower
case, none without a value.  A name that is absent and a name without values can
then not be told apart, and `values` describes the headers completely.
-/

/-- A name and its values. -/
structure Header where
  name : String
  values : List String
deriving DecidableEq, Repr

namespace Headers

/-! ## Entries in order -/

/-- The entry of a name. -/
def find? (name : String) : List Header -> Option Header
  | [] => none
  | header :: rest => if header.name = name then some header else find? name rest

/-- Change the values of a name, or add an entry at its place with the change
of no values. -/
def change (name : String) (values : List String -> List String) : List Header -> List Header
  | [] => [⟨name, values []⟩]
  | header :: rest =>
    if header.name = name then ⟨name, values header.values⟩ :: rest
    else if name < header.name then ⟨name, values []⟩ :: header :: rest
    else header :: change name values rest

/-- Ascending names in lower case, each with a value. -/
structure WellFormed (entries : List Header) : Prop where
  ascending : (entries.map Header.name).Pairwise (· < ·)
  lowered : ∀ header ∈ entries, Text.lowerCase header.name = header.name
  valued : ∀ header ∈ entries, header.values ≠ []

theorem wellFormed_nil : WellFormed [] where
  ascending := .nil
  lowered := fun _ member => absurd member List.not_mem_nil
  valued := fun _ member => absurd member List.not_mem_nil

/-- The names of changed entries are the old ones and the one that is
changed. -/
theorem mem_change {name : String} {values : List String -> List String} {entries : List Header}
    {header : Header} (member : header ∈ change name values entries) :
    header ∈ entries ∨ (header.name = name ∧ ∃ old, header.values = values old) := by
  induction entries with
  | nil =>
    rcases List.mem_singleton.1 member with rfl
    exact Or.inr ⟨rfl, [], rfl⟩
  | cons first rest inductionHypothesis =>
    rw [change] at member
    split at member
    · rcases List.mem_cons.1 member with rfl | later
      · exact Or.inr ⟨rfl, _, rfl⟩
      · exact Or.inl (List.mem_cons_of_mem first later)
    · split at member
      · rcases List.mem_cons.1 member with rfl | later
        · exact Or.inr ⟨rfl, [], rfl⟩
        · exact Or.inl later
      · rcases List.mem_cons.1 member with rfl | later
        · exact Or.inl List.mem_cons_self
        · rcases inductionHypothesis later with old | new
          · exact Or.inl (List.mem_cons_of_mem first old)
          · exact Or.inr new

/-- A change keeps the names in order. -/
theorem ordered_change {name : String} (values : List String -> List String)
    {entries : List Header} (ordered : (entries.map Header.name).Pairwise (· < ·)) :
    ((change name values entries).map Header.name).Pairwise (· < ·) := by
  induction entries with
  | nil => exact List.pairwise_singleton _ _
  | cons first rest inductionHypothesis =>
    rw [List.map_cons, List.pairwise_cons] at ordered
    rw [change]
    split
    · rename_i here
      rw [List.map_cons, List.pairwise_cons]
      exact ⟨here ▸ ordered.1, ordered.2⟩
    · rename_i elsewhere
      split
      · rename_i before
        rw [List.map_cons, List.map_cons, List.pairwise_cons, List.pairwise_cons]
        refine ⟨?_, ordered⟩
        intro other member
        rcases List.mem_cons.1 member with rfl | later
        · exact before
        · exact Std.lt_trans before (ordered.1 other later)
      · rename_i notBefore
        rw [List.map_cons, List.pairwise_cons]
        refine ⟨?_, inductionHypothesis ordered.2⟩
        intro other member
        rcases List.mem_map.1 member with ⟨header, inside, rfl⟩
        rcases mem_change inside with old | ⟨new, _⟩
        · exact ordered.1 header.name (List.mem_map_of_mem old)
        · rw [new]
          exact Std.lt_of_le_of_ne (Std.not_lt.1 notBefore) elsewhere

theorem WellFormed.change {name : String} {values : List String -> List String}
    {entries : List Header} (wellFormed : WellFormed entries)
    (lowered : Text.lowerCase name = name) (some : ∀ old, values old ≠ []) :
    WellFormed (change name values entries) where
  ascending := ordered_change values wellFormed.ascending
  lowered := by
    intro header member
    rcases mem_change member with old | ⟨new, _⟩
    · exact wellFormed.lowered header old
    · rw [new, lowered]
  valued := by
    intro header member
    rcases mem_change member with old | ⟨_, before, changed⟩
    · exact wellFormed.valued header old
    · rw [changed]
      exact some before

theorem WellFormed.filter {entries : List Header} (wellFormed : WellFormed entries)
    (kept : Header -> Bool) : WellFormed (entries.filter kept) where
  ascending := wellFormed.ascending.sublist (List.filter_sublist.map Header.name)
  lowered := fun header member => wellFormed.lowered header (List.mem_filter.1 member).1
  valued := fun header member => wellFormed.valued header (List.mem_filter.1 member).1

end Headers

/-- Headers in the order of their names. -/
@[ext] structure Headers where
  entries : List Header
  wellFormed : Headers.WellFormed entries
deriving DecidableEq, Repr

namespace Headers

/-- No headers. -/
def empty : Headers where
  entries := []
  wellFormed := wellFormed_nil

instance : EmptyCollection Headers := ⟨empty⟩

instance : Inhabited Headers := ⟨empty⟩

/-! ## Looking up -/

/-- All values of a name, in the order in which they were appended. -/
def values (headers : Headers) (name : String) : List String :=
  match find? (Text.lowerCase name) headers.entries with
  | some header => header.values
  | none => []

/-- The first value of a name. -/
def first? (headers : Headers) (name : String) : Option String :=
  (headers.values name).head?

/-- Whether there is an entry for a name. -/
def contains (headers : Headers) (name : String) : Bool :=
  (find? (Text.lowerCase name) headers.entries).isSome

/-- The number of names. -/
def size (headers : Headers) : Nat :=
  headers.entries.length

/-- The number of values of all names together. -/
def valueCount (headers : Headers) : Nat :=
  (headers.entries.flatMap Header.values).length

def isEmpty (headers : Headers) : Bool :=
  headers.entries.isEmpty

/-! ## Changing -/

/-- Change the values of a name, which leaves it with some. -/
def alter (headers : Headers) (name : String) (values : List String -> List String)
    (some : ∀ old, values old ≠ []) : Headers where
  entries := change (Text.lowerCase name) values headers.entries
  wellFormed := headers.wellFormed.change (Text.lowerCase_lowerCase name) some

/-- Add a value after those that the name has. -/
def append (headers : Headers) (name value : String) : Headers :=
  headers.alter name (· ++ [value]) fun old => List.concat_ne_nil value old

/-- Make a value the only one of a name.  The values that it had before are
returned. -/
def insert (headers : Headers) (name value : String) : Option (List String) × Headers :=
  ((find? (Text.lowerCase name) headers.entries).map Header.values,
    headers.alter name (fun _ => [value]) fun _ => List.cons_ne_nil value [])

/-- Drop the entry of a name.  The values that it had are returned. -/
def remove (headers : Headers) (name : String) : Option (List String) × Headers :=
  ((find? (Text.lowerCase name) headers.entries).map Header.values,
    { entries := headers.entries.filter fun header => header.name != Text.lowerCase name,
      wellFormed := headers.wellFormed.filter _ })

/-- Append several values to one name, at once. -/
def appendAll (headers : Headers) (name : String) : (values : List String) -> Headers
  | [] => headers
  | value :: values =>
    headers.alter name (· ++ value :: values) fun _ =>
      List.append_ne_nil_of_right_ne_nil _ (List.cons_ne_nil value values)

/-- Append pairs of a name and a value in order. -/
def extend (headers : Headers) (pairs : List (String × String)) : Headers :=
  pairs.foldl (fun headers pair => headers.append pair.1 pair.2) headers

/-- The headers made of pairs of a name and a value. -/
def ofList (pairs : List (String × String)) : Headers :=
  ({} : Headers).extend pairs

/-! ## Walking -/

/-- A walk through headers: the entries that have not been seen yet. -/
structure Walk where
  ahead : List Header
deriving DecidableEq, Repr

/-- Begin a walk. -/
def walk (headers : Headers) : Walk :=
  { ahead := headers.entries }

namespace Walk

/-- The next entry and the walk after it. -/
def next? (walk : Walk) : Option (Header × Walk) :=
  match walk.ahead with
  | [] => none
  | header :: rest => some (header, { ahead := rest })

/-- The number of entries ahead. -/
def left (walk : Walk) : Nat :=
  walk.ahead.length

/-- Take up to `count` steps. -/
def advance : Nat -> Walk -> List Header × Walk
  | 0, walk => ([], walk)
  | count + 1, walk =>
    match walk.next? with
    | none => ([], walk)
    | some (header, rest) =>
      let further := advance count rest
      (header :: further.1, further.2)

theorem advance_eq (count : Nat) (walk : Walk) :
    walk.advance count = (walk.ahead.take count, { ahead := walk.ahead.drop count }) := by
  induction count generalizing walk with
  | zero => rfl
  | succ count inductionHypothesis =>
    obtain ⟨ahead⟩ := walk
    cases ahead with
    | nil => rfl
    | cons header rest => simp [advance, next?, inductionHypothesis]

end Walk

/-! ## Description -/

/-- An entry in a description. -/
def describeEntry (header : Header) : String :=
  Text.quoted header.name ++ ": " ++ Text.quotedList header.values

/-- A description of all entries. -/
def describe (headers : Headers) : String :=
  "HeaderMap \x7b entries: \x7b" ++ ", ".intercalate (headers.entries.map describeEntry) ++
    "\x7d \x7d"

/-! ## Small laws -/

theorem change_change (name : String) (first second : List String -> List String)
    (entries : List Header) :
    change name second (change name first entries) =
      change name (fun values => second (first values)) entries := by
  induction entries with
  | nil => simp [change]
  | cons header rest inductionHypothesis =>
    simp only [change]
    split
    · simp [change]
    · rename_i notHere
      split
      · simp [change]
      · rename_i notBefore
        simp [change, notHere, notBefore, inductionHypothesis]

theorem entries_appendAll (headers : Headers) (name : String) {values : List String}
    (some : values ≠ []) :
    (headers.appendAll name values).entries =
      change (Text.lowerCase name) (· ++ values) headers.entries := by
  cases values with
  | nil => contradiction
  | cons => rfl

theorem alter_alter (headers : Headers) (name : String)
    {first second : List String -> List String} (some : ∀ old, first old ≠ [])
    (someMore : ∀ old, second old ≠ []) :
    (headers.alter name first some).alter name second someMore =
      headers.alter name (fun values => second (first values)) fun _ => someMore _ :=
  Headers.ext (change_change (Text.lowerCase name) first second headers.entries)

/-- Appending values at once is appending them one after the other. -/
theorem appendAll_eq_foldl (headers : Headers) (name : String) (values : List String) :
    headers.appendAll name values =
      values.foldl (fun headers value => headers.append name value) headers := by
  induction values generalizing headers with
  | nil => rfl
  | cons value rest inductionHypothesis =>
    rw [List.foldl_cons, ← inductionHypothesis]
    cases rest with
    | nil => rfl
    | cons => simp [appendAll, append, alter_alter]

theorem extend_append (headers : Headers) (first second : List (String × String)) :
    headers.extend (first ++ second) = (headers.extend first).extend second := by
  simp [extend, List.foldl_append]

theorem find?_change (name other : String) (values : List String -> List String)
    (entries : List Header) (ordered : (entries.map Header.name).Pairwise (· < ·)) :
    find? other (change name values entries) =
      if other = name then
        some ⟨name, values (((find? name entries).map Header.values).getD [])⟩
      else find? other entries := by
  induction entries with
  | nil =>
    simp only [change, find?]
    by_cases same : other = name
    · simp [same]
    · simp [same, Ne.symm same]
  | cons header rest inductionHypothesis =>
    rw [List.map_cons, List.pairwise_cons] at ordered
    have tail := inductionHypothesis ordered.2
    simp only [change]
    split
    · rename_i here
      by_cases same : other = name
      · simp [find?, same, here]
      · have elsewhere : header.name ≠ other := fun equal => same (equal ▸ here)
        simp [find?, same, Ne.symm same, elsewhere]
    · rename_i notHere
      split
      · rename_i before
        have absent : find? name (header :: rest) = none := by
          have general : ∀ tail : List Header, (∀ entry ∈ tail, name < entry.name) ->
              find? name tail = none := by
            intro tail
            induction tail with
            | nil => simp [find?]
            | cons entry others deeper =>
              intro above
              have different : entry.name ≠ name :=
                (Std.ne_of_lt (above entry List.mem_cons_self)).symm
              simp only [find?, if_neg different]
              exact deeper fun inner member => above inner (List.mem_cons_of_mem _ member)
          apply general
          intro entry member
          rcases List.mem_cons.1 member with rfl | later
          · exact before
          · exact Std.lt_trans before (ordered.1 entry.name (List.mem_map_of_mem later))
        by_cases same : other = name
        · subst same
          rw [absent]
          simp [find?]
        · simp [find?, same, Ne.symm same]
      · by_cases same : other = name
        · subst same
          simp only [find?, if_neg notHere, tail]
        · simp only [find?, tail, if_neg same]

end Headers

end HeaderCodec
