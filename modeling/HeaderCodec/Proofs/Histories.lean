import HeaderCodec.Proofs.Lookup

namespace HeaderCodec
namespace Headers

/-!
# What has become of a name

Headers keep one list for all names, and an operation may move entries or take them
away.  Here this is compared with a much simpler account, which is kept for one name at
a time: only what is done to spellings of the name is written down, and it is done to a
plain list of values.  Whatever headers tell of the name can be read off this list.

`Act` is what is done to headers and `Edit` what is done to values.  `values_after`
relates the two for a single act, and all else follows by induction on a history.  That
a name is absent and that it has no values must come to the same for this, which is why
`Tells` holds of well-formed headers only.
-/

/-- What is done to headers. -/
inductive Act where
  | append (name value : String)
  | insert (name value : String)
  | remove (name : String)
  | extend (pairs : List (String × String))
  | collect (pairs : List (String × String))

/-- Headers after an act.  To collect is to begin with new headers. -/
def after (headers : Headers) : Act -> Headers
  | .append name value => headers.append name value
  | .insert name value => (headers.insert name value).2
  | .remove name => (headers.remove name).2
  | .extend pairs => headers.extend pairs
  | .collect pairs => ofList pairs

/-- Headers after several acts. -/
def afterAll (headers : Headers) (acts : List Act) : Headers :=
  acts.foldl after headers

/-- What is done to the values of one name. -/
inductive Edit where
  | add (value : String)
  | replace (value : String)
  | clear

/-- Values after an edit. -/
def Edit.on (values : List String) : Edit -> List String
  | .add value => values ++ [value]
  | .replace value => [value]
  | .clear => []

namespace Act

/-- What an act comes to for the values of one name.  Only its spellings are looked
at. -/
def edits (name : String) : Act -> List Edit
  | .append other value =>
    if Text.lowerCase other = Text.lowerCase name then [.add value] else []
  | .insert other value =>
    if Text.lowerCase other = Text.lowerCase name then [.replace value] else []
  | .remove other => if Text.lowerCase other = Text.lowerCase name then [.clear] else []
  | .extend pairs => (valuesIn name pairs).map .add
  | .collect pairs => .clear :: (valuesIn name pairs).map .add

/-- All names that an act is about are other names than this one. -/
def Spares (name : String) : Act -> Prop
  | .append other _ => Text.lowerCase other ≠ Text.lowerCase name
  | .insert other _ => Text.lowerCase other ≠ Text.lowerCase name
  | .remove other => Text.lowerCase other ≠ Text.lowerCase name
  | .extend pairs => ∀ pair ∈ pairs, Text.lowerCase pair.1 ≠ Text.lowerCase name
  | .collect _ => False

end Act

/-- The values of a name by its own account, which begins with none. -/
def replay (name : String) (acts : List Act) : List String :=
  (acts.flatMap (Act.edits name)).foldl Edit.on []

/-- All that headers tell of a name, when these are its values. -/
structure Tells (headers : Headers) (name : String) (values : List String) : Prop where
  values_eq : headers.values name = values
  first?_eq : headers.first? name = values.head?
  contains_iff : headers.contains name = true <-> values ≠ []
  /-- What is given back in exchange for a new value. -/
  inserted : ∀ value, (headers.insert name value).1 = if values = [] then none else some values
  removed : (headers.remove name).1 = if values = [] then none else some values

variable {headers : Headers}

/-! ## One act -/

theorem foldl_add (values added : List String) :
    (added.map Edit.add).foldl Edit.on values = values ++ added := by
  induction added generalizing values with
  | nil => simp
  | cons value rest inductionHypothesis => simp [Edit.on, inductionHypothesis]

/-- An act does to the values of a name what its edits do. -/
theorem values_after (headers : Headers) (act : Act) (name : String) :
    (headers.after act).values name = (act.edits name).foldl Edit.on (headers.values name) := by
  cases act with
  | append other value =>
    rw [after, values_append, Act.edits]
    by_cases same : Text.lowerCase other = Text.lowerCase name
    · simp [same, Edit.on]
    · simp [same, Ne.symm same]
  | insert other value =>
    rw [after, values_insert, Act.edits]
    by_cases same : Text.lowerCase other = Text.lowerCase name
    · simp [same, Edit.on]
    · simp [same, Ne.symm same]
  | remove other =>
    rw [after, values_remove, Act.edits]
    by_cases same : Text.lowerCase other = Text.lowerCase name
    · simp [same, Edit.on]
    · simp [same, Ne.symm same]
  | extend pairs => rw [after, values_extend, Act.edits, foldl_add]
  | collect pairs =>
    rw [after, values_ofList, Act.edits, List.foldl_cons, foldl_add]
    exact (List.nil_append _).symm

theorem edits_of_spares {act : Act} {name : String} (spares : act.Spares name) :
    act.edits name = [] := by
  cases act with
  | append other value => exact if_neg spares
  | insert other value => exact if_neg spares
  | remove other => exact if_neg spares
  | extend pairs =>
    have none : valuesIn name pairs = [] := by
      simpa [valuesIn] using fun other value member => spares (other, value) member
    simp [Act.edits, none]
  | collect pairs => exact spares.elim

/-! ## Any number of acts -/

theorem values_afterAll (headers : Headers) (acts : List Act) (name : String) :
    (headers.afterAll acts).values name =
      (acts.flatMap (Act.edits name)).foldl Edit.on (headers.values name) := by
  induction acts generalizing headers with
  | nil => rfl
  | cons act rest inductionHypothesis =>
    rw [List.flatMap_cons, List.foldl_append, ← values_after]
    exact inductionHypothesis _

/-- Acts on other names leave no trace in the account of a name. -/
theorem replay_of_spares {name : String} {others : List Act}
    (spare : ∀ act ∈ others, act.Spares name) (earlier later : List Act) :
    replay name (earlier ++ others ++ later) = replay name (earlier ++ later) := by
  have none : others.flatMap (Act.edits name) = [] :=
    List.flatMap_eq_nil_iff.2 fun act member => edits_of_spares (spare act member)
  simp [replay, none]

theorem tells_values (headers : Headers) (name : String) :
    headers.Tells name (headers.values name) := by
  have given : (find? (Text.lowerCase name) headers.entries).map Header.values =
      if headers.values name = [] then none else some (headers.values name) := by
    have there := headers.contains_iff name
    rw [contains, values_eq] at there
    rw [values_eq]
    cases found : find? (Text.lowerCase name) headers.entries with
    | none => rfl
    | some header =>
      rw [found] at there
      exact (if_neg (there.1 rfl)).symm
  constructor
  · rfl
  · rfl
  · exact headers.contains_iff name
  · exact fun value => given
  · exact given

/-- What headers tell of a name after some acts, beginning with no headers, is what the
name's own account says. -/
structure Accounts (acts : List Act) (name : String) : Prop where
  tells : (({} : Headers).afterAll acts).Tells name (replay name acts)
  /-- Acts on other names make no difference wherever they come in. -/
  spared : ∀ earlier others later, acts = earlier ++ later ->
    (∀ act ∈ others, act.Spares name) ->
    (({} : Headers).afterAll (earlier ++ others ++ later)).Tells name (replay name acts)
  /-- Two acts that have no name in common can change places. -/
  swapped : ∀ one other : Act, (∀ any, one.Spares any ∨ other.Spares any) ->
    ({} : Headers).afterAll (acts ++ [one, other]) =
      ({} : Headers).afterAll (acts ++ [other, one])

/-- Headers can be told by what has been done under each name: the first value and all of
them, whether there are any, and what is given back when they are replaced or removed. -/
theorem told_by_history (acts : List Act) (name : String) : Accounts acts name := by
  have told : ∀ acts, (({} : Headers).afterAll acts).Tells name (replay name acts) := by
    intro acts
    have tells := tells_values (({} : Headers).afterAll acts) name
    rwa [values_afterAll] at tells
  refine ⟨told acts, ?_, ?_⟩
  · rintro earlier others later rfl spare
    rw [← replay_of_spares spare]
    exact told _
  · intro one other apart
    apply eq_of_values
    intro any
    rw [values_afterAll, values_afterAll]
    rcases apart any with spares | spares
    · simp [edits_of_spares spares]
    · simp [edits_of_spares spares]

/-- Two spellings of a name, with acts on other names before, behind and in between. -/
theorem told_by_history_twoSpellings :
    (({} : Headers).afterAll [.append "ΑΣ" "1", .insert "B" "4", .remove "c",
        .extend [("b", "2"), ("Ας", "3")]]).Tells "ας" ["1", "3"] ∧
      ({} : Headers).afterAll [.append "ΑΣ" "1", .extend [("b", "2"), ("Ας", "3")],
          .append "c" "5", .extend [("B", "6")]] =
        ({} : Headers).afterAll [.append "ΑΣ" "1", .extend [("b", "2"), ("Ας", "3")],
          .extend [("B", "6")], .append "c" "5"] := by
  have told := told_by_history [.append "ΑΣ" "1", .extend [("b", "2"), ("Ας", "3")]] "ας"
  have account : replay "ας" [.append "ΑΣ" "1", .extend [("b", "2"), ("Ας", "3")]] =
      ["1", "3"] := by decide +kernel
  constructor
  · rw [← account]
    apply told.spared [.append "ΑΣ" "1"] [.insert "B" "4", .remove "c"] _ rfl
    intro act member
    rcases List.mem_cons.1 member with rfl | last
    · exact (by decide +kernel : Text.lowerCase "B" ≠ Text.lowerCase "ας")
    · rcases List.mem_singleton.1 last with rfl
      exact (by decide +kernel : Text.lowerCase "c" ≠ Text.lowerCase "ας")
  · apply told.swapped (.append "c" "5") (.extend [("B", "6")])
    intro any
    by_cases here : Text.lowerCase "c" = Text.lowerCase any
    · right
      intro pair member
      rcases List.mem_singleton.1 member with rfl
      rw [← here]
      exact (by decide +kernel : Text.lowerCase "B" ≠ Text.lowerCase "c")
    · exact Or.inl here

end Headers
end HeaderCodec
