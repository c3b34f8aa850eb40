import HeaderCodec.Proofs.Gathering
import HeaderCodec.Proofs.Walking

namespace HeaderCodec

/-!
# Headers as what is looked up

Entries are hidden from those who use headers.  What they see are the values of names,
and each operation is described here by what it does to these.  Nothing more is needed:
headers that tell the same values of every name are the same headers.  Entries alone
would not give this, since an entry could be without values, or stand under a name in
capitals where nobody finds it.  Headers are well formed, which excludes both.

Hence headers can be taken apart into pairs of a name and a value and made again of
them, and the order in which different names are added is not remembered.
-/

/-- An entry as pairs of its name and a value. -/
def Header.pairs (header : Header) : List (String × String) :=
  header.values.map fun value => (header.name, value)

namespace Headers

/-- What comes of walking to the end, and through the values of each entry on the way. -/
def Walk.pairs (walk : Walk) : List (String × String) :=
  (walk.advance walk.left).1.flatMap Header.pairs

/-- The values that go to spellings of one name, in order. -/
def valuesIn (name : String) (pairs : List (String × String)) : List String :=
  (pairs.filter fun pair => Text.lowerCase pair.1 = Text.lowerCase name).map Prod.snd

variable {headers first second : Headers}

/-! ## What operations do to values -/

theorem values_append (headers : Headers) (name value other : String) :
    (headers.append name value).values other =
      headers.values other ++
        if Text.lowerCase other = Text.lowerCase name then [value] else [] :=
  headers.values_appendAll name [value] other

theorem values_insert (headers : Headers) (name value other : String) :
    (headers.insert name value).2.values other =
      if Text.lowerCase other = Text.lowerCase name then [value] else headers.values other :=
  values_alter name (fun _ => List.cons_ne_nil value []) other

theorem find?_filter (name other : String) (entries : List Header) :
    find? other (entries.filter fun header => header.name != name) =
      if other = name then none else find? other entries := by
  induction entries with
  | nil => exact (ite_self none).symm
  | cons header rest inductionHypothesis =>
    by_cases gone : header.name = name
    · rw [List.filter_cons_of_neg (by simp [gone]), inductionHypothesis]
      by_cases same : other = name
      · rw [if_pos same, if_pos same]
      · simp [find?, gone, same, Ne.symm same]
    · by_cases here : header.name = other
      · simp [find?, here ▸ gone, here]
      · simp [find?, gone, here, inductionHypothesis]

theorem values_remove (headers : Headers) (name other : String) :
    (headers.remove name).2.values other =
      if Text.lowerCase other = Text.lowerCase name then [] else headers.values other := by
  simp only [values_eq, remove, find?_filter]
  split <;> rfl

theorem valuesIn_cons (name : String) (pair : String × String)
    (pairs : List (String × String)) :
    valuesIn name (pair :: pairs) =
      (if Text.lowerCase name = Text.lowerCase pair.1 then [pair.2] else []) ++
        valuesIn name pairs := by
  by_cases same : Text.lowerCase pair.1 = Text.lowerCase name
  · simp [valuesIn, same]
  · simp [valuesIn, same, Ne.symm same]

theorem valuesIn_append (name : String) (pairs others : List (String × String)) :
    valuesIn name (pairs ++ others) = valuesIn name pairs ++ valuesIn name others := by
  simp [valuesIn]

/-- Several pairs are added one after the other, each to the values of its own name. -/
theorem values_extend (headers : Headers) (pairs : List (String × String)) (name : String) :
    (headers.extend pairs).values name = headers.values name ++ valuesIn name pairs := by
  induction pairs generalizing headers with
  | nil => exact (List.append_nil _).symm
  | cons pair rest inductionHypothesis =>
    refine (inductionHypothesis _).trans ?_
    rw [values_append, valuesIn_cons, List.append_assoc]

theorem values_ofList (pairs : List (String × String)) (name : String) :
    (ofList pairs).values name = valuesIn name pairs :=
  values_extend {} pairs name

/-! ## Entries that are there -/

/-- An entry that is there has values. -/
theorem contains_iff (headers : Headers) (name : String) :
    headers.contains name = true <-> headers.values name ≠ [] := by
  rw [contains, values_eq]
  cases found : find? (Text.lowerCase name) headers.entries with
  | none => simp
  | some header =>
    have member := ((find?_eq_some_iff headers.wellFormed.ascending _).1 found).1
    simpa using headers.wellFormed.valued header member

theorem contains_iff_mem (headers : Headers) (name : String) :
    headers.contains name = true <->
      Text.lowerCase name ∈ headers.entries.map Header.name := by
  rw [contains]
  induction headers.entries with
  | nil => simp [find?]
  | cons header rest inductionHypothesis =>
    by_cases here : header.name = Text.lowerCase name
    · simp [find?, here]
    · simp [find?, here, inductionHypothesis, Ne.symm here]

/-- Nothing else distinguishes headers. -/
theorem eq_of_values (same : ∀ name, first.values name = second.values name) :
    first = second := by
  have members : ∀ header, header ∈ first.entries <-> header ∈ second.entries := by
    intro header
    rw [← has_iff, ← has_iff]
    constructor
    · rintro ⟨spelt, contains, values⟩
      rw [contains_iff, same] at contains
      exact ⟨spelt, (contains_iff _ _).2 contains, same _ ▸ values⟩
    · rintro ⟨spelt, contains, values⟩
      rw [contains_iff, ← same] at contains
      exact ⟨spelt, (contains_iff _ _).2 contains, (same _).trans values⟩
  have permuted : first.entries.Perm second.entries :=
    (List.perm_ext_iff_of_nodup first.shows_entries.distinct.of_map
      second.shows_entries.distinct.of_map).2 members
  -- Both stand in the order of their names, which leaves no choice.
  have ascending := List.pairwise_map.1 first.wellFormed.ascending
  have ascendingToo := List.pairwise_map.1 second.wellFormed.ascending
  apply Headers.ext
  exact permuted.eq_of_pairwise
    (fun _ _ _ _ less more => absurd (Std.lt_trans less more) Std.lt_irrefl)
    ascending ascendingToo

/-! ## Taking apart and making again -/

theorem walk_pairs (headers : Headers) :
    headers.walk.pairs = headers.entries.flatMap Header.pairs := by
  rw [Walk.pairs, Walk.advance_eq]
  exact congrArg (List.flatMap Header.pairs) (List.take_length)

theorem valuesIn_pairs (name : String) (header : Header) :
    valuesIn name header.pairs =
      if Text.lowerCase header.name = Text.lowerCase name then header.values else [] := by
  by_cases same : Text.lowerCase header.name = Text.lowerCase name <;>
    simp [valuesIn, Header.pairs, same, List.filter_map, Function.comp_def]

theorem valuesIn_flatMap_pairs {entries : List Header}
    (ordered : (entries.map Header.name).Pairwise (· < ·))
    (lowered : ∀ header ∈ entries, Text.lowerCase header.name = header.name) (name : String) :
    valuesIn name (entries.flatMap Header.pairs) =
      ((find? (Text.lowerCase name) entries).map Header.values).getD [] := by
  induction entries with
  | nil => rfl
  | cons header rest inductionHypothesis =>
    rw [List.map_cons, List.pairwise_cons] at ordered
    have onward := inductionHypothesis ordered.2 fun other member =>
      lowered other (List.mem_cons_of_mem header member)
    rw [List.flatMap_cons, valuesIn_append, valuesIn_pairs, onward,
      lowered header List.mem_cons_self]
    by_cases here : header.name = Text.lowerCase name
    · -- No other entry has this name.
      have none : find? (Text.lowerCase name) rest = Option.none := by
        apply Option.eq_none_iff_forall_ne_some.2
        intro other found
        have place := (find?_eq_some_iff ordered.2 _).1 found
        have above := ordered.1 other.name (List.mem_map_of_mem place.1)
        rw [place.2, here] at above
        exact Std.lt_irrefl above
      simp [find?, here, none]
    · simp [find?, here]

/-- The pairs that headers are taken apart into hold the values of every name. -/
theorem valuesIn_walk_pairs (headers : Headers) (name : String) :
    valuesIn name headers.walk.pairs = headers.values name := by
  rw [walk_pairs, values_eq]
  exact valuesIn_flatMap_pairs headers.wellFormed.ascending headers.wellFormed.lowered name

/-- The values of all names tell everything about two headers. -/
structure Known (first second : Headers) : Prop where
  eq_iff : first = second <-> ∀ name, first.values name = second.values name
  /-- A walk leaves nothing out. -/
  rebuilt : ofList first.walk.pairs = first
  /-- Without a common name it does not matter which of them is added to the other. -/
  swapped : (∀ name, first.contains name = true -> second.contains name = false) ->
    first.extend second.walk.pairs = second.extend first.walk.pairs

/-- Headers are equal when looking up cannot tell them apart.  So they can be made again
of the pairs that are seen on a walk, and the order of names is not remembered. -/
theorem known_by_values (first second : Headers) : first.Known second := by
  constructor
  · constructor
    · rintro rfl name
      rfl
    · exact eq_of_values
  · apply eq_of_values
    intro name
    rw [values_ofList, valuesIn_walk_pairs]
  · intro apart
    apply eq_of_values
    intro name
    rw [values_extend, values_extend, valuesIn_walk_pairs, valuesIn_walk_pairs]
    by_cases there : first.contains name = true
    · have absent : second.values name = [] := by
        by_contra some
        have found := (second.contains_iff name).2 some
        rw [apart name there] at found
        contradiction
      rw [absent, List.append_nil, List.nil_append]
    · have absent : first.values name = [] := by
        by_contra some
        exact there ((first.contains_iff name).2 some)
      rw [absent, List.append_nil, List.nil_append]

/-- Two headers without a common name, one of which has values under two spellings. -/
theorem known_by_values_twoAndTwo :
    ∃ first second : Headers,
      first = ofList [("B", "1"), ("İΣ", "2"), ("b", "3")] ∧
      second = ofList [("C", "4"), ("A", "")] ∧
      (¬ ∀ name, first.values name = second.values name) ∧
      ofList first.walk.pairs = first ∧
      first.extend second.walk.pairs = second.extend first.walk.pairs := by
  have names : (ofList [("B", "1"), ("İΣ", "2"), ("b", "3")]).entries.map Header.name =
      ["b", "i̇ς"] := by decide +kernel
  have others : (ofList [("C", "4"), ("A", "")]).entries.map Header.name = ["a", "c"] := by
    decide +kernel
  have known := known_by_values (ofList [("B", "1"), ("İΣ", "2"), ("b", "3")])
    (ofList [("C", "4"), ("A", "")])
  refine ⟨_, _, rfl, rfl, ?_, known.rebuilt, known.swapped ?_⟩
  · intro same
    have equal := congrArg (fun headers => headers.entries.map Header.name) (known.eq_iff.2 same)
    simp [names, others] at equal
  · intro name there
    apply Bool.eq_false_iff.2
    intro common
    rw [contains_iff_mem, names] at there
    rw [contains_iff_mem, others] at common
    generalize Text.lowerCase name = lowered at there common
    have clash : ∀ lowered ∈ ["b", "i̇ς"], lowered ∉ ["a", "c"] := by decide
    exact clash lowered there common

end Headers
end HeaderCodec
