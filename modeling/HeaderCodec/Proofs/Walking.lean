import HeaderCodec.Proofs.Resending
import HeaderCodec.Proofs.Utf8Order

namespace HeaderCodec
namespace Headers

/-!
# Walking through headers

Whoever walks through headers relies on more than the type of entries says.  An
entry must not come twice, nor in a spelling under which nobody finds it, nor without
values, and the entries must come in the order in which they are sent.

`Operation` is anything that can be done to make or change headers, while other
headers are at hand, among them those that a decoder has returned.  `Shows` is what can
be told of the entries that a walk shows from its first step to its last, and it does
not refer to entries that are not shown.  A walk may be taken up at any place on the
way.
-/

/-! ## Making headers -/

/-- What can be done when some headers are at hand.  They are told apart by their
places. -/
inductive Operation where
  | new
  | clone (place : Nat)
  | collect (pairs : List (String × String))
  | append (place : Nat) (name value : String)
  | insert (place : Nat) (name value : String)
  | remove (place : Nat) (name : String)
  | extend (place : Nat) (pairs : List (String × String))

/-- The headers at hand after an operation.  Headers that are made come last. -/
def perform (held : List Headers) : Operation -> List Headers
  | .new => held ++ [{}]
  | .clone place => held ++ held[place]?.toList
  | .collect pairs => held ++ [ofList pairs]
  | .append place name value => held.modify place fun headers => headers.append name value
  | .insert place name value => held.modify place fun headers => (headers.insert name value).2
  | .remove place name => held.modify place fun headers => (headers.remove name).2
  | .extend place pairs => held.modify place fun headers => headers.extend pairs

/-! ## Steps of a walk -/

namespace Walk

/-- The entries that are seen on the way from one place of a walk to a later one. -/
inductive Passes : Walk -> List Header -> Walk -> Prop where
  | stay (walk : Walk) : Passes walk [] walk
  | step {walk next later : Walk} {header : Header} {seen : List Header}
      (taken : walk.next? = some (header, next)) (onward : Passes next seen later) :
      Passes walk (header :: seen) later

variable {walk next later : Walk} {header : Header} {seen : List Header}

theorem ahead_of_next? (taken : walk.next? = some (header, next)) :
    walk.ahead = header :: next.ahead := by
  rcases walk with ⟨_ | ⟨first, rest⟩⟩
  · cases taken
  · cases taken
    rfl

theorem next?_eq_none_iff (walk : Walk) : walk.next? = none <-> walk.ahead = [] := by
  rcases walk with ⟨_ | ⟨first, rest⟩⟩
  · exact iff_of_true rfl rfl
  · exact iff_of_false nofun nofun

/-- A walk shows what was ahead of it, in order. -/
theorem Passes.ahead_eq (passes : walk.Passes seen later) : walk.ahead = seen ++ later.ahead := by
  induction passes with
  | stay => rfl
  | step taken _ inductionHypothesis =>
    rw [ahead_of_next? taken, inductionHypothesis, List.cons_append]

/-- Every walk comes to its end. -/
theorem passes_ahead (walk : Walk) : walk.Passes walk.ahead ⟨[]⟩ := by
  rcases walk with ⟨ahead⟩
  induction ahead with
  | nil => exact .stay ⟨[]⟩
  | cons header rest inductionHypothesis => exact .step rfl inductionHypothesis

end Walk

/-! ## Entries and what is looked up -/

variable {headers : Headers} {header : Header}

/-- Headers have an entry of these values, as looking up its name tells.  The name is
spelt as it is kept. -/
structure Has (headers : Headers) (header : Header) : Prop where
  spelt : Text.lowerCase header.name = header.name
  contains : headers.contains header.name = true
  values : headers.values header.name = header.values

theorem find?_eq_some_iff {entries : List Header}
    (ordered : (entries.map Header.name).Pairwise (· < ·)) (name : String) :
    find? name entries = some header <-> header ∈ entries ∧ header.name = name := by
  induction entries with
  | nil => exact iff_of_false nofun fun found => absurd found.1 List.not_mem_nil
  | cons first rest inductionHypothesis =>
    rw [List.map_cons, List.pairwise_cons] at ordered
    rw [find?, List.mem_cons]
    split
    · rename_i here
      constructor
      · rintro ⟨⟩
        exact ⟨Or.inl rfl, here⟩
      · rintro ⟨rfl | later, same⟩
        · rfl
        · have above := ordered.1 header.name (List.mem_map_of_mem later)
          rw [same, here] at above
          exact absurd above Std.lt_irrefl
    · rename_i elsewhere
      rw [inductionHypothesis ordered.2]
      constructor
      · rintro ⟨later, same⟩
        exact ⟨Or.inr later, same⟩
      · rintro ⟨rfl | later, same⟩
        · exact absurd same elsewhere
        · exact ⟨later, same⟩

/-- The entries are what looking up tells. -/
theorem has_iff (headers : Headers) (header : Header) :
    headers.Has header <-> header ∈ headers.entries := by
  constructor
  · rintro ⟨spelt, contains, values⟩
    rw [Headers.contains, spelt, Option.isSome_iff_exists] at contains
    rcases contains with ⟨other, found⟩
    rcases (find?_eq_some_iff headers.wellFormed.ascending header.name).1 found with
        ⟨member, sameName⟩
    rw [Headers.values, spelt, found] at values
    have same : other = header := by
      rcases other with ⟨name, kept⟩
      rcases header with ⟨_, _⟩
      cases sameName
      cases values
      rfl
    exact same ▸ member
  · intro member
    have spelt := headers.wellFormed.lowered header member
    have found := (find?_eq_some_iff headers.wellFormed.ascending header.name).2 ⟨member, rfl⟩
    refine ⟨spelt, ?_, ?_⟩
    · rw [Headers.contains, spelt, found]
      rfl
    · rw [Headers.values, spelt, found]

/-! ## What a walk shows -/

/-- What can be told of all entries that a walk through headers shows. -/
structure Shows (headers : Headers) (shown : List Header) : Prop where
  distinct : (shown.map Header.name).Nodup
  lowered : ∀ header ∈ shown, Text.lowerCase header.name = header.name
  valued : ∀ header ∈ shown, header.values ≠ []
  /-- Names come in the order of their bytes. -/
  ascending : (shown.map fun header => Utf8.encode header.name).Pairwise (· < ·)
  /-- What the headers have is shown exactly once. -/
  once : ∀ header, headers.Has header -> shown.count header = 1
  /-- Nothing else is shown. -/
  only : ∀ header ∈ shown, headers.Has header
  size_eq : headers.size = shown.length
  valueCount_eq : headers.valueCount = (shown.map fun header => header.values.length).sum
  isEmpty_iff : headers.isEmpty = true <-> shown = []

theorem shows_entries (headers : Headers) : headers.Shows headers.entries := by
  have distinct : (headers.entries.map Header.name).Nodup :=
    headers.wellFormed.ascending.imp fun less => Std.ne_of_lt less
  constructor
  · exact distinct
  · exact headers.wellFormed.lowered
  · exact headers.wellFormed.valued
  · apply List.pairwise_map.2
    exact (List.pairwise_map.1 headers.wellFormed.ascending).imp fun less => Utf8.encode_lt less
  · intro header has
    apply List.count_eq_one_of_mem distinct.of_map
    exact (headers.has_iff header).1 has
  · exact fun header member => (headers.has_iff header).2 member
  · rfl
  · exact List.length_flatMap
  · exact List.isEmpty_iff

/-- Headers that come of any operations can be walked through, whatever they are made of.
At every place of a walk as many entries are ahead as are reported.  Together with those
that have been seen they are all that the headers have. -/
theorem walked_through (given : List Headers) (operations : List Operation) :
    ∀ headers ∈ operations.foldl perform given, ∀ seen walk, headers.walk.Passes seen walk ->
      ∃ ahead last, walk.Passes ahead last ∧ last.next? = none ∧ walk.left = ahead.length ∧
        headers.Shows (seen ++ ahead) := by
  intro headers _ seen walk passes
  have parts : headers.entries = seen ++ walk.ahead := passes.ahead_eq
  refine ⟨walk.ahead, ⟨[]⟩, walk.passes_ahead, rfl, rfl, ?_⟩
  exact parts ▸ headers.shows_entries

/-- Headers that have come from a decoder, and a copy of them to which names are added
whose lower case depends on what stands before them. -/
theorem walked_through_storedEntry :
    ∃ first second : Headers,
      [.clone 0, .append 1 "İΣ" "c", .append 1 "i̇ς" "d", .remove 0 "A"].foldl perform
        [Block.meaning [⟨"a", "b"⟩]] = [first, second] ∧
      first.Shows [] ∧ second.Shows [⟨"a", ["b"]⟩, ⟨"i̇ς", ["c", "d"]⟩] := by
  have each := walked_through [Block.meaning [⟨"a", "b"⟩]]
    [.clone 0, .append 1 "İΣ" "c", .append 1 "i̇ς" "d", .remove 0 "A"]
  have whole : [.clone 0, .append 1 "İΣ" "c", .append 1 "i̇ς" "d", .remove 0 "A"].foldl perform
      [Block.meaning [⟨"a", "b"⟩]] = [{}, ofList [("a", "b"), ("i̇ς", "c"), ("i̇ς", "d")]] := by
    decide +kernel
  have walk : (ofList [("a", "b"), ("i̇ς", "c"), ("i̇ς", "d")]).walk =
      ⟨[⟨"a", ["b"]⟩, ⟨"i̇ς", ["c", "d"]⟩]⟩ := by decide +kernel
  rw [whole] at each ⊢
  refine ⟨_, _, rfl, ?_, ?_⟩
  · rcases each _ List.mem_cons_self [] _ (.stay _) with ⟨ahead, last, passes, ended, _, shows⟩
    have parts := passes.ahead_eq
    rw [(last.next?_eq_none_iff).1 ended, List.append_nil] at parts
    subst parts
    exact shows
  · have second := each _ (List.mem_cons_of_mem _ List.mem_cons_self)
    rw [walk] at second
    rcases second [_] _ (.step rfl (.stay _)) with ⟨ahead, last, passes, ended, _, shows⟩
    have parts := passes.ahead_eq
    rw [(last.next?_eq_none_iff).1 ended, List.append_nil] at parts
    subst parts
    exact shows

end Headers
end HeaderCodec
