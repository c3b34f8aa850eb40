import HeaderCodec.Proofs.Decoding
import Mathlib.Logic.Relation

namespace HeaderCodec

/-!
# Reading field by field

Following a plan tells what a call comes to, but not what was unspent on the
way, nor which field was being read when something happened.  Here the reading of
a block is taken apart into its fields.  `Block.Progress` says how far a reader
has come, with its budget on both sides: what has been charged and what remains.
A `Decoder.Moment` adds the decompressor and the sources as they are between two
fields.

`Decoder.Moment.Step` leads from one field to the next, and `Decoder.Moment.Stops`
says how a call can end.  `Decoder.moment_of_carryOut` says that every call is a
sequence of steps with one of these ends.  So what holds of each field can be
proved for one step at a time.
-/

namespace Block

/-! ## How far a reader has come -/

/-- The field of a block that is to be read next.  `left` is the number of entries
behind the current one. -/
inductive Place where
  | count
  | nameLength (left : Nat)
  | name (left length : Nat)
  | valueLength (left : Nat) (name : String)
  | value (left : Nat) (name : String) (length : Nat)
  | finished
deriving DecidableEq, Repr

namespace Place

/-- The number of bytes of a field. -/
def size : Place -> Nat
  | count | nameLength _ | valueLength .. => 4
  | name _ length | value _ _ length => length
  | finished => 0

/-- Where a number of entries begin. -/
def ofEntries : Nat -> Place
  | 0 => finished
  | left + 1 => nameLength left

end Place

/-- How far the reading of a block has come. -/
structure Progress where
  limit : Nat
  /-- The number of bytes that have been charged. -/
  charged : Nat := 0
  /-- The number of bytes that may still be charged. -/
  remaining : Nat
  headers : Headers := {}
  place : Place := .count
deriving Repr

namespace Progress

/-- The beginning of a block. -/
def start (limit : Nat) : Progress where
  limit := limit
  remaining := limit

/-- The number of bytes of the field that is to be read next. -/
def size (progress : Progress) : Nat :=
  progress.place.size

/-- Charge the next field. -/
def charge (progress : Progress) : Progress :=
  { progress with
    charged := progress.charged + progress.size
    remaining := progress.remaining - progress.size }

/-- Go on with the bytes of a field that has been charged. -/
def accept (progress : Progress) (bytes : List UInt8) : Except Error Progress :=
  match progress.place with
  | .count =>
    if progress.remaining < Word.ofBytes bytes * leastEntrySize then
      .error (.blockTooLarge progress.limit)
    else .ok { progress with place := .ofEntries (Word.ofBytes bytes) }
  | .nameLength left => .ok { progress with place := .name left (Word.ofBytes bytes) }
  | .name left _ =>
    match Utf8.decode? bytes with
    | none => .error (.malformed .nameNotUtf8)
    | some name =>
      if name.isEmpty then .error (.malformed .emptyName)
      else .ok { progress with place := .valueLength left name }
  | .valueLength left name => .ok { progress with place := .value left name (Word.ofBytes bytes) }
  | .value left name _ =>
    match Utf8.decode? bytes with
    | none => .error (.malformed .valueNotUtf8)
    | some value =>
      .ok { progress with
        headers := progress.headers.appendAll name (Text.split value)
        place := .ofEntries left }
  | .finished => .ok progress

/-- A plan is that of a reader who charges a field, asks for its bytes, and goes
on with them.  A field that does not fit is never asked for. -/
inductive Follows : Progress -> Plan Headers -> Prop where
  | finished {progress : Progress} (done : progress.place = .finished) :
      Follows progress (.done (.ok progress.headers))
  | refused {progress : Progress} (large : progress.remaining < progress.size) :
      Follows progress (.done (.error (.blockTooLarge progress.limit)))
  | field {progress : Progress} {next : List UInt8 -> Plan Headers}
      (more : progress.place ≠ .finished) (fits : progress.size ≤ progress.remaining)
      (wrong : ∀ bytes error, progress.charge.accept bytes = .error error ->
        next bytes = .done (.error error))
      (right : ∀ bytes further, progress.charge.accept bytes = .ok further ->
        Follows further (next bytes)) :
      Follows progress (.take progress.size next)

/-- A field is read in the same way whether or not it fits. -/
theorem follows_readField {progress : Progress} {next : List UInt8 -> Nat -> Plan Headers}
    (more : progress.place ≠ .finished)
    (wrong : ∀ bytes error, progress.charge.accept bytes = .error error ->
      next bytes progress.charge.remaining = .done (.error error))
    (right : ∀ bytes further, progress.charge.accept bytes = .ok further ->
      Follows further (next bytes progress.charge.remaining)) :
    Follows progress (readField progress.limit progress.remaining progress.size next) := by
  rw [readField]
  split
  · rename_i large
    exact .refused large
  · rename_i enough
    exact .field more (Nat.not_lt.1 enough) wrong right

/-- What stands behind a name that has been read. -/
theorem follows_afterName {limit charged remaining left : Nat} {headers : Headers}
    {name : String}
    (later : ∀ charged remaining headers, Follows
      { limit, charged, remaining, headers, place := .ofEntries left }
        (readEntries limit left remaining headers)) :
    Follows { limit, charged, remaining, headers, place := .valueLength left name }
      (readText limit remaining fun valueBytes remaining =>
        match Utf8.decode? valueBytes with
        | none => malformed .valueNotUtf8
        | some value =>
          readEntries limit left remaining (headers.appendAll name (Text.split value))) := by
  refine follows_readField Place.noConfusion ?_ ?_
  · intro lengthBytes error same
    contradiction
  rintro lengthBytes - ⟨⟩
  refine follows_readField Place.noConfusion ?_ ?_
  · intro valueBytes error same
    cases decoded : Utf8.decode? valueBytes with
    | none =>
      simp only [accept, charge, decoded] at same
      cases same
      rfl
    | some value =>
      simp only [accept, charge, decoded] at same
      cases same
  · intro valueBytes further same
    cases decoded : Utf8.decode? valueBytes with
    | none =>
      simp only [accept, charge, decoded] at same
      cases same
    | some value =>
      simp only [accept, charge, decoded] at same
      cases same
      exact later _ _ _

theorem follows_readEntries (limit charged remaining count : Nat) (headers : Headers) :
    Follows { limit, charged, remaining, headers, place := .ofEntries count }
      (readEntries limit count remaining headers) := by
  induction count generalizing charged remaining headers with
  | zero => exact .finished rfl
  | succ left inductionHypothesis =>
    rw [readEntries]
    refine follows_readField Place.noConfusion ?_ ?_
    · intro lengthBytes error same
      contradiction
    rintro lengthBytes - ⟨⟩
    refine follows_readField Place.noConfusion ?_ ?_
    · intro nameBytes error same
      cases decoded : Utf8.decode? nameBytes with
      | none =>
        simp only [accept, charge, decoded] at same
        cases same
        rfl
      | some name =>
        simp only [accept, charge, decoded] at same ⊢
        split at same
        · rename_i empty
          cases same
          rw [if_pos empty]
          rfl
        · cases same
    · intro nameBytes further same
      cases decoded : Utf8.decode? nameBytes with
      | none =>
        simp only [accept, charge, decoded] at same
        cases same
      | some name =>
        simp only [accept, charge, decoded] at same ⊢
        split at same
        · cases same
        · rename_i named
          cases same
          rw [if_neg named]
          exact follows_afterName fun charged remaining headers =>
            inductionHypothesis charged remaining headers

/-- The plan of reading a block charges every field before it asks for it. -/
theorem follows_read (limit : Nat) : Follows (start limit) (read limit) := by
  refine follows_readField Place.noConfusion ?_ ?_
  · intro bytes error same
    by_cases large : limit - 4 < Word.ofBytes bytes * leastEntrySize
    · have refused : (start limit).charge.accept bytes = .error (.blockTooLarge limit) :=
        if_pos large
      rw [refused] at same
      cases same
      exact if_pos large
    · have accepted : (start limit).charge.accept bytes = .ok _ := if_neg large
      rw [accepted] at same
      cases same
  · intro bytes further same
    by_cases large : limit - 4 < Word.ofBytes bytes * leastEntrySize
    · have refused : (start limit).charge.accept bytes = .error (.blockTooLarge limit) :=
        if_pos large
      rw [refused] at same
      cases same
    · have accepted : (start limit).charge.accept bytes = .ok _ := if_neg large
      rw [accepted] at same
      cases same
      change Follows _ (if limit - 4 < Word.ofBytes bytes * leastEntrySize then _ else _)
      rw [if_neg large]
      exact follows_readEntries _ _ _ _ _

end Progress
end Block

namespace Decoder

open Block (Progress)
open Deflate (Decompressor)

/-! ## The course of a call -/

/-- A call between two fields of its block. -/
structure Moment where
  progress : Progress
  state : Decompressor
  supply : Supply

namespace Moment

/-- The next field is charged and a buffer of its size is set up.  This is how far
the reader has come then. -/
inductive Charged (moment : Moment) : (size : Nat) -> Progress -> Prop where
  | intro (more : moment.progress.place ≠ .finished)
      (fits : moment.progress.size ≤ moment.progress.remaining) :
      Charged moment moment.progress.size moment.progress.charge

/-- A field is read and the reader goes on behind it. -/
inductive Step (moment : Moment) : Moment -> Prop where
  | field {size : Nat} {paid further : Progress} {bytes : List UInt8} {state : Decompressor}
      {supply : Supply} (charged : moment.Charged size paid)
      (filled : fill size [] moment.state moment.supply = (.ok bytes, state, supply))
      (accepted : paid.accept bytes = .ok further) : Step moment ⟨further, state, supply⟩

/-- How a call can end: behind the last entry, at a field that does not fit, at
one that cannot be read to its end, or at one whose bytes are no good. -/
inductive Stops (moment : Moment) : Except Error Headers × Decompressor × Supply -> Prop where
  | finished (done : moment.progress.place = .finished) :
      Stops moment (.ok moment.progress.headers, moment.state, moment.supply)
  | refused (large : moment.progress.remaining < moment.progress.size) :
      Stops moment (.error (.blockTooLarge moment.progress.limit), moment.state, moment.supply)
  | broken {size : Nat} {paid : Progress} {error : Error} {state : Decompressor}
      {supply : Supply} (charged : moment.Charged size paid)
      (failed : fill size [] moment.state moment.supply = (.error error, state, supply)) :
      Stops moment (.error error, state, supply)
  | rejected {size : Nat} {paid : Progress} {bytes : List UInt8} {error : Error}
      {state : Decompressor} {supply : Supply} (charged : moment.Charged size paid)
      (filled : fill size [] moment.state moment.supply = (.ok bytes, state, supply))
      (refused : paid.accept bytes = .error error) : Stops moment (.error error, state, supply)

/-- A moment to which a call comes. -/
def Reaches (first later : Moment) : Prop :=
  Relation.ReflTransGen Step first later

/-- What every step preserves holds of all that is reached. -/
theorem Reaches.preserves {Holds : Moment -> Prop} {first later : Moment}
    (step : ∀ before after, Holds before -> Step before after -> Holds after)
    (reaches : first.Reaches later) (holds : Holds first) : Holds later := by
  induction reaches with
  | refl => exact holds
  | tail _ next inductionHypothesis => exact step _ _ inductionHypothesis next

end Moment

/-- Bytes are missing because a draw fails or the stream has ended. -/
theorem error_of_fill {error : Error} (missing : Nat) (pieces : List (List UInt8))
    (state : Decompressor) (supply : Supply)
    (failed : (fill missing pieces state supply).1 = .error error) :
    (∃ failure, error = drawError failure) ∨ error = .malformed .truncated := by
  fun_induction fill missing pieces state supply with
  | case1 => cases failed
  | case2 _ _ _ _ _ failure =>
    cases failed
    exact Or.inl ⟨failure, rfl⟩
  | case3 =>
    cases failed
    exact Or.inr rfl
  | case4 _ _ _ _ _ _ _ _ _ _ inductionHypothesis => exact inductionHypothesis failed

/-- Following the plan of a reader is a sequence of steps with an end. -/
theorem moment_of_carryOut {progress : Progress} {plan : Plan Headers}
    (follows : progress.Follows plan) (state : Decompressor) (supply : Supply) :
    ∃ last, Moment.Reaches ⟨progress, state, supply⟩ last ∧
      last.Stops (carryOut plan state supply) := by
  induction follows generalizing state supply with
  | finished done => exact ⟨_, .refl, .finished done⟩
  | refused large => exact ⟨_, .refl, .refused large⟩
  | @field progress next more fits wrong right inductionHypothesis =>
    have charged : Moment.Charged ⟨progress, state, supply⟩ progress.size progress.charge :=
      .intro more fits
    rw [carryOut]
    cases filled : fill progress.size [] state supply with
    | mk result rest =>
      rcases rest with ⟨after, others⟩
      cases result with
      | error error => exact ⟨_, .refl, .broken charged filled⟩
      | ok bytes =>
        cases accepted : progress.charge.accept bytes with
        | error error =>
          simp only [wrong bytes error accepted, carryOut]
          exact ⟨_, .refl, .rejected charged filled accepted⟩
        | ok further =>
          rcases inductionHypothesis bytes further accepted after others with
              ⟨last, reaches, stops⟩
          exact ⟨last, .head (.field charged filled accepted) reaches, stops⟩

/-- The beginning of a call, when its source has been attached. -/
def opening (decoder : Decoder) (source : Source) (arrivals : Arrivals) : Moment where
  progress := .start decoder.config.maxBlockSize
  state := decoder.context
  supply := (decoder.attach source).supplyWith arrivals

/-- A call is a sequence of steps with an end. -/
theorem decodeFrom_stops {decoder : Decoder} (healthy : decoder.poisoned = false) (source : Source)
    (arrivals : Arrivals) :
    ∃ last answer, (decoder.opening source arrivals).Reaches last ∧ last.Stops answer ∧
      decoder.decodeFrom source arrivals = decoder.conclude answer := by
  have follows := Progress.follows_read decoder.config.maxBlockSize
  rcases moment_of_carryOut follows decoder.context ((decoder.attach source).supplyWith arrivals)
      with ⟨last, reaches, stops⟩
  exact ⟨last, _, reaches, stops, decodeFrom_eq healthy source arrivals⟩

end Decoder
end HeaderCodec
