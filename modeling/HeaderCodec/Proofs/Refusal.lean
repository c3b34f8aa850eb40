import HeaderCodec.Proofs.Poisoning
import HeaderCodec.Proofs.Sending
import Mathlib.Data.List.Nodup

namespace HeaderCodec

/-!
# Headers that cannot be sent

Headers are looked at before anything is done with them.  What can be wrong with
an entry is said here without the order of the tests: `Flaw` gives each fault its
own condition, and at most one fault holds of an entry.  Of all entries the one with
the least name is blamed.  Since entries stand in the order of their names, this is
the first flaw that a walk through them meets.

A refusal leaves nothing behind.  So it makes no difference to the other calls
whether a refused one was made or not, and the calls that are refused can be
deleted from any run.
-/

/-! ## Flaws -/

/-- What is wrong with an entry.  The name is blamed before the values, and what a
text holds before its length. -/
inductive Flaw : Header -> HeaderFault -> Prop where
  | emptyName {header : Header} (nameless : header.name = "") : Flaw header .emptyName
  | nulInName {header : Header} (nul : Text.separator ∈ header.name.toList) :
      Flaw header (.unencodableName header.name)
  | longName {header : Header} (long : Word.limit ≤ header.name.utf8ByteSize) :
      Flaw header (.unencodableName header.name)
  | nulInValue {header : Header} {value : String} (named : header.name ≠ "")
      (clean : Text.separator ∉ header.name.toList)
      (short : header.name.utf8ByteSize < Word.limit)
      (member : value ∈ header.values) (nul : Text.separator ∈ value.toList) :
      Flaw header (.nulInValue header.name)
  | longValues {header : Header} (named : header.name ≠ "")
      (clean : Text.separator ∉ header.name.toList)
      (short : header.name.utf8ByteSize < Word.limit)
      (cleanValues : ∀ value ∈ header.values, Text.separator ∉ value.toList)
      (long : Word.limit ≤ Text.joinedLength header.values) :
      Flaw header (.valueTooLong header.name)

theorem Text.hasSeparator_iff (text : String) :
    hasSeparator text = true <-> separator ∈ text.toList :=
  List.contains_iff_mem

namespace Encoder

theorem entryFault?_of_flaw {header : Header} {fault : HeaderFault} (flaw : Flaw header fault) :
    entryFault? header = some fault := by
  have unnamed_iff : header.name.isEmpty = true <-> header.name = "" := String.isEmpty_iff
  have unencodable_iff : Text.hasSeparator header.name = true ∨
      Word.limit ≤ header.name.utf8ByteSize <->
        Text.separator ∈ header.name.toList ∨ Word.limit ≤ header.name.utf8ByteSize :=
    or_congr_left (Text.hasSeparator_iff header.name)
  rw [entryFault?]
  cases flaw with
  | emptyName nameless => rw [if_pos (unnamed_iff.2 nameless)]
  | nulInName nul =>
    have named : header.name ≠ "" := by
      intro nameless
      rw [nameless] at nul
      exact List.not_mem_nil nul
    rw [if_neg (mt unnamed_iff.1 named), if_pos (unencodable_iff.2 (Or.inl nul))]
  | longName long =>
    have named : header.name ≠ "" := by
      intro nameless
      rw [nameless] at long
      exact absurd long (by decide)
    rw [if_neg (mt unnamed_iff.1 named), if_pos (unencodable_iff.2 (Or.inr long))]
  | @nulInValue value named clean short member nul =>
    have encodable := mt unencodable_iff.1 (not_or.2 ⟨clean, Nat.not_le.2 short⟩)
    have found : header.values.any Text.hasSeparator = true :=
      List.any_eq_true.2 ⟨value, member, (Text.hasSeparator_iff value).2 nul⟩
    rw [if_neg (mt unnamed_iff.1 named), if_neg encodable, if_pos found]
  | longValues named clean short cleanValues long =>
    have encodable := mt unencodable_iff.1 (not_or.2 ⟨clean, Nat.not_le.2 short⟩)
    have notFound : ¬header.values.any Text.hasSeparator = true := by
      intro found
      rcases List.any_eq_true.1 found with ⟨value, member, nul⟩
      exact cleanValues value member ((Text.hasSeparator_iff value).1 nul)
    rw [if_neg (mt unnamed_iff.1 named), if_neg encodable, if_neg notFound, if_pos long]

theorem flaw_of_entryFault? {header : Header} {fault : HeaderFault} :
    entryFault? header = some fault -> Flaw header fault := by
  fun_cases entryFault? header with
  | case1 unnamed =>
    rintro ⟨⟩
    exact .emptyName (String.isEmpty_iff.1 unnamed)
  | case2 _ unencodable =>
    rintro ⟨⟩
    rcases unencodable with nul | long
    · exact .nulInName ((Text.hasSeparator_iff header.name).1 nul)
    · exact .longName long
  | case3 named encodable found =>
    rintro ⟨⟩
    rcases not_or.1 encodable with ⟨clean, short⟩
    rcases List.any_eq_true.1 found with ⟨value, member, nul⟩
    exact .nulInValue (mt String.isEmpty_iff.2 named) (mt (Text.hasSeparator_iff _).2 clean)
      (Nat.not_le.1 short) member ((Text.hasSeparator_iff value).1 nul)
  | case4 named encodable notFound long =>
    rintro ⟨⟩
    rcases not_or.1 encodable with ⟨clean, short⟩
    refine .longValues (mt String.isEmpty_iff.2 named) (mt (Text.hasSeparator_iff _).2 clean)
      (Nat.not_le.1 short) ?_ long
    intro value member nul
    exact notFound (List.any_eq_true.2 ⟨value, member, (Text.hasSeparator_iff value).2 nul⟩)
  | case5 =>
    intro none
    contradiction

/-- An encoder finds what is wrong with an entry. -/
theorem entryFault?_eq_some_iff (header : Header) (fault : HeaderFault) :
    entryFault? header = some fault <-> Flaw header fault :=
  ⟨flaw_of_entryFault?, entryFault?_of_flaw⟩

/-! ## Which flaw is reported -/

variable {headers : Headers}

/-- A flaw of the entry with the least name of those that have one. -/
def Blamed (headers : Headers) (fault : HeaderFault) : Prop :=
  ∃ header ∈ headers.entries, Flaw header fault ∧
    ∀ other ∈ headers.entries, other.name < header.name -> ∀ excuse, ¬Flaw other excuse

theorem flawless_iff (header : Header) :
    entryFault? header = none <-> ∀ fault, ¬Flaw header fault := by
  rw [Option.eq_none_iff_forall_ne_some]
  exact forall_congr' fun fault => not_congr (entryFault?_eq_some_iff header fault)

/-- A walk through entries in order stops at the flaw that is to be reported. -/
theorem findSome?_entryFault?_iff (headers : Headers) (fault : HeaderFault) :
    headers.entries.findSome? entryFault? = some fault <-> Blamed headers fault := by
  have ordered := headers.wellFormed.ascending
  rw [List.findSome?_eq_some_iff]
  constructor
  · rintro ⟨before, header, behind, parts, found, flawless⟩
    rw [parts, List.map_append, List.map_cons, List.pairwise_append, List.pairwise_cons] at ordered
    refine ⟨header, ?_, flaw_of_entryFault? found, ?_⟩
    · rw [parts]
      exact List.mem_append_right before List.mem_cons_self
    · intro other member less
      rw [parts] at member
      rcases List.mem_append.1 member with early | late
      · exact (flawless_iff other).1 (flawless other early)
      · rcases List.mem_cons.1 late with rfl | later
        · exact absurd less Std.lt_irrefl
        · have greater := ordered.2.1.1 other.name (List.mem_map_of_mem later)
          exact absurd less (Std.not_lt.2 (Std.le_of_lt greater))
  · rintro ⟨header, member, flaw, first⟩
    rcases List.append_of_mem member with ⟨before, behind, parts⟩
    rw [parts, List.map_append, List.map_cons, List.pairwise_append] at ordered
    refine ⟨before, header, behind, parts, entryFault?_of_flaw flaw, ?_⟩
    intro other early
    have less := ordered.2.2 other.name (List.mem_map_of_mem early) header.name List.mem_cons_self
    refine (flawless_iff other).2 (first other ?_ less)
    rw [parts]
    exact List.mem_append_left _ early

/-- What is reported about headers: that they are too many, or else the flaw that is
to be blamed. -/
def Reported (headers : Headers) (fault : HeaderFault) : Prop :=
  Word.limit ≤ headers.size ∧ fault = .tooManyNames ∨
    headers.size < Word.limit ∧ Blamed headers fault

theorem fault?_eq_some_iff (headers : Headers) (fault : HeaderFault) :
    fault? headers = some fault <-> Reported headers fault := by
  rw [fault?, Reported]
  by_cases many : Word.limit ≤ headers.size
  · rw [if_pos many, Option.some.injEq]
    constructor
    · intro same
      exact Or.inl ⟨many, same.symm⟩
    · rintro (⟨_, rfl⟩ | ⟨few, _⟩)
      · rfl
      · exact absurd many (Nat.not_le.2 few)
  · rw [if_neg many, findSome?_entryFault?_iff]
    constructor
    · intro blamed
      exact Or.inr ⟨Nat.not_le.1 many, blamed⟩
    · rintro (⟨much, _⟩ | ⟨_, blamed⟩)
      · exact absurd much many
      · exact blamed

/-! ## Headers of ordinary size -/

/-- An entry that no length could make right. -/
def Forbidden (header : Header) : Prop :=
  header.name = "" ∨ Text.separator ∈ header.name.toList ∨
    ∃ value ∈ header.values, Text.separator ∈ value.toList

/-- An entry whose lengths fit into words. -/
structure Short (header : Header) : Prop where
  name : header.name.utf8ByteSize < Word.limit
  values : Text.joinedLength header.values < Word.limit

/-- A short entry has a flaw just when it is forbidden. -/
theorem flawed_iff {header : Header} (short : Short header) :
    (∃ fault, Flaw header fault) <-> Forbidden header := by
  constructor
  · rintro ⟨fault, flaw⟩
    cases flaw with
    | emptyName nameless => exact Or.inl nameless
    | nulInName nul => exact Or.inr (Or.inl nul)
    | longName long => exact absurd short.name (Nat.not_lt.2 long)
    | nulInValue _ _ _ member nul => exact Or.inr (Or.inr ⟨_, member, nul⟩)
    | longValues _ _ _ _ long => exact absurd short.values (Nat.not_lt.2 long)
  · intro forbidden
    by_cases nameless : header.name = ""
    · exact ⟨_, .emptyName nameless⟩
    · by_cases nul : Text.separator ∈ header.name.toList
      · exact ⟨_, .nulInName nul⟩
      · rcases (forbidden.resolve_left nameless).resolve_left nul with ⟨value, member, inside⟩
        exact ⟨_, .nulInValue nameless nul short.name member inside⟩

/-- One of some flawed entries is to be blamed. -/
theorem exists_blamed_iff :
    (∃ fault, Blamed headers fault) <-> ∃ header ∈ headers.entries, ∃ fault, Flaw header fault := by
  constructor
  · rintro ⟨fault, header, member, flaw, _⟩
    exact ⟨header, member, fault, flaw⟩
  · rintro ⟨header, member, fault, flaw⟩
    cases found : headers.entries.findSome? entryFault? with
    | some other => exact ⟨other, (findSome?_entryFault?_iff headers other).1 found⟩
    | none =>
      have flawless := (flawless_iff header).1 (List.findSome?_eq_none_iff.1 found header member)
      exact absurd flaw (flawless fault)

/-- Distinct names are either few or long: only 257 texts have less than two
bytes. -/
theorem two_mul_length_le {names : List String} (distinct : names.Nodup) :
    2 * names.length ≤ (names.map String.utf8ByteSize).sum + 514 := by
  have counted : ∀ some : List String, 2 * some.length ≤ (some.map String.utf8ByteSize).sum +
      2 * (some.filter fun name => name.utf8ByteSize < 2).length := by
    intro some
    induction some with
    | nil => exact Nat.zero_le _
    | cons name rest inductionHypothesis =>
      rw [List.map_cons, List.sum_cons, List.length_cons, List.filter_cons]
      split
      · rw [List.length_cons]
        omega
      · rename_i long
        rw [decide_eq_true_eq] at long
        omega
  let candidates : List (List UInt8) := [] :: (List.range 256).map fun code => [UInt8.ofNat code]
  have few : (names.filter fun name => name.utf8ByteSize < 2).length ≤ candidates.length := by
    rw [← List.length_map Utf8.encode]
    refine List.Nodup.length_le_of_subset
      ((distinct.filter _).map fun _ _ same => Utf8.encode_injective same) ?_
    intro bytes member
    rcases List.mem_map.1 member with ⟨name, inside, rfl⟩
    have small := of_decide_eq_true (List.mem_filter.1 inside).2
    rw [← Text.length_encode] at small
    match Utf8.encode name, small with
    | [], _ => exact List.mem_cons_self
    | [byte], _ =>
      refine List.mem_cons_of_mem _ (List.mem_map.2 ⟨byte.toNat, ?_, ?_⟩)
      · exact List.mem_range.2 byte.toNat_lt
      · rw [UInt8.ofNat_toNat]
  have all := counted names
  have total : candidates.length = 257 := by
    rw [List.length_cons, List.length_map, List.length_range]
  omega

/-- Names that together fit into a word can be counted by one. -/
theorem size_lt_of_names
    (fitting : (headers.entries.map fun header => header.name.utf8ByteSize).sum < Word.limit) :
    headers.size < Word.limit := by
  have distinct : (headers.entries.map Header.name).Nodup :=
    headers.wellFormed.ascending.imp fun less => Std.ne_of_lt less
  have enough := two_mul_length_le distinct
  rw [List.length_map, List.map_map] at enough
  rw [Headers.size]
  have whole : (headers.entries.map (String.utf8ByteSize ∘ Header.name)).sum < Word.limit :=
    fitting
  rw [Word.limit] at whole ⊢
  omega

/-! ## Runs with and without refused calls -/

variable {State : Type} [Compressor State] {encoder : Encoder State}

/-- The calls that are not refused. -/
def admitted (encoder : Encoder State) (calls : List Call) : List Call :=
  ((calls.zip (encoder.answers calls).1).filter fun pair => !pair.2.isRefusal).map Prod.fst

/-- A refusal leaves an encoder as it is. -/
theorem answer_of_refusal {call : Call}
    (refused : (encoder.answer call).1.isRefusal = true) : (encoder.answer call).2 = encoder := by
  have refused_encode {headers : Headers} {fault : HeaderFault} {next : Encoder State}
      (answer : encoder.encode headers = (.error (.invalidHeader fault), next)) :
      next = encoder := by
    have outcome := encoded encoder headers
    rw [answer] at outcome
    cases outcome with
    | refused => rfl
    | lost _ _ failed =>
      rcases losesBlock_of_compress failed with ⟨_, same⟩ | ⟨_, same⟩
      · cases same
      · cases same
  cases call with
  | encode headers =>
    rw [answer] at refused ⊢
    rcases ended : encoder.encode headers with ⟨_ | block, next⟩
    all_goals rw [ended] at refused
    · rename_i error
      cases error with
      | invalidHeader => exact refused_encode ended
      | _ => contradiction
    · contradiction
  | encodeTo headers sink =>
    have outcome := written encoder headers sink
    rw [answer] at refused ⊢
    generalize encoder.encodeTo headers sink = ended at outcome refused ⊢
    rcases ended with ⟨result, after, next⟩
    cases outcome with
    | @failed error _ answer =>
      cases error with
      | invalidHeader => exact refused_encode answer
      | _ => contradiction
    | broken => contradiction
    | sent => contradiction

/-- Without the calls that are refused, a run gives the same answers to the others
and ends in the same way. -/
theorem answers_admitted (encoder : Encoder State) (calls : List Call) :
    encoder.answers (encoder.admitted calls) =
      ((encoder.answers calls).1.filter fun answer => !answer.isRefusal,
        (encoder.answers calls).2) := by
  induction calls generalizing encoder with
  | nil => rfl
  | cons call calls inductionHypothesis =>
    have later := inductionHypothesis (encoder.answer call).2
    rw [admitted] at later
    rw [admitted, answers, List.zip_cons_cons]
    cases refused : (encoder.answer call).1.isRefusal with
    | true =>
      rw [List.filter_cons_of_neg (by rw [refused]; decide),
        List.filter_cons_of_neg (by rw [refused]; decide)]
      rw [answer_of_refusal refused] at later ⊢
      exact later
    | false =>
      rw [List.filter_cons_of_pos (by rw [refused]; rfl),
        List.filter_cons_of_pos (by rw [refused]; rfl), List.map_cons, answers, later]

/-! ## Validation as a whole -/

/-- Headers without a fault are not refused. -/
theorem not_refused_of_faultless (healthy : encoder.poisoned = false)
    (faultless : fault? headers = none) (sink : Sink) (fault : HeaderFault) :
    (encoder.encode headers).1 ≠ .error (.invalidHeader fault) ∧
      (encoder.encodeTo headers sink).1 ≠ .error (.invalidHeader fault) := by
  have never {next : Encoder State} :
      encoder.encode headers ≠ (.error (.invalidHeader fault), next) := by
    intro answer
    rcases (losesBlock_of_encode healthy faultless answer).1 with ⟨_, same⟩ | ⟨_, same⟩
    · cases same
    · cases same
  constructor
  · intro same
    exact never (Prod.ext same rfl)
  · intro same
    have outcome := written encoder headers sink
    rw [same] at outcome
    generalize (encoder.encodeTo headers sink).2 = ended at outcome
    rcases ended with ⟨after, next⟩
    cases outcome with
    | failed answer => exact never answer

/-- How a healthy encoder deals with headers that may have to be refused. -/
structure Validates (encoder : Encoder State) (headers : Headers) (sink : Sink) : Prop where
  /-- What is to be reported is reported, in either way of encoding, and nothing else. -/
  encode_iff : ∀ fault,
    (encoder.encode headers).1 = .error (.invalidHeader fault) <-> Reported headers fault
  encodeTo_iff : ∀ fault,
    (encoder.encodeTo headers sink).1 = .error (.invalidHeader fault) <-> Reported headers fault
  /-- A refusal changes neither the encoder, its stream included, nor the sink. -/
  encode_eq : ∀ fault, Reported headers fault ->
    encoder.encode headers = (.error (.invalidHeader fault), encoder)
  encodeTo_eq : ∀ fault, Reported headers fault ->
    encoder.encodeTo headers sink = (.error (.invalidHeader fault), sink, encoder)
  /-- As long as every text has a length that fits into a word, headers are refused when an
  entry has an empty name or holds a NUL, or when there are too many names. -/
  reported_iff : (∀ header ∈ headers.entries, Short header) ->
    ((∃ fault, Reported headers fault) <->
      Word.limit ≤ headers.size ∨ ∃ header ∈ headers.entries, Forbidden header)
  /-- When the names fit into a word all together, there cannot be too many. -/
  reported_iff_blamed : (∀ header ∈ headers.entries, Short header) ->
    (headers.entries.map fun header => header.name.utf8ByteSize).sum < Word.limit ->
    ∀ fault, Reported headers fault <-> Blamed headers fault
  reported_iff_forbidden : (∀ header ∈ headers.entries, Short header) ->
    (headers.entries.map fun header => header.name.utf8ByteSize).sum < Word.limit ->
    ((∃ fault, Reported headers fault) <-> ∃ header ∈ headers.entries, Forbidden header)
  /-- Of any run of calls those that are refused can be deleted: the others return the same
  and lead to the same encoder. -/
  admitted_eq : ∀ calls, encoder.answers (encoder.admitted calls) =
    ((encoder.answers calls).1.filter fun answer => !answer.isRefusal,
      (encoder.answers calls).2)

theorem encode_iff_reported (healthy : encoder.poisoned = false) (sink : Sink)
    (fault : HeaderFault) :
    ((encoder.encode headers).1 = .error (.invalidHeader fault) <-> Reported headers fault) ∧
      ((encoder.encodeTo headers sink).1 = .error (.invalidHeader fault) <->
        Reported headers fault) := by
  rw [← fault?_eq_some_iff]
  cases found : fault? headers with
  | some other =>
    rcases refused_of_fault healthy found sink with ⟨encoded, written⟩
    rw [encoded, written, Except.error.injEq, Error.invalidHeader.injEq, Except.error.injEq,
      Error.invalidHeader.injEq, Option.some.injEq]
    exact ⟨Iff.rfl, Iff.rfl⟩
  | none =>
    rcases not_refused_of_faultless healthy found sink fault with ⟨encoded, written⟩
    exact ⟨iff_of_false encoded nofun, iff_of_false written nofun⟩

theorem exists_blamed_iff_forbidden (short : ∀ header ∈ headers.entries, Short header) :
    (∃ fault, Blamed headers fault) <-> ∃ header ∈ headers.entries, Forbidden header := by
  rw [exists_blamed_iff]
  exact exists_congr fun header => and_congr_right fun member => flawed_iff (short header member)

theorem reported_iff_blamed_of_few (few : headers.size < Word.limit) (fault : HeaderFault) :
    Reported headers fault <-> Blamed headers fault := by
  constructor
  · rintro (⟨many, _⟩ | ⟨_, blamed⟩)
    · exact absurd few (Nat.not_lt.2 many)
    · exact blamed
  · intro blamed
    exact Or.inr ⟨few, blamed⟩

/-- A healthy encoder refuses headers just when there is something to be reported, and a
refusal leaves no trace. -/
theorem refuses_what_is_reported (healthy : encoder.poisoned = false) (headers : Headers)
    (sink : Sink) : encoder.Validates headers sink := by
  have refused (fault : HeaderFault) (reported : Reported headers fault) :=
    refused_of_fault healthy ((fault?_eq_some_iff headers fault).2 reported) sink
  constructor
  · exact fun fault => (encode_iff_reported healthy sink fault).1
  · exact fun fault => (encode_iff_reported healthy sink fault).2
  · exact fun fault reported => (refused fault reported).1
  · exact fun fault reported => (refused fault reported).2
  · intro short
    rw [← exists_blamed_iff_forbidden short]
    constructor
    · rintro ⟨fault, ⟨many, _⟩ | ⟨_, blamed⟩⟩
      · exact Or.inl many
      · exact Or.inr ⟨fault, blamed⟩
    · intro either
      by_cases many : Word.limit ≤ headers.size
      · exact ⟨.tooManyNames, Or.inl ⟨many, rfl⟩⟩
      · rcases either.resolve_left many with ⟨fault, blamed⟩
        exact ⟨fault, Or.inr ⟨Nat.not_le.1 many, blamed⟩⟩
  · exact fun _ fitting => reported_iff_blamed_of_few (size_lt_of_names fitting)
  · intro short fitting
    rw [← exists_blamed_iff_forbidden short]
    exact exists_congr (reported_iff_blamed_of_few (size_lt_of_names fitting))
  · exact encoder.answers_admitted

/-- Two flawed entries, of which the one with the lesser name was appended last. -/
def twiceFlawed : Headers :=
  (({} : Headers).append "b" "1\x002").append "" "value"

/-- The lesser name is blamed, before and after the stream has begun. -/
theorem refuses_twiceFlawed :
    let fresh : Encoder Deflate.Deflater := { config := { level := 0 } }
    let begun := (fresh.encode {}).2
    (fresh.encode twiceFlawed).1 = .error (.invalidHeader .emptyName) ∧
      begun.encode twiceFlawed = (.error (.invalidHeader .emptyName), begun) := by
  intro fresh begun
  have reported : Reported twiceFlawed .emptyName :=
    (fault?_eq_some_iff twiceFlawed _).1 (by decide +kernel)
  have healthy : fresh.poisoned = false := rfl
  have stillHealthy : begun.poisoned = false := by decide +kernel
  constructor
  · exact ((refuses_what_is_reported healthy twiceFlawed {}).encode_iff .emptyName).2 reported
  · exact (refuses_what_is_reported stillHealthy twiceFlawed {}).encode_eq .emptyName reported

end Encoder

end HeaderCodec
