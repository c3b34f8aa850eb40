import HeaderCodec.Proofs.Refusal
import HeaderCodec.Proofs.Restraint

namespace HeaderCodec

/-!
# Sending on what has been received

A decoder is more generous than an encoder.  It takes names in any spelling and in
any order, the same name several times, and texts with any number of NULs in them.
What it returns is in order all the same: names are lower-cased and stand in their
order, each has a value, and no value holds a NUL because texts are cut there.  Only
a NUL in a name is left alone.  So an encoder accepts all headers that a decoder
returns, except those with such a name, and they come out unchanged at the other
end.

What the other end does is not seen from the encoder's state but from the blocks that
it has sent before.  Two ways of cutting bytes into as many blocks are the same,
whatever stands behind them, and this is how a receiver that has returned the headers
of these blocks is known to stand at their end.
-/

/-! ## Texts that have been read -/

namespace Text

theorem lowerImage_ne_nil (character : Char) : lowerImage character ≠ [] := by
  rw [lowerImage]
  split
  · exact List.cons_ne_nil _ _
  · exact List.cons_ne_nil _ _

theorem lowerFrom_ne_nil (preceded : Bool) {rest : List Char} (some : rest ≠ []) :
    lowerFrom preceded [] rest ≠ [] := by
  rcases List.exists_cons_of_ne_nil some with ⟨character, others, rfl⟩
  rw [lowerFrom_cons]
  refine List.append_ne_nil_of_left_ne_nil ?_ _
  split
  · exact List.cons_ne_nil _ _
  · exact lowerImage_ne_nil character

/-- A name does not vanish when it is lower-cased. -/
theorem lowerCase_ne_empty {text : String} (named : text ≠ "") : lowerCase text ≠ "" := by
  intro empty
  have some : text.toList ≠ [] := fun none => named (String.toList_eq_nil_iff.1 none)
  refine lowerFrom_ne_nil false some ?_
  rw [lowerCase] at empty
  exact String.ofList_eq_empty_iff.1 empty

theorem not_mem_of_mem_splitOnP {Item : Type} {cuts : Item -> Bool} {items piece : List Item}
    (member : piece ∈ items.splitOnP cuts) : ∀ item ∈ piece, cuts item = false := by
  induction items generalizing piece with
  | nil =>
    rw [List.splitOnP_nil, List.mem_singleton] at member
    subst member
    exact fun item inside => absurd inside List.not_mem_nil
  | cons first rest inductionHypothesis =>
    rw [List.splitOnP_cons_eq_if_modifyHead] at member
    split at member
    · rcases List.mem_cons.1 member with rfl | later
      · exact fun item inside => absurd inside List.not_mem_nil
      · exact inductionHypothesis later
    · rename_i kept
      cases pieces : rest.splitOnP cuts with
      | nil => exact absurd pieces (List.splitOnP_ne_nil _ _)
      | cons head others =>
        rw [pieces, List.modifyHead_cons] at member
        rw [pieces] at inductionHypothesis
        rcases List.mem_cons.1 member with rfl | later
        · refine List.forall_mem_cons.2 ⟨Bool.eq_false_iff.2 kept, ?_⟩
          exact inductionHypothesis List.mem_cons_self
        · exact inductionHypothesis (List.mem_cons_of_mem head later)

/-- The values that a text is split into hold no separator. -/
theorem separator_not_mem_split {text value : String} (member : value ∈ split text) :
    separator ∉ value.toList := by
  rcases List.mem_map.1 member with ⟨piece, inside, rfl⟩
  rw [String.toList_ofList]
  intro holds
  have clean := not_mem_of_mem_splitOnP inside separator holds
  rw [beq_self_eq_true] at clean
  contradiction

end Text

/-! ## Headers that have been read -/

namespace Headers

variable {name : String} {values : List String -> List String} {entries : List Header}

/-- What holds of all entries before a change, and of the one that is changed after
it, holds of all entries after it. -/
theorem forall_change {Holds : Header -> Prop} (each : ∀ header ∈ entries, Holds header)
    (new : Holds ⟨name, values []⟩)
    (changed : ∀ old, Holds ⟨name, old⟩ -> Holds ⟨name, values old⟩) :
    ∀ header ∈ change name values entries, Holds header := by
  induction entries with
  | nil => exact List.forall_mem_singleton.2 new
  | cons first rest inductionHypothesis =>
    rcases List.forall_mem_cons.1 each with ⟨here, later⟩
    rw [change]
    split
    · rename_i same
      exact List.forall_mem_cons.2 ⟨changed first.values (same ▸ here), later⟩
    · split
      · exact List.forall_mem_cons.2 ⟨new, each⟩
      · exact List.forall_mem_cons.2 ⟨here, inductionHypothesis later⟩

theorem length_change (name : String) (values : List String -> List String)
    (entries : List Header) : (change name values entries).length ≤ entries.length + 1 := by
  induction entries with
  | nil => exact Nat.le_refl 1
  | cons first rest inductionHypothesis =>
    rw [change]
    split
    · exact Nat.le_succ _
    · split
      · exact Nat.le_refl _
      · exact Nat.succ_le_succ inductionHypothesis

end Headers

namespace Block

/-- What every entry is that a decoder returns. -/
structure Received (header : Header) : Prop where
  named : header.name ≠ ""
  clean : ∀ value ∈ header.values, Text.separator ∉ value.toList

variable {entries : List Entry} {headers : Headers}

theorem received_appendAll (each : ∀ header ∈ headers.entries, Received header) {name : String}
    (named : name ≠ "") (text : String) :
    ∀ header ∈ (headers.appendAll name (Text.split text)).entries, Received header := by
  rw [Headers.entries_appendAll _ _ (Text.split_ne_nil text)]
  refine Headers.forall_change each ?_ ?_
  · exact ⟨Text.lowerCase_ne_empty named, fun value => Text.separator_not_mem_split⟩
  · intro old received
    refine ⟨received.named, fun value member => ?_⟩
    rcases List.mem_append.1 member with before | new
    · exact received.clean value before
    · exact Text.separator_not_mem_split new

theorem received_collect (proper : ∀ entry ∈ entries, entry.Proper)
    (each : ∀ header ∈ headers.entries, Received header) :
    ∀ header ∈ (collect headers entries).entries, Received header := by
  induction entries generalizing headers with
  | nil => exact each
  | cons entry rest inductionHypothesis =>
    rcases List.forall_mem_cons.1 proper with ⟨here, later⟩
    exact inductionHypothesis later (received_appendAll each here.named entry.text)

theorem size_collect (headers : Headers) (entries : List Entry) :
    (collect headers entries).size ≤ headers.size + entries.length := by
  induction entries generalizing headers with
  | nil => exact Nat.le_refl _
  | cons entry rest inductionHypothesis =>
    have added : (headers.appendAll entry.name (Text.split entry.text)).size ≤
        headers.size + 1 := by
      rw [Headers.size, Headers.entries_appendAll _ _ (Text.split_ne_nil entry.text)]
      exact Headers.length_change _ _ _
    have later := inductionHypothesis (headers.appendAll entry.name (Text.split entry.text))
    rw [List.length_cons]
    show (collect (headers.appendAll entry.name (Text.split entry.text)) rest).size ≤ _
    omega

theorem received_meaning (proper : Proper entries) :
    ∀ header ∈ (meaning entries).entries, Received header := by
  have whole := received_collect proper.each
    (fun header member => absurd member List.not_mem_nil : ∀ header ∈ ({} : Headers).entries, _)
  rw [collect_eq] at whole
  exact whole

theorem size_meaning (entries : List Entry) : (meaning entries).size ≤ entries.length := by
  have whole := size_collect {} entries
  rw [collect_eq] at whole
  exact Nat.le_trans whole (Nat.le_of_eq (Nat.zero_add _))

/-- Of what a decoder returns an encoder accepts all headers without a NUL in a name,
if the lengths fit into words again. -/
theorem accepted_meaning_iff (proper : Proper entries)
    (short : ∀ header ∈ (meaning entries).entries, Encoder.Short header) :
    Encoder.fault? (meaning entries) = none <->
      ∀ header ∈ (meaning entries).entries, Text.separator ∉ header.name.toList := by
  have few := Nat.lt_of_le_of_lt (size_meaning entries) proper.count
  rw [accepted_iff, and_iff_right few]
  refine forall₂_congr fun header member => ?_
  have received := received_meaning proper header member
  rw [Encoder.flawless_iff, ← not_exists, Encoder.flawed_iff (short header member)]
  refine not_congr ⟨?_, fun nul => Or.inr (Or.inl nul)⟩
  rintro (nameless | nul | ⟨value, inside, nul⟩)
  · exact absurd nameless received.named
  · exact nul
  · exact absurd nul (received.clean value inside)

/-! ## As many blocks as others -/

/-- If blocks begin some bytes and as many others do so too, they are the same
bytes. -/
theorem flatMap_layout_eq {blocks others : List (List Entry)} {rest left : List UInt8}
    (proper : ∀ entries ∈ blocks, Proper entries) (properToo : ∀ entries ∈ others, Proper entries)
    (count : blocks.length = others.length)
    (same : blocks.flatMap layout ++ rest = others.flatMap layout ++ left) :
    blocks.flatMap layout = others.flatMap layout ∧ rest = left := by
  induction blocks generalizing others with
  | nil =>
    rw [List.length_nil] at count
    rw [List.length_eq_zero_iff.1 count.symm] at same ⊢
    exact ⟨rfl, same⟩
  | cons entries blocks inductionHypothesis =>
    rcases List.exists_cons_of_length_eq_add_one count.symm with ⟨entriesToo, later, rfl⟩
    rcases List.forall_mem_cons.1 proper with ⟨here, behind⟩
    rcases List.forall_mem_cons.1 properToo with ⟨hereToo, behindToo⟩
    rw [List.flatMap_cons, List.flatMap_cons, List.append_assoc, List.append_assoc] at same
    -- One plan with enough budget reads either block and stops behind it.
    have first := @follow_read (max (layout entries).length (layout entriesToo).length) entries here
      (blocks.flatMap layout ++ rest) (Nat.le_max_left _ _)
    have second := @follow_read (max (layout entries).length (layout entriesToo).length) entriesToo
      hereToo (later.flatMap layout ++ left) (Nat.le_max_right _ _)
    rw [same, second] at first
    have behind_eq : blocks.flatMap layout ++ rest = later.flatMap layout ++ left := by
      injection first with both
      injection both with _ stops
      exact stops.symm
    rcases inductionHypothesis behind behindToo (Nat.succ.inj count) behind_eq with ⟨bytes, stops⟩
    rw [behind_eq] at same
    rw [List.flatMap_cons, List.flatMap_cons, bytes, List.append_cancel_right same]
    exact ⟨rfl, stops⟩

end Block

/-! ## Beginnings of streams -/

namespace Deflate

/-- A fault remains one, whatever comes behind it. -/
theorem Inflater.Clean.of_append {stream more : List UInt8} (clean : Clean (stream ++ more)) :
    Clean stream := by
  intro fault failed
  have asks : (Inflater.fresh.expand (Bits.ofBytes stream)).phase.demand = .nothing := by
    rw [failed]
    rfl
  refine clean fault ?_
  rw [Bits.ofBytes_append, Inflater.expand_append_of_nothing asks]
  exact failed

end Deflate

namespace Encoder

open Deflate (Inflater)

/-- A healthy encoder accepts headers without a fault and refuses all others. -/
theorem accepts_iff {State : Type} [Compressor State] {encoder : Encoder State}
    (healthy : encoder.poisoned = false) (headers : Headers) (sink : Sink) :
    (Compressor.Steady State ->
      ((∃ block, (encoder.encode headers).1 = .ok block) <-> fault? headers = none)) ∧
      ((∃ fault, (encoder.encode headers).1 = .error (.invalidHeader fault)) <->
        fault? headers ≠ none) ∧
      ((∃ fault, (encoder.encodeTo headers sink).1 = .error (.invalidHeader fault)) <->
        fault? headers ≠ none) := by
  cases found : fault? headers with
  | some fault =>
    rcases refused_of_fault healthy found sink with ⟨encoded, written⟩
    rw [encoded, written]
    exact ⟨fun _ => iff_of_false nofun nofun, iff_of_true ⟨fault, rfl⟩ nofun,
      iff_of_true ⟨fault, rfl⟩ nofun⟩
  | none =>
    have never := not_refused_of_faultless healthy found sink
    refine ⟨fun steady => iff_of_true ?_ rfl, iff_of_false ?_ (not_not_intro rfl),
      iff_of_false ?_ (not_not_intro rfl)⟩
    · rcases encode_of_steady healthy found with ⟨block, next, answer, _⟩
      exact ⟨block, congrArg Prod.fst answer⟩
    · exact fun ⟨fault, refused⟩ => (never fault).1 refused
    · exact fun ⟨fault, refused⟩ => (never fault).2 refused

end Encoder

namespace Decoder

open Deflate (Deflater Inflater)
open Encoder (Call Transmission)

variable {handed : List Source} {source : Source} {arrivals : Arrivals} {config : DecoderConfig}

/-! ## At the right point of a stream -/

/-- What a decoder has written so far is the beginning of what it can reach. -/
theorem prefix_outputOf_reach {decoder : Decoder} {pieces : List (List UInt8)}
    {taken : List Bool} {bytes : List UInt8}
    (books : decoder.context.Books handed pieces taken bytes decoder.intake)
    (more : List Source) :
    decoder.delivered = bytes.length ∧
      bytes <+: Inflater.outputOf (Source.reach (handed ++ more)) := by
  have size := Inflater.outputSize_of_course books.course
  have begins := Deflate.Decompressor.Books.prefix_outputOf_reach
    (show decoder.context.Books handed pieces taken bytes
      (decoder.supplyWith { queue := more }).intake from books)
  exact ⟨size.trans (Nat.zero_add _), begins⟩

/-- A decoder that has returned as many blocks as the output begins with stands behind
them. -/
theorem Used.Booked.drop_delivered {results : List (Except Error Headers)} {decoder : Decoder}
    {blocks others : List (List Block.Entry)} {more : List Source} {rest : List UInt8}
    (booked : Used.Booked config handed results decoder blocks)
    (proper : ∀ entries ∈ others, Block.Proper entries) (count : results.length = others.length)
    (output : Inflater.outputOf (Source.reach (handed ++ more)) =
      others.flatMap Block.layout ++ rest) :
    (Inflater.outputOf (Source.reach (handed ++ more))).drop decoder.delivered = rest := by
  rcases booked.books with ⟨loaded, taken, books⟩
  rcases prefix_outputOf_reach books more with ⟨size, left, written⟩
  rw [booked.results_eq, List.length_map] at count
  have bytes := (Block.flatMap_layout_eq (fun entries member => (booked.each entries member).1)
    proper count (written.trans output)).1
  rw [output, size, bytes, List.drop_left]

/-- A receiver that has returned the headers of all blocks before another one
returns the headers of this one as soon as its bytes can be reached.  Nothing is
needed of the blocks behind it, which may have arrived in part. -/
theorem decodeFrom_of_produced {earlier later : List Transmission} {sent : Transmission}
    {receiver : Decoder} (produced : Encoder.Produced [] [] (earlier ++ sent :: later))
    (used : Used config handed (earlier.map fun one => .ok one.headers) receiver)
    (fits : (Block.write sent.headers).length ≤ config.maxBlockSize)
    (arrived : (earlier ++ [sent]).flatMap Transmission.block <+:
      Source.reach (handed ++ source :: arrivals.queue))
    (within : Source.reach (handed ++ source :: arrivals.queue) <+:
      (earlier ++ sent :: later).flatMap Transmission.block) :
    (receiver.decodeFrom source arrivals).1 = .ok sent.headers := by
  have firstPart := produced.take (earlier.length + 1)
  rw [List.append_cons, List.take_left' (by rw [List.length_append]; rfl)] at firstPart
  rcases (produced.chained .fresh).leads rfl with ⟨_, leadsAll⟩
  rcases (firstPart.chained .fresh).leads rfl with ⟨_, taken, beyond, split, course, _⟩
  -- The bytes that can be reached stand for the blocks through this one.
  have clean : Inflater.Clean (Source.reach (handed ++ source :: arrivals.queue)) := by
    rcases within with ⟨more, parts⟩
    exact Inflater.Clean.of_append (parts ▸ Inflater.clean_of_leads leadsAll)
  have begun : (earlier ++ [sent]).flatMap (fun one => Block.write one.headers) <+:
      Inflater.outputOf (Source.reach (handed ++ source :: arrivals.queue)) := by
    rcases arrived with ⟨more, parts⟩
    have bits : Bits.ofBytes (Source.reach (handed ++ source :: arrivals.queue)) =
        taken ++ (beyond ++ Bits.ofBytes more) := by
      rw [← parts, Bits.ofBytes_append, split, List.append_assoc]
    exact Inflater.output_prefix_outputOf course bits
  -- The receiver has written the blocks before this one, and no more.
  have healthy : receiver.poisoned = false := by
    rw [Bool.eq_false_iff, Ne, used.disciplined.poisoned_iff]
    rintro ⟨result, member, fatal⟩
    rcases List.mem_map.1 member with ⟨one, _, rfl⟩
    exact not_isFatal_ok one.headers fatal
  rcases used.booked healthy with ⟨blocks, booked⟩
  rcases booked.books with ⟨loaded, consumed, books⟩
  rcases begun with ⟨rest, output⟩
  have proper : ∀ one ∈ earlier ++ sent :: later, Block.Proper (Block.entriesOf one.headers) :=
    fun one member => Block.proper_of_accepted (produced.accepted one member)
  have properEarlier : ∀ entries ∈ earlier.map fun one => Block.entriesOf one.headers,
      Block.Proper entries := by
    intro entries member
    rcases List.mem_map.1 member with ⟨one, inside, rfl⟩
    exact proper one (List.mem_append_left _ inside)
  have laidOut : (earlier.map fun one => Block.entriesOf one.headers).flatMap Block.layout =
      earlier.flatMap fun one => Block.write one.headers := by
    rw [List.flatMap_map]
    exact List.flatMap_congr fun one _ => (Block.write_eq one.headers).symm
  have here : sent ∈ earlier ++ sent :: later := List.mem_append_right _ List.mem_cons_self
  rw [List.flatMap_append, List.flatMap_singleton, ← laidOut, List.append_assoc,
    Block.write_eq] at output
  have begins := booked.drop_delivered properEarlier
    (by rw [List.length_map, List.length_map]) output.symm
  rw [Block.write_eq] at fits
  rw [List.append_cons] at clean begins
  rcases decodeFrom_of_reach healthy (books.attach source) (proper sent here)
    (booked.same ▸ fits) clean begins with ⟨_, _, answer, _⟩
  rw [answer, Block.meaning_entriesOf (produced.accepted sent here)]

/-! ## Decoding, encoding and decoding again -/

namespace Used

variable {results : List (Except Error Headers)} {decoder : Decoder} {headers : Headers}

/-- The last result is the meaning of the last block. -/
theorem Booked.last_eq {blocks : List (List Block.Entry)} {entries : List Block.Entry}
    (booked : Booked config handed (results ++ [.ok headers]) decoder (blocks ++ [entries])) :
    headers = Block.meaning entries := by
  have all := booked.results_eq
  rw [List.map_append, List.map_singleton] at all
  exact Except.ok.inj (List.singleton_inj.1 (List.append_inj' all rfl).2)

/-- All headers that a decoder has ever returned are the meaning of some block. -/
theorem meaning_of_mem (used : Used config handed results decoder)
    (returned : .ok headers ∈ results) :
    ∃ entries, Block.Proper entries ∧ headers = Block.meaning entries := by
  induction used with
  | fresh => cases returned
  | attach _ source inductionHypothesis => exact inductionHypothesis returned
  | @called _ _ _ _ _ _ _ _ result used healthy answer order inductionHypothesis =>
    rcases List.mem_append.1 returned with before | last
    · exact inductionHypothesis before
    · rw [← List.mem_singleton.1 last] at answer
      rcases used.booked healthy with ⟨blocks, booked⟩
      rcases booked.decoded healthy answer order with ⟨entries, after⟩
      have inside : entries ∈ blocks ++ [entries] :=
        List.mem_append_right _ (List.mem_singleton_self entries)
      exact ⟨entries, (after.each entries inside).1, after.last_eq⟩
  | @refused _ _ _ _ source arrivals _ _ _ poisoned answer inductionHypothesis =>
    rcases List.mem_append.1 returned with before | last
    · exact inductionHypothesis before
    · rw [decodeFrom_of_poisoned poisoned, ← List.mem_singleton.1 last] at answer
      cases answer

/-- How headers can be sent on. -/
structure SentOn (State : Type) [Compressor State] (headers : Headers) : Prop where
  /-- A healthy encoder accepts them unless there is a NUL in one of the names. -/
  accepted_iff : Compressor.Steady State -> ∀ encoder : Encoder State, encoder.poisoned = false ->
    ((∃ block, (encoder.encode headers).1 = .ok block) <->
      ∀ header ∈ headers.entries, Text.separator ∉ header.name.toList)
  refused_iff : ∀ encoder : Encoder State, encoder.poisoned = false -> ∀ sink,
    ((∃ fault, (encoder.encode headers).1 = .error (.invalidHeader fault)) <->
      ∃ header ∈ headers.entries, Text.separator ∈ header.name.toList) ∧
    ((∃ fault, (encoder.encodeTo headers sink).1 = .error (.invalidHeader fault)) <->
      ∃ header ∈ headers.entries, Text.separator ∈ header.name.toList)
  /-- When an encoder has sent them, behind whatever was sent before, then a decoder that has
  returned all that was sent before returns just the same headers next.  It needs the bytes
  up to the end of their block, and room for a block of this size. -/
  returned : Compressor.Flushing State ->
    ∀ (settings : EncoderConfig) (calls later : List Call) (call : Call) (sent : Transmission),
      call.headers = headers ->
      call.sent? ((({ config := settings } : Encoder State).answers calls).2.answer call).1 =
        some sent ->
      ∀ (receiving : DecoderConfig) (given : List Source) (receiver : Decoder) (source : Source)
        (arrivals : Arrivals),
        Used receiving given
          ((({ config := settings } : Encoder State).transmissions calls).map
            fun one => .ok one.headers)
          receiver ->
        (Block.write headers).length ≤ receiving.maxBlockSize ->
        (({ config := settings } : Encoder State).transmissions (calls ++ [call])).flatMap
            Transmission.block <+: Source.reach (given ++ source :: arrivals.queue) ->
        Source.reach (given ++ source :: arrivals.queue) <+:
          (({ config := settings } : Encoder State).transmissions (calls ++ call :: later)).flatMap
            Transmission.block ->
        (receiver.decodeFrom source arrivals).1 = .ok headers

/-- What a decoder has returned can be sent on, provided that its lengths fit into
words. -/
theorem sent_on {State : Type} [Compressor State] (used : Used config handed results decoder)
    (returned : .ok headers ∈ results) (short : ∀ header ∈ headers.entries, Encoder.Short header) :
    SentOn State headers := by
  rcases used.meaning_of_mem returned with ⟨entries, proper, rfl⟩
  have accepted_iff := Block.accepted_meaning_iff proper short
  have flawed_iff : Encoder.fault? (Block.meaning entries) ≠ none <->
      ∃ header ∈ (Block.meaning entries).entries, Text.separator ∈ header.name.toList := by
    rw [Ne, accepted_iff]
    simp only [not_forall, not_not, exists_prop]
  constructor
  · intro steady encoder healthy
    exact ((Encoder.accepts_iff healthy _ {}).1 steady).trans accepted_iff
  · intro encoder healthy sink
    rcases Encoder.accepts_iff healthy (Block.meaning entries) sink with ⟨_, encoded, written⟩
    exact ⟨encoded.trans flawed_iff, written.trans flawed_iff⟩
  · intro flushing settings calls later call sent same answer receiving given receiver source
      arrivals usedToo fits arrived within
    have sentHeaders := (Encoder.headers_of_sent answer).symm.trans same
    have last := Encoder.transmissions_of_sent answer []
    have produced := @Encoder.produced_transmissions State _ _ _ _ { config := settings } .fresh
      (calls ++ call :: later)
    rw [Encoder.transmissions_of_sent answer] at produced within
    have alone : (({ config := settings } : Encoder State).transmissions calls ++ [sent]).flatMap
        Transmission.block <+: Source.reach (given ++ source :: arrivals.queue) := by
      rw [last] at arrived
      exact arrived
    rw [← sentHeaders] at fits ⊢
    exact decodeFrom_of_produced produced usedToo fits alone within

/-- The beginning of a stream, and a block in stored form with names out of order
and in two spellings, and a NUL at the end of a text. -/
def carelessBlock : List UInt8 :=
  [0x78, 0x9c, 0x00, 0x23, 0x00, 0xdc, 0xff, 0, 0, 0, 3, 0, 0, 0, 1, 0x42, 0, 0, 0, 2, 0x63, 0,
    0, 0, 0, 1, 0x41, 0, 0, 0, 1, 0x65, 0, 0, 0, 1, 0x62, 0, 0, 0, 1, 0x64]

/-- What is made of it. -/
def careful : Headers :=
  .ofList [("a", "e"), ("b", "c"), ("b", ""), ("b", "d")]

theorem sent_on_carelessBlock :
    ∃ block, (({ config := { level := 0 } } : Encoder Deflater).encode careful).1 = .ok block ∧
      (({} : Decoder).decodeFrom (.ofBytes block) {}).1 = .ok careful := by
  have decoded : (({} : Decoder).decodeFrom (.ofBytes carelessBlock) {}).1 = .ok careful := by
    decide +kernel
  have used : Used {} _ _ _ := Used.fresh.alone rfl _ decoded
  have sizes : ∀ header ∈ careful.entries, header.name.utf8ByteSize < Word.limit ∧
      Text.joinedLength header.values < Word.limit := by decide +kernel
  have clean : ∀ header ∈ careful.entries, Text.separator ∉ header.name.toList := by
    decide +kernel
  have sentOn : SentOn Deflater careful := used.sent_on (List.mem_singleton_self _)
    fun header member => ⟨(sizes header member).1, (sizes header member).2⟩
  have healthy : ({ config := { level := 0 } } : Encoder Deflater).poisoned = false := rfl
  rcases (sentOn.accepted_iff inferInstance _ healthy).2 clean with ⟨block, encoded⟩
  have answered : Call.sent? (.encode careful)
      ((({ config := { level := 0 } } : Encoder Deflater).answers []).2.answer
        (.encode careful)).1 = some ⟨careful, block⟩ := by
    rw [Encoder.answers, Encoder.answer, encoded]
    rfl
  have sent := Encoder.transmissions_of_sent answered []
  have whole : (({ config := { level := 0 } } : Encoder Deflater).transmissions
      ([] ++ [.encode careful])).flatMap Transmission.block = Source.reach [.ofBytes block] := by
    rw [sent, Source.reach_ofBytes]
    exact List.append_nil block
  refine ⟨block, encoded, ?_⟩
  refine sentOn.returned inferInstance { level := 0 } [] [] (.encode careful) _ rfl answered {}
    [] {} (.ofBytes block) {} .fresh ?_ ?_ ?_
  · decide +kernel
  · exact whole ▸ List.prefix_refl _
  · exact whole ▸ List.prefix_refl _

end Used
end Decoder

end HeaderCodec
