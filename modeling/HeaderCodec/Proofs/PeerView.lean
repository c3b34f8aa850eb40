import HeaderCodec.Peer
import HeaderCodec.Proofs.Deflate.Expansion
import HeaderCodec.Proofs.Sending
import HeaderCodec.Proofs.Utf8Order
import Mathlib.Data.List.Forall2
import Mathlib.Data.List.Sort

namespace HeaderCodec

/-!
# What a peer sees

A peer of an encoder need not know how the encoder works.  It reads a compressed
stream of the format and finds blocks of the specified layout in it.  Here both
are said without the encoder: `Block.IsRaw` is the layout, and
`Deflate.Format.IsStream` the format.

The blocks of any number of calls are the beginning of such a stream, and all
that they stand for can be had from them at once.  Each block by itself brings a
peer that has read the blocks before it exactly the bytes of its headers, so none
leaves anything to its neighbours.
-/

/-! ## The layout as it is specified -/

namespace Block

/-- Four bytes that hold a number, the most significant one first. -/
structure IsWord (value : Nat) (bytes : List UInt8) : Prop where
  four : bytes.length = 4
  holds : Word.ofBytes bytes = value

/-- A text behind its length. -/
inductive IsText (text : List UInt8) : List UInt8 -> Prop where
  | of {size : List UInt8} (isSize : IsWord text.length size) : IsText text (size ++ text)

/-- A name and its joined values. -/
inductive IsEntry (header : Header) : List UInt8 -> Prop where
  | of {name values : List UInt8} (isName : IsText (Utf8.encode header.name) name)
      (isValues : IsText (Utf8.encode (Text.join header.values)) values) :
      IsEntry header (name ++ values)

/-- The number of names and then the entries, in ascending order of the bytes of
their names. -/
inductive IsRaw (headers : Headers) : List UInt8 -> Prop where
  | of {size : List UInt8} {entries : List Header} {parts : List (List UInt8)}
      (isSize : IsWord headers.size size) (same : entries.Perm headers.entries)
      (ascending : (entries.map fun header => Utf8.encode header.name).Pairwise (· < ·))
      (each : List.Forall₂ IsEntry entries parts) : IsRaw headers (size ++ parts.flatten)

theorem isWord_toBytes {value : Nat} (small : value < Word.limit) :
    IsWord value (Word.toBytes value) :=
  ⟨Word.length_toBytes value, Word.ofBytes_toBytes value small⟩

theorem IsWord.eq_toBytes {value : Nat} {bytes : List UInt8} (isWord : IsWord value bytes) :
    bytes = Word.toBytes value := by
  rw [← isWord.holds, Word.toBytes_ofBytes bytes isWord.four]

theorem IsText.eq_writeText {text : String} {bytes : List UInt8}
    (isText : IsText (Utf8.encode text) bytes) : bytes = writeText text := by
  cases isText with
  | of isSize => rw [isSize.eq_toBytes, writeText]

theorem IsEntry.eq_writeEntry {header : Header} {bytes : List UInt8}
    (isEntry : IsEntry header bytes) : bytes = writeEntry header := by
  cases isEntry with
  | of isName isValues => rw [isName.eq_writeText, isValues.eq_writeText, writeEntry]

/-- A text that is too long for a word is written, but not as a text of the layout. -/
theorem isText_writeText_iff (text : String) :
    IsText (Utf8.encode text) (writeText text) <-> (Utf8.encode text).length < Word.limit := by
  constructor
  · intro isText
    generalize writeText text = bytes at isText
    cases isText with
    | of isSize =>
      rw [← isSize.holds]
      exact Word.ofBytes_lt _ isSize.four
  · intro short
    exact .of (isWord_toBytes short)

theorem isEntry_writeEntry {header : Header} (sendable : Sendable header) :
    IsEntry header (writeEntry header) := by
  refine .of ((isText_writeText_iff _).2 ?_) ((isText_writeText_iff _).2 ?_)
  · rw [Text.length_encode]
    exact sendable.shortName
  · rw [Text.length_encode_join]
    exact sendable.shortValues

/-- Accepted headers have one block of the layout, and it is the one that is
written. -/
theorem isRaw_iff {headers : Headers} (accepted : Encoder.fault? headers = none)
    (bytes : List UInt8) :
    IsRaw headers bytes <-> bytes = write headers := by
  rcases (accepted_iff headers).1 accepted with ⟨few, each⟩
  have ascending : (headers.entries.map fun header => Utf8.encode header.name).Pairwise
      (· < ·) := by
    have names := headers.wellFormed.ascending
    rw [List.pairwise_map] at names ⊢
    exact names.imp Utf8.encode_lt
  constructor
  · intro isRaw
    cases isRaw with
    | @of size entries parts isSize same ordered layouts =>
      have sameEntries : entries = headers.entries :=
        same.eq_of_pairwise (fun _ _ _ _ less greater => absurd greater (List.lt_asymm less))
          (List.pairwise_map.1 ordered) (List.pairwise_map.1 ascending)
      subst sameEntries
      have written : List.Forall₂ Eq (headers.entries.map writeEntry) parts :=
        List.forall₂_map_left_iff.2 (layouts.imp fun _ _ isEntry => isEntry.eq_writeEntry.symm)
      rw [List.forall₂_eq_eq_eq] at written
      rw [isSize.eq_toBytes, ← written, write, List.flatMap_def]
  · intro same
    subst same
    rw [write, List.flatMap_def]
    refine .of (isWord_toBytes few) (List.Perm.refl _) ascending ?_
    rw [List.forall₂_map_right_iff, List.forall₂_same]
    intro header member
    exact isEntry_writeEntry (sendable_of_accepted (each header member))

end Block

/-! ## The stream that blocks begin -/

namespace Deflate

open Format (Head Blocks IsStream)

/-- A stream announces the dictionary at its beginning. -/
def Format.Announces (stream : List UInt8) : Prop :=
  ∃ head, Head head Dictionary.bytes ∧ head <+: stream

/-- An empty last block at a byte boundary. -/
def lastBlock : List UInt8 := [0x01, 0x00, 0x00, 0xff, 0xff]

theorem block_lastBlock {position : Nat} (aligned : position % 8 = 0) (history : List UInt8) :
    Format.Block true position history (Bits.ofBytes lastBlock) [] := by
  have padding : (List.replicate 5 false).length = Bits.padding (position + 3) := by
    rw [List.length_replicate, Bits.padding]
    omega
  have bits : Bits.ofBytes lastBlock = [true] ++ Bits.ofNat 2 0 ++
      (List.replicate 5 false ++ Bits.ofNat 16 0 ++ Bits.ofNat 16 (2 ^ 16 - 1 - 0) ++ []) := by
    decide
  have short : ([] : List UInt8).length < 2 ^ 16 := Nat.two_pow_pos 16
  rw [bits]
  exact .stored padding short

theorem aligned_behind (head body : List UInt8) :
    (8 * head.length + (Bits.ofBytes body).length) % 8 = 0 := by
  rw [Bits.length_ofBytes]
  omega

/-- Blocks that announce the dictionary become a stream by an empty last block and
the checksum. -/
theorem ends_of_blocks {head body output : List UInt8} (begins : Head head Dictionary.bytes)
    (inner : Blocks (8 * head.length) Dictionary.bytes (Bits.ofBytes body) output) :
    ∃ rest, Format.Announces (head ++ body ++ rest) ∧ IsStream (head ++ body ++ rest) output := by
  refine ⟨lastBlock ++ Word.toBytes (Checksum.ofBytes output).word, ⟨head, begins, ?_⟩, ?_⟩
  · rw [List.append_assoc]
    exact List.prefix_append _ _
  · have whole : IsStream (head ++ body ++ (lastBlock ++
        Word.toBytes (Checksum.ofBytes (output ++ [])).word)) (output ++ []) := by
      refine @IsStream.of _ head Dictionary.bytes output [] _ _ [] begins inner
        (block_lastBlock (aligned_behind head body) _) ?_ ?_
      · rw [Bits.length_ofBytes, Bits.length_ofBytes, Bits.padding, List.length_nil]
        omega
      · simp only [Bits.ofBytes_append, List.append_nil, List.append_assoc]
    rwa [List.append_nil output] at whole

/-- What has been sent: the head of a stream, if anything has been sent, and blocks
of the stream behind it. -/
inductive Begun : (stream output : List UInt8) -> Prop where
  | fresh : Begun [] []
  | started {head body output : List UInt8} (begins : Head head Dictionary.bytes)
      (inner : Blocks (8 * head.length) Dictionary.bytes (Bits.ofBytes body) output) :
      Begun (head ++ body) output

variable {stream output : List UInt8}

theorem Begun.part (begun : Begun stream output) {part bytes : List UInt8}
    (next : NextPart stream output part bytes) : Begun (stream ++ part) (output ++ bytes) := by
  cases next with
  | @first head body _ begins inner => exact @Begun.started head body _ begins inner
  | later some inner =>
    cases begun with
    | fresh => contradiction
    | @started head body _ begins before =>
      have place : 8 * (head ++ body).length = 8 * head.length + (Bits.ofBytes body).length := by
        rw [Bits.length_ofBytes, List.length_append]
        omega
      rw [place] at inner
      have longer := before.append inner
      rw [← Bits.ofBytes_append] at longer
      rw [List.append_assoc]
      exact .started begins longer

theorem Begun.produced {sent : List Encoder.Transmission} (begun : Begun stream output)
    (produced : Encoder.Produced stream output sent) :
    Begun (stream ++ sent.flatMap Encoder.Transmission.block)
      (output ++ sent.flatMap fun one => HeaderCodec.Block.write one.headers) := by
  induction produced with
  | done =>
    rw [List.flatMap_nil, List.flatMap_nil, List.append_nil, List.append_nil]
    exact begun
  | next _ part _ inductionHypothesis =>
    have after := inductionHypothesis (begun.part part)
    rw [List.append_assoc, List.append_assoc] at after
    exact after

/-- What has been sent can be ended at any time, and it is a whole stream then. -/
theorem Begun.isStream (begun : Begun stream output) :
    ∃ rest, Format.Announces (stream ++ rest) ∧ IsStream (stream ++ rest) output := by
  cases begun with
  | started begins inner => exact ends_of_blocks begins inner
  | fresh =>
    rcases @ends_of_blocks _ [] [] (Deflater.isHead_head 0) .none with ⟨rest, announces, isStream⟩
    exact ⟨_, announces, isStream⟩

end Deflate

/-! ## What a peer makes of the blocks -/

namespace Peer

open Deflate (Inflater)
open Encoder (Call Chained Transmission)

/-- Take blocks one after the other.  What each of them adds to the output is
returned. -/
def receiveAll (peer : Peer) : List (List UInt8) -> List (List UInt8)
  | [] => []
  | block :: blocks =>
    let (bytes, next) := peer.receive block
    bytes :: next.receiveAll blocks

theorem receive_of_course {state after : Inflater} {block bytes : List UInt8}
    (course : Deflate.Course state (Bits.ofBytes block) bytes after)
    (asks : after.phase.demand = .bit) :
    ({ inflater := state } : Peer).receive block = (bytes, { inflater := after }) := by
  have arrives : state.expand (Bits.ofBytes block) = after :=
    Inflater.expand_of_leads (.of_course course asks)
  rw [receive, arrives, Inflater.outputFrom_eq, course.output_eq, ← Inflater.length_output,
    List.drop_left]

/-- A peer that stands where the encoder stood makes of each block the bytes of
its headers, and stands where the encoder stands then. -/
theorem receiveAll_of_chained {state : Inflater} {sent : List Transmission}
    (chained : Chained state sent) :
    ({ inflater := state } : Peer).receiveAll (sent.map Transmission.block) =
      sent.map fun one => Block.write one.headers := by
  induction chained with
  | done => rfl
  | next _ course asks _ inductionHypothesis =>
    rw [List.map_cons, List.map_cons, ← inductionHypothesis, receiveAll,
      receive_of_course course asks]

/-- All blocks together stand for the bytes of their headers and nothing else. -/
theorem outputOf_of_chained {sent : List Transmission} (chained : Chained .fresh sent) :
    Inflater.outputOf (sent.flatMap Transmission.block) =
      sent.flatMap fun one => Block.write one.headers := by
  rcases chained.leads rfl with ⟨final, leads⟩
  exact Inflater.outputOf_of_leads leads

/-- What a peer finds in blocks of an encoder. -/
structure Received (sent : List Transmission) (raws : List (List UInt8)) : Prop where
  /-- Each block stands for the specified bytes of its headers. -/
  each : List.Forall₂ (fun one raw => Block.IsRaw one.headers raw) sent raws
  /-- The blocks begin a stream that announces the dictionary. -/
  begins : ∃ rest, Deflate.Format.Announces (sent.flatMap Transmission.block ++ rest) ∧
    Deflate.Format.IsStream (sent.flatMap Transmission.block ++ rest) raws.flatten
  /-- Nothing else is needed to inflate them. -/
  output_eq : Inflater.outputOf (sent.flatMap Transmission.block) = raws.flatten
  /-- Block by block a peer makes of them what belongs to each. -/
  receiveAll_eq : ({} : Peer).receiveAll (sent.map Transmission.block) = raws

/-- The first blocks of any calls, however many, are received for what they stand for,
whatever the compressor is, as long as it holds nothing back. -/
theorem receives_transmissions {State : Type} [Compressor State] [Compressor.Flushing State]
    {config : EncoderConfig} {calls : List Call} {sent : List Transmission}
    (first : sent <+: ({ config } : Encoder State).transmissions calls) :
    ∃ raws : List (List UInt8), Received sent raws := by
  have produced := (@Encoder.produced_transmissions State _ _ _ _ { config } .fresh calls).take
    sent.length
  rw [← List.prefix_iff_eq_take.1 first] at produced
  have chained := produced.chained .fresh
  refine ⟨sent.map fun one => Block.write one.headers, ?_, ?_, ?_, ?_⟩
  · rw [List.forall₂_map_right_iff, List.forall₂_same]
    intro one member
    exact (Block.isRaw_iff (produced.accepted one member) (Block.write one.headers)).2 rfl
  · rw [← List.flatMap_def]
    exact (Deflate.Begun.fresh.produced produced).isStream
  · rw [← List.flatMap_def]
    exact outputOf_of_chained chained
  · exact receiveAll_of_chained chained

/-- Two calls that succeed and, between them, one that is refused. -/
def twoOfThree : List Call :=
  [.encode (.ofList [("b", "1"), ("a", "2"), ("B", "3")]), .encode (.ofList [("", "1")]),
    .encode (.ofList [("a", "2")])]

theorem receives_twoOfThree :
    ∃ raws : List (List UInt8),
      Received (({} : Encoder Deflate.Deflater).transmissions twoOfThree) raws :=
  receives_transmissions (List.prefix_refl _)

end Peer
end HeaderCodec
