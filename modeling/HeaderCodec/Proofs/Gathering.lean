import HeaderCodec.Proofs.Resending
import Mathlib.Data.List.Dedup

namespace HeaderCodec

/-!
# What the entries of a block come to

The entries of a block may stand in any order, and several of them may belong to one
name, in different spellings and with entries of other names in between.  What comes
of them is told here name by name, without the headers that are built up on the way.
The values of a name are the pieces of its texts, one text after the other as they
stand in the block.  An entry of another name does not come into it.

One entry is considered first, with any headers that it is added to, and then a whole
block by induction on its entries.  Only the order of names has to be carried along
for this.  `Text.Splits` says what the pieces of a text are, and does not refer to the
way in which they are found.
-/

/-! ## Pieces of a text -/

namespace Text

/-- A text is cut at every separator and nowhere else.  Pieces may be empty, and an
empty text is one empty piece. -/
inductive Splits : String -> List String -> Prop where
  | whole {text : String} (clean : separator ∉ text.toList) : Splits text [text]
  | cut {text first rest : String} {pieces : List String}
      (parts : text.toList = first.toList ++ separator :: rest.toList)
      (clean : separator ∉ first.toList) (behind : Splits rest pieces) :
      Splits text (first :: pieces)

theorem split_of_clean {text : String} (clean : separator ∉ text.toList) :
    split text = [text] := by
  rw [split, List.splitOn_eq_singleton clean, List.map_singleton, String.ofList_toList]

theorem split_of_cut {text first rest : String}
    (parts : text.toList = first.toList ++ separator :: rest.toList)
    (clean : separator ∉ first.toList) : split text = first :: split rest := by
  have whole : text = first ++ String.singleton separator ++ rest := by
    apply String.toList_inj.1
    rw [parts, String.toList_append, String.toList_append, String.toList_singleton,
      List.append_assoc, List.singleton_append]
  rw [whole, split_append, split_of_clean clean, List.singleton_append]

theorem splits_split (text : String) : Splits text (split text) := by
  -- What is behind the first separator is shorter.
  induction size : text.toList.length using Nat.strongRecOn generalizing text with
  | ind size inductionHypothesis =>
    subst size
    by_cases holds : separator ∈ text.toList
    · rcases List.eq_append_cons_of_mem holds with ⟨before, behind, parts, clean⟩
      have shorter : behind.length < text.toList.length := by
        rw [parts, List.length_append, List.length_cons]
        omega
      rw [← @String.toList_ofList before] at parts clean
      rw [← @String.toList_ofList behind] at parts shorter
      rw [split_of_cut parts clean]
      exact .cut parts clean (inductionHypothesis _ shorter _ rfl)
    · rw [split_of_clean holds]
      exact .whole holds

/-- There is one way to cut a text. -/
theorem splits_iff {text : String} {pieces : List String} :
    Splits text pieces <-> pieces = split text := by
  constructor
  · intro splits
    induction splits with
    | whole clean => exact (split_of_clean clean).symm
    | cut parts clean _ inductionHypothesis => rw [split_of_cut parts clean, inductionHypothesis]
  · rintro rfl
    exact splits_split text

/-- Each separator makes one piece more. -/
theorem Splits.length_eq {text : String} {pieces : List String} (splits : Splits text pieces) :
    pieces.length = 1 + text.toList.count separator := by
  induction splits with
  | whole clean => rw [List.count_eq_zero_of_not_mem clean, List.length_singleton]
  | cut parts clean _ inductionHypothesis =>
    rw [parts, List.count_append, List.count_eq_zero_of_not_mem clean, List.count_cons_self,
      List.length_cons, inductionHypothesis]
    omega

end Text

/-! ## One entry -/

namespace Headers

variable {headers : Headers}

theorem values_eq (headers : Headers) (name : String) :
    headers.values name =
      ((find? (Text.lowerCase name) headers.entries).map Header.values).getD [] := by
  rw [values]
  cases find? (Text.lowerCase name) headers.entries <;> rfl

/-- A change is made to the values of a name, however the name is spelt, and all other
names keep their values. -/
theorem values_alter (name : String) {changed : List String -> List String}
    (some : ∀ old, changed old ≠ []) (other : String) :
    (headers.alter name changed some).values other =
      if Text.lowerCase other = Text.lowerCase name then changed (headers.values name)
      else headers.values other := by
  rw [values_eq, alter, find?_change _ _ _ _ headers.wellFormed.ascending]
  split
  · simp [values_eq]
  · exact (headers.values_eq other).symm

/-- What is appended goes behind the values of its name. -/
theorem values_appendAll (headers : Headers) (name : String) (added : List String)
    (other : String) :
    (headers.appendAll name added).values other =
      headers.values other ++
        if Text.lowerCase other = Text.lowerCase name then added else [] := by
  cases added with
  | nil => rw [appendAll, ite_self, List.append_nil]
  | cons value added =>
    rw [appendAll, values_alter]
    split
    · rename_i same
      rw [values, values, same]
    · exact (List.append_nil _).symm

theorem mem_names_change (name : String) (values : List String -> List String)
    (entries : List Header) (other : String) :
    other ∈ (change name values entries).map Header.name <->
      other ∈ entries.map Header.name ∨ other = name := by
  induction entries with
  | nil => simp only [change, List.map_cons, List.map_nil, List.mem_cons, List.not_mem_nil,
      or_false, false_or]
  | cons first rest inductionHypothesis =>
    rw [change]
    split
    · rename_i here
      rw [List.map_cons, List.map_cons, List.mem_cons, List.mem_cons, here, or_assoc,
        or_comm (a := other ∈ _), ← or_assoc, or_self]
    · split
      · rw [List.map_cons, List.mem_cons, or_comm]
      · rw [List.map_cons, List.mem_cons, inductionHypothesis, List.map_cons, List.mem_cons,
          or_assoc]

end Headers

/-! ## All entries of a block -/

namespace Block

variable {headers : Headers}

/-- The entries whose names are spellings of one name. -/
def entriesFor (name : String) (entries : List Entry) : List Entry :=
  entries.filter fun entry => Text.lowerCase entry.name = Text.lowerCase name

theorem values_collect (headers : Headers) (entries : List Entry) (name : String) :
    (collect headers entries).values name =
      headers.values name ++
        (entriesFor name entries).flatMap fun entry => Text.split entry.text := by
  induction entries generalizing headers with
  | nil => exact (List.append_nil _).symm
  | cons entry rest inductionHypothesis =>
    refine (inductionHypothesis _).trans ?_
    rw [Headers.values_appendAll, List.append_assoc, entriesFor, entriesFor, List.filter_cons]
    refine congrArg (headers.values name ++ ·) ?_
    by_cases same : Text.lowerCase entry.name = Text.lowerCase name
    · rw [if_pos same.symm, if_pos (decide_eq_true same), List.flatMap_cons]
    · rw [if_neg (Ne.symm same), if_neg (by rwa [decide_eq_true_eq]), List.nil_append]

theorem mem_names_collect (headers : Headers) (entries : List Entry) (name : String) :
    name ∈ (collect headers entries).entries.map Header.name <->
      name ∈ headers.entries.map Header.name ∨
        name ∈ entries.map fun entry => Text.lowerCase entry.name := by
  induction entries generalizing headers with
  | nil => exact (or_iff_left List.not_mem_nil).symm
  | cons entry rest inductionHypothesis =>
    have added : (headers.appendAll entry.name (Text.split entry.text)).entries =
        Headers.change (Text.lowerCase entry.name) (· ++ Text.split entry.text)
          headers.entries :=
      Headers.entries_appendAll _ _ (Text.split_ne_nil entry.text)
    refine (inductionHypothesis _).trans ?_
    rw [added, Headers.mem_names_change, List.map_cons, List.mem_cons, or_assoc]

theorem valueCount_collect (headers : Headers) (entries : List Entry) :
    (collect headers entries).valueCount =
      headers.valueCount + (entries.map fun entry => (Text.split entry.text).length).sum := by
  induction entries generalizing headers with
  | nil => exact (Nat.add_zero _).symm
  | cons entry rest inductionHypothesis =>
    refine (inductionHypothesis _).trans ?_
    rw [Headers.valueCount_appendAll, List.map_cons, List.sum_cons, Nat.add_assoc]

/-! ## The meaning of a block -/

/-- What the headers are that come of entries. -/
structure Gathers (entries : List Entry) (headers : Headers) : Prop where
  /-- A name has the pieces of the texts that belong to it. -/
  values : ∃ pieces : Entry -> List String,
    (∀ entry ∈ entries, Text.Splits entry.text (pieces entry)) ∧
      ∀ name, headers.values name = (entriesFor name entries).flatMap pieces
  /-- Spellings of a name are counted once. -/
  size_eq : headers.size = (entries.map fun entry => Text.lowerCase entry.name).dedup.length
  valueCount_eq : headers.valueCount =
    (entries.map fun entry => 1 + entry.text.toList.count Text.separator).sum

theorem gathers_meaning (entries : List Entry) : Gathers entries (meaning entries) := by
  have built : collect {} entries = meaning entries := collect_eq {} entries
  rw [← built]
  constructor
  · refine ⟨fun entry => Text.split entry.text, fun entry _ => Text.splits_split entry.text, ?_⟩
    intro name
    rw [values_collect]
    exact List.nil_append _
  · have distinct : ((collect {} entries).entries.map Header.name).Nodup := by
      rw [built]
      exact (meaning entries).wellFormed.ascending.imp fun less => Std.ne_of_lt less
    have same := (List.perm_ext_iff_of_nodup distinct (List.nodup_dedup _)).2 fun name =>
      (mem_names_collect {} entries name).trans
        ((or_iff_right List.not_mem_nil).trans List.mem_dedup.symm)
    rw [← same.length_eq, List.length_map, Headers.size]
  · rw [valueCount_collect]
    refine (Nat.zero_add _).trans (congrArg List.sum (List.map_congr_left fun entry _ => ?_))
    exact (Text.splits_split entry.text).length_eq

/-- Bytes do not begin with two blocks of different meaning. -/
theorem meaning_eq_of_layout {entries others : List Entry} {rest left : List UInt8}
    (proper : Proper entries) (properToo : Proper others)
    (same : layout entries ++ rest = layout others ++ left) : meaning entries = meaning others := by
  have first := @follow_read (max (layout entries).length (layout others).length) entries proper
    rest (Nat.le_max_left _ _)
  have second := @follow_read (max (layout entries).length (layout others).length) others properToo
    left (Nat.le_max_right _ _)
  rw [same, second] at first
  injection first with both
  injection both with here _
  injection here with meant
  exact meant.symm

end Block

/-! ## Blocks that are decoded -/

/-- Any bytes are what some stream stands for. -/
theorem Deflate.Inflater.exists_stream (bytes : List UInt8) :
    ∃ stream, Clean stream ∧ outputOf stream = bytes := by
  have keeps : Compressor.Keeps (Deflater.start 9) [] [] := .head rfl (Deflater.history_start 9)
  rcases Encoder.Meets.fresh.course (keeps.compress bytes).1 with ⟨final, meets, course⟩
  have leads := Leads.of_course course meets.asks
  exact ⟨((Deflater.start 9).compress bytes).1, clean_of_leads leads, outputOf_of_leads leads⟩

namespace Decoder

open Deflate (Inflater)

variable {config : DecoderConfig} {handed : List Source} {results : List (Except Error Headers)}
  {decoder : Decoder} {source : Source} {arrivals : Arrivals} {entries : List Block.Entry}
  {rest : List UInt8}

/-- Whatever the stream is like behind a block, a call that succeeds there returns the
headers of this block. -/
theorem Used.eq_meaning {headers : Headers} (used : Used config handed results decoder)
    (healthy : decoder.poisoned = false) (proper : Block.Proper entries)
    (begins : (Inflater.outputOf (Source.reach (handed ++ source :: arrivals.queue))).drop
      decoder.delivered = Block.layout entries ++ rest)
    (done : (decoder.decodeFrom source arrivals).1 = .ok headers) :
    headers = Block.meaning entries := by
  rcases used.booked healthy with ⟨blocks, booked⟩
  rcases booked.books with ⟨loaded, taken, books⟩
  rcases queue_decodeFrom decoder source arrivals with ⟨newly, order⟩
  rcases booked.decoded healthy (Prod.ext done rfl) order.symm with ⟨others, after⟩
  rcases after.books with ⟨loadedNext, takenNext, booksNext⟩
  have size := (prefix_outputOf_reach books []).1
  rcases (prefix_outputOf_reach booksNext (decoder.decodeFrom source arrivals).2.1.queue).2 with
      ⟨left, output⟩
  have line : handed ++ source :: newly ++ (decoder.decodeFrom source arrivals).2.1.queue =
      handed ++ source :: arrivals.queue := by
    rw [List.append_assoc, List.cons_append, order]
  -- What has been written begins with the blocks before this one.
  rw [line, List.flatMap_append, List.flatMap_singleton, List.append_assoc] at output
  rw [← output, size, List.drop_left] at begins
  rw [after.last_eq]
  have member : others ∈ blocks ++ [others] :=
    List.mem_append_right _ (List.mem_singleton_self others)
  exact Block.meaning_eq_of_layout (after.each others member).1 proper begins

/-- What decoders with the given settings make of a block. -/
structure GathersEntries (config : DecoderConfig) (entries : List Block.Entry) : Prop where
  /-- A decoder that stands at the block returns nothing else than what its entries come to,
  even if the stream breaks a rule later on. -/
  only : ∀ handed results decoder source arrivals rest, Used config handed results decoder ->
    decoder.poisoned = false ->
    (Inflater.outputOf (Source.reach (handed ++ source :: arrivals.queue))).drop
      decoder.delivered = Block.layout entries ++ rest ->
    ∀ headers, (decoder.decodeFrom source arrivals).1 = .ok headers ->
      Block.Gathers entries headers
  /-- When the stream breaks no rule, it does return. -/
  returned : ∀ handed results decoder source arrivals rest, Used config handed results decoder ->
    decoder.poisoned = false ->
    (Inflater.outputOf (Source.reach (handed ++ source :: arrivals.queue))).drop
      decoder.delivered = Block.layout entries ++ rest ->
    Inflater.Clean (Source.reach (handed ++ source :: arrivals.queue)) ->
    ∃ headers, (decoder.decodeFrom source arrivals).1 = .ok headers
  /-- The block is what some stream stands for. -/
  met : ∃ stream headers, (({ config } : Decoder).decode stream {}).1 = .ok headers ∧
    Block.Gathers entries headers

/-- Decoders gather the values of a block by the names of its entries, and no block that
fits is left out. -/
theorem decodeFrom_gathers_entries (config : DecoderConfig) (entries : List Block.Entry)
    (proper : Block.Proper entries) (fits : (Block.layout entries).length ≤ config.maxBlockSize) :
    GathersEntries config entries := by
  have returned : ∀ {handed results decoder source arrivals rest},
      Used config handed results decoder -> decoder.poisoned = false ->
      (Inflater.outputOf (Source.reach (handed ++ source :: arrivals.queue))).drop
        decoder.delivered = Block.layout entries ++ rest ->
      Inflater.Clean (Source.reach (handed ++ source :: arrivals.queue)) ->
        (decoder.decodeFrom source arrivals).1 = .ok (Block.meaning entries) := by
    intro handed results decoder source arrivals rest used healthy begins clean
    rcases used.booked healthy with ⟨blocks, booked⟩
    rcases booked.books with ⟨loaded, taken, books⟩
    rw [List.append_cons] at begins clean
    rcases decodeFrom_of_reach healthy (books.attach source) proper
      (booked.same ▸ fits) clean begins with ⟨left, next, answer, _⟩
    exact congrArg Prod.fst answer
  constructor
  · intro handed results decoder source arrivals rest used healthy begins headers done
    rw [used.eq_meaning healthy proper begins done]
    exact Block.gathers_meaning entries
  · intro handed results decoder source arrivals rest used healthy begins clean
    exact ⟨_, returned used healthy begins clean⟩
  · rcases Inflater.exists_stream (Block.layout entries) with ⟨stream, clean, output⟩
    have reach : Source.reach ([] ++ [Source.ofBytes stream]) = stream :=
      Source.reach_ofBytes stream
    refine ⟨stream, Block.meaning entries, ?_, Block.gathers_meaning entries⟩
    refine @returned [] [] _ (.ofBytes stream) {} [] .fresh rfl ?_ (reach.symm ▸ clean)
    rw [reach, output, List.append_nil]
    exact List.drop_zero

/-- What is laid out in `Used.carelessBlock`. -/
def carelessEntries : List Block.Entry :=
  [⟨"B", "c\x00"⟩, ⟨"A", "e"⟩, ⟨"b", "d"⟩]

theorem decodeFrom_gathers_carelessEntries :
    ∃ headers, (({} : Decoder).decode Used.carelessBlock {}).1 = .ok headers ∧
      headers.values "B" = ["c", "", "d"] ∧ headers.size = 2 ∧ headers.valueCount = 4 := by
  have proper : Block.Proper carelessEntries := by
    refine ⟨by decide, fun entry member => ?_⟩
    rcases List.mem_cons.1 member with rfl | later
    · exact ⟨by decide, by decide, by decide⟩
    · rcases List.mem_cons.1 later with rfl | last
      · exact ⟨by decide, by decide, by decide⟩
      · rcases List.mem_singleton.1 last with rfl
        exact ⟨by decide, by decide, by decide⟩
  have reach : Source.reach ([] ++ [Source.ofBytes Used.carelessBlock]) = Used.carelessBlock :=
    Source.reach_ofBytes Used.carelessBlock
  have output : Inflater.outputOf Used.carelessBlock = Block.layout carelessEntries := by
    decide +kernel
  have phase : (Inflater.fresh.expand (Bits.ofBytes Used.carelessBlock)).phase =
      .number .blockHead 3 1 0 := by decide +kernel
  have begins : (Inflater.outputOf (Source.reach ([] ++ [Source.ofBytes Used.carelessBlock]))).drop
      0 = Block.layout carelessEntries ++ [] := by
    rw [reach, output, List.append_nil, List.drop_zero]
  have calls := decodeFrom_gathers_entries {} carelessEntries proper (by decide +kernel)
  have clean : Inflater.Clean Used.carelessBlock := by
    intro fault failed
    exact Deflate.Phase.noConfusion (phase.symm.trans failed)
  rcases calls.returned [] [] {} (.ofBytes Used.carelessBlock) {} [] .fresh rfl begins
    (reach.symm ▸ clean) with ⟨headers, answer⟩
  have gathers := calls.only [] [] {} (.ofBytes Used.carelessBlock) {} [] .fresh rfl begins
    headers answer
  refine ⟨headers, answer, ?_, ?_, ?_⟩
  · rcases gathers.values with ⟨pieces, splits, values⟩
    have same : ∀ entry ∈ Block.entriesFor "B" carelessEntries,
        pieces entry = Text.split entry.text := fun entry member =>
      Text.splits_iff.1 (splits entry (List.mem_of_mem_filter member))
    rw [values, List.flatMap_congr same]
    decide +kernel
  · rw [gathers.size_eq]
    decide +kernel
  · rw [gathers.valueCount_eq]
    decide +kernel

end Decoder
end HeaderCodec
