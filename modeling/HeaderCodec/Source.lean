import HeaderCodec.Failure

namespace HeaderCodec

/-!
# Byte sources

A source answers reads.  What it will answer is a list of events, each of which
serves one read or, if a read has less room than the event has bytes, several.
An event without bytes is an end: the reader takes the source for exhausted and
drops it together with whatever events remain.  A source whose events are used
up answers every read with such an end.

Reads that are interrupted are tried again, so interruptions are skipped here
and no reader ever sees one.

Several sources attached one after the other form a chain and are read as one:
at the end of one the next is read at once, and only the end of the last is
the end of the chain.  A failure ends the chain at any place, and what stands
behind it is lost.
-/

/-- What a source does at a read. -/
inductive Event where
  | data (bytes : List UInt8)
  | failing (failure : Failure)
deriving DecidableEq, Repr

/-- A byte source. -/
structure Source where
  events : List Event
deriving DecidableEq, Repr

/-- What a read yields: bytes, none of them at an end, or a failure. -/
abbrev ReadResult := Except Failure (List UInt8)

namespace Event

/-- One read of a list of events, with room for `room` bytes. -/
def read (room : Nat) : List Event -> ReadResult × List Event
  | [] => (.ok [], [])
  | .data bytes :: rest =>
    (.ok (bytes.take room),
      if bytes.length ≤ room then rest else .data (bytes.drop room) :: rest)
  | .failing failure :: rest =>
    if failure.isInterruption then read room rest else (.error failure, rest)

/-- The bytes that are delivered before the first end or failure. -/
def content : List Event -> List UInt8
  | [] => []
  | .data [] :: _ => []
  | .data (byte :: bytes) :: rest => byte :: bytes ++ content rest
  | .failing failure :: rest => if failure.isInterruption then content rest else []

/-- A bound on the number of reads that events can still serve. -/
def weight : List Event -> Nat
  | [] => 0
  | .data bytes :: rest => bytes.length + 1 + weight rest
  | .failing _ :: rest => 1 + weight rest

end Event

namespace Source

/-- A block that lies in memory. -/
def ofBytes (bytes : List UInt8) : Source where
  events := [.data bytes]

/-- The bytes that a source delivers before its first end or failure. -/
def content (source : Source) : List UInt8 :=
  Event.content source.events

/-- A bound on the number of reads that a source can still serve. -/
def weight (source : Source) : Nat :=
  Event.weight source.events + 1

/-- The bound for a chain of sources. -/
def chainWeight : List Source -> Nat
  | [] => 0
  | source :: rest => source.weight + chainWeight rest

theorem chainWeight_append (first second : List Source) :
    chainWeight (first ++ second) = chainWeight first + chainWeight second := by
  induction first with
  | nil => simp [chainWeight]
  | cons source rest inductionHypothesis =>
    simp [chainWeight, inductionHypothesis, Nat.add_assoc]

@[simp] theorem content_ofBytes (bytes : List UInt8) : (ofBytes bytes).content = bytes := by
  cases bytes <;> simp [ofBytes, content, Event.content]

end Source

/-- The outcome of reading a chain of sources once. -/
structure ChainRead where
  result : ReadResult
  /-- What is left of the chain; nothing after an end or a failure. -/
  rest : List Source
deriving Repr

namespace Source

/-- One read of a chain, with room for `room` bytes. -/
def readChain (room : Nat) : List Source -> ChainRead
  | [] => { result := .ok [], rest := [] }
  | source :: rest =>
    match Event.read room source.events with
    | (.ok [], _) => readChain room rest
    | (.ok (byte :: bytes), events) =>
      { result := .ok (byte :: bytes), rest := { source with events } :: rest }
    | (.error failure, _) => { result := .error failure, rest := [] }

end Source

/-! ## Reading uses events up -/

namespace Event

/-- A read that yields bytes leaves less to be read. -/
theorem weight_read {room : Nat} {events rest : List Event} {byte : UInt8} {bytes : List UInt8}
    (answered : read room events = (.ok (byte :: bytes), rest)) :
    weight rest < weight events := by
  induction events with
  | nil => simp [read] at answered
  | cons event others inductionHypothesis =>
    cases event with
    | data available =>
      simp only [read, Prod.mk.injEq, Except.ok.injEq] at answered
      obtain ⟨taken, left⟩ := answered
      have count : (available.take room).length = bytes.length + 1 := by
        rw [taken, List.length_cons]
      rw [List.length_take] at count
      split at left
      · subst left
        simp [weight]
      · subst left
        simp only [weight, List.length_drop]
        omega
    | failing failure =>
      simp only [read] at answered
      split at answered
      · have smaller := inductionHypothesis answered
        simp only [weight]
        omega
      · simp at answered

end Event

namespace Source

/-- A read of a chain that does not fail leaves less to be read. -/
theorem chainWeight_readChain {room : Nat} {chain : List Source} {bytes : List UInt8}
    (nonempty : chain ≠ []) (answered : (readChain room chain).result = .ok bytes) :
    chainWeight (readChain room chain).rest < chainWeight chain := by
  induction chain with
  | nil => contradiction
  | cons source rest inductionHypothesis =>
    have positive : 0 < source.weight := Nat.succ_pos _
    simp only [readChain] at answered ⊢
    split at answered
    · rename_i unused ended
      simp only [chainWeight]
      by_cases last : rest = []
      · subst last
        simpa [readChain] using positive
      · have smaller := inductionHypothesis last answered
        omega
    · rename_i first others events delivered
      have smaller := Event.weight_read delivered
      simp only [chainWeight, weight]
      omega
    · simp at answered

end Source

end HeaderCodec
