import HeaderCodec.Source

namespace HeaderCodec

/-!
# The intake of a decoder

A decoder draws its bytes from one source at a time, while the sources for what
comes later are already being handed over, possibly by other threads.  The
intake keeps the two apart: the chain that is being drained, and the chain that
is waiting to be picked up.  A source that is attached goes behind the waiting
ones and never into the chain being drained.  The waiting chain is picked up as
a whole when nothing is being drained any more.

When neither chain holds a source, a read has to wait until one is attached.
There are no threads here.  What they do during one call of a reader is given
beforehand as `Arrivals`: the sources in the order in which they are attached,
how many of them are attached before each read, and the failure by which a wait
is broken off when none are left.  A read looks for waiting sources only once,
at its beginning, so every timing of the attachments is among these.

The bytes that are still to come are the views `Intake.content` and
`Supply.content`.
-/

/-- The chain of sources that is being drained and the chain that waits to be
picked up.  An empty chain means that there is no such source. -/
structure Intake where
  current : List Source := []
  pending : List Source := []
deriving Repr

namespace Intake

/-- Hand over a source.  It is read after all sources handed over before. -/
def attach (intake : Intake) (source : Source) : Intake :=
  { intake with pending := intake.pending ++ [source] }

/-- Hand over several sources in order. -/
def attachAll (intake : Intake) (sources : List Source) : Intake :=
  sources.foldl attach intake

/-- Whether a source is being drained. -/
def hasCurrent (intake : Intake) : Bool :=
  !intake.current.isEmpty

/-- Whether a source waits to be picked up. -/
def hasPending (intake : Intake) : Bool :=
  !intake.pending.isEmpty

/-- Whether a read would have to wait. -/
def isIdle (intake : Intake) : Bool :=
  intake.current.isEmpty && intake.pending.isEmpty

/-- The bytes that sources which do not fail will still deliver, in order. -/
def content (intake : Intake) : List UInt8 :=
  (intake.current ++ intake.pending).flatMap Source.content

/-- Pick up the waiting chain if nothing is being drained. -/
def pickUp (intake : Intake) : Intake :=
  if intake.current.isEmpty then { intake with current := intake.pending, pending := [] }
  else intake

/-- One read of the chain being drained.  An end or a failure clears it. -/
def readCurrent (intake : Intake) (room : Nat) : ReadResult × Intake :=
  let outcome := Source.readChain room intake.current
  (outcome.result, { intake with current := outcome.rest })

/-- A bound on the number of reads that the sources at hand can serve. -/
def weight (intake : Intake) : Nat :=
  Source.chainWeight intake.current + Source.chainWeight intake.pending

@[simp] theorem attachAll_nil (intake : Intake) : intake.attachAll [] = intake := rfl

theorem attachAll_eq (intake : Intake) (sources : List Source) :
    intake.attachAll sources = { intake with pending := intake.pending ++ sources } := by
  induction sources generalizing intake with
  | nil => simp
  | cons source rest inductionHypothesis =>
    rw [attachAll, List.foldl_cons, ← attachAll, inductionHypothesis]
    simp [attach]

@[simp] theorem content_attach (intake : Intake) (source : Source) :
    (intake.attach source).content = intake.content ++ source.content := by
  simp [content, attach]

theorem content_attachAll (intake : Intake) (sources : List Source) :
    (intake.attachAll sources).content = intake.content ++ sources.flatMap Source.content := by
  simp [attachAll_eq, content]

@[simp] theorem content_pickUp (intake : Intake) : intake.pickUp.content = intake.content := by
  unfold pickUp content
  split
  · rename_i none
    simp [List.isEmpty_iff.1 none]
  · rfl

theorem weight_attachAll (intake : Intake) (sources : List Source) :
    (intake.attachAll sources).weight = intake.weight + Source.chainWeight sources := by
  simp only [attachAll_eq, weight, Source.chainWeight_append]
  omega

theorem weight_pickUp (intake : Intake) : intake.pickUp.weight = intake.weight := by
  unfold pickUp weight
  split
  · rename_i none
    simp [List.isEmpty_iff.1 none, Source.chainWeight]
  · rfl

theorem current_pickUp_ne_nil {intake : Intake} (busy : intake.isIdle = false) :
    intake.pickUp.current ≠ [] := by
  unfold pickUp
  split
  · rename_i none
    intro empty
    simp [isIdle, none, List.isEmpty_iff.2 empty] at busy
  · rename_i some
    intro empty
    exact some (List.isEmpty_iff.2 empty)

theorem weight_readCurrent {intake : Intake} {room : Nat} {bytes : List UInt8}
    (draining : intake.current ≠ [])
    (answered : (intake.readCurrent room).1 = .ok bytes) :
    (intake.readCurrent room).2.weight < intake.weight := by
  have smaller := Source.chainWeight_readChain draining answered
  simp only [readCurrent, weight]
  omega

end Intake

/-! ## What happens during a call -/

/-- The sources that are handed over while a call is under way. -/
structure Arrivals where
  /-- The sources, in the order in which they are handed over. -/
  queue : List Source := []
  /-- How many of them are handed over before the first read, before the second,
  and so on.  Beyond these, one is handed over whenever the reader waits. -/
  early : List Nat := []
  /-- How every wait ends when there are no more sources. -/
  abandonment : Failure := { kind := .timedOut, message := "starved" }
deriving Repr

/-- An intake together with what will arrive at it during a call. -/
structure Supply where
  intake : Intake := {}
  arrivals : Arrivals := {}
deriving Repr

namespace Supply

/-- Everything that is still to be read if no source fails. -/
def content (supply : Supply) : List UInt8 :=
  supply.intake.content ++ supply.arrivals.queue.flatMap Source.content

/-- Attach what arrives before the next read. -/
def receive (supply : Supply) : Supply :=
  match supply.arrivals.early with
  | [] => supply
  | count :: later =>
    { intake := supply.intake.attachAll (supply.arrivals.queue.take count)
      arrivals :=
        { supply.arrivals with queue := supply.arrivals.queue.drop count, early := later } }

/-- One read of whatever is at hand, without waiting. -/
def readAvailable (supply : Supply) (room : Nat) : ReadResult × Supply :=
  let outcome := supply.intake.pickUp.readCurrent room
  (outcome.1, { supply with intake := outcome.2 })

/-- One read.  A read without room touches nothing.  Otherwise it waits for a
source if none is at hand, picks it up, and draws from it what a single read
yields. -/
def read (supply : Supply) (room : Nat) : ReadResult × Supply :=
  if room = 0 then (.ok [], supply)
  else
    let supply := supply.receive
    if supply.intake.isIdle then
      match supply.arrivals.queue with
      | [] => (.error supply.arrivals.abandonment, supply)
      | source :: later =>
        readAvailable
          { intake := supply.intake.attach source
            arrivals := { supply.arrivals with queue := later } } room
    else supply.readAvailable room

/-- A bound on the number of reads that can be served without a failure. -/
def weight (supply : Supply) : Nat :=
  supply.intake.weight + Source.chainWeight supply.arrivals.queue

@[simp] theorem content_receive (supply : Supply) : supply.receive.content = supply.content := by
  unfold receive
  split
  · rfl
  · simp only [content, Intake.content_attachAll]
    rw [List.append_assoc, ← List.flatMap_append, List.take_append_drop]

theorem weight_receive (supply : Supply) : supply.receive.weight = supply.weight := by
  unfold receive
  split
  · rfl
  · simp only [weight, Intake.weight_attachAll]
    rw [Nat.add_assoc, ← Source.chainWeight_append, List.take_append_drop]

theorem weight_readAvailable {supply : Supply} {room : Nat} {bytes : List UInt8}
    (busy : supply.intake.isIdle = false)
    (answered : (supply.readAvailable room).1 = .ok bytes) :
    (supply.readAvailable room).2.weight < supply.weight := by
  have smaller := Intake.weight_readCurrent (Intake.current_pickUp_ne_nil busy) answered
  rw [Intake.weight_pickUp] at smaller
  simp only [readAvailable, weight]
  omega

/-- A read with room that does not fail leaves less to be read.  So a reader
that goes on until it has what it wants, or until a read fails, comes to an
end. -/
theorem weight_read {supply : Supply} {room : Nat} {bytes : List UInt8} (positive : 0 < room)
    (answered : (supply.read room).1 = .ok bytes) :
    (supply.read room).2.weight < supply.weight := by
  have nonzero : room ≠ 0 := Nat.pos_iff_ne_zero.1 positive
  rw [← weight_receive supply]
  rw [read, if_neg nonzero] at answered ⊢
  by_cases idle : supply.receive.intake.isIdle
  · simp only [idle, if_true] at answered ⊢
    split at answered
    · contradiction
    · rename_i source later waiting
      have busy : (supply.receive.intake.attach source).isIdle = false := by
        simp [Intake.isIdle, Intake.attach]
      have smaller := weight_readAvailable busy answered
      apply Nat.lt_of_lt_of_le smaller
      have attached := Intake.weight_attachAll supply.receive.intake [source]
      simp only [Intake.attachAll, List.foldl_cons, List.foldl_nil, Source.chainWeight] at attached
      simp only [weight, waiting, attached, Source.chainWeight]
      omega
  · simp only [idle] at answered ⊢
    exact weight_readAvailable (Bool.not_eq_true _ ▸ idle) answered

end Supply

end HeaderCodec
