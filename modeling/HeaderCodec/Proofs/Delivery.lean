import HeaderCodec.Intake

namespace HeaderCodec

/-!
# What quiet sources deliver

A source is quiet when nothing but interruptions disturbs it before its end.
How many bytes a read yields, how the bytes are spread over sources, and when a
source is handed over make no difference to what quiet sources deliver all
together.  That is said by `Supply.read_of_quiet`: a read takes a first part of
the content and leaves the rest, in order.  It fails only when nothing is left,
neither at hand nor to come.

Order is kept because handing over moves sources along a single line.  The line
is `Supply.sources`: what is being drained, then what waits, then what is still
to arrive.  None of the steps before a read changes it.  Of the sources at hand,
`Intake.sources` says the same.
-/

namespace Event

/-- The failure that is met before the first end. -/
def failure? : List Event -> Option Failure
  | [] => none
  | .data [] :: _ => none
  | .data (_ :: _) :: rest => failure? rest
  | .failing failure :: rest => if failure.isInterruption then failure? rest else some failure

/-- How a read can end, whatever the events are. -/
inductive Outcome (room : Nat) (events : List Event) : ReadResult -> List Event -> Prop where
  | delivered {bytes : List UInt8} {rest : List Event} (some : bytes ≠ [])
      (short : bytes.length ≤ room) (split : content events = bytes ++ content rest)
      (same : failure? events = failure? rest) : Outcome room events (.ok bytes) rest
  | ended {rest : List Event} (nothing : content events = []) (calm : failure? events = none) :
      Outcome room events (.ok []) rest
  | failed {failure : Failure} {rest : List Event} (nothing : content events = [])
      (met : failure? events = some failure) : Outcome room events (.error failure) rest

/-- What a read leaves of some bytes stands in front of the events behind them. -/
theorem remainder (room : Nat) (bytes : List UInt8) (others : List Event) :
    content (if bytes.length ≤ room then others else .data (bytes.drop room) :: others) =
        bytes.drop room ++ content others ∧
      failure? (if bytes.length ≤ room then others else .data (bytes.drop room) :: others) =
        failure? others := by
  by_cases all : bytes.length ≤ room
  · rw [if_pos all, List.drop_of_length_le all]
    exact ⟨rfl, rfl⟩
  · have some : 0 < (bytes.drop room).length := by
      rw [List.length_drop]
      omega
    rcases List.exists_cons_of_length_pos some with ⟨next, more, left⟩
    rw [if_neg all, left]
    exact ⟨rfl, rfl⟩

theorem Outcome.of_same {room : Nat} {events others rest : List Event} {result : ReadResult}
    (outcome : Outcome room events result rest) (sameContent : content others = content events)
    (sameFailure : failure? others = failure? events) : Outcome room others result rest := by
  cases outcome with
  | delivered some short split same =>
    exact .delivered some short (sameContent.trans split) (sameFailure.trans same)
  | ended nothing calm => exact .ended (sameContent.trans nothing) (sameFailure.trans calm)
  | failed nothing met => exact .failed (sameContent.trans nothing) (sameFailure.trans met)

theorem read_outcome {room : Nat} (positive : 0 < room) (events : List Event) :
    Outcome room events (read room events).1 (read room events).2 := by
  induction events with
  | nil => exact .ended rfl rfl
  | cons event others inductionHypothesis =>
    cases event with
    | failing failure =>
      rw [read]
      by_cases interruption : failure.isInterruption = true
      · rw [if_pos interruption]
        refine inductionHypothesis.of_same ?_ ?_
        · rw [content, if_pos interruption]
        · rw [failure?, if_pos interruption]
      · rw [if_neg interruption]
        refine .failed ?_ ?_
        · rw [content, if_neg interruption]
        · rw [failure?, if_neg interruption]
    | data available =>
      cases available with
      | nil =>
        rw [read, List.take_nil]
        exact .ended rfl rfl
      | cons byte bytes =>
        have left := remainder room (byte :: bytes) others
        rw [read]
        refine .delivered ?_ (List.length_take_le _ _) ?_ left.2.symm
        · rw [Ne, List.take_eq_nil_iff]
          exact not_or_intro (Nat.pos_iff_ne_zero.1 positive) (List.cons_ne_nil _ _)
        · rw [left.1, ← List.append_assoc, List.take_append_drop]
          rfl

/-- No failure but interruptions before the first end. -/
def Quiet : List Event -> Prop
  | [] => True
  | .data [] :: _ => True
  | .data (_ :: _) :: rest => Quiet rest
  | .failing failure :: rest => failure.isInterruption = true ∧ Quiet rest

theorem quiet_iff (events : List Event) : Quiet events <-> failure? events = none := by
  induction events with
  | nil => exact iff_of_true trivial rfl
  | cons event others inductionHypothesis =>
    cases event with
    | failing failure =>
      rw [Quiet, failure?, inductionHypothesis]
      by_cases interruption : failure.isInterruption = true
      · rw [if_pos interruption]
        exact and_iff_right interruption
      · rw [if_neg interruption]
        exact iff_of_false (fun both => interruption both.1) (Option.some_ne_none failure)
    | data bytes =>
      cases bytes with
      | nil => exact iff_of_true trivial rfl
      | cons => exact inductionHypothesis

/-- A read yields a first part of the content, and nothing only at the end. -/
theorem read_of_quiet {room : Nat} {events : List Event} (positive : 0 < room)
    (quiet : Quiet events) :
    ∃ bytes rest, read room events = (.ok bytes, rest) ∧ bytes.length ≤ room ∧
      ((bytes = [] ∧ content events = []) ∨
        (bytes ≠ [] ∧ content events = bytes ++ content rest ∧ Quiet rest)) := by
  have calm := (quiet_iff events).1 quiet
  have outcome := read_outcome positive events
  generalize read room events = answer at outcome
  rcases answer with ⟨result, rest⟩
  cases outcome with
  | delivered some short split same =>
    exact ⟨_, rest, rfl, short, Or.inr ⟨some, split, (quiet_iff rest).2 (same ▸ calm)⟩⟩
  | ended nothing => exact ⟨[], rest, rfl, Nat.zero_le room, Or.inl ⟨rfl, nothing⟩⟩
  | failed _ met =>
    rw [met] at calm
    contradiction

end Event

namespace Source

def Quiet (source : Source) : Prop :=
  Event.Quiet source.events

theorem quiet_ofBytes (bytes : List UInt8) : (ofBytes bytes).Quiet := by
  cases bytes <;> trivial

theorem quiet_map_ofBytes (pieces : List (List UInt8)) :
    ∀ source ∈ pieces.map ofBytes, source.Quiet := by
  intro source member
  rcases List.mem_map.1 member with ⟨bytes, _, rfl⟩
  exact quiet_ofBytes bytes

/-- A chain of quiet sources is read as one. -/
theorem readChain_of_quiet {room : Nat} {chain : List Source} (positive : 0 < room)
    (quiet : ∀ source ∈ chain, source.Quiet) :
    ∃ bytes, (readChain room chain).result = .ok bytes ∧ bytes.length ≤ room ∧
      chain.flatMap content = bytes ++ (readChain room chain).rest.flatMap content ∧
      ∀ source ∈ (readChain room chain).rest, source.Quiet := by
  induction chain with
  | nil => exact ⟨[], rfl, Nat.zero_le room, rfl, quiet⟩
  | cons source others inductionHypothesis =>
    have later := fun other member => quiet other (List.mem_cons_of_mem source member)
    rcases Event.read_of_quiet positive (quiet source List.mem_cons_self) with
        ⟨bytes, events, answer, short, outcome⟩
    rcases outcome with ⟨rfl, nothing⟩ | ⟨some, split, rest⟩
    · have onward : readChain room (source :: others) = readChain room others := by
        rw [readChain, answer]
      have none : source.content = [] := nothing
      rw [onward, List.flatMap_cons, none, List.nil_append]
      exact inductionHypothesis later
    · rcases List.exists_cons_of_ne_nil some with ⟨byte, more, rfl⟩
      rw [readChain, answer]
      refine ⟨byte :: more, rfl, short, ?_, ?_⟩
      · have here : source.content = (byte :: more) ++ Event.content events := split
        rw [List.flatMap_cons, List.flatMap_cons, here, List.append_assoc]
        rfl
      · intro other member
        rcases List.mem_cons.1 member with rfl | behind
        · exact rest
        · exact later other behind

end Source

namespace Intake

/-- All sources at hand, in the order in which they will be read. -/
def sources (intake : Intake) : List Source :=
  intake.current ++ intake.pending

theorem sources_attach (intake : Intake) (source : Source) :
    (intake.attach source).sources = intake.sources ++ [source] :=
  (List.append_assoc _ _ _).symm

theorem sources_pickUp (intake : Intake) : intake.pickUp.sources = intake.sources := by
  unfold sources pickUp
  split
  · rename_i none
    rw [List.isEmpty_iff.1 none, List.append_nil]
    rfl
  · rfl

theorem sources_of_isIdle {intake : Intake} (idle : intake.isIdle = true) :
    intake.sources = [] := by
  rcases Bool.and_eq_true_iff.1 idle with ⟨current, pending⟩
  rw [sources, List.isEmpty_iff.1 current, List.isEmpty_iff.1 pending]
  rfl

end Intake

namespace Supply

/-- All sources in the order in which they will be read. -/
def sources (supply : Supply) : List Source :=
  supply.intake.current ++ supply.intake.pending ++ supply.arrivals.queue

def Quiet (supply : Supply) : Prop :=
  ∀ source ∈ supply.sources, source.Quiet

variable {supply : Supply}

theorem content_eq (supply : Supply) : supply.content = supply.sources.flatMap Source.content := by
  exact List.flatMap_append.symm

theorem sources_receive (supply : Supply) : supply.receive.sources = supply.sources := by
  unfold receive
  split
  · rfl
  · rw [sources, sources, Intake.attachAll_eq]
    simp only
    rw [← List.append_assoc, List.append_assoc _ (List.take _ _), List.take_append_drop]

/-- Picking up splits the line into what a read draws from and what stands
behind it. -/
theorem sources_eq_pickUp (supply : Supply) :
    supply.sources =
      supply.intake.pickUp.current ++ (supply.intake.pickUp.pending ++ supply.arrivals.queue) := by
  have same : supply.sources = supply.intake.pickUp.sources ++ supply.arrivals.queue := by
    rw [Intake.sources_pickUp]
    rfl
  rw [same, Intake.sources, List.append_assoc]

theorem sources_readAvailable (supply : Supply) (room : Nat) :
    (supply.readAvailable room).2.sources =
      (Source.readChain room supply.intake.pickUp.current).rest ++
        (supply.intake.pickUp.pending ++ supply.arrivals.queue) :=
  List.append_assoc _ _ _

/-- How a read can end when all sources are quiet. -/
inductive Answer (supply : Supply) (room : Nat) : ReadResult -> Supply -> Prop where
  | delivered {bytes : List UInt8} {rest : Supply} (short : bytes.length ≤ room)
      (parts : supply.content = bytes ++ rest.content) (quiet : rest.Quiet) :
      Answer supply room (.ok bytes) rest
  | abandoned {failure : Failure} {rest : Supply} (nothing : supply.content = [])
      (still : rest.content = []) (quiet : rest.Quiet) : Answer supply room (.error failure) rest

theorem Answer.of_content_eq {other rest : Supply} {room : Nat} {result : ReadResult}
    (same : other.content = supply.content) (answer : other.Answer room result rest) :
    supply.Answer room result rest := by
  cases answer with
  | delivered short parts quiet => exact .delivered short (same ▸ parts) quiet
  | abandoned nothing still quiet => exact .abandoned (same ▸ nothing) still quiet

theorem readAvailable_of_quiet {room : Nat} (positive : 0 < room) (quiet : supply.Quiet) :
    supply.Answer room (supply.readAvailable room).1 (supply.readAvailable room).2 := by
  have before := sources_eq_pickUp supply
  have after := sources_readAvailable supply room
  have calm : ∀ source ∈ supply.intake.pickUp.current, source.Quiet := fun source member =>
    quiet source (before ▸ List.mem_append_left _ member)
  rcases Source.readChain_of_quiet positive calm with ⟨bytes, answer, short, split, rest⟩
  have result : (supply.readAvailable room).1 = .ok bytes := answer
  rw [result]
  apply Answer.delivered short
  · rw [content_eq, content_eq, before, after, List.flatMap_append, split, List.append_assoc]
    exact congrArg (bytes ++ ·) List.flatMap_append.symm
  · intro source member
    rw [after] at member
    rcases List.mem_append.1 member with inChain | behind
    · exact rest source inChain
    · exact quiet source (before ▸ List.mem_append_right _ behind)

/-- Whatever is moved along the line before a read, it draws from what is at hand
then.  It fails without drawing only when there are no sources at all. -/
theorem read_cases {room : Nat} (positive : 0 < room) (supply : Supply) :
    (∃ moved : Supply, moved.sources = supply.sources ∧
      supply.read room = moved.readAvailable room) ∨
      supply.sources = [] ∧ ∃ failure rest, rest.sources = [] ∧
        supply.read room = (.error failure, rest) := by
  rw [read, if_neg (Nat.pos_iff_ne_zero.1 positive), ← sources_receive supply]
  generalize supply.receive = received
  by_cases idle : received.intake.isIdle = true
  · have none : received.intake.sources = [] := Intake.sources_of_isIdle idle
    have line : received.sources = received.intake.sources ++ received.arrivals.queue := rfl
    simp only [if_pos idle]
    cases queue : received.arrivals.queue with
    | nil =>
      rw [none, queue] at line
      exact Or.inr ⟨line, _, received, line, rfl⟩
    | cons source later =>
      refine Or.inl ⟨_, ?_, rfl⟩
      -- Handing over the first source that is to arrive leaves the line as it is.
      show (received.intake.attach source).sources ++ later = received.sources
      rw [Intake.sources_attach, line, none, queue]
      rfl
  · simp only [if_neg idle]
    exact Or.inl ⟨received, rfl, rfl⟩

/-- One read of quiet sources takes a first part of what they hold. -/
theorem read_of_quiet {room : Nat} (positive : 0 < room) (quiet : supply.Quiet) :
    supply.Answer room (supply.read room).1 (supply.read room).2 := by
  rcases read_cases positive supply with
      ⟨moved, line, answer⟩ | ⟨line, failure, rest, nothing, answer⟩
  · have calm : moved.Quiet := fun source member => quiet source (line ▸ member)
    rw [answer]
    refine (readAvailable_of_quiet positive calm).of_content_eq ?_
    rw [content_eq, content_eq, line]
  · rw [answer]
    refine .abandoned ?_ ?_ ?_
    · rw [content_eq, line, List.flatMap_nil]
    · rw [content_eq, nothing, List.flatMap_nil]
    · intro source member
      rw [nothing] at member
      exact absurd member List.not_mem_nil

/-- A read takes sources off the front of those that are to arrive and does
nothing else to them. -/
theorem queue_read (supply : Supply) (room : Nat) :
    (supply.read room).2.arrivals.queue <:+ supply.arrivals.queue := by
  have received : supply.receive.arrivals.queue <:+ supply.arrivals.queue := by
    unfold receive
    split
    · exact List.suffix_refl _
    · exact List.drop_suffix _ _
  rw [read]
  split
  · exact List.suffix_refl _
  · simp only
    split
    · split
      · exact received
      · rename_i source later waiting
        rw [waiting] at received
        exact (List.suffix_cons source later).trans received
    · exact received

end Supply

/-! ## No read yields more than there is room for -/

theorem Event.length_read {room : Nat} {events : List Event} {bytes : List UInt8}
    (answer : (read room events).1 = .ok bytes) : bytes.length ≤ room := by
  induction events with
  | nil =>
    cases answer
    exact Nat.zero_le room
  | cons event others inductionHypothesis =>
    cases event with
    | data available =>
      cases answer
      exact List.length_take_le room available
    | failing failure =>
      rw [read] at answer
      split at answer
      · exact inductionHypothesis answer
      · cases answer

theorem Source.length_readChain {room : Nat} {chain : List Source} {bytes : List UInt8}
    (answer : (readChain room chain).result = .ok bytes) : bytes.length ≤ room := by
  induction chain with
  | nil =>
    cases answer
    exact Nat.zero_le room
  | cons source others inductionHypothesis =>
    rw [readChain] at answer
    split at answer
    · exact inductionHypothesis answer
    · rename_i byte more events delivered
      cases answer
      exact Event.length_read (congrArg Prod.fst delivered)
    · cases answer

theorem Supply.length_read (supply : Supply) (room : Nat) (bytes : List UInt8)
    (answer : (supply.read room).1 = .ok bytes) : bytes.length ≤ room := by
  rw [read] at answer
  split at answer
  · cases answer
    exact Nat.zero_le room
  · simp only at answer
    split at answer
    · split at answer
      · cases answer
      · exact Source.length_readChain answer
    · exact Source.length_readChain answer

end HeaderCodec
