import HeaderCodec.Deflate.Token

namespace HeaderCodec
namespace Deflate

/-!
# Finding repetitions

A `Window` holds the history of a stream and an index of the places where short
strings have occurred in it.  The index only proposes places.  Whether the bytes
there agree with the input is decided by comparing them, so nothing depends on
the index being right: a bad index costs compression and never correctness.

A place is proposed when its three bytes hash to the same bucket.  Only the
latest places of a bucket are kept.
-/

/-- A history with an index of its strings of three bytes. -/
structure Window where
  history : Array UInt8
  buckets : Array (List Nat)
deriving Repr

namespace Window

/-- The number of buckets. -/
def bucketCount : Nat := 4096

/-- The number of places that a bucket keeps. -/
def bucketDepth : Nat := 24

/-- The greatest length of a copy. -/
def maxLength : Nat := 258

/-- The greatest distance of a copy. -/
def maxDistance : Nat := 32768

/-- The bucket of three bytes. -/
def bucketOf (first second third : UInt8) : Nat :=
  (first.toNat * 1089 + second.toNat * 33 + third.toNat) % bucketCount

/-- A window without history. -/
def empty : Window where
  history := #[]
  buckets := Array.replicate bucketCount []

/-- Add a byte to the history, and index the three bytes that it completes. -/
def push : Window -> UInt8 -> Window
  | ⟨history, buckets⟩, byte =>
    let size := history.size
    let buckets :=
      if 2 ≤ size then
        match history[size - 2]?, history[size - 1]? with
        | some first, some second =>
          buckets.modify (bucketOf first second byte) fun places =>
            ((size - 2) :: places).take bucketDepth
        | _, _ => buckets
      else buckets
    ⟨history.push byte, buckets⟩

/-- Add bytes to the history. -/
def pushAll (window : Window) (bytes : List UInt8) : Window :=
  bytes.foldl push window

/-- The number of bytes, up to a limit, in which the history from some place on
agrees with the input.  The end of the history ends the agreement. -/
def commonLength (history : Array UInt8) : (place limit : Nat) -> List UInt8 -> Nat
  | _, 0, _ => 0
  | _, _, [] => 0
  | place, limit + 1, byte :: rest =>
    if history[place]? = some byte then commonLength history (place + 1) limit rest + 1 else 0

/-- The places where the input may have occurred before. -/
def candidates (window : Window) (input : List UInt8) : List Nat :=
  match input with
  | first :: second :: third :: _ => (window.buckets[bucketOf first second third]?).getD []
  | _ => []

/-- The longest agreement at a proposed place, with the place. -/
def longest (window : Window) (input : List UInt8) : Nat × Nat :=
  (window.candidates input).foldl
    (fun best place =>
      let length := commonLength window.history place maxLength input
      if best.1 < length ∧ window.history.size - place ≤ maxDistance then (length, place)
      else best)
    (0, 0)

/-- The copy with which the input can begin, if one is worth while. -/
def match? (window : Window) (input : List UInt8) : Option (Nat × Nat) :=
  let (length, place) := window.longest input
  if 3 ≤ length then some (length, window.history.size - place) else none

theorem history_push (window : Window) (byte : UInt8) :
    (window.push byte).history = window.history.push byte := rfl

theorem history_pushAll (window : Window) (bytes : List UInt8) :
    (window.pushAll bytes).history = window.history ++ bytes.toArray := by
  induction bytes generalizing window with
  | nil => simp [pushAll]
  | cons byte rest inductionHypothesis =>
    rw [pushAll, List.foldl_cons, ← pushAll, inductionHypothesis, history_push]
    simp

/-- Write input as tokens, after those already written, the last one first, and
add it to the history. -/
def tokenize (window : Window) (written : List Token) (input : List UInt8) :
    List Token × Window :=
  match input with
  | [] => (written.reverse, window)
  | byte :: rest =>
    match window.match? (byte :: rest) with
    | some (length, distance) =>
      (window.pushAll ((byte :: rest).take length)).tokenize
        (.copy length distance :: written) (rest.drop (length - 1))
    | none => (window.push byte).tokenize (.literal byte :: written) rest
termination_by input.length
decreasing_by
  · simp only [List.length_drop, List.length_cons]
    omega
  · simp

end Window

end Deflate
end HeaderCodec
