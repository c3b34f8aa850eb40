import HeaderCodec.Error

namespace HeaderCodec

/-!
# Plans of reading

What a reader of header blocks does with bytes can be separated from where the
bytes come from.  A `Plan` is a reader's half: it asks for a number of bytes,
goes on in a way that may depend on them, and comes to a result or an error at
last.  It never says how the bytes are obtained, so it cannot look ahead of
what it has asked for.

Two things can be done with a plan.  A decoder follows it with bytes drawn from
a compressed stream.  `Plan.follow` follows it along bytes that are all at
hand, which gives the meaning that the decoder's answers are measured by.
-/

/-- A reader of bytes. -/
inductive Plan (Result : Type) where
  | done (result : Except Error Result)
  | take (count : Nat) (next : List UInt8 -> Plan Result)

namespace Plan

variable {Result : Type}

/-- Follow a plan along bytes at hand.  The outcome comes with the bytes that
are left, and there is none if the bytes do not suffice. -/
def follow : Plan Result -> List UInt8 -> Option (Except Error Result × List UInt8)
  | done result, bytes => some (result, bytes)
  | take count next, bytes =>
    if count ≤ bytes.length then (next (bytes.take count)).follow (bytes.drop count) else none

end Plan

end HeaderCodec
