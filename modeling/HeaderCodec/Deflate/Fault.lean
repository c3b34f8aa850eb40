namespace HeaderCodec
namespace Deflate

/-!
# What can be wrong with a compressed stream

One constructor per rule that a stream can break, in the order in which the
parts of a stream are met.  A decoder reports the text of the rule and nothing
about the place.
-/

/-- A broken rule of the compressed format. -/
inductive Fault where
  | streamHead
  | method
  | window
  | dictionaryId
  | blockType
  | storedLengths
  | tableSizes
  | lengthCode
  | repetition
  | missingEndOfBlock
  | literalCode
  | distanceCode
  | literalSymbol
  | distanceSymbol
  | distanceTooFar
  | unnamed
  | checksum
deriving DecidableEq, Repr

namespace Fault

/-- The wording of a fault. -/
def text : Fault -> String
  | streamHead => "incorrect header check"
  | method => "unknown compression method"
  | window => "invalid window size"
  | dictionaryId => "dictionary rejected"
  | blockType => "invalid block type"
  | storedLengths => "invalid stored block lengths"
  | tableSizes => "too many length or distance symbols"
  | lengthCode => "invalid code lengths set"
  | repetition => "invalid bit length repeat"
  | missingEndOfBlock => "invalid code -- missing end-of-block"
  | literalCode => "invalid literal/lengths set"
  | distanceCode => "invalid distances set"
  | literalSymbol => "invalid literal/length code"
  | distanceSymbol => "invalid distance code"
  | distanceTooFar => "invalid distance too far back"
  | unnamed => "repeated call with bad state"
  | checksum => "incorrect data check"

/-- Whether a fault is found in a single symbol of a block, and not in what
describes the block. -/
def ofSymbol : Fault -> Bool
  | literalSymbol | distanceSymbol | distanceTooFar => true
  | _ => false

/-- The fault that is reported when a symbol is decoded in haste, with plenty
of input and room at hand: the faults of symbols are then not told apart. -/
def hasty (fault : Fault) : Fault :=
  if fault.ofSymbol then unnamed else fault

end Fault

end Deflate
end HeaderCodec
