import HeaderCodec.Deflate.Fault
import HeaderCodec.Failure
import HeaderCodec.Text.Quoted

namespace HeaderCodec

/-!
# Errors of the codec

Every error tells whose fault it is: the layout of a block, its size, the
compressed stream, a source or sink, or the headers to be sent.  Within each
of these the cause is a value of its own type, and the wording is derived from
it in one place.

Only an error about headers that are to be sent is found before anything has
happened to the stream.  After every other error the two ends of a connection
may have different histories, and since a compressed stream has no place where
it could begin anew, such an error is fatal.
-/

/-- What is inconsistent in the layout of a block. -/
inductive LayoutFault where
  /-- The compressed stream has ended, or its source says so. -/
  | truncated
  | nameNotUtf8
  | emptyName
  | valueNotUtf8
  /-- A cause that is known only by its wording. -/
  | stated (text : String)
deriving DecidableEq, Repr

/-- What is wrong with the compressed stream. -/
inductive StreamFault where
  | fault (fault : Deflate.Fault)
  /-- A cause that is known only by its wording. -/
  | stated (text : String)
deriving DecidableEq, Repr

/-- Why headers cannot be sent. -/
inductive HeaderFault where
  | tooManyNames
  | emptyName
  /-- A name that holds NUL or is too long. -/
  | unencodableName (name : String)
  | nulInValue (name : String)
  | valueTooLong (name : String)
  /-- A cause that is known only by its wording. -/
  | stated (text : String)
deriving DecidableEq, Repr

/-- An error of the codec. -/
inductive Error where
  | malformed (fault : LayoutFault)
  | blockTooLarge (limit : Nat)
  | compression (fault : StreamFault)
  | io (failure : Failure)
  | invalidHeader (fault : HeaderFault)
  | poisoned
deriving DecidableEq, Repr

/-! ## Wording -/

namespace LayoutFault

def text : LayoutFault -> String
  | truncated => "compressed stream ended inside a header block"
  | nameNotUtf8 => "header name is not valid UTF-8"
  | emptyName => "empty header name"
  | valueNotUtf8 => "header value is not valid UTF-8"
  | stated text => text

end LayoutFault

namespace StreamFault

/-- What is said of every fault in a compressed stream. -/
def heading : String := "deflate decompression error"

/-- The wording of the cause.  A dictionary is rejected before decompression
has a fault of its own to tell. -/
def text : StreamFault -> String
  | fault .dictionaryId => Deflate.Fault.dictionaryId.text ++ ": " ++ heading
  | fault other => heading ++ ": " ++ other.text
  | stated text => text

end StreamFault

namespace HeaderFault

def text : HeaderFault -> String
  | tooManyNames => "too many header names"
  | emptyName => "empty header name"
  | unencodableName name => "unencodable header name " ++ Text.quoted name
  | nulInValue name => "value of " ++ name ++ " contains a NUL byte"
  | valueTooLong name => "value of " ++ name ++ " is too long"
  | stated text => text

end HeaderFault

namespace Error

/-- The name of the kind of error. -/
def name : Error -> String
  | malformed _ => "Malformed"
  | blockTooLarge _ => "BlockTooLarge"
  | compression _ => "Compression"
  | io _ => "Io"
  | invalidHeader _ => "InvalidHeader"
  | poisoned => "Poisoned"

/-- What is said to the user. -/
def message : Error -> String
  | malformed fault => "malformed header block: " ++ fault.text
  | blockTooLarge limit => "header block exceeds " ++ toString limit ++ " bytes"
  | compression fault => "compression error: " ++ fault.text
  | io failure => "io error: " ++ failure.message
  | invalidHeader fault => "invalid header: " ++ fault.text
  | poisoned => "codec poisoned by an earlier error"

/-- A description of the error as a value. -/
def describe (error : Error) : String :=
  match error with
  | malformed fault => error.name ++ "(" ++ Text.quoted fault.text ++ ")"
  | blockTooLarge limit => error.name ++ " \x7b limit: " ++ toString limit ++ " \x7d"
  | compression fault => error.name ++ "(" ++ Text.quoted fault.text ++ ")"
  | io failure => error.name ++ "(" ++ Text.quoted failure.message ++ ")"
  | invalidHeader fault => error.name ++ "(" ++ Text.quoted fault.text ++ ")"
  | poisoned => error.name

/-- Whether the codec cannot be used any more after an error. -/
def isFatal : Error -> Bool
  | invalidHeader _ => false
  | _ => true

/-- The error of a block whose source fails.  A source that says that there
will be no more bytes speaks of the stream and not of itself. -/
def ofSource (failure : Failure) : Error :=
  if failure.kind = .unexpectedEof then malformed .truncated else io failure

end Error

end HeaderCodec
