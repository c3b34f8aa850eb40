import HeaderCodec.Bytes.Word
import HeaderCodec.Headers
import HeaderCodec.Plan
import HeaderCodec.Text.Joined

namespace HeaderCodec
namespace Block

/-!
# The layout of a header block

Uncompressed, a block is a number of entries and then the entries, each a name
and a text of joined values.  All numbers are words, and a text is preceded by
its length in bytes.

Reading is bounded by a budget.  Every field is charged before it is asked for,
so what a block makes a reader ask for is never more than the budget, whatever
lengths it claims.  A number of entries that could not fit even if all of them
were empty is refused at once.

A name must not be empty.  Repeated names, also in different spellings, add
their values to one entry.
-/

/-! ## Writing -/

/-- A text with its length before it. -/
def writeText (text : String) : List UInt8 :=
  let bytes := Utf8.encode text
  Word.toBytes bytes.length ++ bytes

/-- An entry of a block. -/
def writeEntry (header : Header) : List UInt8 :=
  writeText header.name ++ writeText (Text.join header.values)

/-- The uncompressed block of headers. -/
def write (headers : Headers) : List UInt8 :=
  Word.toBytes headers.size ++ headers.entries.flatMap writeEntry

/-! ## Reading -/

/-- The least number of bytes of an entry: two empty texts. -/
def leastEntrySize : Nat := 8

variable {Result : Type}

/-- Give up a block. -/
def malformed (fault : LayoutFault) : Plan Result :=
  .done (.error (.malformed fault))

/-- Charge the budget with a field of `count` bytes and read it. -/
def readField (limit remaining count : Nat)
    (next : List UInt8 -> (remaining : Nat) -> Plan Result) : Plan Result :=
  if remaining < count then .done (.error (.blockTooLarge limit))
  else .take count fun bytes => next bytes (remaining - count)

/-- Read a word. -/
def readWord (limit remaining : Nat) (next : (value remaining : Nat) -> Plan Result) :
    Plan Result :=
  readField limit remaining 4 fun bytes remaining => next (Word.ofBytes bytes) remaining

/-- Read the bytes of a text after its length. -/
def readText (limit remaining : Nat)
    (next : List UInt8 -> (remaining : Nat) -> Plan Result) : Plan Result :=
  readWord limit remaining fun length remaining => readField limit remaining length next

/-- Read `count` entries and add them to the headers read so far. -/
def readEntries (limit : Nat) : (count remaining : Nat) -> Headers -> Plan Headers
  | 0, _, headers => .done (.ok headers)
  | count + 1, remaining, headers =>
    readText limit remaining fun nameBytes remaining =>
      match Utf8.decode? nameBytes with
      | none => malformed .nameNotUtf8
      | some name =>
        if name.isEmpty then malformed .emptyName
        else
          readText limit remaining fun valueBytes remaining =>
            match Utf8.decode? valueBytes with
            | none => malformed .valueNotUtf8
            | some value =>
              readEntries limit count remaining (headers.appendAll name (Text.split value))

/-- Read a block of at most `limit` bytes. -/
def read (limit : Nat) : Plan Headers :=
  readWord limit limit fun count remaining =>
    if remaining < count * leastEntrySize then .done (.error (.blockTooLarge limit))
    else readEntries limit count remaining {}

end Block
end HeaderCodec
