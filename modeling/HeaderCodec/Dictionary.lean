import HeaderCodec.Bytes.Checksum
import HeaderCodec.Bytes.Utf8
import HeaderCodec.Bytes.Word

namespace HeaderCodec
namespace Dictionary

/-!
# The preset dictionary

Both ends of a connection start their compressed streams with the same
history, so that common names and values cost a few bits even in the first
block.  The history has two parts.  The first lists words in the layout that
header blocks give to strings, a 32-bit length and then the text; they are the
common header names and a few values.  The second is plain text: status codes
and reasons, pieces of dates, media types and other frequent values.

The dictionary is part of the wire contract.  What is established here is its
length and the checksum by which a stream announces it, so that a change of a
single byte would not go unnoticed.
-/

/-- The words that stand in the dictionary with their lengths before them. -/
def words : List String :=
  [
    "options", "head", "post", "put", "delete", "trace", "accept", "accept-charset",
    "accept-encoding", "accept-language", "accept-ranges", "age", "allow", "authorization",
    "cache-control", "connection", "content-base", "content-encoding", "content-language",
    "content-length", "content-location", "content-md5", "content-range", "content-type",
    "date", "etag", "expect", "expires", "from", "host", "if-match", "if-modified-since",
    "if-none-match", "if-range", "if-unmodified-since", "last-modified", "location",
    "max-forwards", "pragma", "proxy-authenticate", "proxy-authorization", "range", "referer",
    "retry-after", "server", "te", "trailer", "transfer-encoding", "upgrade", "user-agent",
    "vary", "via", "warning", "www-authenticate", "method", "get", "status", "200 OK",
    "version", "HTTP/1.1", "url", "public", "set-cookie", "keep-alive", "origin" ]

/-- Status codes that stand alone, written one after the other. -/
def statusCodes : String :=
  "100101201202205206300302303304305306307402405406407408409410411412413414415416417502504505"

/-- Status codes together with their reasons. -/
def statusLines : List String :=
  [
    "203 Non-Authoritative Information", "204 No Content", "301 Moved Permanently",
    "400 Bad Request", "401 Unauthorized", "403 Forbidden", "404 Not Found",
    "500 Internal Server Error", "501 Not Implemented", "503 Service Unavailable" ]

/-- Month and weekday names, and the parts of a date around them. -/
def dateParts : String :=
  "Jan Feb Mar Apr May Jun Jul Aug Sept Oct Nov Dec 00:00:00 Mon, Tue, Wed, Thu, Fri, Sat, Sun, GMT"

/-- Transfer codings and media types, each followed by a comma. -/
def mediaTypes : List String :=
  [
    "chunked,", "text/html,", "image/png,", "image/jpg,", "image/gif,", "application/xml,",
    "application/xhtml+xml,", "text/plain,", "text/javascript," ]

/-- Frequent parts of caching, coding and language values. -/
def valueParts : List String :=
  [ "public", "private", "max-age=", "gzip,deflate,sdch", "charset=utf-8",
    "charset=iso-8859-1,", "utf-,*,enq=0." ]

/-- A text with its length before it. -/
def entry (text : String) : List UInt8 :=
  Word.toBytes (Utf8.encode text).length ++ Utf8.encode text

/-- The text after the words. -/
def phrases : List String :=
  [statusCodes] ++ statusLines ++ [dateParts] ++ mediaTypes ++ valueParts

/-- The dictionary, byte for byte. -/
def bytes : List UInt8 :=
  words.flatMap entry ++ phrases.flatMap Utf8.encode

/-- The dictionary as the history of a stream. -/
def history : Array UInt8 :=
  bytes.toArray

/-- The number by which a stream announces the dictionary: its checksum. -/
def id : Nat :=
  (Checksum.ofBytes bytes).word

theorem length_bytes : bytes.length = 1423 := by
  decide +kernel

theorem id_eq : id = 0xe3c6a7c2 := by
  decide +kernel

end Dictionary
end HeaderCodec
