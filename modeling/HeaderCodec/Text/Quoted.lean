import HeaderCodec.Text.Unprintable

namespace HeaderCodec
namespace Text

/-!
# Quoted texts

The form in which texts stand in descriptions of values: between quotation
marks, with an escape for the mark itself, for the backslash and for whatever
is not shown as it is.  Four controls have a letter of their own; all other
characters are spelled by their number in lower-case hexadecimal digits.
-/

/-- Digits of a number in base sixteen, most significant first. -/
def hexDigits (number : Nat) : List Char :=
  Nat.toDigits 16 number

/-- How a character stands inside a quoted text. -/
def escape (character : Char) : List Char :=
  match character with
  | '"' => ['\\', '"']
  | '\\' => ['\\', '\\']
  | '\n' => ['\\', 'n']
  | '\r' => ['\\', 'r']
  | '\t' => ['\\', 't']
  | '\x00' => ['\\', '0']
  | _ =>
    if isPlain character then [character]
    else ['\\', 'u', '\x7b'] ++ hexDigits character.toNat ++ ['\x7d']

/-- A text between quotation marks. -/
def quoted (text : String) : String :=
  String.ofList (['"'] ++ text.toList.flatMap escape ++ ['"'])

/-- Texts in a list, each quoted. -/
def quotedList (texts : List String) : String :=
  "[" ++ ", ".intercalate (texts.map quoted) ++ "]"

end Text
end HeaderCodec
