import Falsify.Text.Visible

/-!
# Quoted text

How messages show a text or a character that they complain about: in quotes, with the quote, the
backslash and five control characters escaped by name, and every other character that is not visible
escaped by its number in hexadecimal.

* `quote`: a text in double quotes;
* `quoteChar`: a character in single quotes.
-/

namespace Falsify.Text

/-- A number in hexadecimal, in lower case and without leading zeros. -/
def hexNumber (n : Nat) : List Char :=
  Nat.toDigits 16 n

/-- A character inside quotes of the kind `mark`. -/
def escapeIn (mark : Char) (c : Char) : List Char :=
  if c = '\x00' then ['\\', '0']
  else if c = '\t' then ['\\', 't']
  else if c = '\r' then ['\\', 'r']
  else if c = '\n' then ['\\', 'n']
  else if c = '\\' then ['\\', '\\']
  else if c = mark then ['\\', mark]
  else if isVisible c then [c]
  else "\\u\x7b".toList ++ hexNumber c.toNat ++ "\x7d".toList

/-- A text in double quotes. -/
def quote (text : String) : String :=
  String.ofList ('"' :: text.toList.flatMap (escapeIn '"') ++ ['"'])

/-- A character in single quotes. -/
def quoteChar (c : Char) : String :=
  String.ofList ('\'' :: escapeIn '\'' c ++ ['\''])

end Falsify.Text
