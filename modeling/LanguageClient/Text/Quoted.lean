import LanguageClient.Text.Unprintable

/-!
# Quoted text

A text in double quotes, on one line and with every character visible: the
quote and the backslash are escaped, tab, line feed, carriage return and NUL
are one letter behind a backslash, and a character that is not shown as it
is becomes its code point in braces.
-/
namespace LanguageClient.Quoted

/-- A code point in lower-case hexadecimal. -/
def hex (n : Nat) : List Char :=
  Nat.toDigits 16 n

/-- One character inside the quotes. -/
def escapeChar (c : Char) : List Char :=
  if c = '"' then ['\\', '"']
  else if c = '\\' then ['\\', '\\']
  else if c = '\n' then ['\\', 'n']
  else if c = '\r' then ['\\', 'r']
  else if c = '\t' then ['\\', 't']
  else if c.toNat = 0 then ['\\', '0']
  else if Unprintable.isUnprintable c then '\\' :: 'u' :: '\x7b' :: (hex c.toNat ++ ['\x7d'])
  else [c]

def quote (s : String) : String :=
  String.ofList ('"' :: (s.toList.flatMap escapeChar ++ ['"']))

end LanguageClient.Quoted
