import LanguageClient.Json.Basic
import LanguageClient.Text.Utf8

/-!
# Printing JSON

`Json.render` writes a value without blanks. In a string the quote, the
backslash and the control characters below U+0020 are escaped, the latter in
one letter where JSON has one and as four hexadecimal digits otherwise; all
else stands as it is.
-/
namespace LanguageClient.Json

def hexDigit (n : Nat) : Char :=
  if n < 10 then Char.ofNat (48 + n) else Char.ofNat (87 + n)

/-- A character as it stands in a string. -/
def escapeChar (c : Char) : List Char :=
  if c = '"' then ['\\', '"']
  else if c = '\\' then ['\\', '\\']
  else if c = '\n' then ['\\', 'n']
  else if c = '\r' then ['\\', 'r']
  else if c = '\t' then ['\\', 't']
  else if c.toNat = 8 then ['\\', 'b']
  else if c.toNat = 12 then ['\\', 'f']
  else if c.toNat < 32 then ['\\', 'u', '0', '0', hexDigit (c.toNat / 16), hexDigit (c.toNat % 16)]
  else [c]

/-- A string in its quotes. -/
def renderText (s : String) : List Char :=
  '"' :: (s.toList.flatMap escapeChar ++ ['"'])

def renderInt (n : Int) : List Char :=
  if n < 0 then '-' :: Nat.toDigits 10 n.natAbs else Nat.toDigits 10 n.natAbs

mutual

def render : Json → List Char
  | null => ['n', 'u', 'l', 'l']
  | bool true => ['t', 'r', 'u', 'e']
  | bool false => ['f', 'a', 'l', 's', 'e']
  | int n => renderInt n
  | float x => x.render
  | str s => renderText s
  | arr items => '[' :: (renderItems items ++ [']'])
  | obj members => '\x7b' :: (renderMembers members ++ ['\x7d'])

def renderItems : List Json → List Char
  | [] => []
  | [item] => render item
  | item :: items => render item ++ ',' :: renderItems items

def renderMembers : List (String × Json) → List Char
  | [] => []
  | [(name, value)] => renderText name ++ ':' :: render value
  | (name, value) :: members =>
    renderText name ++ ':' :: (render value ++ ',' :: renderMembers members)

end

def toBytes (j : Json) : List UInt8 :=
  Utf8.encode j.render

def toText (j : Json) : String :=
  String.ofList j.render

end LanguageClient.Json
