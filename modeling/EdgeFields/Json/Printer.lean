/-
  EdgeFields/Json/Printer.lean
  ============================
  **Compact JSON text.**

  No spaces; members in the order of the object. In strings the quote, the
  backslash and the control characters below U+0020 are escaped, all else stands
  for itself.
-/
import EdgeFields.Json.Basic

namespace EdgeFields

namespace Json

/-- A hexadecimal digit in lower case. -/
def hexDigit (n : Nat) : Char := (Nat.digitChar (n % 16))

/-- The written form of one character of a string. -/
def escapeChar (c : Char) : List Char :=
  if c = '"' then ['\\', '"']
  else if c = '\\' then ['\\', '\\']
  else if c = '\n' then ['\\', 'n']
  else if c = '\r' then ['\\', 'r']
  else if c = '\t' then ['\\', 't']
  else if c = '\x08' then ['\\', 'b']
  else if c = '\x0c' then ['\\', 'f']
  else if c.toNat < 0x20 then ['\\', 'u', '0', '0', hexDigit (c.toNat / 16), hexDigit c.toNat]
  else [c]

/-- A string in quotes. -/
def renderString (s : List Char) : List Char := '"' :: (s.flatMap escapeChar ++ ['"'])

mutual

/-- The compact text of a document. -/
def render : Json → List Char
  | null => ['n', 'u', 'l', 'l']
  | bool true => ['t', 'r', 'u', 'e']
  | bool false => ['f', 'a', 'l', 's', 'e']
  | num n => n.render
  | str s => renderString s.toList
  | arr xs => '[' :: renderItems xs
  | obj ms => '\x7b' :: renderMembers ms

/-- The items of an array up to its closing bracket. -/
def renderItems : List Json → List Char
  | [] => [']']
  | [x] => render x ++ [']']
  | x :: y :: xs => render x ++ ',' :: renderItems (y :: xs)

/-- The members of an object up to its closing brace. -/
def renderMembers : Members → List Char
  | [] => ['\x7d']
  | [(k, x)] => renderString k.toList ++ ':' :: (render x ++ ['\x7d'])
  | (k, x) :: m :: ms => renderString k.toList ++ ':' :: (render x ++ ',' :: renderMembers (m :: ms))

end

/-- The compact text of a document. -/
def text (j : Json) : String := String.ofList j.render

end Json

end EdgeFields
