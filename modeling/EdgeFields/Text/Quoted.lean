/-
  EdgeFields/Text/Quoted.lean
  ===========================
  **Quoted text in messages.**

  A quoted text escapes the double quote, the backslash, the control characters
  with a letter of their own and NUL; other characters that do not print, or that
  attach to the one before, appear by their code point. All else, the single quote
  included, stands for itself.
-/
import EdgeFields.Text.Combining
import EdgeFields.Text.Silent

namespace EdgeFields.Text

/-- One character inside quotes. -/
def quoteChar (c : Char) : List Char :=
  match c with
  | '"' => ['\\', '"']
  | '\\' => ['\\', '\\']
  | '\n' => ['\\', 'n']
  | '\r' => ['\\', 'r']
  | '\t' => ['\\', 't']
  | '\x00' => ['\\', '0']
  | c =>
    if isSilent c || isCombining c then
      '\\' :: 'u' :: '\x7b' :: (Nat.toDigits 16 c.toNat ++ ['\x7d'])
    else [c]

/-- A text in double quotes. -/
def quoted (s : String) : String :=
  String.ofList ('"' :: (s.toList.flatMap quoteChar ++ ['"']))

end EdgeFields.Text
