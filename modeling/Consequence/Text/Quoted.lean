import Consequence.Text.Hidden

/-!
# Quoted text

A quoted text stands between double quotes, and shows all that it holds. A double quote and a
backslash inside are written after a backslash, the usual controls by their letters, and every
other hidden character by its code point in braces, as in `\\u{301}`.
-/

namespace Consequence.Text

def quotedChar (c : Char) : List Char :=
  match c with
  | '"' => ['\\', '"']
  | '\\' => ['\\', '\\']
  | '\x00' => ['\\', '0']
  | '\t' => ['\\', 't']
  | '\n' => ['\\', 'n']
  | '\r' => ['\\', 'r']
  | c =>
    if isHidden c then ['\\', 'u', '\x7b'] ++ Nat.toDigits 16 c.toNat ++ ['\x7d'] else [c]

def quoted (text : List Char) : List Char :=
  '"' :: text.flatMap quotedChar ++ ['"']

end Consequence.Text
