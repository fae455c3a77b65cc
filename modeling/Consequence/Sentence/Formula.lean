import Consequence.Sentence.Basic
import Consequence.Text.Parenthesis

/-!
# Formulas

The formula of a sentence is its usual written form, with `¬`, `∧`, `∨`, `=>` and `<=>`. There is
no precedence between the operators: every operand is put in parentheses unless it is bare, and
whether it is bare is read off its text. Bare are the empty text, a name, a group, and any of
these after a row of `¬`. So no operand gets a second pair of parentheses, and none that is
compound goes without.

A junction of one part is written as the part alone, and a junction without parts as nothing.
-/

namespace Consequence

namespace Text

/-- Whether a text can be an operand as it stands. -/
def isBare : List Char → Bool
  | [] => true
  | c :: rest =>
    decide (IsName (c :: rest)) || isGroup (c :: rest) || (c == '¬' && isBare rest)

/-- The text as an operand: in one pair of parentheses unless it is bare. -/
def parenthesize (text : List Char) : List Char :=
  if isBare text then text else '(' :: text ++ [')']

end Text

namespace Sentence

/-- The written forms of some parts, joined by a connective. A single part stands alone. -/
def junction (connective : List Char) : List (List Char) → List Char
  | [part] => part
  | parts => connective.intercalate (parts.map Text.parenthesize)

mutual

def formulaChars : Sentence → List Char
  | .symbol s => s.name.toList
  | .neg p => '¬' :: Text.parenthesize p.formulaChars
  | .conj parts => junction [' ', '∧', ' '] (formulaCharsAll parts)
  | .disj parts => junction [' ', '∨', ' '] (formulaCharsAll parts)
  | .imp p q =>
    Text.parenthesize p.formulaChars ++ [' ', '=', '>', ' '] ++ Text.parenthesize q.formulaChars
  | .iff p q =>
    Text.parenthesize p.formulaChars ++ [' ', '<', '=', '>', ' ']
      ++ Text.parenthesize q.formulaChars

def formulaCharsAll : List Sentence → List (List Char)
  | [] => []
  | p :: parts => p.formulaChars :: formulaCharsAll parts

end

def formula (p : Sentence) : String :=
  String.ofList p.formulaChars

end Sentence

end Consequence
