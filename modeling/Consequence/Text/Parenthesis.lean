/-!
# Balanced text

A text is balanced when its parentheses pair up: read from left to right, the depth of nesting
never falls below zero and is zero at the end. Every character that is no parenthesis is passed
over, so the notion applies to any text and not only to formulas.

A group is a balanced text between one pair of parentheses. The inside has to balance by itself,
which is what tells `(a) ∧ (b)`, two groups side by side, from a group.
-/

namespace Consequence.Text

/-- Whether the text closes `depth` open parentheses and all those that it opens itself. -/
def closes : Nat → List Char → Bool
  | depth, [] => depth == 0
  | depth, c :: rest =>
    if c = '(' then closes (depth + 1) rest
    else if c = ')' then
      match depth with
      | 0 => false
      | depth + 1 => closes depth rest
    else closes depth rest

def isBalanced (text : List Char) : Bool :=
  closes 0 text

/-- Whether the text is one pair of parentheses around a balanced text. -/
def isGroup : List Char → Bool
  | '(' :: rest => rest.getLast? == some ')' && isBalanced rest.dropLast
  | _ => false

end Consequence.Text
