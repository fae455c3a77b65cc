import Consequence.Sentence.Basic

/-!
# Outlines

The outline of a sentence spells out its tree: the kind of each node, then its children in
parentheses, `And(p, Or(q, Not(r)))`. Unlike the formula it tells a junction of one part from the
part, and an empty conjunction from an empty disjunction.
-/

namespace Consequence.Sentence

/-- A node of the outline: its kind, and the outlines of its children. -/
def node (kind : List Char) (children : List (List Char)) : List Char :=
  kind ++ '(' :: [',', ' '].intercalate children ++ [')']

mutual

def outlineChars : Sentence → List Char
  | .symbol s => s.name.toList
  | .neg p => node ['N', 'o', 't'] [p.outlineChars]
  | .conj parts => node ['A', 'n', 'd'] (outlineCharsAll parts)
  | .disj parts => node ['O', 'r'] (outlineCharsAll parts)
  | .imp p q => node "Implication".toList [p.outlineChars, q.outlineChars]
  | .iff p q => node "Biconditional".toList [p.outlineChars, q.outlineChars]

def outlineCharsAll : List Sentence → List (List Char)
  | [] => []
  | p :: parts => p.outlineChars :: outlineCharsAll parts

end

def outline (p : Sentence) : String :=
  String.ofList p.outlineChars

end Consequence.Sentence
