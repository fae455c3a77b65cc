/-!
# What can go wrong

One type holds every cause of failure: an operand that no sentence can have, a symbol read in a
model that does not value it, a branch of a forked examination that never reported back, and a
setting given a value outside its bounds. The wording is kept in one place, `Error.message`,
where the first three kinds name themselves before the cause.
-/

namespace Consequence

inductive Error where
  /-- A symbol was given no name at all. -/
  | emptyName
  /-- A name holds a blank, a parenthesis, an operator or a minus sign; the first one is given. -/
  | reservedCharacter (c : Char)
  /-- Only conjunctions and disjunctions take further parts. -/
  | notExtendable
  /-- A symbol was read that the model gives no value. -/
  | unbound (name : String)
  /-- A branch of a forked examination did not finish. No function gives this error, since a search
  takes it that its branches come back; it is named for those who run them side by side. -/
  | branchLost
  /-- A setting was given a value that is not between its bounds. -/
  | outOfBounds (setting least greatest : String)
deriving DecidableEq

def Error.message : Error → String
  | .emptyName => "invalid operand: symbol names must be non-empty"
  | .reservedCharacter c =>
    "invalid operand: symbol names may not contain '" ++ String.singleton c ++ "'"
  | .notExtendable => "invalid operand: only conjunctions and disjunctions may be extended"
  | .unbound name => "evaluation error: variable " ++ name ++ " not in model"
  | .branchLost => "entailment error: a parallel branch failed to complete"
  | .outOfBounds setting least greatest =>
    setting ++ " requires a value between " ++ least ++ " and " ++ greatest

end Consequence
