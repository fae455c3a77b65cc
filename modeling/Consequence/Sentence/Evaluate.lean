import Consequence.Sentence.Basic
import Consequence.Valuation

/-!
# The value of a sentence

Evaluation reads from left to right and stops as soon as the value is settled: a conjunction at
its first false part, a disjunction at its first true part, an implication after a false
antecedent. What stands behind is not read, so a name without a value there does no harm. A
biconditional reads both sides. The first name that is read and has no value is the error.
-/

namespace Consequence.Sentence

mutual

def evaluate (v : Valuation) : Sentence → Except Error Bool
  | .symbol s =>
    match v s.name with
    | some value => .ok value
    | none => .error (.unbound s.name)
  | .neg p => do
    let value ← p.evaluate v
    return !value
  | .conj parts => evaluateAll v parts
  | .disj parts => evaluateAny v parts
  | .imp p q => do
    if ← p.evaluate v then q.evaluate v else return true
  | .iff p q => do
    let left ← p.evaluate v
    let right ← q.evaluate v
    return left == right

/-- Whether every part is true, read up to the first that is not. -/
def evaluateAll (v : Valuation) : List Sentence → Except Error Bool
  | [] => .ok true
  | p :: parts => do
    if ← p.evaluate v then evaluateAll v parts else return false

/-- Whether some part is true, read up to the first that is. -/
def evaluateAny (v : Valuation) : List Sentence → Except Error Bool
  | [] => .ok false
  | p :: parts => do
    if ← p.evaluate v then return true else evaluateAny v parts

end

end Consequence.Sentence
