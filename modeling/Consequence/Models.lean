import Consequence.Event
import Consequence.Sentence.Evaluate
import Consequence.Sentence.Symbols

/-!
# The models of a sentence

Every valuation of the symbols of a sentence is gone through, each symbol true before false, and
those on which the sentence is true are its models. The symbols are taken in the order of their
names whatever the configuration, so the list of models is a function of the sentence.
-/

namespace Consequence

/-- The models among the valuations that extend `m` by the names in `order`. -/
def modelsFrom (knowledge : Sentence) : (order : List String) → Model → Except Error (List Model)
  | [], m => do
    if ← knowledge.evaluate m.value? then return [m] else return []
  | name :: order, m => do
    let whereTrue ← modelsFrom knowledge order (m.insert name true)
    let whereFalse ← modelsFrom knowledge order (m.insert name false)
    return whereTrue ++ whereFalse

def models (knowledge : Sentence) : Except Error (List Model) :=
  modelsFrom knowledge knowledge.symbols.toList .empty

end Consequence
