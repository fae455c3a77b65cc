import Consequence.Event
import Consequence.Search
import Consequence.Sentence.Symbols
import Consequence.SplitOrder

/-!
# Entailment

An examination settles whether some knowledge entails a query, by a search through all
valuations of the symbols of both. It starts from the empty model and splits on every symbol, so
at each leaf every symbol has a value. The effort is exponential in the number of symbols; no
valuation is left out and neither sentence is simplified, which is what makes the number of
leaves a fact about the question and the configuration and not about how it was put.
-/

namespace Consequence

structure Examination where
  query : Sentence
  /-- How many symbols the knowledge and the query have together. -/
  symbols : Nat
  entailed : Bool
  /-- How many valuations were examined. -/
  leaves : Nat
  /-- The valuations met on which the knowledge is true and the query is false. -/
  counterModels : List Model

/-- The names that an examination has to split on. -/
def jointSymbols (knowledge query : Sentence) : NameSet :=
  query.extendSymbols knowledge.symbols

def examine (knowledge query : Sentence) (config : Config) : Except Error Examination := do
  let order := splitOrder (jointSymbols knowledge query) config
  let search := Search.run knowledge query config.forkDepth order .empty
  let entailed ← search.answer
  return ⟨query, order.length, entailed, search.leaves, search.counterModels⟩

def Examination.events (e : Examination) : List Event :=
  .examining e.query e.symbols :: e.counterModels.map .counterModel
    ++ [.examined e.entailed e.leaves]

/-- Whether the query is true in every model of the knowledge. -/
def entails (knowledge query : Sentence) : Except Error Bool :=
  Examination.entailed <$> examine knowledge query {}

/-- Whether the knowledge has a model: whether it does not entail the sentence that is never
true. -/
def satisfiable (knowledge : Sentence) : Except Error Bool :=
  not <$> entails knowledge .falsum

end Consequence
