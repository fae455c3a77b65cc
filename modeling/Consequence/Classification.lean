import Consequence.Examination

/-!
# Classification

A query is classified by two examinations, of the query and then of its negation. Both are kept,
since each counts as an entailment that was asked for.
-/

namespace Consequence

structure Classification where
  query : Sentence
  /-- Whether the query is entailed. -/
  affirmed : Examination
  /-- Whether the negation of the query is entailed. -/
  denied : Examination

namespace Classification

def report (c : Classification) : Report :=
  .ofEntailments c.affirmed.entailed c.denied.entailed

def events (c : Classification) : List Event :=
  c.affirmed.events ++ c.denied.events

end Classification

def classify (knowledge query : Sentence) (config : Config) : Except Error Classification := do
  let affirmed ← examine knowledge query config
  let denied ← examine knowledge (.neg query) config
  return ⟨query, affirmed, denied⟩

end Consequence
