import Consequence.Classification
import Consequence.Models

/-!
# Contexts

A context is knowledge that grows, with a configuration for the queries on it and a tally of the
work that they took. The knowledge is a sentence, and an addition makes it grow as any sentence
does, by `Sentence.add`. That an addition is never refused is owed to how a context starts: from
a conjunction, or from one that is put around the sentence it is given, and a conjunction stays
one as it grows. Nothing is kept from one query to the next but the tally, so a query sees the
knowledge as it is when it is asked.
-/

namespace Consequence

/-- What the queries of a context took. -/
structure Tally where
  /-- How many entailments were examined. -/
  queries : Nat := 0
  /-- How many valuations were examined for all of them. -/
  leaves : Nat := 0
  /-- How many were examined for the last of them. -/
  lastLeaves : Nat := 0
deriving DecidableEq

def Tally.count (t : Tally) (e : Examination) : Tally where
  queries := t.queries + 1
  leaves := t.leaves + e.leaves
  lastLeaves := e.leaves

structure Context where
  config : Config := {}
  knowledge : Sentence := .conj []
  tally : Tally := {}

namespace Context

def ofKnowledge (config : Config) (knowledge : Sentence) : Context where
  config := config
  knowledge :=
    match knowledge with
    | .conj parts => .conj parts
    | p => .conj [p]

def symbols (c : Context) : NameSet :=
  c.knowledge.symbols

def add (c : Context) (p : Sentence) : Except Error Context := do
  let knowledge ← c.knowledge.add p
  return { c with knowledge := knowledge }

def models (c : Context) : Except Error (List Model) :=
  Consequence.models c.knowledge

def count (c : Context) (e : Examination) : Context :=
  { c with tally := c.tally.count e }

def examine (c : Context) (query : Sentence) : Except Error (Examination × Context) := do
  let e ← Consequence.examine c.knowledge query c.config
  return (e, c.count e)

def classify (c : Context) (query : Sentence) : Except Error (Classification × Context) := do
  let (affirmed, c) ← c.examine query
  let (denied, c) ← c.examine (.neg query)
  return (⟨query, affirmed, denied⟩, c)

/-- Classifies the queries one after the other. -/
def classifyAll (c : Context) :
    List Sentence → Except Error (List Classification × Context)
  | [] => .ok ([], c)
  | query :: queries => do
    let (first, c) ← c.classify query
    let (rest, c) ← c.classifyAll queries
    return (first :: rest, c)

end Context

end Consequence
