import Consequence.Context

/-!
# Requests to a context

Everything that can be asked of a context, as a value. A request is answered by a reply: the
context afterwards, an answer or an error, and the events on the way.

A request that is refused leaves the context as it was. Two kinds can be refused, a setting that
is out of bounds, and an addition to knowledge that takes no further part, which the knowledge of
a context always does. Queries are never refused: every examination has an answer, whatever the
knowledge is, so the question does not come up what a classification leaves behind, and what it
has announced, if only the first of its two examinations has one.
-/

namespace Consequence

inductive Request where
  | add (p : Sentence)
  | entails (query : Sentence)
  | satisfiable
  | classify (query : Sentence)
  | classifyAll (queries : List Sentence)
  | models
  | symbols
  | knowledge
  | set (key : Config.Key) (value : key.Value)

inductive Answer where
  | added
  | truth (value : Bool)
  | report (r : Report)
  | reports (rs : List (Sentence × Report))
  | models (ms : List Model)
  | symbols (names : NameSet)
  | knowledge (p : Sentence)
  | config (config : Config)

structure Reply where
  context : Context
  answer : Except Error Answer
  events : List Event := []

namespace Classification

/-- The events of a classification on behalf of a context, which announces the report. -/
def announced (c : Classification) : List Event :=
  c.events ++ [.classified c.query c.report]

end Classification

namespace Context

/-- The reply to a request that a computation answers. -/
def reply {α : Type} (c : Context) (result : Except Error α) (answered : α → Reply) : Reply :=
  match result with
  | .ok a => answered a
  | .error e => ⟨c, .error e, []⟩

def step (c : Context) : Request → Reply
  | .add p =>
    -- The addition is announced before the knowledge is asked to take it.
    { c.reply (c.add p) fun c => ⟨c, .ok .added, []⟩ with events := [.adding p] }
  | .entails query =>
    c.reply (c.examine query) fun (e, c) => ⟨c, .ok (.truth e.entailed), e.events⟩
  | .satisfiable =>
    c.reply (c.examine .falsum) fun (e, c) => ⟨c, .ok (.truth !e.entailed), e.events⟩
  | .classify query =>
    c.reply (c.classify query) fun (k, c) => ⟨c, .ok (.report k.report), k.announced⟩
  | .classifyAll queries =>
    c.reply (c.classifyAll queries) fun (ks, c) =>
      ⟨c, .ok (.reports (ks.map fun k => (k.query, k.report))), ks.flatMap (·.announced)⟩
  | .models => c.reply c.models fun ms => ⟨c, .ok (.models ms), ms.map .model⟩
  | .symbols => ⟨c, .ok (.symbols c.symbols), []⟩
  | .knowledge => ⟨c, .ok (.knowledge c.knowledge), []⟩
  | .set key value =>
    c.reply (c.config.set key value) fun config =>
      ⟨{ c with config := config }, .ok (.config config), []⟩

/-- The replies to a row of requests, each put to the context that the one before left. -/
def run (c : Context) : List Request → List Reply
  | [] => []
  | request :: requests =>
    let reply := c.step request
    reply :: run reply.context requests

end Context

end Consequence
