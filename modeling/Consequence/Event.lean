import Consequence.Report
import Consequence.Sentence.Formula
import Consequence.Text.Quoted
import Consequence.Valuation

/-!
# Events

What an operation does along the way is kept as a list of events: values, of which a log line is
only the printed form. An event has a level, a target that names the activity it belongs to, and
a message.

The valuation in the line of a counter-model is written out in full, as pairs in braces. Pairs
are sorted as texts, quotes included, which is not always the order of the names: of `p!` and
`p` the first comes first, because `!` comes before the quote that ends the other.
-/

namespace Consequence

inductive Event where
  /-- An examination begins that asks for a query on all valuations of so many symbols. -/
  | examining (query : Sentence) (symbols : Nat)
  /-- A valuation on which the knowledge is true and the query false. -/
  | counterModel (m : Model)
  /-- An examination is over, after so many valuations. -/
  | examined (entailed : Bool) (leaves : Nat)
  /-- A model of the knowledge was found. -/
  | model (m : Model)
  /-- A sentence is added to the knowledge. -/
  | adding (p : Sentence)
  /-- A query was classified. -/
  | classified (query : Sentence) (report : Report)

def boolText : Bool → String
  | true => "true"
  | false => "false"

/-- The pairs of a model, each a quoted name and its value, sorted as texts. -/
def Model.pairTexts (m : Model) : List String :=
  (m.entries.map fun entry =>
    String.ofList (Text.quoted entry.1.toList) ++ ": " ++ boolText entry.2).mergeSort
    (fun s t => decide (s ≤ t))

def Model.pairsText (m : Model) : String :=
  "\x7b" ++ ", ".intercalate m.pairTexts ++ "\x7d"

namespace Event

def level : Event → String
  | .examining .. | .examined .. => "DEBUG"
  | .counterModel _ | .model _ | .adding _ => "TRACE"
  | .classified .. => "INFO"

def target : Event → String
  | .examining .. | .counterModel _ | .examined .. | .model _ => "entailment"
  | .adding _ => "knowledge"
  | .classified .. => "classification"

def message : Event → String
  | .examining query symbols =>
    "Checking " ++ query.formula ++ " on 2^" ++ Nat.repr symbols ++ " valuations"
  | .counterModel m => "Counter-model: " ++ m.pairsText
  | .examined entailed leaves =>
    "Entailed: " ++ boolText entailed ++ " after " ++ Nat.repr leaves ++ " valuations"
  | .model m => "Model: " ++ m.text
  | .adding p => "Adding: " ++ p.formula
  | .classified query report => query.formula ++ ": " ++ report.text

def line (e : Event) : String :=
  e.level ++ " " ++ e.target ++ ": " ++ e.message

end Event

end Consequence
