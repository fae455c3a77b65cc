import Consequence.Context
import Consequence.Puzzle.Basic
import Consequence.Text.Emphasis

/-!
# Playing a puzzle

To play a puzzle, its stages are added to a context one after the other, and all its symbols are
classified after each. The transcript of a stage is a rule, the note of the stage, an empty line,
and one line for each symbol, coloured by the report. A play does not fail, so there is no place
for what would have been printed before it did.
-/

namespace Consequence

def Report.emphasis? : Report → Option Text.Emphasis
  | present => some .green
  | absent => some .red
  | undetermined => none
  | inconsistent => some .yellow

namespace Classification

def line (c : Classification) : String :=
  let text := c.query.formula ++ ": " ++ c.report.text
  match c.report.emphasis? with
  | some emphasis => emphasis.apply text
  | none => text

end Classification

namespace Stage

def rule : String :=
  String.ofList (List.replicate 50 '-')

def heading (stage : Stage) : List String :=
  [rule, Text.Emphasis.bold.apply stage.note, ""]

/-- Adds the sentences of the stage. -/
def addTo (stage : Stage) (c : Context) : Except Error Context :=
  stage.sentences.foldlM Context.add c

/-- Adds the stage and asks for the symbols: the transcript and the context afterwards. -/
def play (stage : Stage) (symbols : List Sentence) (c : Context) :
    Except Error (List String × Context) := do
  let c ← stage.addTo c
  let (classifications, c) ← c.classifyAll symbols
  return (stage.heading ++ classifications.map (·.line), c)

end Stage

namespace Puzzle

/-- Plays the stages one after the other. -/
def playStages (symbols : List Sentence) :
    List Stage → Context → Except Error (List String × Context)
  | [], c => .ok ([], c)
  | stage :: stages, c => do
    let (lines, c) ← stage.play symbols c
    let (more, c) ← playStages symbols stages c
    return (lines ++ more, c)

def play (puzzle : Puzzle) (c : Context) : Except Error (List String × Context) :=
  playStages puzzle.symbols puzzle.stages c

end Puzzle

end Consequence
