import Consequence.Sentence.Basic

/-!
# Puzzles

A puzzle comes in stages. Each stage brings sentences that hold from then on, with a note on
where they came from, and after each the question is what is known of the symbols of the puzzle.
-/

namespace Consequence

structure Stage where
  note : String
  sentences : List Sentence

structure Puzzle where
  /-- What is asked about after each stage, in the order of the answers. -/
  symbols : List Sentence
  stages : List Stage

/-- The sentence that is the symbol of the given name. -/
def named (name : String) (isName : IsName name.toList := by decide) : Sentence :=
  .symbol ⟨name, isName⟩

end Consequence
