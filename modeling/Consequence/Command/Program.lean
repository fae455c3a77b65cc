import Consequence.Command.Arguments
import Consequence.Puzzle.Play

/-!
# The program

A run of the program reads the arguments, plays the puzzle in a new context and reports what it
took, if asked to. Its outcome is a value: the exit code, the lines printed, and the tally that
is still to be printed with the time taken, which only the one who runs it can know.

The exit code is 2 for a command line that is refused, with nothing printed, and 1 for a setting
out of bounds, with the reason.
-/

namespace Consequence.Command

structure Outcome where
  exitCode : UInt32 := 0
  body : List String := []
  /-- What the queries took, if the statistics were asked for. -/
  tally? : Option Tally := none

/-- The lines of the statistics. -/
def statistics (tally : Tally) (elapsed : String) : List String :=
  ["c Queries:    " ++ Nat.repr tally.queries,
    "c Valuations: " ++ Nat.repr tally.leaves,
    "c Time:       " ++ elapsed]

/-- All the lines of an outcome that took the time given. -/
def Outcome.lines (outcome : Outcome) (elapsed : String) : List String :=
  outcome.body ++
    match outcome.tally? with
    | some tally => statistics tally elapsed
    | none => []

/-- Plays the puzzle of the arguments with the configuration given. -/
def play (arguments : Arguments) (config : Config) : Outcome :=
  match arguments.puzzle.puzzle.play { config := config } with
  | .ok (lines, c) =>
    { body := lines, tally? := if arguments.options.stats then some c.tally else none }
  | .error e => { exitCode := 2, body := ["c Error: " ++ e.message] }

def run (arguments : List String) : Outcome :=
  match Arguments.read? arguments with
  | none => { exitCode := 2 }
  | some arguments =>
    match arguments.options.config with
    | .error e => { exitCode := 1, body := ["c " ++ e.message] }
    | .ok config => play arguments config

end Consequence.Command
