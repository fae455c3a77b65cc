import Consequence.Command.Program

/-!
# The command line

Runs the program on the arguments it was started with: prints the lines of the outcome and exits
with its code. A refused command line is answered on standard error.
-/

open Consequence.Command

def main (arguments : List String) : IO UInt32 := do
  let start ← IO.monoMsNow
  let outcome := run arguments
  for line in outcome.body do
    IO.println line
  let elapsed := (← IO.monoMsNow) - start
  for line in (outcome.lines (Nat.repr elapsed ++ "ms")).drop outcome.body.length do
    IO.println line
  if outcome.exitCode == 2 && outcome.body.isEmpty then
    IO.eprintln "usage: (clue | houses) [-p] [-s] [--parallel-depth N] [--shuffle N]"
  return outcome.exitCode
