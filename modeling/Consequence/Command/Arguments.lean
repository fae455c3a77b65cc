import Consequence.Config
import Consequence.Puzzle.Clue
import Consequence.Puzzle.Houses
import Consequence.Text.Numeral

/-!
# Arguments

The command line names one puzzle and may hold four options, in any order and on either side of
the puzzle. Two options are flags, with a letter each, and letters may share a dash, as in `-ps`.
The other two take a numeral, in the next argument or in the same one after an equals sign. The
next argument is the value whatever it is, even the name of a puzzle, but one that starts with a
dash is refused. An option may be given once on each side of the puzzle; where both sides give a
value, the one after the puzzle counts. What is none of this is refused. A last argument `--`
says that no more options follow, and changes nothing.

Reading is in two steps: the arguments become tokens, one for each thing given, and the tokens
are collected, those before the puzzle apart from those after it. On its side, where a token
stands does not matter, and the side itself matters only to a value that both sides give. The
numbers are checked against the bounds of the settings only after that, so a command line that
cannot be read is refused before a depth that is out of bounds, and a depth that does not count
is not checked at all.
-/

namespace Consequence

/-- The names of the puzzles that can be played. -/
inductive Puzzle.Name where
  | clue
  | houses
deriving DecidableEq

namespace Puzzle.Name

def text : Puzzle.Name → String
  | clue => "clue"
  | houses => "houses"

def ofText? (text : String) : Option Puzzle.Name :=
  [clue, houses].find? (·.text = text)

def puzzle : Puzzle.Name → Puzzle
  | clue => Puzzle.clue
  | houses => Puzzle.houses

end Puzzle.Name

namespace Command

/-! ## Tokens -/

/-- One thing given on the command line. -/
inductive Token where
  | puzzle (name : Puzzle.Name)
  | parallel
  | stats
  | depth (value : Nat)
  | shuffle (seed : UInt64)
deriving DecidableEq

namespace Token

/-- A flag, by its letter. -/
def ofLetter? : Char → Option Token
  | 'p' => some .parallel
  | 's' => some .stats
  | _ => none

/-- A flag, by its long name. -/
def ofFlag? : String → Option Token
  | "parallel" => some .parallel
  | "stats" => some .stats
  | _ => none

/-- Whether this is the long name of an option that takes a value. -/
def takesValue (name : String) : Bool :=
  name == "parallel-depth" || name == "shuffle"

/-- An option that takes a value, by its long name and the value. -/
def ofValue? (name : String) (value : List Char) : Option Token :=
  match name with
  | "parallel-depth" => (Text.readNumeral value).map .depth
  | "shuffle" => (Text.readNumeral value).map fun seed => .shuffle (UInt64.ofNat seed)
  | _ => none

/-- What stands after the two dashes of a long option, with its value if it brings one. -/
def ofLong? (body : List Char) : Option Token :=
  let name := String.ofList (body.takeWhile (· ≠ '='))
  match body.dropWhile (· ≠ '=') with
  | [] => ofFlag? name
  | _ :: value => ofValue? name value

/-- The tokens of an argument that needs no other. -/
def ofArgument? (argument : String) : Option (List Token) :=
  match argument.toList with
  | '-' :: '-' :: body => (ofLong? body).map ([·])
  | '-' :: letter :: letters => (letter :: letters).mapM ofLetter?
  | _ => (Puzzle.Name.ofText? argument).map fun name => [.puzzle name]

/-- The long name of the option whose value is the next argument, if this is such an option. -/
def awaitsValue? (argument : String) : Option String :=
  match argument.toList with
  | '-' :: '-' :: body =>
    if takesValue (String.ofList body) then some (String.ofList body) else none
  | _ => none

/-- The tokens of a command line. -/
def ofArguments? : List String → Option (List Token)
  | [] => some []
  | ["--"] => some []
  | argument :: rest =>
    match awaitsValue? argument, rest with
    | some name, value :: rest => do
      if value.toList.head? = some '-' then none else
        let token ← ofValue? name value.toList
        let tokens ← ofArguments? rest
        return token :: tokens
    | _, rest => do
      let these ← ofArgument? argument
      let tokens ← ofArguments? rest
      return these ++ tokens

/-! ## What a token gives -/

def puzzle? : Token → Option Puzzle.Name
  | puzzle name => some name
  | _ => none

def depth? : Token → Option Nat
  | depth value => some value
  | _ => none

def seed? : Token → Option UInt64
  | shuffle seed => some seed
  | _ => none

end Token

/-! ## Options -/

/-- The only member of a list that has at most one. -/
def atMostOne {α : Type} : List α → Option (Option α)
  | [] => some none
  | [a] => some (some a)
  | _ => none

structure Options where
  parallel : Bool := false
  stats : Bool := false
  depth? : Option Nat := none
  seed? : Option UInt64 := none
deriving DecidableEq

namespace Options

/-- The options among some tokens, each of them given at most once. -/
def ofTokens? (tokens : List Token) : Option Options := do
  let parallel? ← atMostOne (tokens.filter (· = .parallel))
  let stats? ← atMostOne (tokens.filter (· = .stats))
  let depth? ← atMostOne (tokens.filterMap Token.depth?)
  let seed? ← atMostOne (tokens.filterMap Token.seed?)
  return ⟨parallel?.isSome, stats?.isSome, depth?, seed?⟩

/-- What is given by the first options or by the second, whose values count before those of the
first. -/
def followedBy (first second : Options) : Options where
  parallel := first.parallel || second.parallel
  stats := first.stats || second.stats
  depth? := second.depth? <|> first.depth?
  seed? := second.seed? <|> first.seed?

/-- The default configuration with the settings that were given. -/
def config (o : Options) : Except Error Config := do
  let config : Config := {}
  let config ← if o.parallel then config.set .parallel true else .ok config
  let config ←
    match o.depth? with
    | some depth => config.set .parallelDepth depth
    | none => .ok config
  match o.seed? with
  | some seed => do
    let config ← config.set .symbolOrder .shuffled
    config.set .seed seed
  | none => .ok config

end Options

/-! ## Arguments -/

structure Arguments where
  puzzle : Puzzle.Name
  options : Options := {}
deriving DecidableEq

namespace Arguments

/-- Collects the tokens: just one puzzle, with the options before it and those after it. -/
def ofTokens? (tokens : List Token) : Option Arguments := do
  let puzzle? ← atMostOne (tokens.filterMap Token.puzzle?)
  let puzzle ← puzzle?
  let before ← Options.ofTokens? (tokens.takeWhile (·.puzzle?.isNone))
  let after ← Options.ofTokens? (tokens.dropWhile (·.puzzle?.isNone))
  return ⟨puzzle, before.followedBy after⟩

/-- The arguments of a command line, or `none` where it is refused. -/
def read? (arguments : List String) : Option Arguments :=
  Token.ofArguments? arguments >>= ofTokens?

end Arguments

end Command

end Consequence
