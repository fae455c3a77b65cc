import Consequence.Error

/-!
# Configuration

A setting is a value between two bounds. Setting it to a value outside the bounds is an error
and leaves it as it was. The bounds can be moved too; that does not touch the value, so a
setting may come to hold a value that it would not accept any more.

A configuration has four settings, and none of them has a say in what follows from what. They
fix how valuations are examined: whether the first splits are forked and how many of them, and
in which order symbols are split on, with the seed of that order if it is shuffled.
-/

namespace Consequence

/-- The order in which an examination splits on symbols. -/
inductive SymbolOrder where
  /-- By code point. -/
  | lexicographic
  /-- In an order that the seed fixes. -/
  | shuffled
deriving DecidableEq

/-- What the value of a setting must offer: a rank, by which it is compared with the bounds, and
a text, by which a bound is named in an error. -/
class SettingValue (α : Type) where
  rank : α → Nat
  text : α → String

instance : SettingValue Bool where
  rank := Bool.toNat
  text
    | false => "false"
    | true => "true"

instance : SettingValue Nat where
  rank := id
  text := Nat.repr

instance : SettingValue UInt64 where
  rank := UInt64.toNat
  text n := Nat.repr n.toNat

instance : SettingValue SymbolOrder where
  rank
    | .lexicographic => 0
    | .shuffled => 1
  text
    | .lexicographic => "Lexicographic"
    | .shuffled => "Shuffled"

/-! ## One setting -/

structure Setting (α : Type) where
  name : String
  least : α
  greatest : α
  value : α

namespace Setting

variable {α : Type}

def set [SettingValue α] (s : Setting α) (value : α) : Except Error (Setting α) :=
  if SettingValue.rank s.least ≤ SettingValue.rank value
      ∧ SettingValue.rank value ≤ SettingValue.rank s.greatest then
    .ok { s with value := value }
  else
    .error (.outOfBounds s.name (SettingValue.text s.least) (SettingValue.text s.greatest))

def limit (s : Setting α) (least greatest : α) : Setting α :=
  { s with least := least, greatest := greatest }

end Setting

/-! ## The four settings -/

/-- A configuration; by default sequential, and in the order of the names. -/
structure Config where
  parallel : Setting Bool := ⟨"parallel", false, true, false⟩
  parallelDepth : Setting Nat := ⟨"parallel_depth", 0, 16, 4⟩
  symbolOrder : Setting SymbolOrder :=
    ⟨"symbol_order", .lexicographic, .shuffled, .lexicographic⟩
  seed : Setting UInt64 := ⟨"seed", 0, 18446744073709551615, 0⟩

namespace Config

/-- Names one of the settings. -/
inductive Key where
  | parallel
  | parallelDepth
  | symbolOrder
  | seed
deriving DecidableEq

/-- The type of the values of a setting. -/
abbrev Key.Value : Key → Type
  | .parallel => Bool
  | .parallelDepth => Nat
  | .symbolOrder => SymbolOrder
  | .seed => UInt64

instance : (key : Key) → SettingValue key.Value
  | .parallel => inferInstanceAs (SettingValue Bool)
  | .parallelDepth => inferInstanceAs (SettingValue Nat)
  | .symbolOrder => inferInstanceAs (SettingValue SymbolOrder)
  | .seed => inferInstanceAs (SettingValue UInt64)

def setting (config : Config) : (key : Key) → Setting key.Value
  | .parallel => config.parallel
  | .parallelDepth => config.parallelDepth
  | .symbolOrder => config.symbolOrder
  | .seed => config.seed

def withSetting (config : Config) : (key : Key) → Setting key.Value → Config
  | .parallel, s => { config with parallel := s }
  | .parallelDepth, s => { config with parallelDepth := s }
  | .symbolOrder, s => { config with symbolOrder := s }
  | .seed, s => { config with seed := s }

def set (config : Config) (key : Key) (value : key.Value) : Except Error Config :=
  (config.withSetting key ·) <$> (config.setting key).set value

def limit (config : Config) (key : Key) (least greatest : key.Value) : Config :=
  config.withSetting key ((config.setting key).limit least greatest)

/-- How many splits, from the first, are forked. -/
def forkDepth (config : Config) : Nat :=
  if config.parallel.value then config.parallelDepth.value else 0

end Config

end Consequence
