import Consequence.Config
import Consequence.NameSet
import Consequence.Random.Shuffle

/-!
# The order of splits

An examination splits on one symbol after the other. The order comes from the set of names and
the configuration only: sorted as the set is, or shuffled by a generator that starts from the
seed. Equal sets are split on in the same order, whichever sentences the names came from.
-/

namespace Consequence

def splitOrder (names : NameSet) (config : Config) : List String :=
  match config.symbolOrder.value with
  | .lexicographic => names.toList
  | .shuffled => Random.shuffle names.toList (.ofSeed config.seed.value)

end Consequence
