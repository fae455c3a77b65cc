import Consequence.NameSet
import Consequence.Sentence.Basic

/-!
# The symbols of a sentence

Which names a sentence mentions does not depend on where they stand: both sides of an
implication count, and parts of a junction that evaluation may never reach count too. The names
are gathered into a set that may hold others already, which is how the names of two sentences
come together in one set.
-/

namespace Consequence.Sentence

mutual

/-- Puts the names of a sentence into a set. -/
def extendSymbols : Sentence → NameSet → NameSet
  | .symbol s, names => names.insert s.name
  | .neg p, names => p.extendSymbols names
  | .conj parts, names => extendSymbolsAll parts names
  | .disj parts, names => extendSymbolsAll parts names
  | .imp p q, names => q.extendSymbols (p.extendSymbols names)
  | .iff p q, names => q.extendSymbols (p.extendSymbols names)

def extendSymbolsAll : List Sentence → NameSet → NameSet
  | [], names => names
  | p :: parts, names => extendSymbolsAll parts (p.extendSymbols names)

end

def symbols (p : Sentence) : NameSet :=
  p.extendSymbols ∅

end Consequence.Sentence
