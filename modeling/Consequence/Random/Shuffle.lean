import Consequence.Random.Pcg

/-!
# Shuffling

A list is shuffled by as many swaps as it has members: at position `k` the member there changes
places with the one at an index drawn among the `k + 1` positions up to it. Which indices are
drawn depends on the generator alone, and not on what the list holds.

Drawing each index by itself would waste most of a 32 bit word. So one draw below a product
`m * (m + 1) * ...` that still fits in a word, a chunk, serves for several positions in turn: the
remainder by the first factor is the first index, and the quotient, below the product of the
other factors, serves for the rest.
-/

namespace Consequence.Random

/-- A number below `bound`: the word drawn, scaled down. Where the part that scaling cuts off
could reach the next number, a second word decides whether it does. -/
def below (bound : Nat) (g : Pcg) : Nat × Pcg :=
  let (word, g) := g.next32
  let high := word.toNat * bound / UInt32.size
  let low := word.toNat * bound % UInt32.size
  if UInt32.size - bound < low then
    let (word, g) := g.next32
    if UInt32.size ≤ low + word.toNat * bound / UInt32.size then (high + 1, g) else (high, g)
  else
    (high, g)

/-- Takes factors into the bound of a chunk, from `factor` on, as long as the product fits in a
word. The result is the product and the first factor left out. -/
def widen (bound factor : Nat) : Nat × Nat :=
  if 0 < bound ∧ 1 < factor ∧ bound * factor < UInt32.size then
    widen (bound * factor) (factor + 1)
  else
    (bound, factor)
termination_by UInt32.size - bound
decreasing_by
  next h =>
    have : bound * 2 ≤ bound * factor := Nat.mul_le_mul_left bound h.2.1
    omega

/-- Indices still to come out of a chunk, and the generator for the next chunk. -/
structure Draw where
  generator : Pcg
  chunk : Nat
  remaining : Nat

namespace Draw

/-- Before the first position, which has one index to choose from: a chunk of one index, zero. -/
def start (g : Pcg) : Draw := ⟨g, 0, 1⟩

/-- Draws the chunk for positions with `choices`, `choices + 1`, and so on to choose from. -/
def refill (choices : Nat) (d : Draw) : Draw :=
  let (bound, factor) := widen choices (choices + 1)
  let (chunk, g) := below bound d.generator
  ⟨g, chunk, factor - choices⟩

/-- The index for a position with the given number of choices. The last index of a chunk is what
is left of it. -/
def index (choices : Nat) (d : Draw) : Nat × Draw :=
  let d := if d.remaining = 0 then d.refill choices else d
  if d.remaining = 1 then
    (d.chunk, { d with remaining := 0 })
  else
    (d.chunk % choices, { d with chunk := d.chunk / choices, remaining := d.remaining - 1 })

/-- The indices for `count` positions, of which the first has the given number of choices. -/
def indices : (count choices : Nat) → Draw → List Nat
  | 0, _, _ => []
  | count + 1, choices, d =>
    let (index, d) := d.index choices
    index :: indices count (choices + 1) d

end Draw

/-- Swaps the member at each position, from `position` on, with the one at the index given. -/
def swapAll {α : Type} : (position : Nat) → List Nat → Array α → Array α
  | _, [], items => items
  | position, index :: indices, items =>
    swapAll (position + 1) indices (items.swapIfInBounds position index)

def shuffle {α : Type} (items : List α) (g : Pcg) : List α :=
  (swapAll 0 ((Draw.start g).indices items.length 1) items.toArray).toList

end Consequence.Random
