/-!
# The generator

A permuted congruential generator: the state is a 64 bit word that a congruential step moves on,
and each number drawn is 32 bits of the state before the step, folded onto themselves and
rotated by its top five bits. The increment does not change; a seed is added to it to give the
first state, so each seed has a state of its own. All arithmetic is modulo the word size.

Longer draws are put together from 32 bit draws, low half first, so every kind of draw reads the
same stream.
-/

namespace Consequence

structure Pcg where
  state : UInt64 := 0
  increment : UInt64 := 0
deriving DecidableEq

namespace Pcg

def multiplier : UInt64 := 6364136223846793005

/-- The increment of every seeded generator. It is odd, as the step asks for. -/
def seededIncrement : UInt64 := 3215534235932367345

def ofSeed (seed : UInt64) : Pcg where
  state := seed + seededIncrement
  increment := seededIncrement

/-- The seed that eight bytes spell, the least significant one first. -/
def seedOfBytes (bytes : List UInt8) : UInt64 :=
  bytes.foldr (fun byte seed => seed <<< 8 ||| byte.toUInt64) 0

def step (g : Pcg) : Pcg :=
  { g with state := g.state * multiplier + g.increment }

/-- The word turned right by `count` places, below 32. -/
def rotateRight (word count : UInt32) : UInt32 :=
  word >>> count ||| word <<< (32 - count)

def output (g : Pcg) : UInt32 :=
  let folded := ((g.state >>> 18 ^^^ g.state) >>> 27).toUInt32
  rotateRight folded (g.state >>> 59).toUInt32

def next32 (g : Pcg) : UInt32 × Pcg :=
  (g.output, g.step)

def next64 (g : Pcg) : UInt64 × Pcg :=
  let (low, g) := g.next32
  let (high, g) := g.next32
  (high.toUInt64 <<< 32 ||| low.toUInt64, g)

/-! ## Bytes -/

/-- The bytes of a word, the least significant one first. -/
def bytesOf32 (word : UInt32) : List UInt8 :=
  [word.toUInt8, (word >>> 8).toUInt8, (word >>> 16).toUInt8, (word >>> 24).toUInt8]

/-- The bytes of a double word, the least significant one first. -/
def bytesOf64 (word : UInt64) : List UInt8 :=
  [word.toUInt8, (word >>> 8).toUInt8, (word >>> 16).toUInt8, (word >>> 24).toUInt8,
    (word >>> 32).toUInt8, (word >>> 40).toUInt8, (word >>> 48).toUInt8, (word >>> 56).toUInt8]

/-- As many bytes as asked for, eight from each double word. For what is left, a double word is
drawn if a word does not cover it; the bytes beyond are lost. -/
def bytes : Nat → Pcg → List UInt8 × Pcg
  | count + 8, g =>
    let (word, g) := g.next64
    let (rest, g) := bytes count g
    (bytesOf64 word ++ rest, g)
  | 0, g => ([], g)
  | count, g =>
    if 4 < count then
      let (word, g) := g.next64
      ((bytesOf64 word).take count, g)
    else
      let (word, g) := g.next32
      ((bytesOf32 word).take count, g)

end Pcg

end Consequence
