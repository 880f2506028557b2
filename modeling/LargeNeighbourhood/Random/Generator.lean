/-
# The generator of random words

A permuted congruential generator: 64 bits of state move by an affine map, and each state shows
32 bits, permuted by a shift and a rotation that the state itself chooses.  The increment never
changes, so a generator is one orbit of `advance`; `output` reads the state before it moves.

`advance` and `output` are plain functions of words.  What a generator does over time is a
statement about the first, how evenly its words are spread one about the second.
-/

namespace LargeNeighbourhood

/-- A generator: where it is, and the constant term of its map. -/
structure Generator where
  state : UInt64
  increment : UInt64
  deriving DecidableEq, Repr

namespace Generator

/-! ## 1. Words -/

/-- The factor of the affine map. -/
def multiplier : UInt64 := 6364136223846793005

/-- One move of the state. -/
def advance (increment state : UInt64) : UInt64 := state * multiplier + increment

/-- Rotates a word to the right; the amount counts modulo 32. -/
def rotateRight (word amount : UInt32) : UInt32 :=
  (word >>> amount) ||| (word <<< ((0 - amount) &&& 31))

/-- The word a state shows: the upper bits folded onto the middle ones, rotated by the top five. -/
def output (state : UInt64) : UInt32 :=
  rotateRight (((state >>> 18) ^^^ state) >>> 27).toUInt32 (state >>> 59).toUInt32

/-! ## 2. Generators -/

/-- The generator of a seed.  The increment is made odd; the seed enters the state between two
moves. -/
def ofSeed (seed : UInt64) : Generator :=
  let increment := seed ||| 1
  ⟨advance increment (advance increment 0 + seed), increment⟩

/-- The generator that needs no seed. -/
def standard : Generator := ⟨0x853c49e6748fea9b, 0xda3e39cb94b95bdb⟩

instance : Inhabited Generator := ⟨standard⟩

/-- The next word, and the generator after it. -/
def next (g : Generator) : UInt32 × Generator :=
  (output g.state, { g with state := advance g.increment g.state })

/-- A second generator, seeded with the next word of this one. -/
def split (g : Generator) : Generator × Generator :=
  let (word, rest) := g.next
  (ofSeed word.toUInt64, rest)

@[simp] theorem next_increment (g : Generator) : g.next.2.increment = g.increment :=
  match g with
  | ⟨_, i⟩ => (rfl : i = i)

@[simp] theorem split_increment (g : Generator) : g.split.2.increment = g.increment := by
  unfold split
  exact next_increment g

end Generator

end LargeNeighbourhood
