/-!
# Streams of random words

A stream of 64-bit words with four words of state: a sum and a rotation of two of them is the
output, shifts and exclusive ors move the state on. A seed is spread over the state by a second,
simpler generator, so that any two seeds, also neighbouring ones, give unrelated streams.
-/

namespace MotionRace.Random

/-- A 64-bit word turned left by `k` places, `0 < k < 64`. -/
def rotateLeft (x k : UInt64) : UInt64 := (x <<< k) ||| (x >>> (64 - k))

/-- The state of a stream. -/
structure WordStream where
  s0 : UInt64
  s1 : UInt64
  s2 : UInt64
  s3 : UInt64
  deriving Repr, BEq, DecidableEq, Inhabited

namespace WordStream

/-- The next word of a stream, and the stream after it. -/
def next (s : WordStream) : UInt64 × WordStream :=
  let word := rotateLeft (s.s0 + s.s3) 23 + s.s0
  let t := s.s1 <<< 17
  let s2 := s.s2 ^^^ s.s0
  let s3 := s.s3 ^^^ s.s1
  let s1 := s.s1 ^^^ s2
  let s0 := s.s0 ^^^ s3
  (word, ⟨s0, s1, s2 ^^^ t, rotateLeft s3 45⟩)

/-- The word a counter stands for when a seed is spread. -/
def mix (counter : UInt64) : UInt64 :=
  let z := (counter ^^^ (counter >>> 30)) * 0xBF58476D1CE4E5B9
  let z := (z ^^^ (z >>> 27)) * 0x94D049BB133111EB
  z ^^^ (z >>> 31)

/-- How far the counter moves from word to word when a seed is spread. -/
def stride : UInt64 := 0x9E3779B97F4A7C15

/-- The stream of a seed. -/
def ofSeed (seed : UInt64) : WordStream :=
  ⟨mix (seed + stride), mix (seed + stride + stride), mix (seed + stride + stride + stride),
    mix (seed + stride + stride + stride + stride)⟩

end WordStream

end MotionRace.Random
