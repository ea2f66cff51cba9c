import MotionRace.Random.Words
import MotionRace.Failure

/-!
# Floats drawn from a closed range

A draw takes one word: its upper 52 bits are a share between zero and one, which is scaled to the
range. The scale is the width of the range, stretched so that the largest share can reach the upper
end and then shrunk, one float at a time, until it does not pass it. A range too wide for a float
cannot be drawn from.
-/

namespace MotionRace.Random

/-- The largest share a word can stand for. -/
def largestShare : Float := Float.ofBits 0x3FEFFFFFFFFFFFFE

/-- The share of a word: a float from zero up to `largestShare`. -/
def share (word : UInt64) : Float :=
  Float.ofBits ((0x3FF0000000000000 : UInt64) ||| (word >>> 12)) - 1

/-- The largest scale, among the floats of at most the given bit pattern, under which the largest
share does not pass `hi`. -/
def shrinkScale (lo hi : Float) : (bits : Nat) → Float
  | 0 => 0
  | bits + 1 =>
    let scale := Float.ofBits (bits + 1).toUInt64
    if hi < scale * largestShare + lo then shrinkScale lo hi bits else scale

/-- Why a range is refused. -/
def rangeOverflow : Panic := ⟨"Uniform::new_inclusive: range overflow"⟩

/-- The stretched width of a range. -/
def stretchedWidth (lo hi : Float) : Float := (hi - lo) / largestShare

/-- A float drawn from `lo` to `hi`, for `lo < hi`, and the stream after it. A range whose stretched
width is not finite is refused before a word is taken. -/
def drawBetween (lo hi : Float) (stream : WordStream) : Except Panic Float × WordStream :=
  let width := stretchedWidth lo hi
  if width.isFinite then
    let scale := shrinkScale lo hi width.toBits.toNat
    let (word, stream) := stream.next
    (.ok (share word * scale + lo), stream)
  else (.error rangeOverflow, stream)

/-- A position for a joint with limits `lo` and `hi`. Where the limits leave no choice the position
is `lo` and the stream is not used. -/
def drawWithin (lo hi : Float) (stream : WordStream) : Except Panic Float × WordStream :=
  if lo < hi then drawBetween lo hi stream else (.ok lo, stream)

/-- One position per pair of limits, in order. A refused range ends the draw; the words taken before
it are gone. -/
def drawAll : List (Float × Float) → WordStream → Except Panic (List Float) × WordStream
  | [], stream => (.ok [], stream)
  | (lo, hi) :: limits, stream =>
    match drawWithin lo hi stream with
    | (.error panic, stream) => (.error panic, stream)
    | (.ok q, stream) =>
      match drawAll limits stream with
      | (.error panic, stream) => (.error panic, stream)
      | (.ok qs, stream) => (.ok (q :: qs), stream)

end MotionRace.Random
