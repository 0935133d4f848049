/-!
# Murmur hash of 128 bits

The third version of the hash for 64-bit words, with seed zero. Two lanes of 64 bits absorb the
bytes in blocks of sixteen, then the rest, then the length, and are mixed at the end.
-/

namespace Latchkey.Hash

/-- The two lanes of the hash. -/
structure Lanes where
  /-- The lane that becomes the low half. -/
  low : UInt64
  /-- The lane that becomes the high half. -/
  high : UInt64
  deriving Repr, DecidableEq

/-- The bits of `x` moved `n` places to the left, those that fall out coming in on the right. -/
def rotateLeft (x n : UInt64) : UInt64 := (x <<< n) ||| (x >>> (64 - n))

/-- The number whose bytes are given, the least significant one first. -/
def littleEndian (bytes : List UInt8) : UInt64 :=
  bytes.foldr (fun b n => (n <<< 8) ||| b.toUInt64) 0

/-- The first multiplier. -/
def multiplierA : UInt64 := 0x87c37b91114253d5

/-- The second multiplier. -/
def multiplierB : UInt64 := 0x4cf5ad432745937f

/-- A word scrambled for the low lane. -/
def scrambleLow (k : UInt64) : UInt64 := rotateLeft (k * multiplierA) 31 * multiplierB

/-- A word scrambled for the high lane. -/
def scrambleHigh (k : UInt64) : UInt64 := rotateLeft (k * multiplierB) 33 * multiplierA

/-- The lanes after one block of sixteen bytes. -/
def Lanes.absorb (l : Lanes) (block : List UInt8) : Lanes :=
  let low := l.low ^^^ scrambleLow (littleEndian (block.take 8))
  let low := (rotateLeft low 27 + l.high) * 5 + 0x52dce729
  let high := l.high ^^^ scrambleHigh (littleEndian (block.drop 8))
  let high := (rotateLeft high 31 + low) * 5 + 0x38495ab5
  ⟨low, high⟩

/-- The lanes after all blocks of sixteen bytes and the shorter rest. -/
def Lanes.absorbAll (l : Lanes) (bytes : List UInt8) : Lanes :=
  if 16 ≤ bytes.length then (l.absorb (bytes.take 16)).absorbAll (bytes.drop 16)
  else
    ⟨l.low ^^^ scrambleLow (littleEndian (bytes.take 8)),
      l.high ^^^ scrambleHigh (littleEndian (bytes.drop 8))⟩
termination_by bytes.length
decreasing_by simp_wf; omega

/-- The final mixing of one lane. -/
def avalanche (k : UInt64) : UInt64 :=
  let k := (k ^^^ (k >>> 33)) * 0xff51afd7ed558ccd
  let k := (k ^^^ (k >>> 33)) * 0xc4ceb9fe1a85ec53
  k ^^^ (k >>> 33)

/-- The lanes of the hash of a byte string. -/
def murmur3 (bytes : List UInt8) : Lanes :=
  let l := Lanes.absorbAll ⟨0, 0⟩ bytes
  let size := UInt64.ofNat bytes.length
  let low := (l.low ^^^ size) + (l.high ^^^ size)
  let high := (l.high ^^^ size) + low
  let low := avalanche low
  let high := avalanche high
  ⟨low + high, high + (low + high)⟩

end Latchkey.Hash
