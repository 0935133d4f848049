import Latchkey.Hash.Murmur3
import Latchkey.Slot

/-!
# The bits of an element

An element of a filter is hashed several times, each time with the number of the round written
behind it. The low half of the hash, read as a signed number, is reduced to an offset into the bit
array.
-/

namespace Latchkey

/-- The signed number with the given 64 bits. -/
def signed64 (n : Nat) : Int := (UInt64.ofNat n).toInt64.toInt

/-- The signed hash of an element in one round. -/
def elementHash (element : String) (round : Nat) : Int :=
  (Hash.murmur3 (textBytes (element ++ Nat.repr round))).low.toInt64.toInt

/-- The offset of an element in one round, in an array of `size` bits. -/
def bitOffset (element : String) (round size : Nat) : Nat :=
  ((elementHash element round).tmod (signed64 size)).natAbs

/-- The offsets of an element, one for each of `rounds` rounds. -/
def bitOffsets (element : String) (rounds size : Nat) : List Nat :=
  (List.range rounds).map fun i => bitOffset element (i + 1) size

/-- The offsets of an element, if the array has any bits for them. -/
def bitOffsets? (element : String) (rounds size : Nat) : Option (List Nat) :=
  if signed64 size = 0 ∧ 0 < rounds then none else some (bitOffsets element rounds size)

end Latchkey
