import Latchkey.Error

/-!
# Sizing a filter

From the number of elements expected and the rate of false positives allowed follow the number of
bits, `⌈-n · ln p / (ln 2)²⌉`, and the number of hashes per element, `round (m / n · ln 2)`.
-/

namespace Latchkey

/-- The natural logarithm of two. -/
def ln2 : Float := 0.693147180559945309417232121458

/-- The number of bits for `expected` elements at the false-positive rate `rate`. -/
def bitArraySize (expected : Nat) (rate : Float) : Except Failure Nat :=
  if rate.isNaN || rate <= 0.0 || rate > 1.0 then .error (.configuration (.errorRate rate))
  else
    let bits := (-(Float.ofNat expected) * rate.log / (ln2 * ln2)).ceil
    if bits <= 0.0 then .error (.configuration (.noBits expected rate))
    else if bits > Float.ofNat maxBitArraySize then .error (.configuration (.tooManyBits bits))
    else .ok bits.toUInt64.toNat

/-- The number of hashes per element for `expected` elements in `bits` bits, at least one. -/
def hashIterations (expected bits : Nat) : Nat :=
  if expected = 0 then 1
  else max 1 (Float.ofNat bits / Float.ofNat expected * ln2).round.toUInt32.toNat

end Latchkey
