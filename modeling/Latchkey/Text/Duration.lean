/-!
# The text of a duration

A duration is a count of nanoseconds. It is shown in the largest of the units second, millisecond,
microsecond and nanosecond that fits into it, with the rest as a fraction whose trailing zeros are
left out: `300ms`, `1.5s`, `1.000001ms`, `999ns`.
-/

namespace Latchkey.Text

/-- The decimal digits of `n`, filled up with zeros on the left to at least `width` characters. -/
def paddedDigits (width n : Nat) : List Char :=
  let digits := Nat.toDigits 10 n
  List.replicate (width - digits.length) '0' ++ digits

/-- A list without the zeros at its end. -/
def dropTrailingZeros (digits : List Char) : List Char :=
  (digits.reverse.dropWhile (· == '0')).reverse

/-- The number `n / 10 ^ places` in positional notation, without trailing zeros. -/
def fixedPoint (n places : Nat) : String :=
  let fraction := dropTrailingZeros (paddedDigits places (n % Nat.pow 10 places))
  let whole := Nat.repr (n / Nat.pow 10 places)
  if places = 0 ∨ fraction.isEmpty then whole else whole ++ "." ++ String.ofList fraction

/-- The text of a duration of `nanos` nanoseconds. -/
def duration (nanos : Nat) : String :=
  if 1000000000 ≤ nanos then fixedPoint nanos 9 ++ "s"
  else if 1000000 ≤ nanos then fixedPoint nanos 6 ++ "ms"
  else if 1000 ≤ nanos then fixedPoint nanos 3 ++ "µs"
  else fixedPoint nanos 0 ++ "ns"

end Latchkey.Text
