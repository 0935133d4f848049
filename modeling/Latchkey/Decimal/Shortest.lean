/-!
# Shortest decimals of binary fractions

A finite double is `significand · 2 ^ exponent`. The reals that round to it form an interval around
it, whose ends belong to it exactly when the significand is even. Its shortest decimal is the one
with the fewest digits inside that interval, and among those the nearest to the double.

For each number of digits only the two neighbours of the value on that decimal grid are tested: if
any point of the grid lies in the interval, one of these two does. All comparisons are exact, on
natural numbers.
-/

namespace Latchkey.Decimal

/-- A positive binary fraction `significand · 2 ^ exponent`. -/
structure Binary where
  /-- The integer significand. -/
  significand : Nat
  /-- The power of two it is scaled by. -/
  exponent : Int
  /-- The next smaller double is only half as far away as the next larger one. -/
  narrowBelow : Bool
  deriving Repr, DecidableEq

/-- A positive decimal `0.d₁d₂… · 10 ^ (leading + 1)`, so that `leading` is the power of ten of its
first digit. -/
structure Digits where
  /-- The digits, without trailing zeros. -/
  digits : List Char
  /-- The power of ten of the first digit. -/
  leading : Int
  deriving Repr, DecidableEq

/-- Which of two equally near decimals is taken. -/
inductive Tie where
  /-- The larger one. -/
  | up
  /-- The one whose last digit is even. -/
  | toEven
  deriving Repr, DecidableEq

/-- The magnitude of a finite non-zero double, from its bits. -/
def Binary.ofBits (bits : UInt64) : Binary :=
  let fraction := (bits &&& 0xFFFFFFFFFFFFF).toNat
  let field := ((bits >>> 52) &&& 0x7FF).toNat
  if field = 0 then ⟨fraction, -1074, false⟩
  else ⟨Nat.pow 2 52 + fraction, (field : Int) - 1075, fraction == 0 && decide (1 < field)⟩

/-- A positive fraction of natural numbers. -/
structure Ratio where
  /-- The numerator. -/
  num : Nat
  /-- The denominator. -/
  den : Nat

/-- The fraction `n · 2 ^ e`. -/
def Ratio.scaled2 (n : Nat) (e : Int) : Ratio :=
  ⟨n * Nat.pow 2 e.toNat, Nat.pow 2 (-e).toNat⟩

/-- The power of ten of the first digit of a positive fraction. -/
def Ratio.leading (r : Ratio) : Int :=
  if r.den ≤ r.num then ((Nat.toDigits 10 (r.num / r.den)).length : Int) - 1
  else
    let k := (Nat.toDigits 10 (r.den / r.num)).length
    if r.den ≤ r.num * Nat.pow 10 (k - 1) then -((k : Int) - 1) else -(k : Int)

/-- The decimal with `count` digits that stands for `b`, if one lies in the interval of `b`. -/
def Binary.withDigits? (b : Binary) (tie : Tie) (leading : Int) (count : Nat) : Option Nat :=
  -- a quarter of the last binary place is the unit, so that all ends of the interval are whole
  let step := leading - ((count : Int) - 1)
  let scale (n : Nat) : Nat :=
    n * Nat.pow 2 (b.exponent - 2).toNat * Nat.pow 10 (-step).toNat
  let unit := Nat.pow 2 (2 - b.exponent).toNat * Nat.pow 10 step.toNat
  let value := scale (4 * b.significand)
  let low := scale (4 * b.significand - (if b.narrowBelow then 1 else 2))
  let high := scale (4 * b.significand + 2)
  let inside (c : Nat) : Bool :=
    if b.significand % 2 = 0 then decide (low ≤ c * unit ∧ c * unit ≤ high)
    else decide (low < c * unit ∧ c * unit < high)
  let below := value / unit
  let above := below + 1
  match inside below, inside above with
  | false, false => none
  | true, false => some below
  | false, true => some above
  | true, true =>
    let down := value - below * unit
    let up := above * unit - value
    if down < up then some below
    else if up < down then some above
    else match tie with
      | .up => some above
      | .toEven => if below % 2 = 0 then some below else some above

/-- The shortest decimal of a positive binary fraction. -/
def Binary.shortest (b : Binary) (tie : Tie) : Digits :=
  let leading := (Ratio.scaled2 b.significand b.exponent).leading
  match (List.range 18).findSome? fun n =>
      (b.withDigits? tie leading (n + 1)).map fun c => (n + 1, c) with
  | none => ⟨['0'], 0⟩
  | some (count, c) =>
    let digits := Nat.toDigits 10 c
    let kept := (digits.reverse.dropWhile (· == '0')).reverse
    -- rounding up `99…9` gives one digit more
    ⟨kept, leading + ((digits.length : Int) - count)⟩

end Latchkey.Decimal
