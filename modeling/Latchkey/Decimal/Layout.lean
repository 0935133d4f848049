import Latchkey.Decimal.Shortest

/-!
# Writing and reading decimals

The digits of a double are written positionally while the power of ten of the first digit lies in a
range that depends on the place of output, and with an exponent outside of it. `Layout` holds these
decisions; the three layouts in use are `plain`, `exact` and `record`.
-/

namespace Latchkey.Decimal

/-- How the digits of a double are laid out. -/
structure Layout where
  /-- The least leading power of ten that is written positionally; none means all are. -/
  lowest : Option Int
  /-- The greatest leading power of ten that is written positionally; none means all are. -/
  highest : Option Int
  /-- A whole number ends in `.0`. -/
  keepsPoint : Bool
  /-- Which of two equally near decimals is written. -/
  tie : Tie
  deriving Repr, DecidableEq

/-- Messages write every double positionally, and whole numbers without a point. -/
def Layout.plain : Layout := ⟨none, none, false, .up⟩

/-- Parsed arguments show a double exactly: a point or an exponent marks it as one. -/
def Layout.exact : Layout := ⟨some (-4), some 15, true, .up⟩

/-- Serialised records hold doubles as numbers with a point or an exponent. -/
def Layout.record : Layout := ⟨some (-5), some 15, true, .toEven⟩

/-- Whether a leading power of ten is written positionally. -/
def Layout.positional (l : Layout) (leading : Int) : Bool :=
  l.lowest.all (fun low => decide (low ≤ leading)) &&
    l.highest.all (fun high => decide (leading ≤ high))

/-- The text of a positive decimal. -/
def Digits.text (d : Digits) (l : Layout) : String :=
  if l.positional d.leading then
    let point : String := if l.keepsPoint then ".0" else ""
    if d.leading < 0 then
      "0." ++ String.ofList (List.replicate (-d.leading - 1).toNat '0' ++ d.digits)
    else
      let whole := d.leading.toNat + 1
      if d.digits.length ≤ whole then
        String.ofList (d.digits ++ List.replicate (whole - d.digits.length) '0') ++ point
      else
        String.ofList (d.digits.take whole) ++ "." ++ String.ofList (d.digits.drop whole)
  else
    let mantissa := match d.digits with
      | [] => "0"
      | [c] => c.toString
      | c :: rest => c.toString ++ "." ++ String.ofList rest
    mantissa ++ "e" ++ toString d.leading

/-- The text of a double. -/
def text (x : Float) (l : Layout) : String :=
  if x.isNaN then "NaN"
  else
    let bits := x.toBits
    let sign := if bits >>> 63 = 1 then "-" else ""
    if x.isInf then sign ++ "inf"
    else if bits <<< 1 = 0 then sign ++ "0" ++ (if l.keepsPoint then ".0" else "")
    else sign ++ ((Binary.ofBits bits).shortest l.tie).text l

/-! ## Reading -/

/-- The value of a list of decimal digits. -/
def digitsValue (cs : List Char) : Nat :=
  cs.foldl (fun n c => 10 * n + (c.toNat - '0'.toNat)) 0

/-- The double nearest to `mantissa · 10 ^ exponent`; powers out of every range are cut short. -/
def nearest (mantissa : Nat) (exponent : Int) : Float :=
  if mantissa = 0 then 0.0
  else
    let size := ((Nat.toDigits 10 mantissa).length : Int) + exponent
    if 400 < size then 1.0 / 0.0
    else if size < -400 then 0.0
    else if exponent < 0 then Float.ofScientific mantissa true (-exponent).toNat
    else Float.ofScientific mantissa false exponent.toNat

/-- The natural number written by an optional plus and at least one digit. -/
def natural? (cs : List Char) : Option Nat :=
  let ds := match cs with
    | '+' :: r => r
    | r => r
  if !ds.isEmpty && ds.all Char.isDigit then some (digitsValue ds) else none

/-- The integer written by an optional sign and at least one digit. -/
def signedInteger? (cs : List Char) : Option Int :=
  let (negative, ds) := match cs with
    | '-' :: r => (true, r)
    | '+' :: r => (false, r)
    | r => (false, r)
  if !ds.isEmpty && ds.all Char.isDigit then
    some (if negative then -(digitsValue ds : Int) else digitsValue ds)
  else none

/-- The double written by digits with at most one point and an optional exponent. -/
def unsigned? (cs : List Char) : Option Float :=
  let whole := cs.takeWhile Char.isDigit
  let rest := cs.dropWhile Char.isDigit
  let (fraction, rest) := match rest with
    | '.' :: r => (r.takeWhile Char.isDigit, r.dropWhile Char.isDigit)
    | r => ([], r)
  let exponent? : Option Int := match rest with
    | [] => some 0
    | c :: r => if c = 'e' ∨ c = 'E' then signedInteger? r else none
  if whole.isEmpty && fraction.isEmpty then none
  else exponent?.map fun e => nearest (digitsValue (whole ++ fraction)) (e - fraction.length)

/-- The double a text stands for: digits with an optional sign, point and exponent, or one of the
words `nan`, `inf` and `infinity` in any case. -/
def read? (s : String) : Option Float :=
  let (negative, cs) := match s.toList with
    | '-' :: r => (true, r)
    | '+' :: r => (false, r)
    | r => (false, r)
  let word := String.ofList (cs.map Char.toLower)
  let value? : Option Float :=
    if word = "nan" then some (0.0 / 0.0)
    else if word = "inf" ∨ word = "infinity" then some (1.0 / 0.0)
    else unsigned? cs
  value?.map fun x => if negative then -x else x

end Latchkey.Decimal
