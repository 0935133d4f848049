import Latchkey.Json.Value

/-!
# Settings

What a value of a configuration can be taken for. A text that stands for a truth value or a number
may be given in its place, a truth value counts as one or zero, and a number is true unless it is
zero; a double is rounded to the nearest whole number, a half away from zero, and kept within the
range. What cannot be taken for the kind that is wanted gives nothing.
-/

namespace Latchkey.Config

/-- Whether a whole number fits into 64 bits with a sign. -/
def fits (n : Int) : Bool := -9223372036854775808 ≤ n && n ≤ 9223372036854775807

/-- The truth value that a word stands for. -/
def wordTruth? (word : String) : Option Bool :=
  if ["true", "on", "yes"].contains word then some true
  else if ["false", "off", "no"].contains word then some false
  else none

/-- A text in small letters. -/
def lower (s : String) : String := String.ofList (s.toList.map Char.toLower)

/-- The truth value a setting can be taken for. -/
def truth? : Json → Option Bool
  | .bool b => some b
  | .int n => some (n != 0)
  | .float x => some (x != 0.0)
  | .str s =>
    match lower s with
    | "1" => some true
    | "0" => some false
    | word => wordTruth? word
  | _ => none

/-- The whole number a setting can be taken for. -/
def whole? : Json → Option Int
  | .bool b => some (if b then 1 else 0)
  | .int n => if fits n then some n else none
  | .float x => some x.round.toInt64.toInt
  | .str s =>
    match wordTruth? (lower s) with
    | some b => some (if b then 1 else 0)
    | none => (Decimal.signedInteger? s.toList).filter fits
  | _ => none

/-- The natural number a setting can be taken for. -/
def natural? (j : Json) : Option Nat :=
  match whole? j with
  | some (.ofNat n) => some n
  | _ => none

/-- The double a setting can be taken for. -/
def double? : Json → Option Float
  | .bool b => some (if b then 1.0 else 0.0)
  | .int n => some (Float.ofInt n)
  | .float x => some x
  | .str s =>
    match wordTruth? (lower s) with
    | some b => some (if b then 1.0 else 0.0)
    | none => Decimal.read? s
  | _ => none

/-- The text a setting can be taken for. -/
def text? : Json → Option String
  | .bool b => some (if b then "true" else "false")
  | .int n => some (toString n)
  | .float x => some (Decimal.text x .plain)
  | .str s => some s
  | _ => none

/-- The setting that the text of an environment variable stands for. -/
def ofVariable (value : String) : Json :=
  match lower value with
  | "true" => .bool true
  | "false" => .bool false
  | _ =>
    match (Decimal.signedInteger? value.toList).filter fits with
    | some n => .int n
    | none =>
      match Decimal.read? value with
      | some x => .float x
      | none => .str value

end Latchkey.Config
