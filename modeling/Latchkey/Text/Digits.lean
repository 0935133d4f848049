/-!
# Digits

The digits of numbers in any radix up to thirty-six, small and capital.
-/

namespace Latchkey.Text

/-- The value of a digit in a radix. -/
def digit? (radix : Nat) (c : Char) : Option Nat :=
  let v :=
    if c.isDigit then some (c.toNat - '0'.toNat)
    else if 'a' ≤ c ∧ c ≤ 'z' then some (c.toNat - 'a'.toNat + 10)
    else if 'A' ≤ c ∧ c ≤ 'Z' then some (c.toNat - 'A'.toNat + 10)
    else none
  v.filter (· < radix)

/-- The value of digits in a radix. -/
def digitsValue (radix : Nat) (ds : List Nat) : Nat := ds.foldl (fun n d => n * radix + d) 0

/-- Reads the digits in front. -/
def takeDigits (radix : Nat) : List Char → List Nat × List Char
  | [] => ([], [])
  | c :: rest =>
    match digit? radix c with
    | some d =>
      let r := takeDigits radix rest
      (d :: r.1, r.2)
    | none => ([], c :: rest)

/-- The number that characters stand for, if they are digits of a radix and at least one. -/
def number? (radix : Nat) (cs : List Char) : Option Nat :=
  match takeDigits radix cs with
  | ([], _) => none
  | (ds, []) => some (digitsValue radix ds)
  | _ => none

/-- The character whose number is given by hexadecimal digits. -/
def numbered? (digits : List Char) : Option Char :=
  match number? 16 digits with
  | some n => if n.isValidChar then some (Char.ofNat n) else none
  | none => none

end Latchkey.Text
