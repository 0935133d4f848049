import Latchkey.Error
import Latchkey.Slot

/-!
# Redis values

A reply of a Redis server, and what it can be read as. A whole number is cut down to the width that
is wanted; a text is read by the digits it holds; a double is rounded toward zero and kept within
the range; a text where a list is wanted is a list of that one text, and a map is a list of maps
with one entry each. Attributes around a number or a text are passed over. All else is of the wrong
type.
-/

namespace Latchkey.Redis

/-- A reply. -/
inductive Value where
  /-- Nothing. -/
  | nil
  /-- A whole number. -/
  | int (n : Int)
  /-- A truth value. -/
  | bool (b : Bool)
  /-- A string of bytes. -/
  | bulk (bytes : List UInt8)
  /-- A status other than `OK`. -/
  | simple (text : String)
  /-- The status `OK`. -/
  | okay
  /-- A double. -/
  | double (x : Float)
  /-- A list. -/
  | list (items : List Value)
  /-- A set. -/
  | set (items : List Value)
  /-- A map. -/
  | map (entries : List (Value × Value))
  /-- A reply with attributes. -/
  | attribute (reply : Value) (attributes : List (Value × Value))
  /-- A text with its format. -/
  | verbatim (format text : String)
  /-- A whole number of any size. -/
  | bigNumber (n : Int)
  /-- A message that was not asked for. -/
  | push (kind : String) (items : List Value)
  deriving Repr, Inhabited

/-- The error of a reply of the wrong type. -/
def wrongType : RedisError :=
  ⟨.typeMismatch, none, "Response was of incompatible type - TypeError"⟩

/-- The text of a string of bytes, if it is one. -/
def utf8? (bytes : List UInt8) : Option String := String.fromUTF8? ⟨bytes.toArray⟩

namespace Value

/-- The reply without the attributes around it. -/
def bare : Value → Value
  | .attribute reply _ => reply
  | v => v

/-- The text of a reply that is a string or a status. -/
def string? : Value → Option String
  | .bulk bytes => utf8? bytes
  | .simple text => some text
  | _ => none

/-- Reads a reply as a number of sixteen bits. -/
def toPort (v : Value) : Except RedisError Nat :=
  match v.bare with
  | .int n => .ok (n % 65536).toNat
  | .double x => .ok x.toUInt16.toNat
  | v =>
    match v.string?.bind fun s => Decimal.natural? s.toList with
    | some n => if n ≤ 65535 then .ok n else .error wrongType
    | none => .error wrongType

/-- Reads a reply as a signed number of 64 bits. -/
def toInt (v : Value) : Except RedisError Int :=
  match v.bare with
  | .int n => .ok n
  | .double x => .ok x.toInt64.toInt
  | v =>
    match v.string?.bind fun s => Decimal.signedInteger? s.toList with
    | some n =>
      if -9223372036854775808 ≤ n ∧ n ≤ 9223372036854775807 then .ok n else .error wrongType
    | none => .error wrongType

/-- Reads a reply as a text. -/
def toText (v : Value) : Except RedisError String :=
  match v.bare with
  | .okay => .ok "OK"
  | .verbatim _ text => .ok text
  | .int n => .ok (toString n)
  | .double x => .ok (Decimal.text x .plain)
  | v =>
    match v.string? with
    | some s => .ok s
    | none => .error wrongType

/-- Reads a reply as a text that may be missing. -/
def toText? (v : Value) : Except RedisError (Option String) :=
  match v.bare with
  | .nil => .ok none
  | v => v.toText.map some

/-- Reads a reply as a list; one with attributes is none. -/
def toList (v : Value) : Except RedisError (List Value) :=
  match v with
  | .list items => .ok items
  | .set items => .ok items
  | .map entries => .ok (entries.map fun e => .map [e])
  | .nil => .ok []
  | .bulk bytes => .ok [.bulk bytes]
  | _ => .error wrongType

end Value

end Latchkey.Redis
