import Latchkey.Json.Reading

/-!
# Records in JSON

A record is read from an object, by names, or from a list, by positions. In an object unknown names
are passed over, but a known name may stand only once. A list may end early only where every field
that is missing has a default.
-/

namespace Latchkey.Json

/-! ## Field values -/

/-- Reads a whole number of at most `limit`. -/
def readNat (limit : Nat) : Raw → Option Nat
  | .number written =>
    match whole? written with
    | some (.ofNat n) => if n ≤ limit then some n else none
    | _ => none
  | _ => none

/-- Reads a signed whole number of 32 bits. -/
def readInt32 : Raw → Option Int
  | .number written =>
    match whole? written with
    | some n => if -2147483648 ≤ n ∧ n ≤ 2147483647 then some n else none
    | none => none
  | _ => none

/-- Reads a double; a whole number is one too. -/
def readFloat : Raw → Option Float
  | .number written => float? written
  | _ => none

/-- Reads a truth value. -/
def readBool : Raw → Option Bool
  | .bool b => some b
  | _ => none

/-- Reads a text. -/
def readText : Raw → Option String
  | .quoted written => text? written
  | _ => none

/-- Reads a text that is written without escapes. -/
def readPlainText : Raw → Option String
  | .quoted written => if '\\' ∈ written then none else some (String.ofList written)
  | _ => none

/-- Reads a value or null. -/
def readOption {α : Type} (read : Raw → Option α) : Raw → Option (Option α)
  | .null => some none
  | r => (read r).map some

/-! ## Fields of a record -/

/-- The fields found for a record. -/
structure Fields where
  /-- What was found for each of the record's names. -/
  found : List (String × Raw)
  /-- The record was given as a list. -/
  positional : Bool

/-- The members of an object with the names of a record, if none of them stands twice. -/
def knownMembers? (names : List String) :
    List (List Char × Raw) → List (String × Raw) → Option (List (String × Raw))
  | [], found => some found
  | (written, r) :: rest, found =>
    match text? written with
    | none => none
    | some name =>
      if name ∈ names then
        if found.any (·.1 == name) then none else knownMembers? names rest ((name, r) :: found)
      else knownMembers? names rest found

/-- The fields of a record with the given names. -/
def fields? (names : List String) : Raw → Option Fields
  | .object members => (knownMembers? names members []).map fun found => ⟨found, false⟩
  | .list items => if items.length ≤ names.length then some ⟨names.zip items, true⟩ else none
  | _ => none

/-- What was found for a name. -/
def Fields.find? (fs : Fields) (name : String) : Option Raw :=
  (fs.found.find? (·.1 == name)).map (·.2)

/-- Reads a field that must be there. -/
def Fields.required {α : Type} (fs : Fields) (name : String) (read : Raw → Option α) : Option α :=
  (fs.find? name).bind read

/-- Reads a field that has a default. -/
def Fields.default {α : Type} (fs : Fields) (name : String) (d : α) (read : Raw → Option α) :
    Option α :=
  match fs.find? name with
  | none => some d
  | some r => read r

/-- Reads a field that may be null, and may be left out where fields have names. -/
def Fields.optional {α : Type} (fs : Fields) (name : String) (read : Raw → Option α) :
    Option (Option α) :=
  match fs.find? name with
  | none => if fs.positional then none else some none
  | some r => readOption read r

end Latchkey.Json
