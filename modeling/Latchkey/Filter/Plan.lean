import Latchkey.Filter.Sizing
import Latchkey.Json.Record

/-!
# Plans of filters

What the maker of a filter asks for, and the plan that follows from it: how many bits the filter
has and how many of them stand for one element.
-/

namespace Latchkey

/-- The default rate of false positives. -/
def defaultErrorRate : Float := 0.03

/-- What is asked of a filter. -/
structure FilterSettings where
  /-- The store key of the bit array. -/
  name : String
  /-- The number of elements expected. -/
  expected : Nat
  /-- The rate of false positives allowed. -/
  errorRate : Float := defaultErrorRate
  /-- The lifetime, in milliseconds, given to a bit array when it is made; zero means none. -/
  expiration : Option Nat := none
  deriving Repr

namespace FilterSettings

/-- The record of the settings. -/
def toJson (s : FilterSettings) : Json :=
  .obj
    [("name", .str s.name), ("expected_insertions", .nat s.expected),
      ("error_rate", .float s.errorRate), ("expiration_ms", .option .nat s.expiration)]

/-- Reads the settings; the error rate and the expiration have defaults. -/
def read? (r : Json.Raw) : Option FilterSettings := do
  let fs ← Json.fields? ["name", "expected_insertions", "error_rate", "expiration_ms"] r
  let word := Json.readNat Json.maxWord
  return {
    name := ← fs.required "name" Json.readText
    expected := ← fs.required "expected_insertions" word
    errorRate := ← fs.default "error_rate" defaultErrorRate Json.readFloat
    expiration := ← fs.default "expiration_ms" none (Json.readOption word) }

end FilterSettings

/-- The plan of a filter. -/
structure FilterPlan where
  /-- The store key of the bit array. -/
  name : String
  /-- The number of bits. -/
  bits : Nat
  /-- The number of bits that stand for one element. -/
  rounds : Nat
  /-- The rate of false positives allowed. -/
  errorRate : Float
  /-- The number of elements expected. -/
  expected : Nat
  /-- The lifetime given to the bit array when it is made. -/
  expiration : Option Nat
  deriving Repr

namespace FilterPlan

/-- The plan for what is asked, without touching the store. -/
def ofSettings (s : FilterSettings) : Except Failure FilterPlan :=
  if s.name.isEmpty then .error (.configuration .filterName)
  else
    match bitArraySize s.expected s.errorRate with
    | .error e => .error e
    | .ok bits =>
      .ok {
        name := s.name
        bits := bits
        rounds := hashIterations s.expected bits
        errorRate := s.errorRate
        expected := s.expected
        expiration := s.expiration }

/-- The record of a plan. -/
def toJson (p : FilterPlan) : Json :=
  .obj
    [("name", .str p.name), ("bitArraySize", .nat p.bits), ("hashIterations", .nat p.rounds),
      ("errorRate", .float p.errorRate), ("expectedInsertions", .nat p.expected),
      ("expirationMs", .option .nat p.expiration)]

/-- Reads a plan. -/
def read? (r : Json.Raw) : Option FilterPlan := do
  let fs ← Json.fields?
    ["name", "bitArraySize", "hashIterations", "errorRate", "expectedInsertions", "expirationMs"] r
  let word := Json.readNat Json.maxWord
  return {
    name := ← fs.required "name" Json.readText
    bits := ← fs.required "bitArraySize" word
    rounds := ← fs.required "hashIterations" (Json.readNat 4294967295)
    errorRate := ← fs.required "errorRate" Json.readFloat
    expected := ← fs.required "expectedInsertions" word
    expiration := ← fs.optional "expirationMs" word }

end FilterPlan

end Latchkey
