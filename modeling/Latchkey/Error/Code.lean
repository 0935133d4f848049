import Latchkey.Json.Record

/-!
# Error codes

Failures are reported to other systems under a number with a fixed text.
-/

namespace Latchkey

/-- A code for reports, with its text. -/
structure ErrorCode where
  /-- The number. -/
  code : Int
  /-- The text that goes with the number. -/
  message : String
  deriving Repr, DecidableEq

namespace ErrorCode

/-- All went well. -/
def success : ErrorCode := ⟨0, "success"⟩

/-- A parameter was wrong. -/
def parameter : ErrorCode := ⟨20002, "parameter validate error"⟩

/-- A lock was held by another owner. -/
def contended : ErrorCode := ⟨24001, "lock is already locked"⟩

/-- The store could not be used. -/
def unavailable : ErrorCode := ⟨30001, "failed to obtain store connection"⟩

/-- The record of a code. -/
def toJson (c : ErrorCode) : Json := .obj [("code", .int c.code), ("message", .str c.message)]

/-- Reads a code, whose text must be written without escapes. -/
def read? (r : Json.Raw) : Option ErrorCode := do
  let fs ← Json.fields? ["code", "message"] r
  return {
    code := ← fs.required "code" Json.readInt32
    message := ← fs.required "message" Json.readPlainText }

end ErrorCode

end Latchkey
