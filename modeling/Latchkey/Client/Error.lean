import Latchkey.Error
import Latchkey.Launch.Status

/-!
# Errors of the client

Why a command of the client failed, and the line that says so.
-/

namespace Latchkey

/-- Why a command of the client failed. -/
inductive ClientError where
  /-- A lock or filter operation failed. -/
  | failed (failure : Failure)
  /-- The store could not be opened. -/
  | unopened (url : String) (cause : StoreError)
  /-- A program could not be launched. -/
  | unlaunched (program : String) (cause : LaunchError)
  /-- There is no program to launch. -/
  | noProgram
  deriving Repr

namespace ClientError

/-- The text of an error. -/
def message : ClientError → String
  | .failed failure => failure.message
  | .unopened url _ => "failed to connect to store at " ++ url
  | .unlaunched program _ => "failed to run " ++ program
  | .noProgram => "no command given"

/-- The texts of the causes below an error, the outermost first. -/
def chain : ClientError → List String
  | .failed failure => failure.chain
  | .unopened _ cause => cause.message :: cause.causes
  | .unlaunched _ cause => [cause.message]
  | .noProgram => []

/-- The code an error is reported under, if it has one. -/
def code? : ClientError → Option ErrorCode
  | .failed failure => some failure.code
  | _ => none

/-- The text of an error with those of its causes. -/
def account (e : ClientError) : String := String.intercalate ": " (e.message :: e.chain)

/-- The text of an optional code. -/
def codeText : Option ErrorCode → String
  | some c => "Some(" ++ toString c.code ++ ")"
  | none => "None"

/-- What the log says about an error. -/
def logText (e : ClientError) : String :=
  "Command failed: " ++ e.account ++ " code=" ++ codeText e.code?

end ClientError

end Latchkey
