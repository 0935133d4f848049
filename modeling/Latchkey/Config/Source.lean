import Latchkey.Config.Setting
import Latchkey.Config.Tree
import Latchkey.Ini.Document
import Latchkey.Json.Reading
import Latchkey.Json.Relaxed
import Latchkey.Ron.Document
import Latchkey.Toml.Document
import Latchkey.Yaml.Node

/-!
# Sources of settings

Settings come from a file, whose format is told by the ending of its name, and from environment
variables. A file is given by its name, or by its name without the ending, when the endings of all
formats are tried.
-/

namespace Latchkey.Config

/-- The format of a file. -/
inductive Format where
  /-- TOML. -/
  | toml
  /-- JSON. -/
  | json
  /-- YAML. -/
  | yaml
  /-- INI. -/
  | ini
  /-- RON. -/
  | ron
  /-- Relaxed JSON. -/
  | relaxed
  deriving Repr, DecidableEq

/-- The endings of file names, each with its format. -/
def endings : List (String × Format) :=
  [("toml", .toml), ("json", .json), ("yaml", .yaml), ("yml", .yaml), ("ini", .ini), ("ron", .ron),
    ("json5", .relaxed)]

mutual

/-- The tree of a JSON text: a whole number that does not fit into 64 bits with a sign is a double,
and of two members with one name the later one counts. -/
def settle : Json → Json
  | .int n => if fits n then .int n else .float (Float.ofInt n)
  | .arr items => .arr (settleItems items)
  | .obj ms => .obj (settleMembers [] ms)
  | j => j

/-- The trees of items. -/
def settleItems : List Json → List Json
  | [] => []
  | j :: rest => settle j :: settleItems rest

/-- The trees of members, behind those before. -/
def settleMembers (before : Members) : Members → Members
  | [] => before
  | (name, j) :: rest => settleMembers (Json.Relaxed.put before name (settle j)) rest

end

/-- The tree of a text in a format. -/
def Format.parse? (f : Format) (text : String) : Option Json :=
  match f with
  | .toml => Toml.parse? text
  | .json => (Json.parse? text).map settle
  | .yaml => Yaml.parse? text
  | .ini => Ini.parse? text
  | .ron => Ron.parse? text
  | .relaxed => Json.Relaxed.parse? text

/-- The ending of a file name: what is behind its last point, unless the name starts with it. -/
def ending (path : String) : String :=
  let name := (path.toList.splitOn '/').getLastD []
  let parts := name.splitOn '.'
  if parts.length < 2 || (parts.length = 2 && parts.head? = some []) then ""
  else String.ofList (parts.getLastD [])

/-- Why no settings can be had from a file. -/
inductive FileError where
  /-- There is no such file, or the ending of its name tells no format. -/
  | notFound
  /-- The text does not follow the format, or is no object. -/
  | malformed
  deriving Repr, DecidableEq

/-- The text of the file of a name, and its format. -/
def findFile (files : String → Option String) (name : String) :
    Except FileError (String × Format) :=
  match files name with
  | some text =>
    match endings.lookup (ending name) with
    | some f => .ok (text, f)
    | none => .error .notFound
  | none =>
    match endings.findSome? fun e => (files (name ++ "." ++ e.1)).map fun text => (text, e.2) with
    | some found => .ok found
    | none => .error .notFound

/-- The text without a mark of the byte order in front. -/
def withoutMark (text : String) : String :=
  match text.toList with
  | '\ufeff' :: rest => String.ofList rest
  | _ => text

/-- The members of the object in the file of a name. -/
def readFile (files : String → Option String) (name : String) : Except FileError Members := do
  let (text, f) ← findFile files name
  match f.parse? (withoutMark text) with
  | some (.obj ms) => return ms
  | _ => throw .malformed

/-- What stands before the path of a setting in the name of an environment variable. -/
def variableStart : List Char := "kvguard.".toList

/-- The path and the setting that an environment variable stands for. -/
def ofEnvironment? (entry : String × String) : Option (String × Json) :=
  let name := (lower entry.1).toList
  if variableStart.isPrefixOf name then
    some (String.ofList (name.drop variableStart.length), ofVariable entry.2)
  else none

end Latchkey.Config
