import Latchkey.Toml.Value

/-!
# TOML documents

A document has entries, each a key and a value, and headers, each of which names the table that the
entries after it belong to. No key and no table is defined twice, and a table on one line is not
added to.
-/

namespace Latchkey.Toml

/-- How far a document is read. -/
structure Draft where
  /-- What was defined. -/
  members : List (String × Json) := []
  /-- The path of the table to which entries belong. -/
  current : List String := []
  /-- The paths of tables that must not get a header: they have one, or entries made them. -/
  opened : List (List String) := []
  /-- The paths of values, which are not added to. -/
  closed : List (List String) := []

/-- The last of the tables in a list of tables, changed. -/
def changeLast (f : List (String × Json) → Option (List (String × Json))) (items : List Json) :
    Option (List Json) :=
  match items.getLast? with
  | some (.obj ms) => (f ms).map fun ms => items.dropLast ++ [.obj ms]
  | _ => none

/-- The members with the table at a path changed; tables that are missing are made, and of a list of
tables the last one is meant. -/
def changeTable (f : List (String × Json) → Option (List (String × Json)))
    (ms : List (String × Json)) : List String → Option (List (String × Json))
  | [] => f ms
  | name :: rest =>
    let put (v : Json) : List (String × Json) := ms.map fun m => if m.1 = name then (name, v) else m
    match ms.lookup name with
    | none => (changeTable f [] rest).map fun inner => ms ++ [(name, .obj inner)]
    | some (.obj inner) => (changeTable f inner rest).map fun inner => put (.obj inner)
    | some (.arr items) =>
      (changeLast (fun inner => changeTable f inner rest) items).map fun items => put (.arr items)
    | some _ => none

/-- The members with one more table in the list of tables of a name. -/
def appendTable (name : String) (ms : List (String × Json)) : Option (List (String × Json)) :=
  match ms.lookup name with
  | none => some (ms ++ [(name, .arr [.obj []])])
  | some (.arr items) =>
    some (ms.map fun m => if m.1 = name then (name, .arr (items ++ [.obj []])) else m)
  | some _ => none

namespace Draft

/-- Whether a path leads to or through a value that is not added to. -/
def isClosed (d : Draft) (path : List String) : Bool := d.closed.any fun p => p.isPrefixOf path

/-- The draft with an entry added. -/
def addEntry (d : Draft) (path : List String) (v : Json) : Option Draft := do
  let whole := d.current ++ path
  if d.isClosed whole || d.opened.contains whole then none
  let members ← changeTable (fun ms => define ms v path) d.members d.current
  let made := (List.range path.length).drop 1 |>.map fun n => d.current ++ path.take n
  return { d with
    members := members
    closed := whole :: d.closed
    opened := made ++ d.opened }

/-- The draft with a table begun. -/
def openTable (d : Draft) (path : List String) : Option Draft := do
  if d.isClosed path || d.opened.contains path then none
  let members ← changeTable some d.members path
  return { d with members := members, current := path, opened := path :: d.opened }

/-- The draft with one more table begun in a list of tables. -/
def appendTo (d : Draft) (path : List String) : Option Draft := do
  if d.isClosed path || d.opened.contains path then none
  let members ← changeTable (appendTable (path.getLastD "")) d.members path.dropLast
  let isInside (p : List String) : Bool := path.isPrefixOf p
  return { d with
    members := members
    current := path
    opened := d.opened.filter fun p => !isInside p
    closed := d.closed.filter fun p => !isInside p }

end Draft

/-- Reads one line with content. -/
def readLine (d : Draft) (cs : List Char) : Option (Draft × List Char) :=
  match cs with
  | '[' :: '[' :: rest => do
    let (path, rest) ← key? rest.length rest
    match rest with
    | ']' :: ']' :: rest => return (← d.appendTo path, rest)
    | _ => none
  | '[' :: rest => do
    let (path, rest) ← key? rest.length rest
    match rest with
    | ']' :: rest => return (← d.openTable path, rest)
    | _ => none
  | _ => do
    let (path, rest) ← key? cs.length cs
    match rest with
    | '=' :: rest =>
      let (v, rest) ← value? (2 * rest.length + 2) (skipBlanks rest)
      return (← d.addEntry path v, rest)
    | _ => none

/-- Reads the lines that are left; each takes a character at least, so their number is fuel
enough. -/
def readLines : (fuel : Nat) → Draft → List Char → Option Draft
  | 0, _, _ => none
  | fuel + 1, d, cs =>
    match skipLines cs.length cs with
    | [] => some d
    | cs => do
      let (d, rest) ← readLine d cs
      match skipComment (skipBlanks rest) with
      | [] => return d
      | '\n' :: rest => readLines fuel d rest
      | _ => none

/-- The characters with pairs of carriage return and line feed written as line feeds. -/
def normalized : List Char → List Char
  | '\r' :: '\n' :: rest => '\n' :: normalized rest
  | c :: rest => c :: normalized rest
  | [] => []

/-- The tree of a document. -/
def parse? (text : String) : Option Json :=
  let cs := normalized text.toList
  (readLines (cs.length + 1) {} cs).map fun d => .obj d.members

end Latchkey.Toml
