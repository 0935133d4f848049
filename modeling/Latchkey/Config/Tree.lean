import Latchkey.Json.Value

/-!
# Trees of settings

A configuration is a tree: an object whose members are settings, objects and lists. A setting is
addressed by a path such as `store.port`. Writing along a path makes the objects that are missing
and replaces what is no object; writing an object merges it into the one that is there, member by
member, and writing anything else replaces what is there.
-/

namespace Latchkey.Config

/-- The members of an object. -/
abbrev Members := List (String × Json)

/-- A step of a path. -/
inductive PathStep where
  /-- To the member of a name. -/
  | member (name : String)
  /-- To the item at a position, counted from the end if it is negative. -/
  | item (position : Int)
  deriving Repr, DecidableEq

/-- A path that starts at a member of the tree. -/
structure Path where
  /-- The name of the member. -/
  root : String
  /-- The steps from there. -/
  steps : List PathStep := []
  deriving Repr, DecidableEq

namespace Path

/-- Whether a character may stand in a name. -/
def isNameChar (c : Char) : Bool := c.isAlphanum || c == '_' || c == '-'

/-- Reads a name. -/
def name? (cs : List Char) : Option (String × List Char) :=
  match cs.takeWhile isNameChar with
  | [] => none
  | name => some (String.ofList name, cs.dropWhile isNameChar)

/-- Reads a position behind an opening bracket. -/
def position? (cs : List Char) : Option (Int × List Char) :=
  let isBlank (c : Char) : Bool := c == ' ' || c == '\t'
  let cs := cs.dropWhile isBlank
  let (sign, cs) := match cs with
    | '-' :: rest => ((-1 : Int), rest)
    | _ => (1, cs)
  match cs.takeWhile Char.isDigit, (cs.dropWhile Char.isDigit).dropWhile isBlank with
  | [], _ => none
  | ds, ']' :: rest => some (sign * Decimal.digitsValue ds, rest)
  | _, _ => none

/-- Reads steps; each takes a character at least, so the number of characters is fuel enough. -/
def steps? : (fuel : Nat) → List Char → Option (List PathStep)
  | _, [] => some []
  | 0, _ => none
  | fuel + 1, '.' :: rest => do
    let (name, rest) ← name? rest
    return .member name :: (← steps? fuel rest)
  | fuel + 1, '[' :: rest => do
    let (position, rest) ← position? rest
    return .item position :: (← steps? fuel rest)
  | _ + 1, _ => none

/-- Reads a path. -/
def read? (s : String) : Option Path := do
  let (root, rest) ← name? s.toList
  return ⟨root, ← steps? rest.length rest⟩

end Path

/-! ## Looking up -/

/-- The member of a name. -/
def find? (ms : Members) (name : String) : Option Json := ms.lookup name

/-- The setting at the end of a path of names. -/
def get? (ms : Members) : List String → Option Json
  | [] => none
  | [name] => find? ms name
  | name :: rest =>
    match find? ms name with
    | some (.obj inner) => get? inner rest
    | _ => none

/-! ## Writing -/

/-- The members with one of them changed, where nothing stands for one that is missing. -/
def modify (ms : Members) (name : String) (f : Json → Json) : Members :=
  if (find? ms name).isSome then ms.map fun m => if m.1 = name then (m.1, f m.2) else m
  else ms ++ [(name, f .null)]

/-- The members of an object; none of anything else. -/
def membersOf : Json → Members
  | .obj ms => ms
  | _ => []

/-- The items of a list; none of anything else. -/
def itemsOf : Json → List Json
  | .arr items => items
  | _ => []

mutual

/-- What a value becomes when another one is written over it. -/
def write (old : Json) : Json → Json
  | .obj new => .obj (writeMembers (membersOf old) new)
  | new => new

/-- The members after others are written over them. -/
def writeMembers (old : Members) : Members → Members
  | [] => old
  | (name, v) :: rest =>
    writeMembers (modify old name fun before => write before v) rest

end

/-- The items with the one at a position changed; items that are missing are made. -/
def modifyItem (items : List Json) (position : Int) (f : Json → Json) : List Json :=
  let length : Int := items.length
  let (items, index) :=
    if 0 ≤ position then (items, position.toNat)
    else if 0 ≤ length + position then (items, (length + position).toNat)
    else (List.replicate (-(length + position)).toNat .null ++ items, 0)
  let filled := items ++ List.replicate (index + 1 - items.length) .null
  filled.modify index f

/-- What a value becomes when another one is written at the end of steps from it. -/
def writeAlong (new old : Json) : List PathStep → Json
  | [] => write old new
  | .member name :: rest =>
    .obj (modify (membersOf old) name fun before => writeAlong new before rest)
  | .item position :: rest =>
    .arr (modifyItem (itemsOf old) position fun before => writeAlong new before rest)

/-- The tree with a setting written at a path. -/
def set (ms : Members) (path : Path) (new : Json) : Members :=
  modify ms path.root fun before => writeAlong new before path.steps

/-- The tree with a setting written at a path that is given as text; a text that is no path is the
name of a member. -/
def setText (ms : Members) (path : String) (new : Json) : Members :=
  set ms ((Path.read? path).getD ⟨path, []⟩) new

end Latchkey.Config
