import Latchkey.Log.Level
import Latchkey.Text.Blank

/-!
# Log filters

A filter is a list of directives, each of which says how much of the log of a target is wanted, or
of all targets. The directive with the longest target that a line's own target starts with decides;
of two with the same target the last one does.
-/

namespace Latchkey.Log

/-- What is wanted of the log. -/
structure Directive where
  /-- The target, if only one is meant. -/
  target : Option String := none
  /-- It only applies within the spans it names. -/
  inSpan : Bool := false
  /-- How much is wanted. -/
  level : Level
  deriving Repr, DecidableEq

namespace Directive

/-- Whether a directive may start with a character. -/
def canStart (c : Char) : Bool :=
  c.isAlphanum || decide (0x80 ≤ c.toNat) || c = '-' || c = ':' || c = '_'

/-- The level in a directive behind its target; everything if it is left out. -/
def level? (cs : List Char) : Option Level :=
  if cs.isEmpty then some .trace else Level.read? (String.ofList cs)

/-- What follows the fields that are named in a span; none if one is empty or they do not end. -/
def behindFields? (field : List Char) : List Char → Option (List Char)
  | [] => none
  | c :: rest =>
    if c = '\x7d' then
      match field, rest with
      | _ :: _, ']' :: rest => some rest
      | _, _ => none
    else behindFields? (c :: field) rest

/-- What follows a span. -/
def behindSpan? : List Char → Option (List Char)
  | [] => none
  | c :: rest =>
    if c = ']' then some rest
    else if c = '\x7b' then behindFields? [] rest
    else behindSpan? rest

/-- Reads a directive: a level, or a target with a span and a level that may be missing. -/
def read? (text : String) : Option Directive :=
  let cs := Text.trim text.toList
  let head := cs.takeWhile fun c => c ≠ '=' && c ≠ '['
  let named : Option String := if head.isEmpty then none else some (String.ofList head)
  if cs.head?.any fun c => canStart c || c = '[' then
    match cs.drop head.length with
    | [] =>
      match Level.read? (String.ofList head) with
      | some l => some { level := l }
      | none => some { target := named, level := .trace }
    | '=' :: rest => (level? rest).map fun l => { target := named, level := l }
    | _ :: rest =>
      match behindSpan? rest with
      | some [] => some { target := named, inSpan := true, level := .trace }
      | some ('=' :: rest) =>
        (level? rest).map fun l => { target := named, inSpan := true, level := l }
      | _ => none
  else none

/-- Whether a directive applies to lines of a target outside of spans. -/
def appliesTo (d : Directive) (target : String) : Bool :=
  !d.inSpan && d.target.all fun t => t.toList.isPrefixOf target.toList

/-- How narrow the target of a directive is. -/
def narrowness (d : Directive) : Nat := d.target.elim 0 fun t => t.utf8ByteSize + 1

end Directive

/-- What is wanted of the log, as several directives. -/
structure Filter where
  /-- The directives. -/
  directives : List Directive
  deriving Repr, DecidableEq

namespace Filter

/-- The filter of directives; without any, failures are wanted. -/
def ofDirectives (ds : List Directive) : Filter where
  directives := if ds.isEmpty then [{ level := .error }] else ds

/-- The parts of a filter that is written down. -/
def parts (text : String) : List String := (text.splitOn ",").filter (· ≠ "")

/-- Reads a filter, all of whose parts have to be directives. -/
def read? (text : String) : Option Filter := ((parts text).mapM Directive.read?).map ofDirectives

/-- Reads a filter, leaving out what is no directive. -/
def readValid (text : String) : Filter := ofDirectives ((parts text).filterMap Directive.read?)

/-- The directive that decides about lines of a target. -/
def deciding? (f : Filter) (target : String) : Option Directive :=
  (f.directives.filter fun d => d.appliesTo target).foldl
    (fun best d =>
      match best with
      | some b => if b.narrowness ≤ d.narrowness then some d else some b
      | none => some d)
    none

/-- Whether lines of a target and a level are wanted. -/
def enables (f : Filter) (target : String) (level : Level) : Bool :=
  (f.deciding? target).any fun d => d.level.includes level

end Filter

end Latchkey.Log
