import Latchkey.Yaml.Lexeme
import Latchkey.Json.Value

/-!
# The nodes of a YAML document

A document is one node: a scalar, a sequence or a mapping. It is read from the lexemes by descent,
with the names given to nodes before, so that an alias is a copy of the node it names.
-/

namespace Latchkey.Yaml

/-- A node. -/
inductive Node where
  /-- A scalar with its tag; a plain one may stand for something else than a text. -/
  | scalar (plain : Bool) (tag : Option String) (text : String)
  /-- A sequence. -/
  | sequence (items : List Node)
  /-- A mapping, with its keys and values in order. -/
  | mapping (entries : List (Node × Node))
  deriving Repr, Inhabited

/-- The node where nothing is written. -/
def Node.nothing : Node := .scalar true none ""

/-- The state of reading nodes. -/
structure Reader where
  /-- The lexemes left. -/
  rest : List Lexeme
  /-- The names given to nodes. -/
  names : List (String × Node) := []

namespace Reader

/-- The state behind the next lexeme. -/
def skip (r : Reader) : Reader := { r with rest := r.rest.drop 1 }

/-- Whether one of these lexemes is next, or none is left. -/
def endsAt (r : Reader) (ts : List Lexeme) : Bool :=
  match r.rest with
  | [] => true
  | t :: _ => ts.contains t

/-- What stands before a node: a name for it and its tag. -/
structure Properties where
  /-- The name. -/
  name : Option String := none
  /-- The tag. -/
  tag : Option String := none

/-- Reads what stands before a node; at most one name and one tag. -/
def properties (r : Reader) : Properties × Reader :=
  match r.rest with
  | .anchor a :: .tag t :: rest => (⟨some a, some t⟩, { r with rest := rest })
  | .tag t :: .anchor a :: rest => (⟨some a, some t⟩, { r with rest := rest })
  | .anchor a :: rest => (⟨some a, none⟩, { r with rest := rest })
  | .tag t :: rest => (⟨none, some t⟩, { r with rest := rest })
  | _ => ({}, r)

/-- The result of reading a node, its name noted. -/
def named (p : Properties) (n : Node) (r : Reader) : Node × Reader :=
  match p.name with
  | none => (n, r)
  | some name => (n, { r with names := (name, n) :: r.names })

mutual

/-- Reads a node. Outside of brackets and braces it may be one by layout; where `bare` is set, a
sequence may also stand without a deeper column. Every call is for a lexeme, a key or a value, so
four times the number of lexemes is fuel enough. -/
def node (inLayout bare : Bool) : (fuel : Nat) → Reader → Option (Node × Reader)
  | 0, _ => none
  | fuel + 1, r =>
    match r.rest with
    | .alias name :: _ => (r.names.lookup name).map fun n => (n, r.skip)
    | _ => do
      let (p, r) := properties r
      match r.rest with
      | .scalar plain text :: _ => return named p (.scalar plain p.tag text) r.skip
      | .openList :: _ =>
        let (items, r) ← flowItems true fuel r.skip
        return named p (.sequence items) r
      | .openMap :: _ =>
        let (entries, r) ← flowEntries true fuel r.skip
        return named p (.mapping entries) r
      | .sequenceStart :: _ =>
        if inLayout then
          let (items, r) ← layoutItems fuel r.skip
          return named p (.sequence items) r
        else none
      | .mappingStart :: _ =>
        if inLayout then
          let (entries, r) ← layoutEntries fuel r.skip
          return named p (.mapping entries) r
        else none
      | .item :: _ =>
        if inLayout && bare then
          let (items, r) ← bareItems fuel r
          return named p (.sequence items) r
        else nothing p r
      | _ => nothing p r

/-- The node where nothing is written behind properties; without any there has to be something. -/
def nothing (p : Properties) (r : Reader) : Option (Node × Reader) :=
  if p.name.isNone && p.tag.isNone then none
  else some (named p (.scalar true p.tag "") r)

/-- Reads a node by layout, or nothing before one of the given lexemes. -/
def nodeUnless (bare : Bool) (stops : List Lexeme) :
    (fuel : Nat) → Reader → Option (Node × Reader)
  | 0, _ => none
  | fuel + 1, r => if r.endsAt stops then some (.nothing, r) else node true bare fuel r

/-- Reads a node within brackets or braces, or nothing before one of the given lexemes. -/
def flowUnless (stops : List Lexeme) : (fuel : Nat) → Reader → Option (Node × Reader)
  | 0, _ => none
  | fuel + 1, r => if r.endsAt stops then some (.nothing, r) else node false false fuel r

/-- Reads the items of a sequence by layout. -/
def layoutItems : (fuel : Nat) → Reader → Option (List Node × Reader)
  | 0, _ => none
  | fuel + 1, r =>
    match r.rest with
    | .layoutEnd :: _ => some ([], r.skip)
    | .item :: _ => do
      let (n, r) ← nodeUnless false [.item, .layoutEnd] fuel r.skip
      let (items, r) ← layoutItems fuel r
      return (n :: items, r)
    | _ => none

/-- Reads the items of a sequence without a deeper column. -/
def bareItems : (fuel : Nat) → Reader → Option (List Node × Reader)
  | 0, _ => none
  | fuel + 1, r =>
    match r.rest with
    | .item :: _ => do
      let (n, r) ← nodeUnless false [.item, .key, .value, .layoutEnd] fuel r.skip
      let (items, r) ← bareItems fuel r
      return (n :: items, r)
    | _ => some ([], r)

/-- Reads the entries of a mapping by layout. -/
def layoutEntries : (fuel : Nat) → Reader → Option (List (Node × Node) × Reader)
  | 0, _ => none
  | fuel + 1, r =>
    match r.rest with
    | .layoutEnd :: _ => some ([], r.skip)
    | .key :: _ => do
      let (k, r) ← nodeUnless true [.key, .value, .layoutEnd] fuel r.skip
      let (v, r) ← layoutValue fuel r
      let (entries, r) ← layoutEntries fuel r
      return ((k, v) :: entries, r)
    | .value :: _ => do
      let (v, r) ← layoutValue fuel r
      let (entries, r) ← layoutEntries fuel r
      return ((.nothing, v) :: entries, r)
    | _ => none

/-- Reads the value of an entry by layout, which may be missing. -/
def layoutValue : (fuel : Nat) → Reader → Option (Node × Reader)
  | 0, _ => none
  | fuel + 1, r =>
    match r.rest with
    | .value :: _ => nodeUnless true [.key, .value, .layoutEnd] fuel r.skip
    | _ => some (.nothing, r)

/-- Reads the items of a sequence in brackets; an item may be a mapping of one entry. -/
def flowItems (isFirst : Bool) : (fuel : Nat) → Reader → Option (List Node × Reader)
  | 0, _ => none
  | fuel + 1, r => do
    match r.rest with
    | .closeList :: _ => return ([], r.skip)
    | t :: _ =>
      let r ← if isFirst then some r else if t = .comma then some r.skip else none
      match r.rest with
      | .closeList :: _ => return ([], r.skip)
      | .key :: _ =>
        let (k, r) ← flowUnless [.value, .comma, .closeList] fuel r.skip
        let (v, r) ← flowValue .closeList fuel r
        let (items, r) ← flowItems false fuel r
        return (.mapping [(k, v)] :: items, r)
      | _ =>
        let (n, r) ← node false false fuel r
        let (items, r) ← flowItems false fuel r
        return (n :: items, r)
    | [] => none

/-- Reads the entries of a mapping in braces. -/
def flowEntries (isFirst : Bool) :
    (fuel : Nat) → Reader → Option (List (Node × Node) × Reader)
  | 0, _ => none
  | fuel + 1, r => do
    match r.rest with
    | .closeMap :: _ => return ([], r.skip)
    | t :: _ =>
      let r ← if isFirst then some r else if t = .comma then some r.skip else none
      match r.rest with
      | .closeMap :: _ => return ([], r.skip)
      | .key :: _ =>
        let (k, r) ← flowUnless [.value, .comma, .closeMap] fuel r.skip
        let (v, r) ← flowValue .closeMap fuel r
        let (entries, r) ← flowEntries false fuel r
        return ((k, v) :: entries, r)
      | .value :: _ =>
        let (v, r) ← flowValue .closeMap fuel r
        let (entries, r) ← flowEntries false fuel r
        return ((.nothing, v) :: entries, r)
      | _ =>
        let (k, r) ← node false false fuel r
        let (entries, r) ← flowEntries false fuel r
        return ((k, .nothing) :: entries, r)
    | [] => none

/-- Reads the value of an entry within brackets or braces, which may be missing. -/
def flowValue (close : Lexeme) : (fuel : Nat) → Reader → Option (Node × Reader)
  | 0, _ => none
  | fuel + 1, r =>
    match r.rest with
    | .value :: _ => flowUnless [.comma, close] fuel r.skip
    | _ => some (.nothing, r)

end

/-- Passes over the ends of documents. -/
def skipEnds (r : Reader) : Reader :=
  { r with rest := r.rest.dropWhile (· == .documentEnd) }

/-- Reads a document that is started by a mark or by its first node. -/
def document (r : Reader) : Option (Node × Reader) := do
  let instructed := r.rest.takeWhile (· == .directive)
  let r := { r with rest := r.rest.drop instructed.length }
  let r ← match r.rest with
    | .documentStart :: rest => some ⟨rest, []⟩
    | _ => if instructed.isEmpty then some ⟨r.rest, []⟩ else none
  if r.endsAt [.documentStart, .documentEnd, .directive] then return (.nothing, r)
  else node true false (4 * r.rest.length + 4) r

/-- Reads documents until no lexeme is left; each takes one at least. -/
def documents : (fuel : Nat) → Reader → Option (List Node)
  | 0, _ => none
  | fuel + 1, r => do
    let r := r.skipEnds
    if r.rest.isEmpty then return []
    else
      let (n, r) ← r.document
      if !r.endsAt [.documentStart, .documentEnd] then none
      else return n :: (← documents fuel r)

end Reader

/-- The documents of a text. -/
def documents? (text : String) : Option (List Node) := do
  let ts ← lexemes? text
  Reader.documents (ts.length + 1) { rest := ts }

/-! ## What a node stands for -/

/-- The whole number that a plain scalar stands for, if it fits into 64 bits with a sign. -/
def integer? (cs : List Char) : Option Int :=
  let fitting (n : Int) : Option Int :=
    if -9223372036854775808 ≤ n ∧ n ≤ 9223372036854775807 then some n else none
  let signed (radix : Nat) (cs : List Char) : Option Int :=
    match cs with
    | '-' :: ds => (Text.number? radix ds).map fun n => -(n : Int)
    | '+' :: ds => (Text.number? radix ds).map Int.ofNat
    | ds => (Text.number? radix ds).map Int.ofNat
  match cs with
  | '0' :: 'x' :: ds => (signed 16 ds).bind fitting
  | '0' :: 'o' :: ds => (signed 8 ds).bind fitting
  | _ => (Decimal.signedInteger? cs).bind fitting

/-- The words for what is no finite number. -/
def specialNumbers : List String :=
  [".inf", ".Inf", ".INF", "+.inf", "+.Inf", "+.INF", "-.inf", "-.Inf", "-.INF", ".nan", ".NaN",
    ".NAN"]

/-- What a plain scalar without a tag stands for. -/
def plainValue? (text : String) : Option Json :=
  match text with
  | "" => some .null
  | "~" => some .null
  | "null" => some .null
  | "true" => some (.bool true)
  | "false" => some (.bool false)
  | _ =>
    match integer? text.toList with
    | some n => some (.int n)
    | none =>
      if specialNumbers.contains text then none
      else if text.toList.any Char.isDigit then
        some ((Decimal.read? text).elim (.str text) .float)
      else some (.str text)

/-- What a plain scalar with a tag stands for: what does not fit the type is null. -/
def taggedValue? (tag text : String) : Option Json :=
  match tag with
  | "!!bool" =>
    some (if text = "true" then .bool true else if text = "false" then .bool false else .null)
  | "!!int" => some ((Decimal.signedInteger? text.toList).elim .null .int)
  | "!!float" =>
    if specialNumbers.contains text then none
    else if text.toList.any Char.isDigit then some ((Decimal.read? text).elim .null .float)
    else some .null
  | "!!null" => some .null
  | _ => some (.str text)

/-- What a scalar stands for. -/
def scalarValue? (plain : Bool) (tag : Option String) (text : String) : Option Json :=
  match plain, tag with
  | false, _ => some (.str text)
  | true, none => plainValue? text
  | true, some tag => taggedValue? tag text

/-- The name that a key stands for; a key is not a list, a mapping or nothing. -/
def keyName? : Node → Option String
  | .scalar plain tag text =>
    match scalarValue? plain tag text with
    | some (.str s) => some s
    | some (.int n) => some (toString n)
    | some (.bool b) => some (if b then "true" else "false")
    | some (.float _) => some text
    | _ => none
  | _ => none

mutual

/-- What a node stands for. -/
def Node.value? : Node → Option Json
  | .scalar plain tag text => scalarValue? plain tag text
  | .sequence items => (valuesOf? items).map .arr
  | .mapping entries => (membersOf? entries).map .obj

/-- What the items of a sequence stand for. -/
def valuesOf? : List Node → Option (List Json)
  | [] => some []
  | n :: rest =>
    match n.value?, valuesOf? rest with
    | some v, some vs => some (v :: vs)
    | _, _ => none

/-- What the entries of a mapping stand for; no name may be given twice. -/
def membersOf? : List (Node × Node) → Option (List (String × Json))
  | [] => some []
  | (k, n) :: rest =>
    match keyName? k, n.value?, membersOf? rest with
    | some name, some v, some vs => if (vs.lookup name).isSome then none else some ((name, v) :: vs)
    | _, _, _ => none

end

/-- The tree of a text that has one document at most. -/
def parse? (text : String) : Option Json := do
  match ← documents? text with
  | [] => return .obj []
  | [n] => n.value?
  | _ => none

end Latchkey.Yaml
