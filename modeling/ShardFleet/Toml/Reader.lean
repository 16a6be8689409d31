import ShardFleet.Toml.Scalar
import ShardFleet.Toml.Table

/-!
# Reading TOML documents

`read` takes a whole document of TOML 1.0 and answers its tree, or nothing when the document breaks
the grammar or contradicts itself.
-/

namespace ShardFleet.Toml

/-- Characters of a key without quotes. -/
def isBareChar (c : Char) : Bool := c.isAlphanum || c = '_' || c = '-'

/-- One part of a key. -/
def keyPart : Reader String
  | '"' :: r => lineText ('"' :: r)
  | '\'' :: r => lineText ('\'' :: r)
  | r =>
    match r.takeWhile isBareChar with
    | [] => none
    | name => some (String.ofList name, r.dropWhile isBareChar)

/-- How deep arrays and tables inside values may nest, and how many parts a key may have. -/
def nestingLimit : Nat := 79

/-- The parts of a key, with the spaces around each, where `fuel` bounds their number. -/
def keyParts : Nat → Reader (List String)
  | 0, _ => none
  | fuel + 1, r =>
    (keyPart (skipSpaces r)).bind fun (part, r) =>
      match skipSpaces r with
      | '.' :: r => (keyParts fuel r).map fun (parts, r) => (part :: parts, r)
      | r => some ([part], r)

/-- A key: the parts before its last one, and the last one. -/
def key : Reader (List String × String) := fun r =>
  (keyParts r.length r).bind fun (parts, r) =>
    match parts.reverse with
    | last :: initial =>
      if parts.length ≤ nestingLimit then some ((initial.reverse, last), r) else none
    | [] => none

/-- The text after spaces, line breaks and comments, where `fuel` bounds their number. A comment
must end with a line break. -/
def skipLines : Nat → List Char → Option (List Char)
  | 0, r => some r
  | fuel + 1, r =>
    let r := skipSpaces r
    match r with
    | '#' :: _ => (newline? (skipComment r)).bind (skipLines fuel)
    | r =>
      match newline? r with
      | some r => skipLines fuel r
      | none => some r

/-- The items of an array up to its closing bracket, given a reader of values. -/
def arrayItems (value : Reader Tree) : Nat → Reader (List Tree)
  | 0, _ => none
  | fuel + 1, r =>
    (skipLines r.length r).bind fun r =>
      match r with
      | ']' :: r => some ([], r)
      | r =>
        (value r).bind fun (v, r) =>
          (skipLines r.length r).bind fun r =>
            match r with
            | ',' :: r => (arrayItems value fuel r).map fun (vs, r) => (v :: vs, r)
            | ']' :: r => some ([v], r)
            | _ => none

/-- The fields of a table inside a value, up to its closing brace, added to those in `t`. -/
def inlineFields (value : Reader Tree) : Nat → Table → Reader Table
  | 0, _, _ => none
  | fuel + 1, t, r =>
    (key r).bind fun ((path, name), r) =>
      (expect '=' (skipSpaces r)).bind fun r =>
        (value (skipSpaces r)).bind fun (v, r) =>
          (t.insertValue path name v).bind fun t =>
            match skipSpaces r with
            | ',' :: r => inlineFields value fuel t r
            | '\x7d' :: r => some (t, r)
            | _ => none

/-- A value, inside which arrays and tables nest less than `depth` deep. -/
def value : Nat → Reader Tree
  | 0, _ => none
  | depth + 1, r =>
    match r with
    | '"' :: _ | '\'' :: _ => (text r).map fun (s, r) => (.text s, r)
    | '[' :: r =>
      if depth = 0 then none
      else (arrayItems (value depth) (r.length + 1) r).map fun (vs, r) => (.list vs, r)
    | '\x7b' :: r =>
      if depth = 0 then none
      else
        match skipSpaces r with
        | '\x7d' :: r => some (.table [], r)
        | r => (inlineFields (value depth) (r.length + 1) .root r).map fun (t, r) => (t.toTree, r)
    | 't' :: _ => (literal? "true".toList r).map fun r => (.boolean true, r)
    | 'f' :: _ => (literal? "false".toList r).map fun r => (.boolean false, r)
    | r =>
      if beginsDate r || beginsTime r then (moment? r).map fun r => (.other, r)
      else
        match fraction? r with
        | some r => some (.other, r)
        | none => (integer r).map fun (n, r) => (.integer n, r)

/-- The rest of a document after the end of a line: spaces, a comment, and a line break or the end
of the text. -/
def endLine (r : List Char) : Option (List Char) :=
  match skipComment (skipSpaces r) with
  | [] => some []
  | r => newline? r

/-- A document under construction: its tables, and the table whose lines are being read. -/
structure Draft where
  tables : Table := .root
  current : List String := []

/-- A key and its value added to the current table. -/
def Draft.insert (d : Draft) (path : List String) (name : String) (v : Tree) : Option Draft :=
  (d.tables.update false (Table.insertValue path name v) d.current).map fun t =>
    { d with tables := t }

/-- One line of a document, which is not empty, and the line break after it. -/
def readLine (d : Draft) : Reader Draft
  | '#' :: r => (endLine ('#' :: r)).map (d, ·)
  | '[' :: '[' :: r => do
    let ((path, name), r) ← key r
    let r ← literal? [']', ']'] r
    let t ← d.tables.openElement path name
    let r ← endLine r
    some ({ tables := t, current := path ++ [name] }, r)
  | '[' :: r => do
    let ((path, name), r) ← key r
    let r ← expect ']' r
    let t ← d.tables.openTable path name
    let r ← endLine r
    some ({ tables := t, current := path ++ [name] }, r)
  | r =>
    match newline? r with
    | some r => some (d, r)
    | none => do
      let ((path, name), r) ← key r
      let r ← expect '=' r
      let (v, r) ← value (nestingLimit + 1) (skipSpaces r)
      let r ← endLine r
      let d ← d.insert path name v
      some (d, r)

/-- The lines of a document, where `fuel` bounds their number. -/
def readLines : Nat → Draft → List Char → Option Draft
  | 0, d, r => if r.isEmpty then some d else none
  | fuel + 1, d, r =>
    match skipSpaces r with
    | [] => some d
    | r => (readLine d r).bind fun (d, r) => readLines fuel d r

/-- The tree of a document. A byte order mark at its beginning does not count. -/
def read (s : String) : Option Tree :=
  let cs := match s.toList with
    | '\uFEFF' :: r => r
    | r => r
  (readLines (cs.length + 1) {} cs).map fun d => d.tables.toTree

end ShardFleet.Toml
