import ShardFleet.Text.Quoted
import ShardFleet.Toml.Tree

/-!
# Writing TOML documents

`write` lays a table out as a document: the plain values of a table stand under its header, the
tables inside it follow with headers of their own, and a blank line stands before every header that
is not the first line. Only integers of sixty-four signed bits can be written.
-/

namespace ShardFleet.Toml

/-! ### Texts -/

/-- Characters that every text can only hold escaped: the controls, tabs and line breaks apart. -/
def isControl (c : Char) : Bool := (c < ' ' && c ≠ '\n' && c ≠ '\t') || c = '\x7f'

/-- One character of a text between double quotes, the double quote apart. -/
def escaped (c : Char) : String :=
  match c with
  | '\x08' => "\\b"
  | '\t' => "\\t"
  | '\x0c' => "\\f"
  | '\r' => "\\r"
  | '\\' => "\\\\"
  | c => if isControl c then "\\u" ++ (Text.hexPadded 4 c.toNat).map Char.toUpper else String.singleton c

/-- A text on one line between double quotes. -/
def lineQuoted (cs : List Char) : String :=
  "\"" ++ String.join (cs.map fun c => if c = '"' then "\\\"" else escaped c) ++ "\""

/-- The inside of a text between three double quotes, after `run` double quotes in a row: the third
of three is escaped, so that the text does not end there. -/
def linesInner : Nat → List Char → String
  | _, [] => ""
  | run, c :: cs =>
    if c = '"' then
      if run = 2 then "\\\"" ++ linesInner 0 cs else "\"" ++ linesInner (run + 1) cs
    else escaped c ++ linesInner 0 cs

/-- The length of the longest row of `q` in a text. -/
def longestRow (q : Char) (cs : List Char) : Nat :=
  (cs.foldl (fun (longest, row) c =>
    if c = q then (max longest (row + 1), row + 1) else (longest, 0)) (0, 0)).1

/-- How a text is written: between double quotes where nothing but a tab has to be escaped, else in
the first way that shows the text as it is (one quote, three double quotes, three quotes), and
escaped where there is none. A text with line breaks begins on a line of its own. -/
def quotedText (s : String) : String :=
  let cs := s.toList
  let hasLines := cs.contains '\n'
  let hasControls := cs.any isControl
  let plain := !hasControls && !cs.contains '\\'
  let quotes := longestRow '\'' cs
  let doubleQuotes := longestRow '"' cs
  let start := if hasLines then "\n" else ""
  let escapedLines := "\"\"\"" ++ start ++ linesInner 0 cs ++ "\"\"\""
  if plain && doubleQuotes = 0 && !hasLines then lineQuoted cs
  else if !hasControls && quotes = 0 && !hasLines then "'" ++ s ++ "'"
  else if plain && doubleQuotes ≤ 2 then escapedLines
  else if !hasControls && quotes ≤ 2 then "'''" ++ start ++ s ++ "'''"
  else if hasLines then escapedLines
  else lineQuoted cs

/-! ### Values and tables -/

/-- Whether a value is written under headers of its own: a table, or a list that begins with one. -/
def hasHeader : Tree → Bool
  | .table _ => true
  | .list (.table _ :: _) => true
  | _ => false

mutual

/-- A value on the line of its key. -/
def inline : Tree → String
  | .text s => quotedText s
  | .integer n => toString n
  | .boolean b => if b then "true" else "false"
  | .list l => "[" ++ String.intercalate ", " (inlineAll l) ++ "]"
  | .null | .other | .table _ => "\x7b\x7d"

/-- Values on the line of their key. -/
def inlineAll : List Tree → List String
  | [] => []
  | v :: l => inline v :: inlineAll l

end

/-- The lines under a header: the fields that are plain values. -/
def plainLines : List (String × Tree) → List String
  | [] => []
  | (_, .null) :: fs => plainLines fs
  | (key, v) :: fs => if hasHeader v then plainLines fs else (key ++ " = " ++ inline v) :: plainLines fs

/-- A header and the lines under it. -/
structure Section where
  header : String
  lines : List String

/-- The name of a table inside another. -/
def nested (path key : String) : String := if path.isEmpty then key else path ++ "." ++ key

mutual

/-- The sections of the tables among the fields of the table `path`. -/
def sections (path : String) : List (String × Tree) → List Section
  | [] => []
  | f :: fs => fieldSections (nested path f.1) f.2 ++ sections path fs

/-- The sections of one field, of which `name` is the full name. -/
def fieldSections (name : String) : Tree → List Section
  | .table fs => ⟨"[" ++ name ++ "]", plainLines fs⟩ :: sections name fs
  | .list l => elementSections name l
  | _ => []

/-- The sections of the tables in a list. -/
def elementSections (name : String) : List Tree → List Section
  | [] => []
  | v :: l =>
    (match v with
      | .table fs => ⟨"[[" ++ name ++ "]]", plainLines fs⟩ :: sections name fs
      | _ => []) ++ elementSections name l

end

mutual

/-- Whether every integer of a value fits sixty-four signed bits. -/
def isWritable : Tree → Bool
  | .integer n => Int64.minValue.toInt ≤ n && n ≤ Int64.maxValue.toInt
  | .list l => allWritable l
  | .table fs => fieldsWritable fs
  | _ => true

/-- Whether every integer of some values fits. -/
def allWritable : List Tree → Bool
  | [] => true
  | v :: l => isWritable v && allWritable l

/-- Whether every integer of some fields fits. -/
def fieldsWritable : List (String × Tree) → Bool
  | [] => true
  | f :: fs => isWritable f.2 && fieldsWritable fs

end

/-- The document of a table, if it can be written. -/
def write (fields : List (String × Tree)) : Option String :=
  if fieldsWritable fields then
    let top := plainLines fields
    let lines := (sections "" fields).foldl
      (fun lines s => lines ++ (if lines.isEmpty then [] else [""]) ++ s.header :: s.lines) top
    some (String.join (lines.map (· ++ "\n")))
  else none

end ShardFleet.Toml
