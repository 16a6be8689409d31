import ShardFleet.Toml.Tree

/-!
# Assembling TOML tables

The lines of a document say piece by piece what its tables hold: headers open tables, dotted keys
open tables inside them, and neither may open again what is already closed. This module keeps the
tables under construction and refuses what would contradict an earlier line.
-/

namespace ShardFleet.Toml

mutual

/-- What stands under a key of a table under construction. -/
inductive Item where
  /-- A value that is complete. -/
  | value (v : Tree)
  | table (t : Table)
  /-- The tables of an array of tables, of which the last one is still open. -/
  | tables (closed : List Table) (last : Table)

/-- A table under construction. It is implied while no header has named it, and dotted when a
dotted key made it. -/
inductive Table where
  | mk (implied dotted : Bool) (entries : List (String × Item))

end

namespace Table

/-- Whether no header has named the table. -/
def implied : Table → Bool
  | mk i _ _ => i

/-- Whether a dotted key made the table. -/
def dotted : Table → Bool
  | mk _ d _ => d

/-- The keys of the table and what stands under them. -/
def entries : Table → List (String × Item)
  | mk _ _ es => es

/-- The table that the document itself is. -/
def root : Table := mk false false []

/-- What stands under a key. -/
def find? (t : Table) (key : String) : Option Item :=
  (t.entries.find? (·.1 = key)).map (·.2)

/-- The table with `item` under `key`, at the key's old place if it has one. -/
def set (t : Table) (key : String) (item : Item) : Table :=
  if t.entries.any (·.1 = key) then
    mk t.implied t.dotted (t.entries.map fun e => if e.1 = key then (key, item) else e)
  else mk t.implied t.dotted (t.entries ++ [(key, item)])

/-- The table with the table at `path` below it changed by `f`. Tables on the way that are not there
yet are made, as dotted ones or as merely implied ones; of an array of tables the last is meant. A
dotted key cannot go through a table that a header has named. -/
def update (byDots : Bool) (f : Table → Option Table) : List String → Table → Option Table
  | [], t => f t
  | key :: path, t =>
    match t.find? key with
    | none => (update byDots f path (mk true byDots [])).map fun s => t.set key (.table s)
    | some (.value _) => none
    | some (.tables closed last) =>
      (update byDots f path last).map fun s => t.set key (.tables closed s)
    | some (.table s) =>
      if byDots && !s.implied then none
      else (update byDots f path s).map fun s => t.set key (.table s)

/-- A value put under the key `path`, `key` of a table. The table that receives it must be the one
whose line this is, or one that dotted keys made. -/
def insertValue (path : List String) (key : String) (v : Tree) (t : Table) : Option Table :=
  t.update true (fun s =>
    if s.dotted = path.isEmpty then none
    else if (s.find? key).isSome then none
    else some (s.set key (.value v))) path

/-- The table `path`, `key` opened by its header: it is new, or so far only implied. -/
def openTable (path : List String) (key : String) (t : Table) : Option Table :=
  t.update false (fun s =>
    match s.find? key with
    | none => some (s.set key (.table (mk false false [])))
    | some (.table u) =>
      if u.implied && !u.dotted then some (s.set key (.table (mk false false u.entries))) else none
    | some _ => none) path

/-- One more table opened in the array of tables `path`, `key`. -/
def openElement (path : List String) (key : String) (t : Table) : Option Table :=
  t.update false (fun s =>
    match s.find? key with
    | none => some (s.set key (.tables [] (mk false false [])))
    | some (.tables closed last) => some (s.set key (.tables (closed ++ [last]) (mk false false [])))
    | some _ => none) path

mutual

/-- The finished value of an item. -/
def Item.toTree : Item → Tree
  | .value v => v
  | .table t => Table.toTree t
  | .tables closed last => .list (Table.toTrees closed ++ [Table.toTree last])

/-- The finished value of a table. -/
def toTree : Table → Tree
  | mk _ _ es => .table (Table.toFields es)

/-- The finished values of tables. -/
def toTrees : List Table → List Tree
  | [] => []
  | t :: ts => Table.toTree t :: Table.toTrees ts

/-- The finished values of entries. -/
def toFields : List (String × Item) → List (String × Tree)
  | [] => []
  | e :: es => (e.1, Table.Item.toTree e.2) :: Table.toFields es

end

end Table

end ShardFleet.Toml
