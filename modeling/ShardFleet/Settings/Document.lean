import ShardFleet.Settings.Basic
import ShardFleet.Toml.Reader
import ShardFleet.Toml.Writer

/-!
# Settings as documents

Between settings and the tree of a document. A table that is left out has its standard settings; in
a table that is there, only the fields that may be unset can be left out, and they are then unset.
Fields of other names do not count. A record may also be written as the list of its fields, and a
choice as a table with one field, which holds nothing.
-/

namespace ShardFleet

/-- The format a tree was written in. Formats differ in which list may stand for a record, and in
what they write for nothing. -/
inductive DocumentFormat where
  | toml
  | json
deriving DecidableEq, Repr

namespace DocumentFormat

/-- Whether a list of `given` items may stand for a record of `fields` fields. TOML lets more items
through, and they do not count. -/
def fits : DocumentFormat → (fields : Nat) → (given : Nat) → Bool
  | toml, fields, given => fields ≤ given
  | json, fields, given => fields = given

/-- Whether a value is nothing. -/
def isNothing : DocumentFormat → Tree → Bool
  | toml, .list [] => true
  | toml, .table [] => true
  | json, .null => true
  | _, _ => false

end DocumentFormat

namespace Tree

/-- The fields of a record with the given names. -/
def record? (format : DocumentFormat) (names : List String) : Tree → Option (String → Option Tree)
  | .table fields => some fun name => (fields.find? (·.1 = name)).map (·.2)
  | .list items =>
    if format.fits names.length items.length then
      some fun name => ((names.zip items).find? (·.1 = name)).map (·.2)
    else none
  | _ => none

/-- The name of one of several choices: a text, or the only field of a table, which holds nothing. -/
def choice? (format : DocumentFormat) : Tree → Option String
  | .text name => some name
  | .table [(name, v)] => if format.isNothing v then some name else none
  | _ => none

end Tree

namespace Settings

/-- One more than the largest count. -/
def countBound : Nat := UInt64.size

/-- A field that must be there. -/
def required {α : Type} (read : Tree → Option α) (field : Option Tree) : Option α := field.bind read

/-- A field that may be unset. -/
def optional {α : Type} (read : Tree → Option α) : Option Tree → Option (Option α)
  | none => some none
  | some .null => some none
  | some t => (read t).map some

/-- A field that has a standard value when it is left out. -/
def defaulted {α : Type} (standard : α) (read : Tree → Option α) : Option Tree → Option α
  | none => some standard
  | some t => read t

/-- Reads the settings of the connections. -/
def readClient (format : DocumentFormat) (t : Tree) : Option ClientSettings := do
  let field ← t.record? format ["connect_timeout_ms", "read_timeout_ms", "keepalive_sec"]
  let connectTimeout ← required (·.asNat? countBound) (field "connect_timeout_ms")
  let readTimeout ← optional (·.asNat? countBound) (field "read_timeout_ms")
  let keepalive ← optional (·.asNat? countBound) (field "keepalive_sec")
  some { connectTimeout, readTimeout, keepalive }

/-- Reads the settings of the ring. -/
def readSharding (format : DocumentFormat) (t : Tree) : Option ShardingSettings := do
  let field ← t.record? format ["virtual_nodes", "hashing", "key_tags"]
  let virtualNodes ← required (·.asNat? countBound) (field "virtual_nodes")
  let hashing ← required (fun t => (t.choice? format).bind Hashing.ofName?) (field "hashing")
  let keyTags ← required Tree.asBool? (field "key_tags")
  some { virtualNodes, hashing, keyTags }

/-- Reads the bounds of pools. -/
def readLimits (format : DocumentFormat) (t : Tree) : Option PoolLimits := do
  let field ← t.record? format ["max_total", "max_idle", "max_wait_ms"]
  let maxTotal ← required (·.asNat? countBound) (field "max_total")
  let maxIdle ← required (·.asNat? countBound) (field "max_idle")
  let maxWait ← required (·.asNat? countBound) (field "max_wait_ms")
  some { maxTotal, maxIdle, maxWait }

/-- Reads the settings of logging. -/
def readLogging (format : DocumentFormat) (t : Tree) : Option LoggingSettings := do
  let field ← t.record? format ["level", "format"]
  let level ← required Tree.asText? (field "level")
  let format ← required Tree.asText? (field "format")
  some { level, format }

/-- Reads the settings of a node. -/
def readNode (format : DocumentFormat) (t : Tree) : Option NodeSettings := do
  let field ← t.record? format
    ["host", "port", "password", "database", "max_total", "max_idle", "max_wait_ms"]
  let host ← required Tree.asText? (field "host")
  let port ← required (·.asNat? UInt16.size) (field "port")
  let password ← optional Tree.asText? (field "password")
  let database ← defaulted 0 (·.asNat? UInt32.size) (field "database")
  let maxTotal ← optional (·.asNat? countBound) (field "max_total")
  let maxIdle ← optional (·.asNat? countBound) (field "max_idle")
  let maxWait ← optional (·.asNat? countBound) (field "max_wait_ms")
  some { host, port, password, database, maxTotal, maxIdle, maxWait }

/-- Reads the settings of a shard. -/
def readShard (format : DocumentFormat) (t : Tree) : Option ShardSettings := do
  let field ← t.record? format ["name", "nodes"]
  let name ← optional Tree.asText? (field "name")
  let nodes ← required (fun t => t.asList?.bind (·.mapM (readNode format))) (field "nodes")
  some { name, nodes }

/-- Reads settings from the tree of a document in the given format. -/
def ofTree? (format : DocumentFormat) (t : Tree) : Option Settings := do
  let field ← t.record? format ["client", "sharding", "pool", "logging", "shards"]
  let client ← defaulted {} (readClient format) (field "client")
  let sharding ← defaulted {} (readSharding format) (field "sharding")
  let pool ← defaulted {} (readLimits format) (field "pool")
  let logging ← defaulted {} (readLogging format) (field "logging")
  let shards ← required (fun t => t.asList?.bind (·.mapM (readShard format))) (field "shards")
  some { client, sharding, pool, logging, shards }

/-! ### Writing -/

/-- A number in a tree. -/
def count (n : Nat) : Tree := .integer n

/-- A field that is left out when it is unset. -/
def unlessUnset {α : Type} (name : String) (write : α → Tree) : Option α → List (String × Tree)
  | none => []
  | some a => [(name, write a)]

/-- The fields of a node. -/
def nodeFields (n : NodeSettings) : List (String × Tree) :=
  [("host", .text n.host), ("port", count n.port)] ++ unlessUnset "password" .text n.password ++
    [("database", count n.database)] ++ unlessUnset "max_total" count n.maxTotal ++
    unlessUnset "max_idle" count n.maxIdle ++ unlessUnset "max_wait_ms" count n.maxWait

/-- The fields of a shard. -/
def shardFields (s : ShardSettings) : List (String × Tree) :=
  unlessUnset "name" .text s.name ++ [("nodes", .list (s.nodes.map (.table ∘ nodeFields)))]

/-- The fields of settings. -/
def fields (s : Settings) : List (String × Tree) :=
  [("client", .table (("connect_timeout_ms", count s.client.connectTimeout) ::
      unlessUnset "read_timeout_ms" count s.client.readTimeout ++
      unlessUnset "keepalive_sec" count s.client.keepalive)),
    ("sharding", .table [("virtual_nodes", count s.sharding.virtualNodes),
      ("hashing", .text s.sharding.hashing.name), ("key_tags", .boolean s.sharding.keyTags)]),
    ("pool", .table [("max_total", count s.pool.maxTotal), ("max_idle", count s.pool.maxIdle),
      ("max_wait_ms", count s.pool.maxWait)]),
    ("logging", .table [("level", .text s.logging.level), ("format", .text s.logging.format)]),
    ("shards", .list (s.shards.map (.table ∘ shardFields)))]

/-- The tree of settings. -/
def toTree (s : Settings) : Tree := .table s.fields

/-! ### Files -/

/-- The wording of a document that cannot be read. Which line is at fault is not said. -/
def unreadable : String := "TOML parse error"

/-- The fault of a file that is not there. -/
def missingFile : Fault := .io "No such file or directory (os error 2)"

/-- Reads valid settings from the bytes of a file. -/
def load (file : Bytes) : Except Fault Settings :=
  match Utf8.decode? file with
  | none => .error (.io "stream did not contain valid UTF-8")
  | some text =>
    match (Toml.read text).bind (ofTree? .toml) with
    | none => .error (.parse unreadable)
    | some s => s.check.mapError .invalid

/-- The text of a file that holds settings. -/
def save (s : Settings) : Except Fault String :=
  match Toml.write s.fields with
  | some text => .ok text
  | none => .error (.serialize "number out of range")

end Settings

end ShardFleet
