/-!
# What can be wrong with settings

Settings may be out of reach, unreadable, or readable and out of bounds.
-/

namespace ShardFleet.Settings

/-- A bound that settings break. -/
inductive Violation where
  | zeroConnectTimeout
  | zeroReadTimeout
  | zeroVirtualNodes
  | zeroMaxTotal
  | idleAboveTotal
  | zeroMaxWait
  | noShards
  | emptyShard (shard : Nat)
  | blankHost (shard : Nat)
  | zeroPort (node : String)
  | duplicateNode (node : String)
  | logLevel (level : String)
  | logFormat (format : String)
  | exampleMode
  /-- A violation given by its wording. -/
  | stated (text : String)
deriving DecidableEq, Repr

/-- The wording of a violation. -/
def Violation.message : Violation → String
  | zeroConnectTimeout => "connect_timeout_ms must be greater than 0"
  | zeroReadTimeout => "read_timeout_ms must be greater than 0 when set"
  | zeroVirtualNodes => "virtual_nodes must be greater than 0"
  | zeroMaxTotal => "pool max_total must be greater than 0"
  | idleAboveTotal => "pool max_idle cannot exceed max_total"
  | zeroMaxWait => "pool max_wait_ms must be greater than 0"
  | noShards => "at least one shard is required"
  | emptyShard i => s!"shard {i} has no nodes"
  | blankHost i => s!"shard {i} has a node with an empty host"
  | zeroPort id => s!"Invalid port for node {id}"
  | duplicateNode id => s!"Duplicate node: {id}"
  | logLevel l => s!"Invalid log level: {l}"
  | logFormat f => s!"Invalid log format: {f}"
  | exampleMode => "Mode must be 'sharded' or 'replicated'"
  | stated t => t

/-- Why settings cannot be loaded or saved. -/
inductive Fault where
  /-- The file is out of reach. -/
  | io (text : String)
  /-- The file's text is not a document of settings. -/
  | parse (text : String)
  /-- A number is too large for the file's format. -/
  | serialize (text : String)
  | invalid (v : Violation)
deriving DecidableEq, Repr

/-- The wording of a fault without its kind. -/
def Fault.detail : Fault → String
  | io t => t
  | parse t => t
  | serialize t => t
  | invalid v => v.message

/-- The wording of a fault. -/
def Fault.message : Fault → String
  | io t => "IO error: " ++ t
  | parse t => "Parse error: " ++ t
  | serialize t => "Serialize error: " ++ t
  | invalid v => "Validation error: " ++ v.message

end ShardFleet.Settings
