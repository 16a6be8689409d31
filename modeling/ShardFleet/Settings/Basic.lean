import ShardFleet.Hashing
import ShardFleet.Node
import ShardFleet.Settings.Fault
import ShardFleet.Text.Blank

/-!
# Settings

What an operator decides: how to connect, how keys are spread, how many connections a node may
have, and which nodes make up which shard. `Settings.violations` lists every bound that settings
break, in the order in which they are reported; settings are valid when the list is empty.
-/

namespace ShardFleet

/-- How connections are made and used. -/
structure ClientSettings where
  /-- How long a connection may take to be made, in milliseconds. -/
  connectTimeout : Nat := 2000
  /-- How long a reply may take, in milliseconds. -/
  readTimeout : Option Nat := some 2000
  /-- How often an idle connection is probed, in seconds. -/
  keepalive : Option Nat := some 60
deriving DecidableEq, Repr

/-- How keys are spread over shards. -/
structure ShardingSettings where
  virtualNodes : Nat := 160
  hashing : Hashing := .md5
  keyTags : Bool := true
deriving DecidableEq, Repr

/-- What is logged, and how. -/
structure LoggingSettings where
  level : String := "info"
  format : String := "text"
deriving DecidableEq, Repr

/-- One node, with the bounds in which it differs from the others. -/
structure NodeSettings where
  host : String
  port : Nat
  password : Option String := none
  database : Nat := 0
  maxTotal : Option Nat := none
  maxIdle : Option Nat := none
  maxWait : Option Nat := none
deriving DecidableEq, Repr

/-- One shard: its nodes in the order of replication, the first of which is the master. -/
structure ShardSettings where
  name : Option String := none
  nodes : List NodeSettings
deriving DecidableEq, Repr

/-- All settings. -/
structure Settings where
  client : ClientSettings := {}
  sharding : ShardingSettings := {}
  pool : PoolLimits := {}
  logging : LoggingSettings := {}
  shards : List ShardSettings
deriving DecidableEq, Repr

/-- The name of a node. -/
def NodeSettings.id (n : NodeSettings) : String := nodeId n.host n.port n.database

/-- The bounds of a node's pool: its own where it has them. -/
def NodeSettings.limits (defaults : PoolLimits) (n : NodeSettings) : PoolLimits where
  maxTotal := n.maxTotal.getD defaults.maxTotal
  maxIdle := n.maxIdle.getD defaults.maxIdle
  maxWait := n.maxWait.getD defaults.maxWait

/-- The node that settings describe. -/
def NodeSettings.toNode (defaults : PoolLimits) (n : NodeSettings) : Node where
  host := n.host
  port := n.port
  password := n.password
  database := n.database
  limits := n.limits defaults

/-- The name of the shard with an index: its own, or one made from the index. -/
def ShardSettings.title (index : Nat) (s : ShardSettings) : String := s.name.getD s!"shard-{index}"

namespace Settings

/-- Settings that an empty document stands for: one shard on this machine. -/
def standard : Settings := { shards := [{ nodes := [{ host := "127.0.0.1", port := 6379 }] }] }

/-- How many nodes there are in all shards. -/
def nodeCount (s : Settings) : Nat := (s.shards.flatMap (·.nodes)).length

/-! ### Validity -/

/-- The violation `v` where a condition holds. -/
def violation (condition : Bool) (v : Violation) : List Violation := if condition then [v] else []

/-- The violations of a pool's bounds. -/
def limitViolations (l : PoolLimits) : List Violation :=
  violation (l.maxTotal = 0) .zeroMaxTotal ++ violation (l.maxTotal < l.maxIdle) .idleAboveTotal ++
    violation (l.maxWait = 0) .zeroMaxWait

/-- The violations of a node of the shard with index `shard`, where `seen` are the names of the
nodes before it. -/
def nodeViolations (defaults : PoolLimits) (shard : Nat) (seen : List String) (n : NodeSettings) :
    List Violation :=
  violation (Text.allBlank n.host) (.blankHost shard) ++ violation (n.port = 0) (.zeroPort n.id) ++
    violation (seen.contains n.id) (.duplicateNode n.id) ++ limitViolations (n.limits defaults)

/-- The violations of a shard's nodes. -/
def nodesViolations (defaults : PoolLimits) (shard : Nat) :
    List String → List NodeSettings → List Violation
  | _, [] => []
  | seen, n :: ns =>
    nodeViolations defaults shard seen n ++ nodesViolations defaults shard (n.id :: seen) ns

/-- The violations of shards, of which the first has the index `shard`. -/
def shardsViolations (defaults : PoolLimits) :
    Nat → List String → List ShardSettings → List Violation
  | _, _, [] => []
  | shard, seen, s :: ss =>
    violation s.nodes.isEmpty (.emptyShard shard) ++ nodesViolations defaults shard seen s.nodes ++
      shardsViolations defaults (shard + 1) (s.nodes.map (·.id) ++ seen) ss

/-- The levels of logging. -/
def logLevels : List String := ["error", "warn", "info", "debug", "trace"]

/-- The formats of logging. -/
def logFormats : List String := ["json", "text"]

/-- Every bound that settings break, in the order in which they are reported. -/
def violations (s : Settings) : List Violation :=
  violation (s.client.connectTimeout = 0) .zeroConnectTimeout ++
    violation (s.client.readTimeout = some 0) .zeroReadTimeout ++
    violation (s.sharding.virtualNodes = 0) .zeroVirtualNodes ++
    limitViolations s.pool ++
    violation s.shards.isEmpty .noShards ++
    shardsViolations s.pool 0 [] s.shards ++
    violation (!logLevels.contains s.logging.level) (.logLevel s.logging.level) ++
    violation (!logFormats.contains s.logging.format) (.logFormat s.logging.format)

/-- The settings themselves if they are valid, else the first bound that they break. -/
def check (s : Settings) : Except Violation Settings :=
  match s.violations with
  | [] => .ok s
  | v :: _ => .error v

theorem check_eq_ok_iff {s t : Settings} : s.check = .ok t ↔ s.violations = [] ∧ s = t := by
  unfold check; split <;> simp_all

/-! ### Examples -/

/-- The kinds of example settings. -/
inductive Example where
  /-- Three shards of one node. -/
  | sharded
  /-- One shard of three nodes. -/
  | replicated
deriving DecidableEq, Repr

/-- The kind with a name. -/
def Example.ofName? : String → Option Example
  | "sharded" => some sharded
  | "replicated" => some replicated
  | _ => none

/-- The settings of an example. -/
def Example.settings : Example → Settings
  | sharded => { shards := ["10.0.1.20", "10.0.1.21", "10.0.1.22"].mapIdx fun i host =>
      { name := some s!"shard-{i}", nodes := [{ host, port := 6379 }] } }
  | replicated =>
    let nodes : List NodeSettings :=
      ["10.0.1.30", "10.0.1.31", "10.0.1.32"].map fun host => { host, port := 6379 }
    { shards := [{ name := some "chain", nodes }] }

end Settings

end ShardFleet
