import ShardFleet.Chain
import ShardFleet.Health
import ShardFleet.Router
import ShardFleet.Settings.Basic
import ShardFleet.Subscription.Registry

/-!
# The client

A client spreads keys over shards, each of which is a chain of nodes, and runs commands on the master
of the shard that owns a key. Commands with several names run on the one shard that owns all of them,
and a context whose session is open stays on the node where it was opened, whoever is the master now.
-/

namespace ShardFleet

namespace Ring

variable {α : Type}

/-- The ring with the shard of an index changed. -/
def setShard (r : Ring α) (index : Nat) (a : α) : Ring α where
  shards := r.shards.set index a
  virtualNodes := r.virtualNodes
  hashing := r.hashing
  points := r.points
  points_eq := by rw [List.length_set]; exact r.points_eq
  shards_ne_nil := by simpa using r.shards_ne_nil
  virtualNodes_pos := r.virtualNodes_pos

end Ring

/-- A client: its shards, its connections and sessions, and its subscriptions. -/
structure Client where
  router : Router Chain
  executor : Executor
  subscriptions : Subscriptions := {}

namespace Client

variable {σ : Type} (N : Network σ)

/-- The chains of shards, of which the first has the index `index`. -/
def buildChains (limits : PoolLimits) : Nat → List ShardSettings → Except Fault (List Chain)
  | _, [] => .ok []
  | index, s :: ss =>
    match Chain.build (s.title index) (s.nodes.map (·.toNode limits)) with
    | .error f => .error f
    | .ok c => (buildChains limits (index + 1) ss).map (c :: ·)

/-- The client that settings describe, if they are valid. No connection is made. -/
def build (settings : Settings) : Except Fault Client :=
  match settings.check with
  | .error v => .error (.settings (.invalid v))
  | .ok s =>
    match buildChains s.pool 0 s.shards with
    | .error f => .error f
    | .ok chains =>
      match Ring.build chains s.sharding.virtualNodes s.sharding.hashing with
      | .error r => .error (.routing (.ring r))
      | .ok ring => .ok {
          router := { ring, keyTags := s.sharding.keyTags }
          executor := .ofNodes (chains.flatMap (·.nodes)) }

/-- The shards, in order. -/
def shards (c : Client) : List Chain := c.router.ring.shards

/-- What a client is built of: a chain for each shard, and a pool for each of their nodes. -/
theorem parts_of_build {settings : Settings} {client : Client} (h : build settings = .ok client) :
    settings.check = .ok settings ∧ buildChains settings.pool 0 settings.shards = .ok client.shards ∧
      client.executor = .ofNodes (client.shards.flatMap (·.nodes)) := by
  unfold build at h
  repeat' split at h
  all_goals cases h
  rename_i s hcheck _ chains hchains _ ring hring
  obtain ⟨-, rfl⟩ := Settings.check_eq_ok_iff.1 hcheck
  unfold Ring.build at hring
  repeat' split at hring
  all_goals cases hring
  exact ⟨hcheck, hchains, rfl⟩

/-- Every node of every shard, in configuration order. -/
def nodes (c : Client) : List Node := c.shards.flatMap (·.nodes)

/-- The shard with an index. -/
def shard (c : Client) (index : Nat) : Except Fault Chain :=
  match c.shards[index]? with
  | some chain => .ok chain
  | none => .error (.unknownShard index c.shards.length)

/-- The client with the shard of an index changed. -/
def setShard (c : Client) (index : Nat) (chain : Chain) : Client :=
  { c with router := { c.router with ring := c.router.ring.setShard index chain } }

/-- The shard that owns a key. -/
def shardFor (c : Client) (key : Bytes) : Chain := c.router.route key

/-- The node to which commands for a key go. -/
def route (c : Client) (key : Bytes) : Node := (c.shardFor key).masterNode

/-- The node to which a command with several names goes, if one shard owns all of them. -/
def routeTogether (c : Client) (command : String) (names : List Bytes) : Except Fault Node :=
  match c.router.together? names with
  | none => .error (.session (.noNames command))
  | some (.error (stray, shard)) => .error (.session (.stray command (Utf8.lossy stray) shard))
  | some (.ok _) => .ok (c.route (names.headD []))

/-- The node to which the step of a transaction goes: the one where the session is. -/
def boundNode (c : Client) (context : Nat) (step : Step) : Except Fault Node :=
  match c.executor.boundNode? context with
  | some node => .ok node
  | none => .error (.session (.noSession step.commandName))

/-- A call on the executor as a call on the client. -/
def lift {α : Type} (c : Client) (r : Outcome α × Executor × Wire σ) :
    Outcome α × Client × Wire σ :=
  (r.1, { c with executor := r.2.1 }, r.2.2)

/-- A call on the executor that needs a node. -/
def onNode {α : Type} (node : Except Fault Node)
    (call : Node → Executor → Wire σ → Outcome α × Executor × Wire σ) (c : Client) (w : Wire σ) :
    Outcome α × Client × Wire σ :=
  match node with
  | .error f => (.failed f, c, w)
  | .ok n => c.lift (call n c.executor w)

/-! ### Commands and sessions -/

/-- Runs a command on the master of the shard that owns a key, or on the context's session. -/
def execute (context : Nat) (key : Bytes) (command : Command) (c : Client) (w : Wire σ) :
    Outcome Resp.Value × Client × Wire σ :=
  c.lift (c.executor.execute N context (c.route key) command w)

/-- Opens a session on the master of the shard that owns a key. -/
def begin (context : Nat) (key : Bytes) (c : Client) (w : Wire σ) :
    Outcome SessionHandle × Client × Wire σ :=
  c.lift (c.executor.begin N context (c.route key) w)

/-- Ends the session that the context of a handle has now: whether it had one. -/
def endSession (handle : SessionHandle) (c : Client) (w : Wire σ) : Outcome Bool × Client × Wire σ :=
  c.lift (c.executor.endSession N handle.context w)

/-- Watches keys that one shard owns. -/
def watch (context : Nat) (keys : List Bytes) (c : Client) (w : Wire σ) :
    Outcome Resp.Value × Client × Wire σ :=
  c.onNode (c.routeTogether "WATCH" keys) (fun n e w => e.watch N context n keys w) w

/-- Begins to queue commands on the master of the shard that owns a key. -/
def multi (context : Nat) (key : Bytes) (c : Client) (w : Wire σ) :
    Outcome Resp.Value × Client × Wire σ :=
  c.lift (c.executor.multi N context (c.route key) w)

/-- Runs the queued commands. -/
def exec (context : Nat) (c : Client) (w : Wire σ) : Outcome Resp.Value × Client × Wire σ :=
  c.onNode (c.boundNode context .exec) (fun n e w => e.exec N context n w) w

/-- Drops the queued commands. -/
def discard (context : Nat) (c : Client) (w : Wire σ) : Outcome Resp.Value × Client × Wire σ :=
  c.onNode (c.boundNode context .discard) (fun n e w => e.discard N context n w) w

/-- Watches nothing any more. -/
def unwatch (context : Nat) (c : Client) (w : Wire σ) : Outcome Resp.Value × Client × Wire σ :=
  c.onNode (c.boundNode context .unwatch) (fun n e w => e.unwatch N context n w) w

/-! ### Replication -/

/-- Runs a command for the chain that is being relinked. -/
def runner : Chain.Runner (Executor × Wire σ) := fun node command (e, w) =>
  match e.runPooled N node command w with
  | (r, e, w) => (r, e, w)

/-- Makes a node the master of a shard and links the shard anew. -/
def promote (shard index : Nat) (c : Client) (w : Wire σ) : Outcome (List Link) × Client × Wire σ :=
  match c.shard shard with
  | .error f => (.failed f, c, w)
  | .ok chain =>
    let (r, chain, e, w) := chain.promote (runner N) index (c.executor, w)
    (r, { c.setShard shard chain with executor := e }, w)

/-- Links a shard in configuration order again. -/
def reset (shard : Nat) (c : Client) (w : Wire σ) : Outcome (List Link) × Client × Wire σ :=
  c.promote N shard 0 w

/-- Makes a node the master of a shard without telling any node. -/
def point (shard index : Nat) (c : Client) : Except Fault Client :=
  match c.shard shard with
  | .error f => .error f
  | .ok chain => (chain.point index).map (c.setShard shard)

/-- The nodes of a shard in the order of replication. -/
def order (shard : Nat) (c : Client) : Except Fault (List Node) := (c.shard shard).map (·.order)

/-! ### Subscriptions -/

/-- Subscribes to names that one shard owns, on the master of that shard. -/
def subscribe (topic : Topic) (names : List String) (c : Client) (w : Wire σ) :
    Outcome Nat × Client × Wire σ :=
  match c.routeTogether topic.joinCommand (names.map utf8) with
  | .error f => (.failed f, c, w)
  | .ok node =>
    match c.executor.pool? node with
    | none => (.failed (Executor.noPool node), c, w)
    | some p =>
      let (r, subscriptions, p, w) := c.subscriptions.start N topic names p w
      (r, { c with subscriptions, executor := c.executor.setPool node.id p }, w)

/-! ### Reports -/

/-- Checks every node. -/
def health (c : Client) (w : Wire σ) : Outcome (List NodeHealth) × Client × Wire σ :=
  let (report, e, w) := Health.checkAll N Health.standardLimit c.nodes c.executor w
  (report, { c with executor := e }, w)

/-- The counters of every pool, in configuration order. -/
def poolStats (c : Client) : List (Node × PoolStats) :=
  c.nodes.filterMap fun n => (c.executor.pool? n).map fun p => (n, p.stats)

end Client

end ShardFleet
