import ShardFleet.Client
import ShardFleet.CommandLine.Arguments
import ShardFleet.CommandLine.Report
import ShardFleet.Settings.Document

/-!
# The program

What each verb does. Files are given by what reading and writing them comes to, the network by a
`Network`, and the user by when the program is interrupted; the program itself is a pure function of
these. A run that follows a subscription has no end of its own: what it has come to when nothing more
arrives can be taken on from there.
-/

namespace ShardFleet.CommandLine

/-- What surrounds the program, over a network with states of type `σ`. -/
structure Surroundings (σ : Type) where
  /-- The bytes of a file, or why it cannot be read. -/
  read : String → Except String Bytes
  /-- Why a file cannot be written, if it cannot. -/
  refusal : String → Option String
  /-- When, from a moment on, the user interrupts the program. -/
  interrupt : σ → (moment : Nat) → Option Nat
  /-- The kind of machine that the program runs on. -/
  machine : String
  /-- How the length of a check is shown. -/
  showTook : Duration → String

/-- A subscription whose messages are being shown. -/
structure Following where
  settings : ClientSettings
  topic : Topic
  subscription : Subscription
  /-- When the program first looked whether the listener still runs. -/
  start : Nat

/-- The report of a run, a file that it writes, and the subscription that it still follows. -/
structure Result where
  report : Report
  file : Option (String × String) := none
  following : Option Following := none

instance : Coe Report Result := ⟨fun r => { report := r }⟩

/-- The path of the settings. -/
def Wishes.path (w : Wishes) : String := (w.find? .config).getD standardPath

/-- The number of a setting. -/
def Wishes.number (w : Wishes) (s : Setting) : Nat := ((w.find? s).bind number?).getD 0

section

variable {σ : Type} (N : ClientSettings → Network σ) (here : Surroundings σ)

/-- Loads the settings from a file. -/
def loadSettings (path : String) : Except Settings.Fault Settings :=
  match here.read path with
  | .error reason => .error (.io reason)
  | .ok bytes => Settings.load bytes

/-- Makes the client that the settings in a file describe, with those that concern its connections. -/
def openClient (path : String) : Except Failure (Client × ClientSettings) :=
  match loadSettings here path with
  | .error f => .error ((Failure.ofSettings f).because ("Failed to load config from " ++ Text.quoted path))
  | .ok s =>
    match Client.build s with
    | .error f => .error ((Failure.ofFault f).because "Failed to build client")
    | .ok client => .ok (client, s.client)

/-- What `view` shows of the client that the settings in a file describe. -/
def withClient (path : String) (view : Client → Report) : Report :=
  match openClient here path with
  | .error f => ({} : Report).fail f
  | .ok (c, _) => view c

/-- What `act` does with the client that the settings in a file describe. -/
def actWithClient (path : String) (act : ClientSettings → Client → Wire σ → Result × Wire σ)
    (w : Wire σ) : Result × Wire σ :=
  match openClient here path with
  | .error f => (({} : Report).fail f, w)
  | .ok (c, settings) => act settings c w

/-- The report of a call that failed or never ended. -/
def unanswered {α : Type} (o : Outcome α) (r : Report) : Report :=
  match o with
  | .failed f => r.fail (.ofFault f)
  | _ => r.endless

/-! ### What the verbs do -/

/-- Shows where a key lives. -/
def route (path key : String) : Report :=
  withClient here path fun c =>
    let bytes := utf8 key
    let shardKey := c.router.shardKey bytes
    ({} : Report).sayAll [
      "Key:       " ++ key,
      "Shard key: " ++ Utf8.lossy shardKey,
      "Hash:      0x" ++ Text.hexPadded 16 (c.router.ring.hash shardKey).toNat,
      s!"Shard:     {c.router.routeIndex bytes} ({(c.shardFor bytes).name})",
      "Master:    " ++ (c.route bytes).id]

/-- The lines that show a shard. -/
def shardLines (index : Nat) (chain : Chain) : List String :=
  s!"Shard {index} ({chain.name}):" ::
    chain.order.mapIdx fun i n => "  " ++ padded 8 (if i = 0 then "master" else "replica") ++ " " ++ n.id

/-- Shows all shards. -/
def nodes (path : String) : Report :=
  withClient here path fun c =>
    ({} : Report).sayAll (c.shards.mapIdx shardLines).flatten

/-- Links a shard anew, with the master of an index. -/
def promote (path : String) (shard index : Nat) : Wire σ → Result × Wire σ :=
  actWithClient here path fun settings c w =>
    match c.shard shard with
    | .error f => (({} : Report).fail (.ofFault f), w)
    | .ok chain =>
      match c.promote (N settings) shard index w with
      | (.ok links, _, w) =>
        (({} : Report).sayAll (s!"Shard {shard} ({chain.name}) relinked:" ::
          links.map fun l => "  " ++ chain.describe l), w)
      | (r, _, w) => (unanswered r {}, w)

/-- A line of the table of nodes. -/
def statusLine (node took created evicted idle : String) : String :=
  padded 28 node ++ " " ++ padded 10 took ++ " " ++ indented 8 created ++ " " ++
    indented 7 evicted ++ " " ++ indented 5 idle

/-- Shows the health of all nodes. -/
def status (path : String) : Wire σ → Result × Wire σ :=
  actWithClient here path fun settings c w =>
    match c.health (N settings) w with
    | (.ok report, c, w) =>
      let lines := (report.zip c.poolStats).map fun (h, _, s) =>
        statusLine h.node.id (here.showTook (.ofMillis h.took)) (toString s.created)
          (toString s.evicted) (toString s.idle) ++ "  " ++ h.health.text
      let r := ({} : Report).sayAll (statusLine "NODE" "LATENCY" "CREATED" "EVICTED" "IDLE" :: lines)
      let unhealthy := report.countP (!·.health.isHealthy)
      (if unhealthy = 0 then r
        else r.fail ⟨s!"{unhealthy} of {report.length} nodes are unhealthy", []⟩, w)
    | (a, _, w) => (unanswered a {}, w)

/-- Shows what a listener calls for. -/
def showCall (r : Report) : Callback → Report
  | .notice (.message channel payload) => r.say ("[" ++ channel ++ "] " ++ Utf8.lossy payload)
  | .notice (.patternMessage pattern channel payload) =>
    r.say ("[" ++ channel ++ " via " ++ pattern ++ "] " ++ Utf8.lossy payload)
  | .notice _ => r
  | .failed f => r.warn ("Subscription failed: " ++ f.message)

/-- Shows all calls of a subscription after the first `before`. -/
def showCalls (before : Nat) (s : Subscription) (r : Report) : Report :=
  (s.calls.drop before).foldl showCall r

/-- How often the program looks whether a listener still runs, in milliseconds. -/
def glance : Nat := 200

/-- When the program sees that a listener has ended, having looked first at `start`. -/
def noticed (start ended : Nat) : Nat := start + (ended - start + glance - 1) / glance * glance

/-- Waits until a subscription has ended and reports how. -/
def joinSubscription (N : Network σ) (s : Subscription) (w : Wire σ) (r : Report) :
    Result × Wire σ :=
  let before := s.calls.length
  match s.join N w with
  | (.ok _, s, w) => (showCalls before s r, w)
  | (a, s, w) => (unanswered a (showCalls before s r), w)

/-- Shows messages until the user interrupts the program or the subscription ends. At an interrupt all
names are taken back. -/
def Following.goOn (f : Following) (r : Report) (w : Wire σ) : Result × Wire σ :=
  let N := N f.settings
  let interrupt := here.interrupt w.net f.start
  let (ended, s, w) := f.subscription.run N (fun _ => false) { w with deadline := interrupt }
  let w := w.unlimited
  let r := showCalls f.subscription.calls.length s r
  match ended, interrupt with
  | true, _ =>
    if interrupt.any (· < noticed f.start w.clock) then (r.fail (.ofFault (.session .notActive)), w)
    else joinSubscription N s w r
  | false, none =>
    ({ report := r.endless, following := some { f with subscription := { s with calls := [] } } }, w)
  | false, some _ =>
    match s.leave N f.topic [] w with
    | (.error f, _, w) => (r.fail (.ofFault f), w)
    | (.ok _, s, w) => joinSubscription N s w r

/-- Subscribes and shows what arrives. -/
def subscribe (path : String) (pattern : Bool) (names : List String) :
    Wire σ → Result × Wire σ :=
  actWithClient here path fun settings c w =>
    let topic := if pattern then Topic.patterns else Topic.channels
    let before := c.subscriptions.started.length
    let (a, c, w) := c.subscribe (N settings) topic names w
    let s := c.subscriptions.find? before
    let r := (s.map fun s => showCalls 0 s {}).getD {}
    match a, s with
    | .ok _, some subscription =>
      Following.goOn N here { settings, topic, subscription, start := w.clock }
        (r.say ("Subscribed to " ++ ", ".intercalate names ++ " on " ++ subscription.node.id ++
          ", press Ctrl-C to stop")) w
    | a, _ => (unanswered a r, w)

/-- Writes example settings. -/
def writeExample (mode path : String) : Result :=
  let r := ({} : Report).say ("Generating " ++ mode ++ " configuration file: " ++ Text.quoted path)
  let refuse (f : Settings.Fault) : Result :=
    { report := r.fail ((Failure.ofSettings f).because "Failed to generate config") }
  match Settings.Example.ofName? mode with
  | none => refuse (.invalid .exampleMode)
  | some e =>
    match e.settings.save, here.refusal path with
    | .error f, _ => refuse f
    | .ok _, some reason => refuse (.io reason)
    | .ok text, none => {
      report := r.sayAll ["Configuration file generated successfully!",
        "Edit the file to match your environment and run:",
        "  " ++ programName ++ " nodes --config " ++ Text.quoted path]
      file := some (path, text) }

/-- The lines that show a shard of settings. -/
def settingsLines (index : Nat) (s : ShardSettings) : List String :=
  s!"    {s.title index}: {s.nodes.length} node(s)" :: s.nodes.map fun n => "      " ++ n.id

/-- The word for the kind of a fault of settings. -/
def faultWord : Settings.Fault → String
  | .io _ => "File error"
  | .parse _ => "Parse error"
  | .serialize _ => "Serialization error"
  | .invalid _ => "Validation error"

/-- Says whether settings are valid. -/
def validate (path : String) : Report :=
  let r := ({} : Report).say ("Validating configuration file: " ++ Text.quoted path)
  match loadSettings here path with
  | .error f =>
    ((r.warn "✗ Configuration file validation failed:").warn
      ("  " ++ faultWord f ++ ": " ++ f.detail)).fail (.ofSettings f)
  | .ok s =>
    r.sayAll (["✓ Configuration file is valid", s!"  Shards: {s.shards.length}",
      s!"  Nodes: {s.nodeCount}",
      s!"  Ring: {s.sharding.virtualNodes} virtual nodes per shard, {s.sharding.hashing.title} hashing"]
      ++ (s.shards.mapIdx settingsLines).flatten)

/-- Shows what the program is. -/
def version : Report :=
  ({} : Report).sayAll [programName ++ " v" ++ programVersion,
    "Client-side sharding and replication-chain control for Redis-compatible stores",
    "",
    "Target: " ++ here.machine,
    "",
    "Features:",
    "  • Consistent hashing with virtual nodes and key tags",
    "  • Master promotion and chain relinking per shard",
    "  • Per-context session affinity for WATCH/MULTI/EXEC",
    "  • Dedicated-connection subscriptions"]

/-- Does what a verb asks for. -/
def perform (verb : Verb) (w : Wishes) (wire : Wire σ) : Result × Wire σ :=
  match verb with
  | .route => (route here w.path (w.names.headD ""), wire)
  | .nodes => (nodes here w.path, wire)
  | .promote => promote N here w.path (w.number .shard) (w.number .index) wire
  | .reset => promote N here w.path (w.number .shard) 0 wire
  | .status => status N here w.path wire
  | .subscribe => subscribe N here w.path (w.find? .pattern).isSome w.names wire
  | .config => (writeExample here ((w.find? .mode).getD "") ((w.find? .output).getD ""), wire)
  | .validate => (validate here w.path, wire)
  | .version => (version here, wire)

/-- The report of a run with arguments that make no sense. -/
def misuse : Report where
  stderr := "error: invalid arguments\n\nFor more information, try '--help'.\n"
  code := some 2

/-- Runs the program with its arguments. -/
def run (arguments : List String) (wire : Wire σ) : Result × Wire σ :=
  match readArguments arguments with
  | .run verb wishes => perform N here verb wishes wire
  | .help topic => (({ stdout := helpText topic } : Report), wire)
  | .programVersion => (({} : Report).say (programName ++ " " ++ programVersion), wire)
  | .misuse => (misuse, wire)

end

end ShardFleet.CommandLine
