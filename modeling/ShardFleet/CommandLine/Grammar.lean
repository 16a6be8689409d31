/-!
# The words of the command line

What may stand on the command line: the verbs, and for every verb its options and its names. The
reader of arguments and the help texts are both made from this.
-/

namespace ShardFleet.CommandLine

/-- What a verb may be told by an option. -/
inductive Setting where
  | config
  | shard
  | index
  | pattern
  | mode
  | output
deriving DecidableEq, Repr

/-- What the value of an option must be. -/
inductive ValueKind where
  /-- A path, which is not empty. -/
  | path
  /-- A number of sixty-four bits. -/
  | number
  | text
deriving DecidableEq, Repr

/-- An option. -/
structure OptionSpec where
  setting : Setting
  short : Char
  long : String
  /-- What its value must be, if it has one. -/
  value : Option ValueKind
  help : String
  /-- Whether the verb needs it. -/
  needed : Bool := false
  /-- Its value where it is not given. -/
  standard : Option String := none
deriving DecidableEq, Repr

/-- How many names a verb takes. -/
inductive Arity where
  | none
  | one
  | some
deriving DecidableEq, Repr

/-- What the program can be told to do. -/
inductive Verb where
  | route
  | nodes
  | promote
  | reset
  | status
  | subscribe
  | config
  | validate
  | version
deriving DecidableEq, Repr

/-- All verbs, in the order of the help text. -/
def Verb.all : List Verb :=
  [.route, .nodes, .promote, .reset, .status, .subscribe, .config, .validate, .version]

/-- A verb and what it takes. -/
structure VerbSpec where
  name : String
  about : String
  options : List OptionSpec := []
  arity : Arity := .none
  /-- What the names are called and mean. -/
  names : String × String := ("", "")
deriving Repr

/-- The path of the settings where none is given. -/
def standardPath : String := "config/dev.toml"

/-- The option for the path of the settings. -/
def configOption : OptionSpec where
  setting := .config
  short := 'c'
  long := "config"
  value := some .path
  help := "Path to configuration file"
  standard := some standardPath

/-- The option for the shard. -/
def shardOption : OptionSpec where
  setting := .shard
  short := 's'
  long := "shard"
  value := some .number
  help := "Shard index"
  needed := true

/-- What each verb takes. -/
def Verb.spec : Verb → VerbSpec
  | route => {
      name := "route", about := "Show which shard and node own a key", options := [configOption]
      arity := .one, names := ("KEY", "Shard key to route") }
  | nodes => { name := "nodes", about := "List shards and their nodes", options := [configOption] }
  | promote => {
      name := "promote", about := "Promote a node to master of its shard and relink the chain"
      options := [configOption, shardOption, {
        setting := .index, short := 'i', long := "index", value := some .number
        help := "Index of the new master within the shard", needed := true }] }
  | reset => {
      name := "reset"
      about := "Relink a shard in configuration order with its first node as master"
      options := [configOption, shardOption] }
  | status => {
      name := "status", about := "PING every node and show pool counters"
      options := [configOption] }
  | subscribe => {
      name := "subscribe", about := "Print messages published to channels until interrupted"
      options := [configOption, {
        setting := .pattern, short := 'p', long := "pattern", value := none
        help := "Treat the names as patterns" }]
      arity := .some, names := ("CHANNELS", "Channels (or patterns) to subscribe to") }
  | config => {
      name := "config", about := "Generate example configuration files"
      options := [{
        setting := .mode, short := 'm', long := "mode", value := some .text
        help := "Configuration mode (sharded or replicated)", needed := true }, {
        setting := .output, short := 'o', long := "output", value := some .path
        help := "Output file path", needed := true }] }
  | validate => {
      name := "validate", about := "Validate configuration file"
      options := [{ configOption with
        help := "Path to configuration file to validate", needed := true, standard := none }] }
  | version => { name := "version", about := "Show version information" }

/-- The verb with a name. -/
def Verb.ofName? (name : String) : Option Verb := Verb.all.find? (·.spec.name = name)

/-- The name of the program. -/
def programName : String := "shardis"

/-- The version of the program. -/
def programVersion : String := "0.1.0"

/-- What the program is for. -/
def programAbout : String :=
  "Client-side sharding and replication-chain control for Redis-compatible stores"

/-- The verb that shows help texts, and what it is for. -/
def helpVerb : String × String :=
  ("help", "Print this message or the help of the given subcommand(s)")

end ShardFleet.CommandLine
