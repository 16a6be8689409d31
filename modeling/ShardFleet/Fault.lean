import ShardFleet.Resp.Reader
import ShardFleet.Ring
import ShardFleet.Settings.Fault
import ShardFleet.Text.Blank
import ShardFleet.Text.Duration
import ShardFleet.Transaction

/-!
# Faults

Everything that can go wrong with a call, by its cause, and the three questions that the rest of the
library asks of a fault: its wording, its class, and what becomes of the connection it came from.

Each group of causes has a constructor `stated` for a fault that is known by its wording only.
-/

namespace ShardFleet

/-- Why no shard or node can be chosen. -/
inductive RoutingFault where
  | ring (r : Ring.Refusal)
  | noPool (node : String)
  | stated (text : String)
deriving DecidableEq, Repr

/-- The wording of a routing fault. -/
def RoutingFault.message : RoutingFault → String
  | ring r => r.message
  | noPool id => s!"no pool for node {id}"
  | stated t => t

/-- How sessions and subscriptions can be misused. -/
inductive SessionFault where
  | alreadyOpen (context : Nat)
  /-- The context's session lives on another node than the one asked for. -/
  | pinned (context : Nat) (bound asked : String)
  | lostConnection (context : Nat)
  | noSession (command : String)
  | notAllowed (step : Step) (phase : Phase)
  | noKeys
  | noNames (command : String)
  /-- A name that does not live with the first one. -/
  | stray (command name : String) (shard : Nat)
  | notActive
  /-- More acknowledgements than one call can wait for. -/
  | tooManyNames
  | stated (text : String)
deriving DecidableEq, Repr

/-- The name of an execution context. -/
def contextName (context : Nat) : String := s!"ctx-{context}"

/-- The wording of a session fault. -/
def SessionFault.message : SessionFault → String
  | alreadyOpen c => contextName c ++ " already holds an open session"
  | pinned c bound asked => contextName c ++ s!" is pinned to {bound} but the command routes to {asked}"
  | lostConnection c => contextName c ++ " lost its connection"
  | noSession command => s!"{command} without an open session"
  | notAllowed s p => s.word ++ " is not allowed while the session is " ++ p.word
  | noKeys => "WATCH needs at least one key"
  | noNames command => s!"{command} needs at least one name"
  | stray command name shard => s!"{command} names span shards: {name} is not on shard {shard}"
  | notActive => "subscription is no longer active"
  | tooManyNames => "too many channels in one call"
  | stated t => t

/-- How a conversation can leave the protocol. -/
inductive ProtocolFault where
  | frame (f : Resp.Fault)
  | unexpectedFrame (v : Resp.Value)
  | unexpectedEvent (kind : String)
  | endedEarly
  | stated (text : String)
deriving DecidableEq, Repr

/-- The wording of a protocol fault. -/
def ProtocolFault.message : ProtocolFault → String
  | frame f => f.message
  | unexpectedFrame v => "unexpected frame on subscription connection: " ++ v.inspect
  | unexpectedEvent kind => s!"unexpected subscription event `{kind}`"
  | endedEarly => "subscription ended before it was acknowledged"
  | stated t => t

/-- What can take too long. -/
inductive TimeoutFault where
  | borrow (node : String) (wait : Duration)
  | reply (command node : String)
  | stated (operation : String)
deriving DecidableEq, Repr

/-- The wording of what took too long. -/
def TimeoutFault.message : TimeoutFault → String
  | borrow node wait => s!"borrow connection to {node} after " ++ wait.exact
  | reply command node => s!"reply to {command} from {node}"
  | stated op => op

/-- Why a call fails. -/
inductive Fault where
  | routing (f : RoutingFault)
  | emptyChain
  | masterOutOfRange (index length : Nat)
  | unknownShard (index length : Nat)
  /-- A link of a new order was refused after `applied` links had been accepted. -/
  | linkFailed (node link : String) (applied : Nat) (source : Fault)
  /-- The connection to a node is gone, or was never made. -/
  | connection (node reason : String)
  /-- The server rejected a command. -/
  | data (message : String)
  | session (f : SessionFault)
  | settings (f : Settings.Fault)
  | protocol (f : ProtocolFault)
  | timeout (f : TimeoutFault)
  | internal (message : String)
deriving DecidableEq, Repr

namespace Fault

/-- The wording of a refused master index. -/
def masterText (index length : Nat) : String :=
  s!"master index {index} out of range for chain of {length} nodes"

/-- The wording of a refused shard index. -/
def shardText (index length : Nat) : String :=
  s!"shard index {index} out of range for {length} shards"

/-- The wording of a refused link. -/
def linkText (node link : String) (applied : Nat) (source : String) : String :=
  s!"link `{link}` on {node} failed after {applied} applied links: {source}"

/-- The wording of a fault. -/
def message : Fault → String
  | routing f => "Routing error: " ++ f.message
  | emptyChain => "Topology error: replication chain has no nodes"
  | masterOutOfRange i n => "Topology error: " ++ masterText i n
  | unknownShard i n => "Topology error: " ++ shardText i n
  | linkFailed node link applied source =>
    "Topology error: " ++ linkText node link applied source.message
  | connection node reason => s!"Connection to {node} failed: {reason}"
  | data m => "Server error: " ++ m
  | session f => "Session state error: " ++ f.message
  | settings f => "Configuration error: " ++ f.message
  | protocol f => "Protocol error: " ++ f.message
  | timeout f => "Operation timed out: " ++ f.message
  | internal m => "Internal error: " ++ m

/-- What lies behind a fault, from the nearest cause to the last. -/
def causes : Fault → List String
  | emptyChain => ["replication chain has no nodes"]
  | masterOutOfRange i n => [masterText i n]
  | unknownShard i n => [shardText i n]
  | linkFailed node link applied source =>
    linkText node link applied source.message :: source.message :: source.causes
  | connection _ reason => [reason]
  | settings f => [f.message]
  | _ => []

/-- The code that a server's rejection begins with. -/
def dataCode? : Fault → Option String
  | data m => Text.firstWord? m
  | _ => none

/-- Whether the caller may try again on another connection. -/
def isRecoverable : Fault → Bool
  | connection .. | timeout _ | linkFailed .. => true
  | _ => false

/-- What a fault says about the connection it came from. -/
inductive Class where
  /-- The connection is gone. -/
  | connectionFatal
  /-- The server rejected the command and the connection is as good as before. -/
  | dataLevel
  | generic
deriving DecidableEq, Repr

/-- The word for a class. -/
def Class.word : Class → String
  | connectionFatal => "connection-fatal"
  | dataLevel => "data-level"
  | generic => "generic"

/-- The class of a fault. -/
def classify : Fault → Class
  | connection .. | timeout _ => .connectionFatal
  | data _ => .dataLevel
  | _ => .generic

/-- Whether the connection that a fault of this class came from must not be used again. -/
def Class.breaksConnection : Class → Bool
  | dataLevel => false
  | connectionFatal | generic => true

/-- Whether the connection that the fault came from must not be used again. A session on such a
connection is over. -/
def breaksConnection (f : Fault) : Bool := f.classify.breaksConnection

theorem breaksConnection_eq_false_iff {f : Fault} :
    f.breaksConnection = false ↔ ∃ m, f = .data m := by
  cases f <;> simp [breaksConnection, classify, Class.breaksConnection]

/-- How much a fault matters to whoever watches over the program. -/
inductive Severity where
  | critical
  | error
  | warning
  | info
deriving DecidableEq, Repr

/-- The word for a severity. -/
def Severity.word : Severity → String
  | critical => "CRITICAL"
  | error => "ERROR"
  | warning => "WARNING"
  | info => "INFO"

/-- The severity of a fault. -/
def severity : Fault → Severity
  | settings _ | routing _ | internal _ => .critical
  | connection .. | timeout _ => .warning
  | data _ => .info
  | _ => .error

end Fault

end ShardFleet
