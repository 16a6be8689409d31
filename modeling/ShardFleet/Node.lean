import ShardFleet.Text.Duration
import ShardFleet.Text.Utf8

/-!
# Nodes

A node is one server: where it listens, how to log in, which database to use, and how many
connections to it are allowed.
-/

namespace ShardFleet

/-- The bounds of a pool of connections. -/
structure PoolLimits where
  /-- Connections that may be in use at once. -/
  maxTotal : Nat := 8
  /-- Connections that may be kept for later. -/
  maxIdle : Nat := 8
  /-- How long to wait for a connection, in milliseconds. -/
  maxWait : Nat := 1000
deriving DecidableEq, Repr, Inhabited

/-- A server and how to use it. -/
structure Node where
  host : String
  port : Nat
  password : Option String := none
  database : Nat := 0
  limits : PoolLimits := {}
deriving DecidableEq, Repr, Inhabited

/-- The name of a server: its host, port and database. -/
def nodeId (host : String) (port database : Nat) : String := s!"{host}:{port}/{database}"

namespace Node

/-- The node's name, by which pools and messages know it. -/
def id (n : Node) : String := nodeId n.host n.port n.database

/-- Where the node listens. -/
def address (n : Node) : String := s!"{n.host}:{n.port}"

end Node

end ShardFleet
