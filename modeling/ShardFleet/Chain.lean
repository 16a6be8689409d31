import ShardFleet.Network

/-!
# Replication chains

A shard is a chain of nodes: a fixed list, and which of its nodes is the master. The order of
replication is the list rotated so that it begins with the master, and every node after the first
replicates from the one before it. `Link.plan` lists the links that make a chain so.
-/

namespace ShardFleet

/-- One link of a chain, by the indices of nodes. -/
inductive Link where
  /-- The node follows nobody. -/
  | detach (node : Nat)
  | replicate (node master : Nat)
deriving DecidableEq, Repr

namespace Link

/-- The node that is told about the link. -/
def node : Link → Nat
  | detach n => n
  | replicate n _ => n

/-- The links of a chain of `length` nodes with a master, in the order of replication. -/
def plan (length master : Nat) : List Link :=
  if length = 0 then []
  else detach master :: (List.range (length - 1)).map fun i =>
    replicate ((master + i + 1) % length) ((master + i) % length)

theorem length_plan (length master : Nat) : (plan length master).length = length := by
  unfold plan; split
  · next h => simp [h]
  · simp; omega

theorem node_lt_of_mem_plan {length master : Nat} {l : Link} (h : master < length)
    (hl : l ∈ plan length master) : l.node < length := by
  have pos : 0 < length := by omega
  simp only [plan, Nat.ne_of_gt pos, if_false, List.mem_cons, List.mem_map] at hl
  obtain rfl | ⟨i, _, rfl⟩ := hl
  · exact h
  · exact Nat.mod_lt _ pos

end Link

/-- The nodes of a shard and its master. -/
structure Chain where
  name : String
  nodes : List Node
  /-- The index of the master. -/
  master : Nat
  master_lt : master < nodes.length
deriving DecidableEq, Repr

namespace Chain

/-- A chain in configuration order, which needs a node. -/
def build (name : String) (nodes : List Node) : Except Fault Chain :=
  if h : 0 < nodes.length then .ok ⟨name, nodes, 0, h⟩ else .error .emptyChain

/-- The node that is the master. -/
def masterNode (c : Chain) : Node := c.nodes.get ⟨c.master, c.master_lt⟩

/-- The nodes in the order of replication. -/
def order (c : Chain) : List Node := c.nodes.drop c.master ++ c.nodes.take c.master

/-- The text that diagnostics show for a chain. -/
def inspect (c : Chain) : String :=
  "ReplicationChain \x7b name: " ++ Text.quoted c.name ++ ", nodes: [" ++
    String.intercalate ", " (c.nodes.map (Text.quoted ·.id)) ++ "] \x7d"

/-- The node with an index, and the master where there is none. -/
def nodeAt (c : Chain) (index : Nat) : Node := c.nodes.getD index c.masterNode

/-- The command that makes a link. -/
def linkCommand (c : Chain) : Link → Command
  | .detach _ => .of "REPLICAOF" [utf8 "NO", utf8 "ONE"]
  | .replicate _ master =>
    let m := c.nodeAt master
    .of "REPLICAOF" [utf8 m.host, utf8 s!"{m.port}"]

/-- A link in words. -/
def describe (c : Chain) : Link → String
  | .detach node => (c.nodeAt node).id ++ " (master)"
  | .replicate node master => (c.nodeAt node).id ++ " <- " ++ (c.nodeAt master).id

/-- The fault of a master that is no node of the chain. -/
def outOfRange (c : Chain) (index : Nat) : Fault := .masterOutOfRange index c.nodes.length

/-- Makes the node with an index the master without telling any node. -/
def point (c : Chain) (index : Nat) : Except Fault Chain :=
  if h : index < c.nodes.length then .ok { c with master := index, master_lt := h }
  else .error (c.outOfRange index)

variable {τ : Type}

/-- A way to run a command on a node, on a state of type `τ`. -/
abbrev Runner (τ : Type) := Node → Command → τ → Outcome Resp.Value × τ

/-- Makes links one after the other, of which `applied` are made, up to the first that fails. -/
def relink (c : Chain) (run : Runner τ) : Nat → List Link → τ → Outcome Unit × τ
  | _, [], s => (.ok (), s)
  | applied, l :: ls, s =>
    let node := c.nodeAt l.node
    let command := c.linkCommand l
    match run node command s with
    | (.ok _, s) => c.relink run (applied + 1) ls s
    | (.failed f, s) => (.failed (.linkFailed node.id command.text applied f), s)
    | (.stalled, s) => (.stalled, s)

/-- Makes the node with an index the master: all links of the new order are made, and only then the
chain has its new master. Answers the links. -/
def promote (run : Runner τ) (index : Nat) (c : Chain) (s : τ) : Outcome (List Link) × Chain × τ :=
  if h : index < c.nodes.length then
    let links := Link.plan c.nodes.length index
    match c.relink run 0 links s with
    | (.ok _, s) => (.ok links, { c with master := index, master_lt := h }, s)
    | (.failed f, s) => (.failed f, c, s)
    | (.stalled, s) => (.stalled, c, s)
  else (.failed (c.outOfRange index), c, s)

/-- Links the chain in configuration order again, with its first node as the master. -/
def reset (run : Runner τ) (c : Chain) (s : τ) : Outcome (List Link) × Chain × τ :=
  c.promote run 0 s

end Chain

end ShardFleet
