import ShardFleet.Network

/-!
# Connection pools

A pool lends connections to one node. At most `maxTotal` of them are lent at a time, at most
`maxIdle` are kept for later, and the one given back last is lent first. A connection that failed is
closed and never lent again. Dedicated connections are made by the pool and take none of its
capacity.
-/

namespace ShardFleet

/-- A connection to a node. -/
structure Connection where
  /-- Its number among all that the pool has made. -/
  id : Nat
  /-- The name of its node. -/
  node : String
  link : Nat
  /-- Whether it lives outside the pool, in which case it is never kept for later. -/
  dedicated : Bool
  /-- Whether it takes up capacity of its pool. -/
  lent : Bool := false
  /-- How many commands it has been given. -/
  commands : Nat := 0
deriving DecidableEq, Repr

namespace Connection

variable {σ : Type} (N : Network σ)

/-- The text that diagnostics show for a connection. -/
def inspect (c : Connection) : String :=
  s!"PooledConnection \x7b id: {c.id}, node: " ++ Text.quoted c.node ++
    s!", dedicated: {c.dedicated}, commands: {c.commands} \x7d"

/-- The connection after one more command. -/
def counted (c : Connection) : Connection := { c with commands := c.commands + 1 }

@[simp] theorem counted_link (c : Connection) : c.counted.link = c.link := rfl

/-- Sends a command and takes its reply. -/
def request (command : Command) (c : Connection) (w : Wire σ) : Outcome Resp.Value × Wire σ :=
  w.request N c.link c.node command

/-- Sends a command. -/
def send (command : Command) (c : Connection) (w : Wire σ) : Except Fault Unit × Wire σ :=
  w.send N c.link c.node command

/-- Takes the next value that arrives. -/
def receive (c : Connection) (w : Wire σ) : Outcome Resp.Value × Wire σ := w.receive N c.link

/-- Closes the connection. -/
def close (c : Connection) (w : Wire σ) : Wire σ := w.close N c.link

end Connection

/-- The connections to one node. -/
structure Pool where
  node : Node
  /-- How many connections are lent. -/
  active : Nat := 0
  /-- The connections kept for later, of which the first was given back last. -/
  idle : List Connection := []
  /-- How many connections have been made. -/
  created : Nat := 0
  /-- How many connections have been thrown away. -/
  evicted : Nat := 0
deriving DecidableEq, Repr

/-- The counters of a pool. -/
structure PoolStats where
  active : Nat
  idle : Nat
  created : Nat
  evicted : Nat
deriving DecidableEq, Repr

namespace Pool

variable {σ : Type} (N : Network σ)

/-- The counters of the pool. -/
def stats (p : Pool) : PoolStats := ⟨p.active, p.idle.length, p.created, p.evicted⟩

/-- Whether no more connections can be lent. -/
def isExhausted (p : Pool) : Bool := p.node.limits.maxTotal ≤ p.active

/-- The pool with the capacity of one connection taken. -/
def claim (p : Pool) : Pool := { p with active := p.active + 1 }

/-- The pool with the capacity of one connection given back. -/
def unclaim (p : Pool) : Pool := { p with active := p.active - 1 }

/-- The pool after the connection `c` is gone: its capacity, if it took any, is given back. -/
def forget (c : Connection) (p : Pool) : Pool := if c.lent then p.unclaim else p

/-- Makes a connection. -/
def connect (dedicated : Bool) (p : Pool) (w : Wire σ) : Outcome Connection × Pool × Wire σ :=
  match w.connect N p.node with
  | (.ok link, w) =>
    (.ok { id := p.created + 1, node := p.node.id, link, dedicated },
      { p with created := p.created + 1 }, w)
  | (.failed f, w) => (.failed f, p, w)
  | (.stalled, w) => (.stalled, p, w)

/-- Makes a connection that lives outside the pool. -/
def openDedicated (p : Pool) (w : Wire σ) : Outcome Connection × Pool × Wire σ :=
  p.connect N true w

/-- Lends a connection, where there is capacity for it: the one given back last, else a new one. If
it cannot be made the capacity is given back; if making it stalls, the capacity stays taken. -/
def lend (p : Pool) (w : Wire σ) : Outcome Connection × Pool × Wire σ :=
  let p := p.claim
  match p.idle with
  | c :: rest => (.ok { c with lent := true }, { p with idle := rest }, w)
  | [] =>
    match p.connect N false w with
    | (.ok c, p, w) => (.ok { c with lent := true }, p, w)
    | (.failed f, p, w) => (.failed f, p.unclaim, w)
    | (.stalled, p, w) => (.stalled, p, w)

/-- The fault of waiting for capacity in vain. -/
def exhaustion (p : Pool) : Fault :=
  .timeout (.borrow p.node.id (.ofMillis p.node.limits.maxWait))

/-- Waits `ms` milliseconds for capacity while nobody else is there to give some back. -/
def starve {α : Type} (ms : Nat) (p : Pool) (w : Wire σ) : Outcome α × Pool × Wire σ :=
  match w.wait ms with
  | (true, w) => (.failed p.exhaustion, p, w)
  | (false, w) => (.stalled, p, w)

/-- Borrows a connection, as `lend` does when there is capacity, and waits for capacity no longer than
`ms` milliseconds. A call that is given up takes none. -/
def borrowWithin (ms : Nat) (p : Pool) (w : Wire σ) : Outcome Connection × Pool × Wire σ :=
  if p.isExhausted then p.starve ms w
  else
    match p.lend N w with
    | (.stalled, p, w) => (.stalled, p.unclaim, w)
    | r => r

/-- Borrows a connection, waiting for capacity as long as the pool's bounds allow. -/
def borrow (p : Pool) (w : Wire σ) : Outcome Connection × Pool × Wire σ :=
  p.borrowWithin N p.node.limits.maxWait w

/-- Takes a healthy connection back. It is kept if there is room and it is not dedicated. -/
def release (c : Connection) (p : Pool) (w : Wire σ) : Pool × Wire σ :=
  let p := p.forget c
  if !c.dedicated && p.idle.length < p.node.limits.maxIdle then
    ({ p with idle := { c with lent := false } :: p.idle }, w)
  else (p, c.close N w)

/-- Borrows a connection while another borrower gives `c` back after `ms` milliseconds, and waits for
the ends of both. The return ends a wait for capacity, unless the wait ended before. When there is no
time for all that, both connections are gone and their capacity is free. -/
def borrowWhile (ms : Nat) (c : Connection) (p : Pool) (w : Wire σ) :
    Outcome Connection × Pool × Wire σ :=
  let moment := w.clock
  let patience := p.node.limits.maxWait
  if p.isExhausted && ms < patience then
    match w.wait ms with
    | (false, w) => (.stalled, p.forget c, w)
    | (true, w) => let (p, w) := p.release N c w; p.borrowWithin N (patience - ms) w
  else
    match p.borrow N w with
    | (.stalled, p, w) => (.stalled, p.forget c, w)
    | (r, p, w) =>
      match w.wait (ms - (w.clock - moment)), r with
      | (true, w), r => let (p, w) := p.release N c w; (r, p, w)
      | (false, w), .ok b => (.stalled, (p.forget b).forget c, w)
      | (false, w), _ => (.stalled, p.forget c, w)

/-- Throws a broken connection away. -/
def evict (c : Connection) (p : Pool) (w : Wire σ) : Pool × Wire σ :=
  ({ p.forget c with evicted := p.evicted + 1 }, c.close N w)

/-- Closes a connection that was borrowed. -/
def closeLent (c : Connection) (p : Pool) (w : Wire σ) : Pool × Wire σ := (p.forget c, c.close N w)

/-- Takes a connection back after a call that ended well or with a fault: only a connection that
the fault does not break is healthy. -/
def settle (fault : Option Fault) (c : Connection) (p : Pool) (w : Wire σ) : Pool × Wire σ :=
  if fault.any (·.breaksConnection) then p.evict N c w else p.release N c w

/-- Runs one command on a connection, where there is capacity for one. If the call stalls, its
connection is gone and the capacity stays taken. -/
def attempt (command : Command) (p : Pool) (w : Wire σ) : Outcome Resp.Value × Pool × Wire σ :=
  match p.lend N w with
  | (.failed f, p, w) => (.failed f, p, w)
  | (.stalled, p, w) => (.stalled, p, w)
  | (.ok c, p, w) =>
    match c.request N command w with
    | (.ok v, w) => let (p, w) := p.settle N none c.counted w; (.ok v, p, w)
    | (.failed f, w) => let (p, w) := p.settle N (some f) c.counted w; (.failed f, p, w)
    | (.stalled, w) => (.stalled, p, w)

/-- Runs one command on a borrowed connection. A call that is given up gives its capacity back,
but not its connection. -/
def run (command : Command) (p : Pool) (w : Wire σ) : Outcome Resp.Value × Pool × Wire σ :=
  if p.isExhausted then p.starve p.node.limits.maxWait w
  else
    match p.attempt N command w with
    | (.stalled, p, w) => (.stalled, p.unclaim, w)
    | r => r

end Pool

end ShardFleet
