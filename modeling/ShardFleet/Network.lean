import ShardFleet.Command
import ShardFleet.Fault
import ShardFleet.Node

/-!
# Networks

A network is anything that can make links to nodes and carry commands and values over them. It is
given by pure functions on a state of its own, so that a scripted network and one of byte streams
serve the same client. Time is a number of milliseconds that only moves while a call waits.

A `Wire` is a network in use: its state, the time, and a trace of all that happened on its links.
-/

namespace ShardFleet

/-- How a call ends. -/
inductive Outcome (α : Type) where
  | ok (a : α)
  | failed (f : Fault)
  /-- The call had not ended when there was no more time for it. -/
  | stalled
deriving DecidableEq, Repr, Inhabited

namespace Outcome

/-- The outcome with its answer changed. -/
def map {α β : Type} (f : α → β) : Outcome α → Outcome β
  | ok a => ok (f a)
  | failed e => failed e
  | stalled => stalled

/-- The outcome of a call that either succeeds or fails. -/
def ofExcept {α : Type} : Except Fault α → Outcome α
  | .ok a => ok a
  | .error e => failed e

/-- How a call ends that makes two calls at the same time and waits for the ends of both. -/
def both {α β : Type} : Outcome α → Outcome β → Outcome (Except Fault α × Except Fault β)
  | stalled, _ => stalled
  | _, stalled => stalled
  | ok a, ok b => ok (.ok a, .ok b)
  | ok a, failed f => ok (.ok a, .error f)
  | failed e, ok b => ok (.error e, .ok b)
  | failed e, failed f => ok (.error e, .error f)

/-- Whether the call succeeded. -/
def isOk {α : Type} : Outcome α → Bool
  | ok _ => true
  | _ => false

end Outcome

/-- What becomes of a command that is to be sent. -/
inductive Sending where
  | sent
  /-- The command went out, and the link broke under it. -/
  | lost (f : Fault)
  /-- The link was broken before. -/
  | refused (f : Fault)
deriving DecidableEq, Repr

/-- A network with states of type `σ`. Links are known by number. A call that waits gets the time at
which it begins and the time at which it is given up, and tells when it ended. -/
structure Network (σ : Type) where
  /-- Makes the link with a number, which is a new one. -/
  connect : (link : Nat) → Node → (now : Nat) → (deadline : Option Nat) → σ → Outcome Unit × Nat × σ
  /-- Sends a command, which never waits. -/
  send : (link : Nat) → Command → (now : Nat) → σ → Sending × σ
  /-- Takes the next value that arrives. -/
  receive : (link : Nat) → (now : Nat) → (deadline : Option Nat) → σ → Outcome Resp.Value × Nat × σ
  /-- Closes a link. -/
  close : (link : Nat) → (now : Nat) → σ → σ
  /-- How long the reply to a command may take, in milliseconds. -/
  patience : Command → Option Nat
  /-- How many values and faults, at most, arrive on a link without anything more being sent. -/
  backlog : (link : Nat) → σ → Nat

/-- The earlier of two deadlines. -/
def earlier : Option Nat → Option Nat → Option Nat
  | none, d => d
  | d, none => d
  | some a, some b => some (min a b)

/-- A reply as the answer of a request: an error is a fault of the request. -/
def Resp.Value.toOutcome : Resp.Value → Outcome Resp.Value
  | .error m => .failed (.data m)
  | v => .ok v

namespace Network

variable {σ : Type} (N : Network σ)

/-- Takes the reply to a command. A wait that exhausts the network's patience is a fault; one that
only ends because the call is given up is not. -/
def receiveReply (link : Nat) (node : String) (c : Command) (now : Nat) (deadline : Option Nat)
    (s : σ) : Outcome Resp.Value × Nat × σ :=
  let limit := (N.patience c).map (now + ·)
  match N.receive link now (earlier limit deadline) s with
  | (.ok v, t, s) => (v.toOutcome, t, s)
  | (.failed f, t, s) => (.failed f, t, s)
  | (.stalled, t, s) =>
    if limit.isSome ∧ earlier limit deadline = limit then
      (.failed (.timeout (.reply c.name node)), t, s)
    else (.stalled, t, s)

/-- Sends a command and takes its reply. -/
def request (link : Nat) (node : String) (c : Command) (now : Nat) (deadline : Option Nat) (s : σ) :
    Outcome Resp.Value × Nat × σ :=
  match N.send link c now s with
  | (.sent, s) => N.receiveReply link node c now deadline s
  | (.lost f, s) => (.failed f, now, s)
  | (.refused f, s) => (.failed f, now, s)

end Network

/-- Something that happened on a link. -/
inductive WireEvent where
  | opened (link : Nat) (node : String)
  | sent (link : Nat) (node : String) (command : Command)
  /-- A request came to its end. -/
  | answered (link : Nat) (command : Command) (result : Outcome Resp.Value)
  | closed (link : Nat)
deriving DecidableEq, Repr

/-- A network in use. -/
structure Wire (σ : Type) where
  net : σ
  clock : Nat := 0
  /-- When calls are given up, if they are at all. -/
  deadline : Option Nat := none
  /-- How many links have been made. They are numbered in this order. -/
  opened : Nat := 0
  /-- What has happened, in order. -/
  trace : List WireEvent := []

namespace Wire

variable {σ : Type} (N : Network σ)

/-- The wire with one more event. -/
def record (w : Wire σ) (e : WireEvent) : Wire σ := { w with trace := w.trace ++ [e] }

/-- Makes a link to a node. -/
def connect (node : Node) (w : Wire σ) : Outcome Nat × Wire σ :=
  match N.connect w.opened node w.clock w.deadline w.net with
  | (.ok _, clock, net) =>
    (.ok w.opened,
      { w with net, clock, opened := w.opened + 1 }.record (.opened w.opened node.id))
  | (.failed f, clock, net) => (.failed f, { w with net, clock })
  | (.stalled, clock, net) => (.stalled, { w with net, clock })

/-- Sends a command on a link to a node. -/
def send (link : Nat) (node : String) (c : Command) (w : Wire σ) : Except Fault Unit × Wire σ :=
  match N.send link c w.clock w.net with
  | (.sent, net) => (.ok (), { w with net }.record (.sent link node c))
  | (.lost f, net) => (.error f, { w with net }.record (.sent link node c))
  | (.refused f, net) => (.error f, { w with net })

/-- Takes the next value from a link, where the wait may end at `limit` already. -/
def receiveBefore (limit : Option Nat) (link : Nat) (w : Wire σ) : Outcome Resp.Value × Wire σ :=
  match N.receive link w.clock (earlier limit w.deadline) w.net with
  | (r, clock, net) => (r, { w with net, clock })

/-- Takes the next value from a link. -/
def receive (link : Nat) (w : Wire σ) : Outcome Resp.Value × Wire σ := w.receiveBefore N none link

/-- Takes the reply to a command. -/
def receiveReply (link : Nat) (node : String) (c : Command) (w : Wire σ) :
    Outcome Resp.Value × Wire σ :=
  match N.receiveReply link node c w.clock w.deadline w.net with
  | (r, clock, net) => (r, { w with net, clock })

/-- Sends a command and takes its reply. -/
def request (link : Nat) (node : String) (c : Command) (w : Wire σ) :
    Outcome Resp.Value × Wire σ :=
  match w.send N link node c with
  | (.error f, w) => (.failed f, w.record (.answered link c (.failed f)))
  | (.ok _, w) =>
    let (r, w) := w.receiveReply N link node c
    (r, w.record (.answered link c r))

/-- Closes a link. -/
def close (link : Nat) (w : Wire σ) : Wire σ :=
  { w with net := N.close link w.clock w.net }.record (.closed link)

/-- Lets time pass, but not beyond the deadline: whether all of it passed. -/
def wait (ms : Nat) (w : Wire σ) : Bool × Wire σ :=
  match w.deadline with
  | some d => if d < w.clock + ms then (false, { w with clock := max w.clock d })
    else (true, { w with clock := w.clock + ms })
  | none => (true, { w with clock := w.clock + ms })

/-- The wire under a deadline `ms` milliseconds from now. -/
def limited (ms : Nat) (w : Wire σ) : Wire σ := { w with deadline := some (w.clock + ms) }

/-- The wire without a deadline. -/
def unlimited (w : Wire σ) : Wire σ := { w with deadline := none }

end Wire

end ShardFleet
