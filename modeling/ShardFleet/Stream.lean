import ShardFleet.Network
import ShardFleet.Table

/-!
# Byte streams

Turns a network of byte streams into one of commands and values. Commands are written in their one
written form; bytes that arrive are kept until they make a frame, so that a wait given up between two
pieces loses nothing, and bytes that are no frame stay where they are. A new link first logs in and
chooses its database.
-/

namespace ShardFleet

/-- What a reader of a stream gets. -/
inductive Reading where
  | bytes (b : Bytes)
  /-- The other side will write no more. -/
  | ended
  | broken (reason : String)
  /-- Nothing arrived in time. -/
  | nothing
deriving DecidableEq, Repr

/-- A network of byte streams with states of type `σ`. A call that waits gets the time at
which it begins, and a reading the time at which it is given up; both tell when they ended. -/
structure ByteNetwork (σ : Type) where
  /-- Makes the stream with a number to a node, or says why it cannot be made. -/
  dial : (link : Nat) → Node → (now : Nat) → σ → Except String Unit × Nat × σ
  write : (link : Nat) → Bytes → (now : Nat) → σ → Except String Unit × σ
  read : (link : Nat) → (now : Nat) → (deadline : Option Nat) → σ → Reading × Nat × σ
  shutdown : (link : Nat) → (now : Nat) → σ → σ
  /-- How many readings, at most, a stream has left without anything more being written, and how
  many bytes they have. -/
  pending : (link : Nat) → σ → Nat

namespace Stream

/-- A stream of frames: the name of its node, and the bytes that have made no frame yet. -/
structure Link where
  node : String
  buffer : Bytes := []
deriving DecidableEq, Repr

/-- A network of byte streams and the frames of its links. -/
structure State (σ : Type) where
  net : σ
  links : Table Nat Link := ∅

variable {σ : Type} (B : ByteNetwork σ)

/-- The fault of a link that is gone. -/
def gone (node reason : String) : Fault := .connection node reason

/-- The wording for a stream that the other side has ended. -/
def endedReason : String := "connection closed by server"

/-- Takes the next frame of a link, where `fuel` bounds the number of readings. -/
def frame : Nat → (link : Nat) → Link → (now : Nat) → (deadline : Option Nat) → σ →
    Outcome Resp.Value × Link × Nat × σ
  | fuel, link, l, now, deadline, s =>
    match Resp.parse l.buffer with
    | .found v rest => (.ok v, { l with buffer := rest }, now, s)
    | .invalid f => (.failed (.protocol (.frame f)), l, now, s)
    | .incomplete =>
      match fuel with
      | 0 => (.stalled, l, now, s)
      | fuel + 1 =>
        match B.read link now deadline s with
        | (.bytes b, t, s) => frame fuel link { l with buffer := l.buffer ++ b } t deadline s
        | (.ended, t, s) => (.failed (gone l.node endedReason), l, t, s)
        | (.broken reason, t, s) => (.failed (gone l.node reason), l, t, s)
        | (.nothing, t, s) => (.stalled, l, t, s)

/-- The fault of a link that was never made. -/
def unknown : Fault := .internal "no such link"

/-- The network of frames, whose new links say nothing yet. -/
def bare (patience : Option Nat) : Network (State σ) where
  connect link node now _ s :=
    match B.dial link node now s.net with
    | (.ok _, t, net) => (.ok (), t, { net, links := s.links.insert link { node := node.id } })
    | (.error reason, t, net) => (.failed (gone node.id reason), t, { s with net })
  send link c now s :=
    match s.links.find? link with
    | none => (.refused unknown, s)
    | some l =>
      match B.write link c.encode now s.net with
      | (.ok _, net) => (.sent, { s with net })
      | (.error reason, net) => (.lost (gone l.node reason), { s with net })
  receive link now deadline s :=
    match s.links.find? link with
    | none => (.failed unknown, now, s)
    | some l =>
      match frame B (B.pending link s.net + 1) link l now deadline s.net with
      | (r, l, t, net) => (r, t, { net, links := s.links.insert link l })
  close link now s := { s with net := B.shutdown link now s.net }
  patience c := if c.isBlocking then none else patience
  backlog link s :=
    match s.links.find? link with
    | none => 0
    | some l => l.buffer.length + B.pending link s.net + 1

/-- What a new link to a node says: the password, and the database if it is not the first. -/
def greeting (node : Node) : List Command :=
  (node.password.map fun p => Command.of "AUTH" [utf8 p]).toList ++
    if node.database = 0 then [] else [.of "SELECT" [utf8 s!"{node.database}"]]

/-- Sends commands one after the other, each when the one before it was accepted. -/
def greet (N : Network (State σ)) (link : Nat) (node : String) :
    List Command → (now : Nat) → (deadline : Option Nat) → State σ → Outcome Unit × Nat × State σ
  | [], now, _, s => (.ok (), now, s)
  | c :: cs, now, deadline, s =>
    match N.request link node c now deadline s with
    | (.ok _, t, s) => greet N link node cs t deadline s
    | (.failed f, t, s) => (.failed f, t, s)
    | (.stalled, t, s) => (.stalled, t, s)

/-- The network of frames over byte streams, where the reply to a command that does not block may
take `patience` milliseconds. -/
def network (patience : Option Nat) : Network (State σ) :=
  { bare B patience with
    connect := fun link node now deadline s =>
      match (bare B patience).connect link node now deadline s with
      | (.ok _, t, s) => greet (bare B patience) link node.id (greeting node) t deadline s
      | r => r }

end Stream

end ShardFleet
