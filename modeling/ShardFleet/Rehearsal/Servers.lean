import ShardFleet.Rehearsal.Script
import ShardFleet.Stream

/-!
# Rehearsed servers

Servers in memory, at the other end of byte streams. A server answers the commands that it receives, on
whatever stream, with the replies of its list in turn, and without one as a server would that holds
nothing. A reply may come late, in pieces, or as the last thing that is ever written on its stream.
-/

namespace ShardFleet.Rehearsal

/-- A reply of a server. -/
structure Reply where
  chunks : List Bytes
  /-- How long the server waits before it writes, in milliseconds. -/
  delay : Nat := 0
  /-- How long it waits after each chunk. -/
  gap : Nat := 5
  /-- Whether it writes nothing more on the stream afterwards. -/
  close : Bool := false
  /-- Whether the user interrupts the client afterwards. -/
  interrupt : Bool := false
deriving DecidableEq, Repr

/-- A server: where it listens, what it will reply, and the words of the commands it received. -/
structure Server where
  /-- The port, unless it listens everywhere. -/
  port : Option Nat := none
  replies : List (Option Reply) := []
  received : List (List Bytes) := []
deriving DecidableEq, Repr

/-- A stream as its server sees it. -/
structure Peer where
  server : Nat
  /-- Bytes that make no whole command yet. -/
  inbox : Bytes := []
  /-- When the server has written all its replies. -/
  busyUntil : Nat := 0
  /-- What is on its way to the client, by time: bytes, or the end. -/
  arrivals : List (Nat × Option Bytes) := []
  closed : Bool := false
deriving DecidableEq, Repr

/-- All servers, the streams to them, and since when the user interrupts the client, who goes on until
a server receives another command. -/
structure Servers where
  servers : List Server
  peers : Table Nat Peer := ∅
  interrupt : Option Nat := none

/-- The wording for a stream that nobody accepts. -/
def refusedReason : String := "Connection refused (os error 111)"

/-- The words of a command. -/
def wordsOf : Resp.Value → List Bytes
  | .array items => items.map fun
    | .bulk b => b
    | _ => []
  | _ => []

/-- The reply of a server by itself. -/
def standardReply (words : List Bytes) : Reply :=
  { chunks := [utf8 (if words.headD [] = utf8 "PING" then "+PONG\r\n" else "+OK\r\n")] }

/-- The times of chunks that are written one after the other. -/
def spaced (gap : Nat) : Nat → List Bytes → List (Nat × Option Bytes)
  | _, [] => []
  | t, c :: cs => (t, some c) :: spaced gap (t + gap) cs

/-- Writes a reply at a time to a stream, on which nothing is written after its end. -/
def Peer.write (r : Reply) (now : Nat) (p : Peer) : Peer :=
  let begins := max now p.busyUntil + r.delay
  let ends := begins + r.gap * r.chunks.length
  let arrivals := if p.closed then [] else
    spaced r.gap begins r.chunks ++ if r.close then [(ends, none)] else []
  { p with arrivals := p.arrivals ++ arrivals, busyUntil := ends, closed := p.closed || r.close }

/-- Lets a server receive a command on a stream. -/
def Servers.serve (link : Nat) (now : Nat) (s : Servers) (words : List Bytes) : Servers :=
  match s.peers.find? link with
  | none => s
  | some p =>
    match s.servers[p.server]? with
    | none => s
    | some server =>
      let reply := (server.replies.headD none).getD (standardReply words)
      let p := p.write reply now
      { s with
        servers := s.servers.set p.server
          { server with replies := server.replies.tail, received := server.received ++ [words] }
        peers := s.peers.insert link p
        interrupt := if reply.interrupt then some p.busyUntil else none }

/-- Lets a server receive bytes on a stream. -/
def Servers.receive (link : Nat) (b : Bytes) (now : Nat) (s : Servers) : Servers :=
  match s.peers.find? link with
  | none => s
  | some p =>
    let d := Resp.drain (p.inbox ++ b)
    let s := { s with peers := s.peers.insert link { p with inbox := d.rest } }
    (d.values.map wordsOf).foldl (Servers.serve link now) s

/-- What a reader gets from a stream, and when. -/
def Peer.read (now : Nat) (deadline : Option Nat) (p : Peer) : Reading × Nat × Peer :=
  match p.arrivals with
  | [] => (.nothing, overdue now deadline, p)
  | (t, what) :: rest =>
    if deadline.all (t ≤ ·) || t ≤ now then
      match what with
      | some b => (.bytes b, max now t, { p with arrivals := rest })
      | none => (.ended, max now t, p)
    else (.nothing, overdue now deadline, p)

/-- The streams to the servers. -/
def streams : ByteNetwork Servers where
  dial link node now s :=
    match s.servers.findIdx? (·.port.all (· = node.port)) with
    | some i => (.ok (), now, { s with peers := s.peers.insert link { server := i, busyUntil := now } })
    | none => (.error refusedReason, now, s)
  write link b now s := (.ok (), s.receive link b now)
  read link now deadline s :=
    match s.peers.find? link with
    | none => (.nothing, overdue now deadline, s)
    | some p => match p.read now deadline with
      | (r, t, p) => (r, t, { s with peers := s.peers.insert link p })
  shutdown _ _ s := s
  pending link s :=
    match s.peers.find? link with
    | none => 0
    | some p => p.arrivals.length + (p.arrivals.flatMap fun (_, what) => what.getD []).length

end ShardFleet.Rehearsal
