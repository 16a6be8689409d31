import ShardFleet.Settings.Basic
import ShardFleet.Stream

/-!
# Recorded networks

A network of byte streams that knows what came of the first calls on it. The first call beyond them is
the question that is open: whoever makes calls on a real network has to answer it, and with its answer
the same calls can be made once more and go further. Calls after an open question mean nothing.
-/

namespace ShardFleet.CommandLine

/-- A call on a network of byte streams. -/
inductive StreamCall where
  | dial (link : Nat) (node : Node) (settings : ClientSettings)
  | write (link : Nat) (bytes : Bytes)
  | read (link : Nat) (deadline : Option Nat)
  | shutdown (link : Nat)
deriving Repr

/-- What came of a call. -/
inductive CallResult where
  | done
  | refused (reason : String)
  | read (r : Reading)
deriving DecidableEq, Repr

/-- What came of the first calls, with the time at which each ended. -/
structure Recording where
  results : List (CallResult × Nat) := []
  /-- The first call after those, and the time at which it begins. -/
  question : Option (StreamCall × Nat) := none
  /-- When the user interrupted the program. -/
  interrupted : Option Nat := none
deriving Repr

namespace Recording

/-- What comes of a call, unless that is an open question. -/
def ask (call : StreamCall) (now : Nat) (r : Recording) : Option (CallResult × Nat) × Recording :=
  match r.question, r.results with
  | some _, _ => (none, r)
  | none, [] => (none, { r with question := some (call, now) })
  | none, result :: rest => (some result, { r with results := rest })

/-- What comes of a call that is either done or refused. -/
def attempt (call : StreamCall) (now : Nat) (r : Recording) : Except String Unit × Nat × Recording :=
  match r.ask call now with
  | (some (.refused reason, t), r) => (.error reason, t, r)
  | (some (_, t), r) => (.ok (), t, r)
  | (none, r) => (.error "", now, r)

/-- How many readings a recording has, and how many bytes they have. -/
def size (r : Recording) : Nat :=
  r.results.length + (r.results.flatMap fun
    | (.read (.bytes b), _) => b
    | _ => []).length

/-- The streams of a client with some settings. -/
def streams (settings : ClientSettings) : ByteNetwork Recording where
  dial link node now r := r.attempt (.dial link node settings) now
  write link b now r :=
    let (a, _, r) := r.attempt (.write link b) now
    (a, r)
  read link now deadline r :=
    match r.ask (.read link deadline) now with
    | (some (.read reading, t), r) => (reading, t, r)
    | (some (_, t), r) => (.nothing, t, r)
    | (none, r) => (.nothing, now, r)
  shutdown link now r := (r.ask (.shutdown link) now).2
  pending _ r := r.size + 1

/-- The network of a client with some settings. -/
def network (settings : ClientSettings) : Network (Stream.State Recording) :=
  Stream.network (streams settings) settings.readTimeout

end Recording

end ShardFleet.CommandLine
