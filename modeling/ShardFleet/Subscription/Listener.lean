import ShardFleet.Subscription.Notice

/-!
# Listeners

A listener reads the frames of one connection until it ends: quietly when the last subscription is
taken back or nobody holds it any more, with a fault when a frame is none that it can read or the
connection fails. Whoever it serves is called for every message and acknowledgement, and once for the
fault.
-/

namespace ShardFleet

/-- How a listener ends. -/
inductive Ending where
  | quiet
  | failed (f : Fault)
deriving DecidableEq, Repr

/-- What a listener calls for. -/
inductive Callback where
  | notice (n : Notice)
  | failed (f : Fault)
deriving DecidableEq, Repr

/-- A listener and what it knows. -/
structure Listener where
  /-- The number of subscriptions that the server reported last. -/
  subscribed : Nat := 0
  /-- Acknowledgements of new subscriptions that no call has waited for yet. -/
  acks : Nat := 0
  /-- How the listener's loop was left. -/
  ending : Option Ending := none
  /-- What the listener says of itself. -/
  isActive : Bool := true
deriving DecidableEq, Repr

namespace Listener

/-- Whether the listener is in its loop still. -/
def isRunning (l : Listener) : Bool := l.ending.isNone

/-- Ends the listener with a fault. -/
def fail (f : Fault) (l : Listener) : Listener × List Callback :=
  ({ l with ending := some (.failed f) }, [.failed f])

/-- Ends the listener because nobody holds it any more. -/
def abandon (l : Listener) : Listener := { l with ending := some .quiet }

/-- Takes note of a notice. -/
def note (n : Notice) (l : Listener) : Listener × List Callback :=
  match n with
  | .pong => (l, [])
  | .message .. | .patternMessage .. => (l, [.notice n])
  | .joined _ _ count => ({ l with subscribed := count, acks := l.acks + 1 }, [.notice n])
  | .left _ _ count =>
    ({ l with subscribed := count, ending := if count = 0 then some .quiet else l.ending },
      [.notice n])

/-- Takes a frame. -/
def hear (frame : Resp.Value) (l : Listener) : Listener × List Callback :=
  match Notice.ofFrame frame with
  | .ok n => l.note n
  | .error f => l.fail f

end Listener

end ShardFleet
