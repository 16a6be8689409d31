import ShardFleet.Pool
import ShardFleet.Subscription.Listener

/-!
# Subscriptions

Every subscription has a dedicated connection with a listener on it. Its holder waits until the server
has acknowledged all names, adds and takes back names, and at the end learns how the listener ended.
A listener that nobody holds any more ends, and one that ends closes its connection.
-/

namespace ShardFleet

/-- A subscription, from the moment its listener is started. -/
structure Subscription where
  node : Node
  connection : Connection
  listener : Listener := {}
  /-- Whether somebody holds the subscription. -/
  held : Bool := true
  /-- Whether a call has been told how the listener ended. -/
  told : Bool := false
  /-- All calls that the listener has made. -/
  calls : List Callback := []
  /-- How often the listener has taken itself off the counter of those that run. -/
  departures : Nat := 0
deriving DecidableEq, Repr

namespace Subscription

variable {σ : Type} (N : Network σ)

/-- What a listener does that has left its loop: it says that it is active no more, takes itself off
the counter of those that run, and closes the connection. -/
def finish (s : Subscription) (w : Wire σ) : Subscription × Wire σ :=
  ({ s with
      listener := { s.listener with isActive := false }
      departures := s.departures + 1 },
    s.connection.close N w)

/-- The subscription after its listener took a step, which may have led out of the loop. -/
def stepped (r : Listener × List Callback) (s : Subscription) (w : Wire σ) : Subscription × Wire σ :=
  let s := { s with listener := r.1, calls := s.calls ++ r.2 }
  if r.1.isRunning then (s, w) else s.finish N w

/-- The command for some names. -/
def command (name : String) (names : List String) : Command := .of name (names.map utf8)

/-- Lets the listener take the next thing that arrives before a deadline: whether something did. -/
def listen (deadline : Option Nat) (s : Subscription) (w : Wire σ) : Bool × Subscription × Wire σ :=
  match w.receiveBefore N deadline s.connection.link with
  | (.ok v, w) => let (s, w) := s.stepped N (s.listener.hear v) w; (true, s, w)
  | (.failed f, w) => let (s, w) := s.stepped N (s.listener.fail f) w; (true, s, w)
  | (.stalled, w) => (false, s, w)

/-- Lets the listener take what has arrived, at most so many things. -/
def drain : Nat → Subscription → Wire σ → Subscription × Wire σ
  | 0, s, w => (s, w)
  | fuel + 1, s, w =>
    if !s.listener.isRunning then (s, w)
    else
      match s.listen N (some w.clock) w with
      | (true, s, w) => drain fuel s w
      | (false, s, w) => (s, w)

/-- Lets the listener take everything that has arrived, and ends it if nobody holds it. -/
def settle (s : Subscription) (w : Wire σ) : Subscription × Wire σ :=
  let (s, w) := s.drain N (N.backlog s.connection.link w.net) w
  if s.listener.isRunning && !s.held then s.stepped N (s.listener.abandon, []) w else (s, w)

/-- Lets the listener run until `enough` holds or it ends: whether it came to that. All that has
arrived is taken before the question is asked. -/
def runUntil (enough : Listener → Bool) : Nat → Subscription → Wire σ → Bool × Subscription × Wire σ
  | 0, s, w => (false, s, w)
  | fuel + 1, s, w =>
    let (s, w) := s.drain N (N.backlog s.connection.link w.net) w
    if !s.listener.isRunning || enough s.listener then (true, s, w)
    else
      match s.listen N none w with
      | (true, s, w) => runUntil enough fuel s w
      | (false, s, w) => (false, s, w)

/-- Lets the listener run until `enough` holds or it ends. -/
def run (enough : Listener → Bool) (s : Subscription) (w : Wire σ) : Bool × Subscription × Wire σ :=
  s.runUntil N enough (N.backlog s.connection.link w.net + 1) w

/-- Sends a command on the subscription's connection. The listener ends if that fails. -/
def send (c : Command) (s : Subscription) (w : Wire σ) : Subscription × Wire σ :=
  match s.connection.send N c w with
  | (.ok _, w) => (s, w)
  | (.error f, w) => s.stepped N (s.listener.fail f) w

/-- How a wait for acknowledgements ends once the listener has: with the fault it ended with, unless
a call was told of that before. -/
def deadEnd (s : Subscription) : Fault :=
  match s.told, s.listener.ending with
  | false, some (.failed f) => f
  | _, _ => .protocol .endedEarly

/-- How many acknowledgements are too many for one call. -/
def ackLimit : Nat := 4294967296

/-- Waits for so many acknowledgements and takes them. -/
def awaitAcks (count : Nat) (s : Subscription) (w : Wire σ) : Outcome Unit × Subscription × Wire σ :=
  if ackLimit ≤ count then (.failed (.session .tooManyNames), s, w)
  else if s.listener.isRunning && count ≤ s.listener.acks then
    (.ok (), { s with listener := { s.listener with acks := s.listener.acks - count } }, w)
  else
    match s.run N (count ≤ ·.acks) w with
    | (false, s, w) => (.stalled, s, w)
    | (true, s, w) =>
      if s.listener.isRunning then
        (.ok (), { s with listener := { s.listener with acks := s.listener.acks - count } }, w)
      else (.failed s.deadEnd, { s with told := true }, w)

/-- What becomes of an attempt to subscribe. -/
structure Started where
  /-- The answer to whoever tried. -/
  outcome : Outcome Unit
  /-- The subscription, if its listener was started. -/
  subscription : Option Subscription

/-- Subscribes to names, of which there must be one, on a new dedicated connection, and waits until
all are acknowledged. -/
def start (topic : Topic) (names : List String) (p : Pool) (w : Wire σ) : Started × Pool × Wire σ :=
  if names.isEmpty then (⟨.failed (.session (.noNames topic.joinCommand)), none⟩, p, w)
  else
    match p.openDedicated N w with
    | (.failed f, p, w) => (⟨.failed f, none⟩, p, w)
    | (.stalled, p, w) => (⟨.stalled, none⟩, p, w)
    | (.ok c, p, w) =>
      match c.send N (command topic.joinCommand names) w with
      | (.error f, w) => (⟨.failed f, none⟩, p, c.close N w)
      | (.ok _, w) =>
        match awaitAcks N names.length { node := p.node, connection := c } w with
        | (.ok _, s, w) => (⟨.ok (), some s⟩, p, w)
        | (r, s, w) =>
          let (s, w) := { s with held := false }.settle N w
          (⟨r, some s⟩, p, w)

/-- Gives a command to the listener, if it still runs. -/
def control (c : Command) (s : Subscription) (w : Wire σ) : Except Fault Unit × Subscription × Wire σ :=
  if s.listener.isRunning then let (s, w) := s.send N c w; (.ok (), s, w)
  else (.error (.session .notActive), s, w)

/-- Adds names to the subscription and waits until all are acknowledged. Acknowledgements that came
unasked count. -/
def extend (topic : Topic) (names : List String) (s : Subscription) (w : Wire σ) :
    Outcome Unit × Subscription × Wire σ :=
  if names.isEmpty then (.ok (), s, w)
  else if !s.listener.isRunning then (.failed (.session .notActive), s, w)
  else
    let c := command topic.joinCommand names
    if names.length ≤ s.listener.acks then
      let (r, s, w) := s.awaitAcks N names.length w
      let (s, w) := s.send N c w
      (r, s, w)
    else
      let (s, w) := s.send N c w
      s.awaitAcks N names.length w

/-- Takes names back, or all when none is given. -/
def leave (topic : Topic) (names : List String) (s : Subscription) (w : Wire σ) :
    Except Fault Unit × Subscription × Wire σ :=
  s.control N (command topic.leaveCommand names) w

/-- Lets go of the subscription. -/
def drop (s : Subscription) (w : Wire σ) : Subscription × Wire σ :=
  { s with held := false }.settle N w

/-- Waits until the listener has ended and tells how, unless a call was told before. The holder
lets go of the subscription. -/
def join (s : Subscription) (w : Wire σ) : Outcome Unit × Subscription × Wire σ :=
  if s.told then
    let (s, w) := s.drop N w
    (.ok (), s, w)
  else
    match s.run N (fun _ => false) w with
    | (false, s, w) =>
      let (s, w) := s.drop N w
      (.stalled, s, w)
    | (true, s, w) =>
      let s := { s with held := false, told := true }
      match s.listener.ending with
      | some (.failed f) => (.failed f, s, w)
      | _ => (.ok (), s, w)

end Subscription

end ShardFleet
