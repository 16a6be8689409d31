import ShardFleet.Executor

/-!
# Health checks

A check sends `PING` to a node over its pool and expects `PONG` within a limit. All nodes of a report
are checked at the same time, in this order: every check first goes as far as it can, waiting at most
for its own reply; those that found no capacity then wait for it, and when the limit is reached the
capacity that unanswered checks still hold goes to the first of those that are waiting.
-/

namespace ShardFleet

/-- The health of a node. -/
inductive Health where
  | healthy
  | unhealthy (reason : String)
  /-- The check did not end within its limit. -/
  | timeout
deriving DecidableEq, Repr

namespace Health

/-- The text of a report. -/
def text : Health → String
  | healthy => "Healthy"
  | unhealthy reason => "Unhealthy: " ++ reason
  | timeout => "Timeout"

/-- Whether the node is healthy. -/
def isHealthy : Health → Bool
  | healthy => true
  | _ => false

/-- The limit that a check has unless another is asked for, in milliseconds. -/
def standardLimit : Nat := 3000

/-- What the reply to a check says. -/
def ofReply : Resp.Value → Health
  | .simple s =>
    if s = "PONG" then healthy else unhealthy ("Unexpected PING response: " ++ (Resp.Value.simple s).inspect)
  | v => unhealthy ("Unexpected PING response: " ++ v.inspect)

/-- The command of a check. -/
def ping : Command := .of "PING" []

/-- How far a check has come. -/
inductive Probe where
  /-- The check has ended, after so many milliseconds. -/
  | done (h : Health) (took : Nat)
  /-- The check waits for capacity, in vain so far. -/
  | waiting
  /-- The check holds capacity, and its reply has not come within the limit. -/
  | unanswered
deriving DecidableEq, Repr

/-- Where a call that was made for a check, and that took so long, leaves it. -/
def Probe.ofOutcome (took : Nat) : Outcome Resp.Value → Probe
  | .ok v => done (ofReply v) took
  | .failed f => done (unhealthy f.message) took
  | .stalled => unanswered

end Health

/-- What a report says of a node. -/
structure NodeHealth where
  node : Node
  health : Health
  /-- How long the check took, in milliseconds. -/
  took : Nat
deriving DecidableEq, Repr

namespace Health

section

variable {σ : Type} (N : Network σ)

/-- Takes a check of a node as far as it can go. To make a connection takes a moment, which a check
without any time does not have. -/
def start (limit : Nat) (node : Node) (e : Executor) (w : Wire σ) : Probe × Executor × Wire σ :=
  match e.pool? node with
  | none => (.done (unhealthy (Executor.noPool node).message) 0, e, w)
  | some p =>
    if p.isExhausted then (.waiting, e, w)
    else if limit = 0 && p.idle.isEmpty then (.done timeout 0, e, w)
    else
      let moment := w.clock
      let (r, p, w) := p.attempt N ping w
      (.ofOutcome (w.clock - moment) r, e.setPool node.id p, w)

/-- Starts the checks of all nodes at the same moment. Each has its own course of time from there,
and the last to end gives the time at which all have ended. -/
def startAll (limit moment : Nat) :
    List Node → Executor → Wire σ → List Probe × Executor × Wire σ
  | [], e, w => ([], e, w)
  | n :: ns, e, w =>
    let latest := w.clock
    let (probe, e, w) := start N limit n e { w with clock := moment }
    let (probes, e, w) := startAll limit moment ns e { w with clock := max latest w.clock }
    (probe :: probes, e, w)

/-- Ends a check whose limit is reached. A check that held capacity gives it back; one that waited
for capacity is taken further if there is some now, and otherwise its wait for capacity may have ended
before. -/
def finish (limit : Nat) (node : Node) (probe : Probe) (e : Executor) (w : Wire σ) :
    NodeHealth × Executor × Wire σ :=
  match probe, e.pool? node with
  | .done h took, _ => (⟨node, h, took⟩, e, w)
  | .unanswered, none => (⟨node, timeout, limit⟩, e, w)
  | .unanswered, some p => (⟨node, timeout, limit⟩, e.setPool node.id p.unclaim, w)
  | .waiting, none => (⟨node, timeout, limit⟩, e, w)
  | .waiting, some p =>
    let starved := unhealthy p.exhaustion.message
    if p.node.limits.maxWait < limit then (⟨node, starved, p.node.limits.maxWait⟩, e, w)
    else if p.isExhausted then
      (⟨node, if p.node.limits.maxWait = limit then starved else timeout, limit⟩, e, w)
    else
      match p.attempt N ping w with
      | (.ok v, p, w) => (⟨node, ofReply v, limit⟩, e.setPool node.id p, w)
      | (.failed f, p, w) => (⟨node, unhealthy f.message, limit⟩, e.setPool node.id p, w)
      | (.stalled, p, w) => (⟨node, timeout, limit⟩, e.setPool node.id p.unclaim, w)

/-- Ends the checks of all nodes whose limit is reached. -/
def finishAll (limit : Nat) : List (Node × Probe) → Executor → Wire σ →
    List NodeHealth × Executor × Wire σ
  | [], e, w => ([], e, w)
  | (node, probe) :: rest, e, w =>
    let (h, e, w) := finish N limit node probe e w
    let (hs, e, w) := finishAll limit rest e w
    (h :: hs, e, w)

/-- Whether a check ends without its limit being reached, in no more than so many milliseconds. -/
def endsWithin (ms : Nat) (node : Node) : Probe → Bool
  | .done _ _ => true
  | .waiting => node.limits.maxWait ≤ ms
  | .unanswered => false

/-- The executor after checks of some nodes were given up: those that held capacity give it back. -/
def abandonAll (checks : List (Node × Probe)) (e : Executor) : Executor :=
  checks.foldl (fun e (node, probe) =>
    match probe, e.pool? node with
    | .unanswered, some p => e.setPool node.id p.unclaim
    | _, _ => e) e

/-- Checks all nodes at the same time, each within a limit of so many milliseconds. If the whole call
is given up before that limit, a check that has not ended by itself keeps it from answering. -/
def checkAll (limit : Nat) (nodes : List Node) (e : Executor) (w : Wire σ) :
    Outcome (List NodeHealth) × Executor × Wire σ :=
  let outer := w.deadline
  let moment := w.clock
  let (probes, e, w) :=
    startAll N limit moment nodes e { w with deadline := earlier (some (moment + limit)) outer }
  let checks := nodes.zip probes
  if outer.any fun d => d < moment + limit && !checks.all fun (n, c) => endsWithin (d - moment) n c then
    (.stalled, abandonAll checks e, { w with deadline := outer })
  else
    let (report, e, w) := finishAll N limit checks e w
    (.ok report, e, { w with deadline := outer })

end

/-- What is found by a check that ends after `delay` milliseconds, and that finds the node unhealthy
if it has a reason for that. -/
def ofDelay (delay limit : Nat) (reason : Option String) : Health :=
  if limit < delay then timeout
  else match reason with
    | none => healthy
    | some r => unhealthy r

/-- Checks all nodes at the same time by a check that uses no connection and ends after `delay`
milliseconds. -/
def checkAllAfter {σ : Type} (delay limit : Nat) (reason : Option String) (nodes : List Node)
    (w : Wire σ) : Outcome (List NodeHealth) × Wire σ :=
  if nodes.isEmpty then (.ok [], w)
  else
    let took := min delay limit
    match w.wait took with
    | (true, w) => (.ok (nodes.map fun n => ⟨n, ofDelay delay limit reason, took⟩), w)
    | (false, w) => (.stalled, w)

end Health

end ShardFleet
