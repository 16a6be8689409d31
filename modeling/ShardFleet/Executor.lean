import ShardFleet.Pool
import ShardFleet.Table

/-!
# Running commands

The executor owns one pool per node and the table of sessions. A session pins one connection to a
context, because the commands of a transaction mean something only on the connection that had the
ones before them; while it is open, all commands of its context go over that connection.

Every way out of a call settles the connection that it used: a healthy one goes back to its pool, one
that a fault breaks is thrown away and ends the session that was pinned to it.
-/

namespace ShardFleet

/-- A connection pinned to a context. -/
structure Session where
  node : Node
  /-- The connection, unless it was taken away. -/
  connection : Option Connection
  phase : Phase := .opened
deriving DecidableEq, Repr

/-- The pools of all nodes and the sessions of all contexts. -/
structure Executor where
  /-- The pools by the names of their nodes. -/
  pools : Table String Pool := ∅
  /-- The sessions by their contexts. -/
  sessions : Table Nat Session := ∅

/-- An open session as its owner knows it: the context and the name of the node. -/
structure SessionHandle where
  context : Nat
  node : String
deriving DecidableEq, Repr

namespace Executor

variable {σ : Type} (N : Network σ)

/-- An executor with a pool for each of some nodes. Of nodes with the same name the last counts. -/
def ofNodes (nodes : List Node) : Executor where
  pools := .ofList (nodes.map fun n => (n.id, { node := n }))

/-- The pool of a node. -/
def pool? (e : Executor) (node : Node) : Option Pool := e.pools.find? node.id

/-- The fault of a node that has no pool. -/
def noPool (node : Node) : Fault := .routing (.noPool node.id)

/-- The executor with the pool of a name changed. -/
def setPool (e : Executor) (id : String) (p : Pool) : Executor :=
  { e with pools := e.pools.insert id p }

/-- The session of a context. -/
def session? (e : Executor) (context : Nat) : Option Session := e.sessions.find? context

/-- The executor with the session of a context changed. -/
def setSession (e : Executor) (context : Nat) (s : Session) : Executor :=
  { e with sessions := e.sessions.insert context s }

/-- The executor without the session of a context. -/
def eraseSession (e : Executor) (context : Nat) : Executor :=
  { e with sessions := e.sessions.erase context }

/-- The node that a context is pinned to. -/
def boundNode? (e : Executor) (context : Nat) : Option Node := (e.session? context).map (·.node)

/-- All sessions in the order of their contexts. -/
def sessionList (e : Executor) : List (Nat × Session) :=
  e.sessions.entries.mergeSort fun a b => a.1 ≤ b.1

/-! ### Reading back what was changed -/

theorem find?_setPool (e : Executor) (id other : String) (p : Pool) :
    (e.setPool id p).pools.find? other = if other = id then some p else e.pools.find? other :=
  Table.find?_insert ..

@[simp] theorem find?_setPool_self (e : Executor) (id : String) (p : Pool) :
    (e.setPool id p).pools.find? id = some p := Table.find?_insert_self ..

@[simp] theorem session?_setPool (e : Executor) (id : String) (p : Pool) (context : Nat) :
    (e.setPool id p).session? context = e.session? context := rfl

@[simp] theorem pools_setSession (e : Executor) (context : Nat) (s : Session) :
    (e.setSession context s).pools = e.pools := rfl

theorem session?_setSession (e : Executor) (context other : Nat) (s : Session) :
    (e.setSession context s).session? other = if other = context then some s else e.session? other :=
  Table.find?_insert ..

@[simp] theorem session?_setSession_self (e : Executor) (context : Nat) (s : Session) :
    (e.setSession context s).session? context = some s := Table.find?_insert_self ..

theorem session?_eraseSession (e : Executor) (context other : Nat) :
    (e.eraseSession context).session? other = if other = context then none else e.session? other :=
  Table.find?_erase ..

@[simp] theorem session?_eraseSession_self (e : Executor) (context : Nat) :
    (e.eraseSession context).session? context = none := Table.find?_erase_self ..

@[simp] theorem setPool_setPool (e : Executor) (id : String) (p q : Pool) :
    (e.setPool id p).setPool id q = e.setPool id q := by
  simp [setPool]

@[simp] theorem setSession_setSession (e : Executor) (context : Nat) (s t : Session) :
    (e.setSession context s).setSession context t = e.setSession context t := by
  simp [setSession]

@[simp] theorem setSession_eraseSession (e : Executor) (context : Nat) (s : Session) :
    (e.eraseSession context).setSession context s = e.setSession context s := by
  simp [setSession, eraseSession]

@[simp] theorem eraseSession_setSession (e : Executor) (context : Nat) (s : Session) :
    (e.setSession context s).eraseSession context = e.eraseSession context := by
  simp [setSession, eraseSession]

theorem eraseSession_of_free {e : Executor} {context : Nat} (h : e.session? context = none) :
    e.eraseSession context = e := by
  simp [eraseSession, Table.erase_of_find?_eq_none h]

/-! ### Giving connections back -/

/-- What a pool does with a connection that it takes back. -/
abbrev GiveBack (σ : Type) := Connection → Pool → Wire σ → Pool × Wire σ

/-- Gives a connection back to the pool of its node. Where there is none it is closed. -/
def giveBack (how : GiveBack σ) (c : Connection) (e : Executor) (w : Wire σ) : Executor × Wire σ :=
  match e.pools.find? c.node with
  | some p => let (p, w) := how c p w; (e.setPool c.node p, w)
  | none => (e, c.close N w)

/-- Gives a healthy connection back. -/
def release (c : Connection) (e : Executor) (w : Wire σ) : Executor × Wire σ :=
  e.giveBack N (Pool.release N) c w

/-- Gives a broken connection back. -/
def evict (c : Connection) (e : Executor) (w : Wire σ) : Executor × Wire σ :=
  e.giveBack N (Pool.evict N) c w

/-- Takes note that a connection is gone. -/
def forget (c : Connection) (e : Executor) : Executor :=
  match e.pools.find? c.node with
  | some p => e.setPool c.node (p.forget c)
  | none => e

/-! ### Single commands -/

/-- Runs a command on a borrowed connection. -/
def runPooled (node : Node) (command : Command) (e : Executor) (w : Wire σ) :
    Outcome Resp.Value × Executor × Wire σ :=
  match e.pool? node with
  | none => (.failed (noPool node), e, w)
  | some p => let (r, p, w) := p.run N command w; (r, e.setPool node.id p, w)

/-- Runs a command on the connection `c` of the session `s`. When it is accepted the session enters
the phase `next`. A fault that breaks the connection ends the session. A call that is given up leaves
the session as it is. -/
def runPinned (context : Nat) (s : Session) (c : Connection) (next : Phase) (command : Command)
    (e : Executor) (w : Wire σ) : Outcome Resp.Value × Executor × Wire σ :=
  let kept := { s with connection := some c.counted }
  match c.request N command w with
  | (.ok v, w) => (.ok v, e.setSession context { kept with phase := next }, w)
  | (.failed f, w) =>
    if f.breaksConnection then
      let (e, w) := (e.eraseSession context).evict N c.counted w
      (.failed f, e, w)
    else (.failed f, e.setSession context kept, w)
  | (.stalled, w) => (.stalled, e.setSession context kept, w)

/-- The fault of asking for another node than the one that a session is pinned to. -/
def elsewhere? (context : Nat) (s : Session) (node : Node) : Option Fault :=
  if s.node.id = node.id then none
  else some (.session (.pinned context s.node.id node.id))

/-- Runs a command for a context: on its pinned connection if it has one, else on a borrowed
one. -/
def execute (context : Nat) (node : Node) (command : Command) (e : Executor) (w : Wire σ) :
    Outcome Resp.Value × Executor × Wire σ :=
  match e.session? context with
  | none => e.runPooled N node command w
  | some s =>
    match elsewhere? context s node, s.connection with
    | some f, _ => (.failed f, e, w)
    | none, none => (.failed (.session (.lostConnection context)), e, w)
    | none, some c => e.runPinned N context s c s.phase command w

/-! ### Opening sessions -/

/-- How far the opening of a session has come. -/
inductive Opening where
  | asked
  /-- The context had no session when the opening began. -/
  | admitted
  | holding (c : Connection)
  | done (r : Outcome SessionHandle)
deriving DecidableEq, Repr

/-- Pins a borrowed connection to a context. If the context was quicker in opening another session,
the connection goes back. -/
def bind (context : Nat) (node : Node) (c : Connection) (e : Executor) (w : Wire σ) :
    Outcome SessionHandle × Executor × Wire σ :=
  match e.session? context with
  | some _ =>
    let (e, w) := e.release N c w
    (.failed (.session (.alreadyOpen context)), e, w)
  | none => (.ok ⟨context, node.id⟩, e.setSession context { node, connection := some c }, w)

/-- The next step of opening a session: the context must not have one, a connection is borrowed, and
it is pinned. Openings may take their steps in any order among each other. -/
def Opening.advance (context : Nat) (node : Node) :
    Opening → Executor → Wire σ → Opening × Executor × Wire σ
  | asked, e, w =>
    match e.pool? node, e.session? context with
    | none, _ => (done (.failed (noPool node)), e, w)
    | some _, some _ => (done (.failed (.session (.alreadyOpen context))), e, w)
    | some _, none => (admitted, e, w)
  | admitted, e, w =>
    match e.pool? node with
    | none => (done (.failed (noPool node)), e, w)
    | some p =>
      match p.borrow N w with
      | (.ok c, p, w) => (holding c, e.setPool node.id p, w)
      | (.failed f, p, w) => (done (.failed f), e.setPool node.id p, w)
      | (.stalled, p, w) => (done .stalled, e.setPool node.id p, w)
  | holding c, e, w => let (r, e, w) := e.bind N context node c w; (done r, e, w)
  | done r, e, w => (done r, e, w)

/-- The answer of an opening that has come to its end. -/
def Opening.answer : Opening → Outcome SessionHandle
  | done r => r
  | _ => .stalled

/-- Opens a session of a context on a node. -/
def begin (context : Nat) (node : Node) (e : Executor) (w : Wire σ) :
    Outcome SessionHandle × Executor × Wire σ :=
  let (o, e, w) := Opening.asked.advance N context node e w
  let (o, e, w) := o.advance N context node e w
  let (o, e, w) := o.advance N context node e w
  (o.answer, e, w)

/-- Whether a pool has a connection to lend at once. -/
def hasIdle (e : Executor) (node : Node) : Bool :=
  (e.pool? node).any fun p => !p.isExhausted && !p.idle.isEmpty

/-- Opens two sessions of one context at the same time. Only making a connection and waiting for
capacity let the other opening run meanwhile: where a connection lies ready the first opening is done
before the second begins, else both are admitted before either borrows. Their waits begin at the same
moment, and the longer one gives the time at which both have ended. -/
def beginTwice (context : Nat) (node : Node) (e : Executor) (w : Wire σ) :
    Outcome (Except Fault SessionHandle × Except Fault SessionHandle) × Executor × Wire σ :=
  if e.hasIdle node then
    let (r, e, w) := e.begin N context node w
    let (s, e, w) := e.begin N context node w
    (r.both s, e, w)
  else
    let moment := w.clock
    let (a, e, w) := Opening.asked.advance N context node e w
    let (b, e, w) := Opening.asked.advance N context node e w
    let (a, e, w) := a.advance N context node e w
    let (a, e, w) := a.advance N context node e w
    let ended := w.clock
    let (b, e, w) := b.advance N context node e { w with clock := moment }
    let (b, e, w) := b.advance N context node e w
    (a.answer.both b.answer, e, { w with clock := max ended w.clock })

/-- Opens a session on a connection of a pool that the executor does not own. It takes no capacity
of the pool to which it will be given back. -/
def beginOutside (context : Nat) (pool : Pool) (e : Executor) (w : Wire σ) :
    Outcome SessionHandle × Executor × Wire σ :=
  match e.session? context with
  | some _ => (.failed (.session (.alreadyOpen context)), e, w)
  | none =>
    match pool.borrow N w with
    | (.ok c, _, w) => e.bind N context pool.node { c with lent := false } w
    | (.failed f, _, w) => (.failed f, e, w)
    | (.stalled, _, w) => (.stalled, e, w)

/-! ### Ending sessions -/

/-- The command that clears what a session holds on its connection. -/
def cleanup? : Phase → Option Command
  | .opened => none
  | .watching => some (.of "UNWATCH" [])
  | .queued => some (.of "DISCARD" [])

/-- Ends the session of a context, if it has one, and gives its connection back as it is. -/
def releaseSession (context : Nat) (e : Executor) (w : Wire σ) : Executor × Wire σ :=
  match (e.session? context).bind (·.connection) with
  | some c => (e.eraseSession context).release N c w
  | none => (e.eraseSession context, w)

/-- Ends the session of a context and clears what it holds on its connection, so that the next
borrower finds it clean: whether there was one. -/
def endSession (context : Nat) (e : Executor) (w : Wire σ) : Outcome Bool × Executor × Wire σ :=
  match e.session? context with
  | none => (.ok false, e, w)
  | some s =>
    let e := e.eraseSession context
    match s.connection, cleanup? s.phase with
    | none, _ => (.ok true, e, w)
    | some c, none => let (e, w) := e.release N c w; (.ok true, e, w)
    | some c, some command =>
      match c.request N command w with
      | (.ok _, w) => let (e, w) := e.release N c.counted w; (.ok true, e, w)
      | (.failed f, w) =>
        let (e, w) := e.giveBack N (Pool.settle N (some f)) c.counted w
        (.ok true, e, w)
      | (.stalled, w) => (.stalled, e.forget c, w)

/-- Takes the session of a context out of the table, with whatever it holds. -/
def unbind (context : Nat) (e : Executor) : Option Session × Executor :=
  (e.session? context, e.eraseSession context)

/-- Throws away the connection of a session, which stays open without one. Answers whether there is
a session, and whether it had a connection. -/
def strip (context : Nat) (e : Executor) (w : Wire σ) : Option Bool × Executor × Wire σ :=
  match e.session? context with
  | none => (none, e, w)
  | some s =>
    match s.connection with
    | none => (some false, e, w)
    | some c =>
      let (e, w) := (e.setSession context { s with connection := none }).evict N c w
      (some true, e, w)

/-! ### Transactions -/

/-- Runs a step of a transaction on the session `s`. A session that the step was to open does not
outlive its failure, and no session outlives the step that ends it. -/
def runStep (context : Nat) (s : Session) (opened : Bool) (step : Step) (command : Command)
    (e : Executor) (w : Wire σ) : Outcome Resp.Value × Executor × Wire σ :=
  if !step.allowedIn s.phase then (.failed (.session (.notAllowed step s.phase)), e, w)
  else
    match s.connection with
    | none => (.failed (.session (.lostConnection context)), e, w)
    | some c =>
      match e.runPinned N context s c (step.nextPhase?.getD s.phase) command w with
      | (.stalled, e, w) => (.stalled, e, w)
      | (r, e, w) =>
        if step.ends || (opened && !r.isOk) then
          let (e, w) := e.releaseSession N context w
          (r, e, w)
        else (r, e, w)

/-- Takes a step of a transaction for a context. A step that opens sessions opens one where there is
none. -/
def take (context : Nat) (node : Node) (step : Step) (args : List Bytes) (e : Executor)
    (w : Wire σ) : Outcome Resp.Value × Executor × Wire σ :=
  let command := Command.of step.commandName args
  match e.session? context with
  | some s =>
    match elsewhere? context s node with
    | some f => (.failed f, e, w)
    | none => e.runStep N context s false step command w
  | none =>
    if !step.opens then (.failed (.session (.noSession command.name)), e, w)
    else
      match e.begin N context node w with
      | (.failed f, e, w) => (.failed f, e, w)
      | (.stalled, e, w) => (.stalled, e, w)
      | (.ok _, e, w) =>
        match e.session? context with
        | some s => e.runStep N context s true step command w
        | none => (.failed (.internal (contextName context ++ " lost its session while opening it")), e, w)

/-- Watches keys, of which there must be one. -/
def watch (context : Nat) (node : Node) (keys : List Bytes) (e : Executor) (w : Wire σ) :
    Outcome Resp.Value × Executor × Wire σ :=
  if keys.isEmpty then (.failed (.session .noKeys), e, w)
  else e.take N context node .watch keys w

/-- Begins to queue commands. -/
def multi (context : Nat) (node : Node) (e : Executor) (w : Wire σ) :
    Outcome Resp.Value × Executor × Wire σ := e.take N context node .multi [] w

/-- Runs the queued commands and ends the session. -/
def exec (context : Nat) (node : Node) (e : Executor) (w : Wire σ) :
    Outcome Resp.Value × Executor × Wire σ := e.take N context node .exec [] w

/-- Drops the queued commands and ends the session. -/
def discard (context : Nat) (node : Node) (e : Executor) (w : Wire σ) :
    Outcome Resp.Value × Executor × Wire σ := e.take N context node .discard [] w

/-- Watches nothing any more and ends the session. -/
def unwatch (context : Nat) (node : Node) (e : Executor) (w : Wire σ) :
    Outcome Resp.Value × Executor × Wire σ := e.take N context node .unwatch [] w

end Executor

end ShardFleet
