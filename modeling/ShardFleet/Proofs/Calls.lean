import Mathlib
import ShardFleet.Executor

/-!
# Calls and runs

The calls that an executor takes, one after the other, and where a run of them leads. Between two
calls anything may happen on the network and any time may pass: only calls change the pools, the
sessions and the trace.
-/

namespace ShardFleet

/-- A call on an executor. -/
inductive Call where
  | execute (context : Nat) (node : Node) (command : Command)
  /-- Runs a command on a node for no context. -/
  | executeOn (node : Node) (command : Command)
  | begin (context : Nat) (node : Node)
  | endSession (context : Nat)
  | watch (context : Nat) (node : Node) (keys : List Bytes)
  | multi (context : Nat) (node : Node)
  | exec (context : Nat) (node : Node)
  | discard (context : Nat) (node : Node)
  | unwatch (context : Nat) (node : Node)
deriving DecidableEq, Repr

/-- What a call answers. -/
inductive Answer where
  | reply (v : Resp.Value)
  | opened (h : SessionHandle)
  /-- Whether there was a session to end. -/
  | ended (was : Bool)
deriving DecidableEq, Repr

/-- The step of a transaction that a command takes. -/
def Command.step? (c : Command) : Option Step :=
  [Step.watch, .multi, .exec, .discard, .unwatch].find? (·.commandName = c.name)

theorem Step.toUpper_commandName (s : Step) : s.commandName.map Char.toUpper = s.commandName := by
  cases s <;> decide +kernel

theorem Command.step?_of (s : Step) (args : List Bytes) :
    (Command.of s.commandName args).step? = some s := by
  rw [Command.of, s.toUpper_commandName]
  cases s <;> rfl

namespace Call

/-- The context that makes a call, if any does. -/
def context? : Call → Option Nat
  | execute c _ _ | begin c _ | endSession c | watch c _ _ | multi c _ | exec c _ | discard c _
  | unwatch c _ => some c
  | executeOn _ _ => none

/-- The node that a call is for, unless that is left to the session. -/
def node? : Call → Option Node
  | execute _ n _ | executeOn n _ | begin _ n | watch _ n _ | multi _ n | exec _ n | discard _ n
  | unwatch _ n => some n
  | endSession _ => none

/-- The step that a call takes in its context's session, with the arguments of its command. -/
def step? : Call → Option (Step × List Bytes)
  | watch _ _ keys => some (.watch, keys)
  | multi _ _ => some (.multi, [])
  | exec _ _ => some (.exec, [])
  | discard _ _ => some (.discard, [])
  | unwatch _ _ => some (.unwatch, [])
  | _ => none

/-- Whether the command that a caller wrote, if any, takes no step of a transaction. -/
def IsPlain : Call → Prop
  | execute _ _ command | executeOn _ command => command.step? = none
  | _ => True

variable {σ : Type} (N : Network σ)

/-- A reply as the answer of a call. -/
def replied (r : Outcome Resp.Value × Executor × Wire σ) : Outcome Answer × Executor × Wire σ :=
  (r.1.map .reply, r.2)

/-- Makes a call. -/
def run : Call → Executor → Wire σ → Outcome Answer × Executor × Wire σ
  | execute context node command, e, w => replied (e.execute N context node command w)
  | executeOn node command, e, w => replied (e.runPooled N node command w)
  | begin context node, e, w =>
    let (r, e, w) := e.begin N context node w
    (r.map .opened, e, w)
  | endSession context, e, w =>
    let (r, e, w) := e.endSession N context w
    (r.map .ended, e, w)
  | watch context node keys, e, w => replied (e.watch N context node keys w)
  | multi context node, e, w => replied (e.multi N context node w)
  | exec context node, e, w => replied (e.exec N context node w)
  | discard context node, e, w => replied (e.discard N context node w)
  | unwatch context node, e, w => replied (e.unwatch N context node w)

end Call

/-- An executor and the wire that it works on. -/
structure Scene (σ : Type) where
  executor : Executor
  wire : Wire σ

/-- What happens next. -/
inductive Move (σ : Type) where
  | call (c : Call)
  /-- The network and the time change by themselves, and so does the moment at which the next call
  will be given up. -/
  | meanwhile (net : σ) (clock : Nat) (deadline : Option Nat)

namespace Scene

variable {σ : Type} (N : Network σ)

/-- An executor that was never used, over a network. -/
def start (nodes : List Node) (net : σ) : Scene σ := ⟨.ofNodes nodes, { net }⟩

/-- How a call ends that is made now. -/
def outcome (s : Scene σ) (c : Call) : Outcome Answer := (c.run N s.executor s.wire).1

/-- The scene after a call. -/
def afterCall (s : Scene σ) (c : Call) : Scene σ :=
  let (_, e, w) := c.run N s.executor s.wire
  ⟨e, w⟩

/-- The scene after a move. -/
def after (s : Scene σ) : Move σ → Scene σ
  | .call c => s.afterCall N c
  | .meanwhile net clock deadline => { s with wire := { s.wire with net, clock, deadline } }

/-- The scene after some moves. -/
def run (s : Scene σ) (moves : List (Move σ)) : Scene σ := moves.foldl (after N) s

/-- Whether all calls among some moves are brought to their end, and write no step of a transaction
as a command of their own. -/
def Orderly (s : Scene σ) (moves : List (Move σ)) : Prop :=
  ∀ before c, before ++ [.call c] <+: moves →
    c.IsPlain ∧ (s.run N before).outcome N c ≠ .stalled

variable {N}

theorem run_concat (s : Scene σ) (moves : List (Move σ)) (m : Move σ) :
    s.run N (moves ++ [m]) = (s.run N moves).after N m := by
  simp [run, List.foldl_append]

theorem orderly_nil (s : Scene σ) : s.Orderly N [] := by
  intro before c h
  simp at h

theorem orderly_call {s : Scene σ} {c : Call} {moves : List (Move σ)} (hplain : c.IsPlain)
    (hend : s.outcome N c ≠ .stalled) (h : (s.afterCall N c).Orderly N moves) :
    s.Orderly N (.call c :: moves) := by
  intro before d hpre
  cases before with
  | nil =>
    cases (List.cons_prefix_cons.1 hpre).1
    exact ⟨hplain, hend⟩
  | cons m before =>
    obtain ⟨rfl, htail⟩ := List.cons_prefix_cons.1 hpre
    exact h before d htail

theorem Orderly.of_prefix {s : Scene σ} {before moves : List (Move σ)} (h : s.Orderly N moves)
    (hpre : before <+: moves) : s.Orderly N before :=
  fun earlier c hc => h earlier c (hc.trans hpre)

theorem Orderly.last {s : Scene σ} {moves : List (Move σ)} {c : Call}
    (h : s.Orderly N (moves ++ [.call c])) :
    c.IsPlain ∧ (s.run N moves).outcome N c ≠ .stalled :=
  h moves c (List.prefix_refl _)

/-- What holds at the start and is kept by every move holds after every run. -/
theorem run_induction {P : Scene σ → Prop} {s : Scene σ} (h : P s)
    (hstep : ∀ s m, P s → P (s.after N m)) (moves : List (Move σ)) : P (s.run N moves) := by
  induction moves using List.reverseRecOn with
  | nil => exact h
  | append_singleton moves m ih =>
    rw [run_concat]
    exact hstep _ _ ih

end Scene

end ShardFleet
