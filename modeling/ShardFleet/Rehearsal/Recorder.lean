import ShardFleet.Chain

/-!
# Recorders

A recorder takes the place of all nodes for a chain: it accepts every command and keeps it, except
that for some hosts it has faults in store, each for one command.
-/

namespace ShardFleet.Rehearsal

/-- The faults in store, by host, and the commands so far, by the names of nodes. -/
structure Recorder where
  fails : List (String × Fault) := []
  log : List (String × Command) := []
deriving DecidableEq, Repr

namespace Recorder

/-- Takes the first fault for a host out of the store. -/
def takeFault (host : String) : List (String × Fault) → Option Fault × List (String × Fault)
  | [] => (none, [])
  | e :: rest =>
    if e.1 = host then (some e.2, rest)
    else let (f, rest) := takeFault host rest; (f, e :: rest)

/-- Runs a command. -/
def run : Chain.Runner Recorder := fun node command r =>
  let (fault, fails) := takeFault node.host r.fails
  let r := { fails, log := r.log ++ [(node.id, command)] }
  match fault with
  | some f => (.failed f, r)
  | none => (.ok (.simple "OK"), r)

end Recorder

end ShardFleet.Rehearsal
