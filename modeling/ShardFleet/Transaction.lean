/-!
# Transactions on one connection

The five commands that mean something only on the connection that received the ones before them,
and the phase that they put a session in.
-/

namespace ShardFleet

/-- What a session's connection holds on the server. -/
inductive Phase where
  /-- Nothing yet. -/
  | opened
  /-- Watched keys. -/
  | watching
  /-- A transaction whose commands are being queued. -/
  | queued
deriving DecidableEq, Repr

/-- The word that messages use for a phase. -/
def Phase.word : Phase → String
  | opened => "Open"
  | watching => "Watching"
  | queued => "Queued"

/-- A command of a transaction. -/
inductive Step where
  | watch
  | multi
  | exec
  | discard
  | unwatch
deriving DecidableEq, Repr

namespace Step

/-- The word that messages use for a step. -/
def word : Step → String
  | watch => "Watch"
  | multi => "Multi"
  | exec => "Exec"
  | discard => "Discard"
  | unwatch => "Unwatch"

/-- The name of the step's command. -/
def commandName : Step → String
  | watch => "WATCH"
  | multi => "MULTI"
  | exec => "EXEC"
  | discard => "DISCARD"
  | unwatch => "UNWATCH"

/-- Whether the step opens a session where there is none. -/
def opens : Step → Bool
  | watch | multi => true
  | exec | discard | unwatch => false

/-- Whether the session ends with the step. -/
def ends (s : Step) : Bool := !s.opens

/-- Whether the step may be taken in a phase: a queued transaction can only be ended, and only a
queued one can. -/
def allowedIn : Step → Phase → Bool
  | exec, p | discard, p => p = .queued
  | watch, p | multi, p | unwatch, p => p ≠ .queued

/-- The phase after the step is accepted, for the steps after which the session goes on. -/
def nextPhase? : Step → Option Phase
  | watch => some .watching
  | multi => some .queued
  | exec | discard | unwatch => none

end Step

end ShardFleet
