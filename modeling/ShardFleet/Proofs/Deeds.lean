import ShardFleet.Proofs.Calls

/-!
# What a call does

Every call goes one of a few ways: it is refused, it finds no connection, it borrows one for a single
command, it pins one, it sends a command over the session's connection, or it ends the session. `Deed`
lists these ways with all that each changes, and `Call.deed` says that there are no others. What holds
in every run is then proved of the ways, and not of the code once more.
-/

namespace ShardFleet

variable {σ : Type} {N : Network σ}

/-- Nothing happened on the links: only the network and the time changed. -/
structure Wire.Quiet (w w' : Wire σ) : Prop where
  trace : w'.trace = w.trace
  opened : w'.opened = w.opened

/-- The faults that come from a network itself. -/
inductive Network.Raises (N : Network σ) : Fault → Prop where
  | connecting {link node now deadline s f t s'} :
    N.connect link node now deadline s = (.failed f, t, s') → N.Raises f
  | losing {link c now s f s'} : N.send link c now s = (.lost f, s') → N.Raises f
  | refusing {link c now s f s'} : N.send link c now s = (.refused f, s') → N.Raises f
  | receiving {link now deadline s f t s'} :
    N.receive link now deadline s = (.failed f, t, s') → N.Raises f

/-- What the end of a request says of the connection that it used. -/
inductive Verdict where
  | sound
  | broken
  /-- The request was given up. -/
  | abandoned
deriving DecidableEq, Repr

/-- What the end of a request says of its connection: only a fault that breaks it does. -/
def Outcome.verdict {α : Type} : Outcome α → Verdict
  | ok _ => .sound
  | failed f => if f.breaksConnection then .broken else .sound
  | stalled => .abandoned

/-- A request that came to its end leaves its connection sound unless it broke it. -/
theorem Outcome.sound_of_ended {α : Type} {r : Outcome α} (hv : r.verdict ≠ .broken)
    (hr : r ≠ .stalled) : r.verdict = .sound := by
  cases r with
  | ok a => rfl
  | failed f => simpa [verdict] using hv
  | stalled => exact absurd rfl hr

/-- Only an answer and a rejection leave a connection sound. -/
theorem Outcome.sound_cases {α : Type} {r : Outcome α} (h : r.verdict = .sound) :
    (∃ a, r = .ok a) ∨ ∃ m, r = .failed (.data m) := by
  cases r with
  | ok a => exact .inl ⟨a, rfl⟩
  | failed f =>
    simp only [verdict] at h
    split at h
    · cases h
    · rename_i hf
      obtain ⟨m, rfl⟩ := Fault.breaksConnection_eq_false_iff.1 (Bool.eq_false_iff.2 hf)
      exact .inr ⟨m, rfl⟩
  | stalled => cases h

theorem Outcome.broken_of_failed {α : Type} {f : Fault} (h : ∀ m, f ≠ .data m) :
    (failed f : Outcome α).verdict = .broken := by
  have hbreaks : f.breaksConnection = true := by
    by_contra hn
    obtain ⟨m, rfl⟩ := Fault.breaksConnection_eq_false_iff.1 (Bool.eq_false_iff.2 hn)
    exact h m rfl
  rw [verdict, if_pos hbreaks]

theorem Outcome.unsound_of_failed {α : Type} {f : Fault} (h : ∀ m, f ≠ .data m) :
    (failed f : Outcome α).verdict ≠ .sound := by
  rw [broken_of_failed h]
  exact Verdict.noConfusion

/-! ### Requests -/

theorem Wire.send_trace {link : Nat} {node : String} {c : Command} {w w' : Wire σ}
    {r : Except Fault Unit} (h : w.send N link node c = (r, w')) :
    w'.opened = w.opened ∧
      (w'.trace = w.trace ++ [.sent link node c] ∨ w'.trace = w.trace ∧ r ≠ .ok ()) := by
  unfold Wire.send at h
  split at h <;> cases h <;> simp [Wire.record]

theorem Wire.send_raises {link : Nat} {node : String} {c : Command} {w w' : Wire σ} {f : Fault}
    (h : w.send N link node c = (.error f, w')) : N.Raises f := by
  unfold Wire.send at h
  split at h <;> cases h
  · exact .losing ‹_›
  · exact .refusing ‹_›

theorem Wire.receiveBefore_raises {link : Nat} {deadline : Option Nat} {w w' : Wire σ} {f : Fault}
    (h : w.receiveBefore N deadline link = (.failed f, w')) : N.Raises f := by
  unfold Wire.receiveBefore at h
  rcases hn : N.receive link w.clock (earlier deadline w.deadline) w.net with ⟨r, t, net⟩
  rw [hn] at h
  cases h
  exact .receiving hn

/-- What one request leaves in the trace: its command, unless the link was broken before, and in any
case its end. -/
inductive Connection.Asks (c : Connection) (command : Command) (r : Outcome Resp.Value) :
    List WireEvent → Prop where
  | unsent (failed : r.isOk = false) : c.Asks command r [.answered c.link command r]
  | sent : c.Asks command r [.sent c.link c.node command, .answered c.link command r]

theorem Connection.Asks.split {c : Connection} {command : Command} {r : Outcome Resp.Value}
    {events : List WireEvent} (h : c.Asks command r events) :
    ∃ out, events = out ++ [.answered c.link command r] ∧
      ∀ d ∈ out, d = .sent c.link c.node command := by
  cases h with
  | unsent => exact ⟨[], rfl, by simp⟩
  | sent => exact ⟨[_], rfl, by simp⟩

theorem Connection.request_trace {c : Connection} {command : Command} {w w' : Wire σ}
    {r : Outcome Resp.Value} (h : c.request N command w = (r, w')) :
    w'.opened = w.opened ∧ ∃ events, c.Asks command r events ∧ w'.trace = w.trace ++ events := by
  unfold Connection.request Wire.request at h
  rcases hs : w.send N c.link c.node command with ⟨_ | _, w₁⟩ <;> rw [hs] at h
  · obtain ⟨ho, ht⟩ := Wire.send_trace hs
    cases h
    refine ⟨ho, ?_⟩
    rcases ht with ht | ⟨ht, -⟩
    · exact ⟨_, .sent, by simp [Wire.record, ht]⟩
    · exact ⟨_, .unsent rfl, by simp [Wire.record, ht]⟩
  · obtain ⟨ho, ht⟩ := Wire.send_trace hs
    cases h
    have ht : w₁.trace = w.trace ++ [.sent c.link c.node command] := by simpa using ht
    exact ⟨ho, _, .sent, by simp [Wire.record, ht]⟩

/-- A wait for a reply fails by a fault of the network, a rejection, or the end of patience. -/
theorem Network.receiveReply_fault {link now t : Nat} {node : String} {c : Command}
    {deadline : Option Nat} {s s' : σ} {f : Fault}
    (h : N.receiveReply link node c now deadline s = (.failed f, t, s')) :
    N.Raises f ∨ (∃ m, f = .data m) ∨ ∃ t, f = .timeout t := by
  unfold receiveReply at h
  dsimp only at h
  split at h
  · rename_i v _ _ _
    cases v <;> cases h
    exact .inr (.inl ⟨_, rfl⟩)
  · cases h
    exact .inl (.receiving ‹_›)
  · split at h <;> cases h
    exact .inr (.inr ⟨_, rfl⟩)

/-- A request fails by a fault of the network, a rejection, or the end of patience. -/
theorem Connection.request_fault {c : Connection} {command : Command} {w w' : Wire σ} {f : Fault}
    (h : c.request N command w = (.failed f, w')) :
    N.Raises f ∨ (∃ m, f = .data m) ∨ ∃ t, f = .timeout t := by
  unfold Connection.request Wire.request at h
  split at h
  · rename_i hs
    cases h
    exact .inl (Wire.send_raises hs)
  · rename_i w₁ hs
    simp only [Wire.receiveReply] at h
    rcases hr : N.receiveReply c.link c.node command w₁.clock w₁.deadline w₁.net with ⟨r, t, net⟩
    rw [hr] at h
    cases h
    exact Network.receiveReply_fault hr

/-! ### Borrowing -/

/-- A connection is borrowed from the pool of a name, which has capacity: the one given back last, or a
new one where none is kept. -/
inductive Lends (N : Network σ) (id : String) (e : Executor) (w : Wire σ) :
    Connection → Executor → Wire σ → Prop where
  | kept {p c rest} (pool : e.pools.find? id = some p) (free : p.isExhausted = false)
      (idle : p.idle = c :: rest) :
    Lends N id e w { c with lent := true } (e.setPool id { p.claim with idle := rest }) w
  | made {p link w'} (pool : e.pools.find? id = some p) (free : p.isExhausted = false)
      (idle : p.idle = []) (connect : w.connect N p.node = (.ok link, w')) :
    Lends N id e w { id := p.created + 1, node := p.node.id, link, dedicated := false, lent := true }
      (e.setPool id { p.claim with created := p.created + 1 }) w'

theorem Wire.connect_ok {node : Node} {w w' : Wire σ} {link : Nat}
    (h : w.connect N node = (.ok link, w')) :
    link = w.opened ∧ w'.opened = w.opened + 1 ∧ w'.trace = w.trace ++ [.opened link node.id] := by
  unfold Wire.connect at h
  split at h <;> cases h
  exact ⟨rfl, rfl, rfl⟩

theorem Wire.connect_failed {node : Node} {w w' : Wire σ} {f : Fault}
    (h : w.connect N node = (.failed f, w')) : N.Raises f ∧ w.Quiet w' := by
  unfold Wire.connect at h
  split at h <;> cases h
  rename_i hn
  exact ⟨.connecting hn, rfl, rfl⟩

theorem Wire.connect_stalled {node : Node} {w w' : Wire σ}
    (h : w.connect N node = (.stalled, w')) : w.Quiet w' := by
  unfold Wire.connect at h
  split at h <;> cases h
  exact ⟨rfl, rfl⟩

theorem Wire.wait_quiet {ms : Nat} {w w' : Wire σ} {b : Bool} (h : w.wait ms = (b, w')) :
    w.Quiet w' := by
  unfold Wire.wait at h
  split at h
  · split at h <;> cases h <;> exact ⟨rfl, rfl⟩
  · cases h
    exact ⟨rfl, rfl⟩

theorem Wire.wait_net {ms : Nat} {w w' : Wire σ} {b : Bool} (h : w.wait ms = (b, w')) :
    w'.net = w.net := by
  unfold Wire.wait at h
  split at h
  · split at h <;> cases h <;> rfl
  · cases h
    rfl

/-- The outcome of a call that fails, or is given up where there is no fault. -/
def Outcome.without {α : Type} : Option Fault → Outcome α
  | some f => failed f
  | none => stalled

/-- No connection is borrowed from the pool of a name: because none came back while the call waited, or
because none could be made. There is no fault where the call was given up before. -/
inductive Unlent (N : Network σ) (id : String) (e : Executor) (w : Wire σ) :
    Option Fault → Executor → Wire σ → Prop where
  | exhausted {p ms b w' f?} (pool : e.pools.find? id = some p) (full : p.isExhausted = true)
      (wait : w.wait ms = (b, w')) (cause : ∀ f ∈ f?, f = p.exhaustion) :
    Unlent N id e w f? (e.setPool id p) w'
  | unmade {p w' f?} (pool : e.pools.find? id = some p) (free : p.isExhausted = false)
      (idle : p.idle = []) (connect : w.connect N p.node = (.without f?, w')) :
    Unlent N id e w f? (e.setPool id p) w'

/-- Where no connection is borrowed the pools and the links stay as they are. -/
theorem Unlent.quiet {id : String} {e e' : Executor} {w w' : Wire σ} {f? : Option Fault}
    (h : Unlent N id e w f? e' w') :
    ∃ p, e.pools.find? id = some p ∧ e' = e.setPool id p ∧ w.Quiet w' := by
  cases h with
  | exhausted hp _ hw => exact ⟨_, hp, rfl, Wire.wait_quiet hw⟩
  | @unmade p _ f? hp _ _ hw =>
    cases f? with
    | none => exact ⟨p, hp, rfl, Wire.connect_stalled hw⟩
    | some f => exact ⟨p, hp, rfl, (Wire.connect_failed hw).2⟩

theorem Unlent.cause {id : String} {e e' : Executor} {w w' : Wire σ} {f : Fault}
    (h : Unlent N id e w (some f) e' w') : N.Raises f ∨ ∃ p : Pool, f = p.exhaustion := by
  cases h with
  | exhausted _ _ _ cause => exact .inr ⟨_, cause f rfl⟩
  | unmade _ _ _ hw => exact .inl (Wire.connect_failed hw).1

/-- A pool with capacity lends what it keeps, or else what it makes. -/
theorem Pool.lend_ways {p p' : Pool} {w w' : Wire σ} {r : Outcome Connection}
    (h : p.lend N w = (r, p', w')) :
    (∃ c rest, p.idle = c :: rest ∧ r = .ok { c with lent := true } ∧
      p' = { p.claim with idle := rest } ∧ w' = w) ∨
    p.idle = [] ∧
    ((∃ link, r = .ok { id := p.created + 1, node := p.node.id, link, dedicated := false, lent := true } ∧
        w.connect N p.node = (.ok link, w') ∧ p' = { p.claim with created := p.created + 1 }) ∨
      (∃ f, r = .failed f ∧ w.connect N p.node = (.failed f, w') ∧ p' = p) ∨
      (r = .stalled ∧ w.connect N p.node = (.stalled, w') ∧ p' = p.claim)) := by
  unfold Pool.lend at h
  cases hi : p.idle with
  | cons c rest =>
    simp only [Pool.claim, hi] at h
    cases h
    exact .inl ⟨c, rest, rfl, rfl, rfl, rfl⟩
  | nil =>
    simp only [Pool.claim, hi, Pool.connect] at h
    rcases hc : w.connect N p.node with ⟨link | f | _, w₁⟩ <;> simp only [hc] at h <;> cases h
    · exact .inr ⟨rfl, .inl ⟨link, rfl, rfl, by simp [Pool.claim, hi]⟩⟩
    · exact .inr ⟨rfl, .inr (.inl ⟨f, rfl, rfl, by simp [Pool.unclaim, ← hi]⟩)⟩
    · exact .inr ⟨rfl, .inr (.inr ⟨rfl, rfl, by simp [Pool.claim, ← hi]⟩)⟩

/-- A pool with capacity lends a connection, unless a new one is needed and cannot be made. -/
theorem Pool.lend_cases {e : Executor} {id : String} {p p' : Pool} {w w' : Wire σ}
    {r : Outcome Connection} (hp : e.pools.find? id = some p) (hf : p.isExhausted = false)
    (h : p.lend N w = (r, p', w')) :
    (∃ c, r = .ok c ∧ Lends N id e w c (e.setPool id p') w') ∨
    p.idle = [] ∧
    ((∃ f, r = .failed f ∧ w.connect N p.node = (.failed f, w') ∧ p' = p) ∨
      (r = .stalled ∧ w.connect N p.node = (.stalled, w') ∧ p' = p.claim)) := by
  obtain ⟨c, rest, hi, rfl, rfl, rfl⟩ | ⟨hi, ⟨link, rfl, hw, rfl⟩ | hnone⟩ := Pool.lend_ways h
  · exact .inl ⟨_, rfl, .kept hp hf hi⟩
  · exact .inl ⟨_, rfl, .made hp hf hi hw⟩
  · exact .inr ⟨hi, hnone⟩

theorem Pool.starve_unlent {e : Executor} {id : String} {α : Type} {p p' : Pool} {w w' : Wire σ}
    {ms : Nat} {r : Outcome α} (hp : e.pools.find? id = some p) (hf : p.isExhausted = true)
    (h : p.starve ms w = (r, p', w')) :
    ∃ f?, r = .without f? ∧ Unlent N id e w f? (e.setPool id p') w' := by
  unfold Pool.starve at h
  rcases hw : w.wait ms with ⟨_ | _, w₁⟩ <;> simp only [hw] at h <;> cases h
  · exact ⟨none, rfl, .exhausted hp hf hw (by simp)⟩
  · exact ⟨some p.exhaustion, rfl, .exhausted hp hf hw (by simp)⟩

theorem Pool.borrow_cases {e : Executor} {id : String} {p p' : Pool} {w w' : Wire σ}
    {r : Outcome Connection} (hp : e.pools.find? id = some p) (h : p.borrow N w = (r, p', w')) :
    (∃ c, r = .ok c ∧ Lends N id e w c (e.setPool id p') w') ∨
    (∃ f?, r = .without f? ∧ Unlent N id e w f? (e.setPool id p') w') := by
  unfold Pool.borrow Pool.borrowWithin at h
  split at h
  · exact .inr (Pool.starve_unlent hp ‹_› h)
  · rename_i hf
    rcases hl : p.lend N w with ⟨r₁, p₁, w₁⟩
    obtain ⟨c, rfl, hc⟩ | ⟨hi, ⟨f, rfl, hw, rfl⟩ | ⟨rfl, hw, rfl⟩⟩ :=
      Pool.lend_cases hp (by simpa using hf) hl <;> simp only [hl] at h <;> cases h
    · exact .inl ⟨c, rfl, hc⟩
    · exact .inr ⟨some f, rfl, .unmade hp (by simpa using hf) hi hw⟩
    · exact .inr ⟨none, rfl, .unmade (p := p) hp (by simpa using hf) hi hw⟩

/-! ### Giving back -/

/-- A connection goes back to its pool: it is kept, or closed because enough are kept, if it is
sound, thrown away if it is broken, and lost if its request was given up. -/
inductive Settles (N : Network σ) (c : Connection) (e : Executor) (w : Wire σ) :
    Verdict → Executor → Wire σ → Prop where
  | kept {p} (pool : e.pools.find? c.node = some p) (shared : c.dedicated = false)
      (room : p.idle.length < p.node.limits.maxIdle) :
    Settles N c e w .sound
      (e.setPool c.node { p.forget c with idle := { c with lent := false } :: p.idle }) w
  | surplus {p} (pool : e.pools.find? c.node = some p)
      (full : c.dedicated = true ∨ p.node.limits.maxIdle ≤ p.idle.length) :
    Settles N c e w .sound (e.setPool c.node (p.forget c)) (c.close N w)
  | evicted {p} (pool : e.pools.find? c.node = some p) :
    Settles N c e w .broken
      (e.setPool c.node { p.forget c with evicted := p.evicted + 1 }) (c.close N w)
  | lost {p} (pool : e.pools.find? c.node = some p) :
    Settles N c e w .abandoned (e.setPool c.node (p.forget c)) w

@[simp] theorem Pool.forget_idle (c : Connection) (p : Pool) : (p.forget c).idle = p.idle := by
  unfold Pool.forget
  split <;> rfl

@[simp] theorem Pool.forget_node (c : Connection) (p : Pool) : (p.forget c).node = p.node := by
  unfold Pool.forget
  split <;> rfl

@[simp] theorem Pool.forget_created (c : Connection) (p : Pool) :
    (p.forget c).created = p.created := by
  unfold Pool.forget
  split <;> rfl

theorem Pool.forget_evicted (c : Connection) (p : Pool) : (p.forget c).evicted = p.evicted := by
  unfold Pool.forget
  split <;> rfl

theorem Executor.release_settles {c : Connection} {e : Executor} {p : Pool} {w : Wire σ}
    (hp : e.pools.find? c.node = some p) :
    Settles N c e w .sound (e.release N c w).1 (e.release N c w).2 := by
  simp only [Executor.release, Executor.giveBack, hp, Pool.release, Pool.forget_idle]
  split
  · rename_i h
    simp only [Pool.forget_node, Bool.and_eq_true, Bool.not_eq_true', decide_eq_true_eq] at h
    exact .kept hp h.1 h.2
  · rename_i h
    simp only [Pool.forget_node, Bool.and_eq_true, Bool.not_eq_true', decide_eq_true_eq, not_and_or,
      Bool.not_eq_false, Nat.not_lt] at h
    exact .surplus hp h

theorem Executor.evict_settles {c : Connection} {e : Executor} {p : Pool} {w : Wire σ}
    (hp : e.pools.find? c.node = some p) :
    Settles N c e w .broken (e.evict N c w).1 (e.evict N c w).2 := by
  simp only [Executor.evict, Executor.giveBack, hp, Pool.evict]
  exact .evicted hp

theorem Executor.forget_settles {c : Connection} {e : Executor} {p : Pool} {w : Wire σ}
    (hp : e.pools.find? c.node = some p) : Settles N c e w .abandoned (e.forget c) w := by
  simp only [Executor.forget, hp]
  exact .lost hp

/-! ### Orders to a session -/

/-- What a call sends over the connection of its context's session, and what is to become of the
session. -/
structure Order where
  command : Command
  /-- The phase once the command is accepted. -/
  next : Phase
  /-- Whether the session ends with the command. -/
  ends : Bool

/-- The order of a step, if the phase of the session allows it. -/
def Step.order? (s : Step) (args : List Bytes) (p : Phase) : Option Order :=
  if s.allowedIn p then some ⟨.of s.commandName args, s.nextPhase?.getD p, s.ends⟩ else none

/-- The order of a call to a session in a phase. -/
def Call.order? (call : Call) (p : Phase) : Option Order :=
  match call with
  | .execute _ _ command => some ⟨command, p, false⟩
  | _ => call.step?.bind fun (s, args) => s.order? args p

/-- A session is given a command by a caller, which leaves the phase alone, or a step. -/
theorem Call.order?_cases {call : Call} {p : Phase} {o : Order} (h : call.order? p = some o) :
    (∃ context node, call = .execute context node o.command ∧ o.next = p ∧ o.ends = false) ∨
    (∃ s args, call.step? = some (s, args) ∧ s.allowedIn p = true ∧
      o = ⟨.of s.commandName args, s.nextPhase?.getD p, s.ends⟩) := by
  have hstep (hs : call.step?.bind (fun (s, args) => s.order? args p) = some o) :
      ∃ s args, call.step? = some (s, args) ∧ s.allowedIn p = true ∧
        o = ⟨.of s.commandName args, s.nextPhase?.getD p, s.ends⟩ := by
    obtain ⟨⟨s, args⟩, hasks, ho⟩ := Option.bind_eq_some_iff.1 hs
    simp only [Step.order?] at ho
    split at ho <;> cases ho
    exact ⟨s, args, hasks, ‹_›, rfl⟩
  cases call with
  | execute context node command =>
    cases h
    exact .inl ⟨context, node, rfl, rfl, rfl⟩
  | _ => exact .inr (hstep h)

/-- Whether the session goes on after its order. One that the order was to open does not outlive a
rejection. -/
def Order.keeps (o : Order) (fresh : Bool) (r : Outcome Resp.Value) : Bool :=
  match r.verdict with
  | .sound => !(o.ends || (fresh && !r.isOk))
  | .broken => false
  | .abandoned => true

theorem Order.sound_of_keeps {o : Order} {fresh : Bool} {r : Outcome Resp.Value}
    (h : o.keeps fresh r = true) (hr : r ≠ .stalled) : r.verdict = .sound := by
  refine Outcome.sound_of_ended (fun hv => ?_) hr
  simp [keeps, hv] at h

theorem Order.ends_of_keeps {o : Order} {fresh : Bool} {r : Outcome Resp.Value}
    (h : o.keeps fresh r = true) (hr : r.verdict = .sound) : o.ends = false := by
  simp only [keeps, hr, Bool.not_eq_true', Bool.or_eq_false_iff] at h
  exact h.1

/-- The session after its order came to an end. -/
def Session.served (s : Session) (c : Connection) (o : Order) (r : Outcome Resp.Value) : Session :=
  { s with connection := some c.counted, phase := if r.isOk then o.next else s.phase }

/-- The session that a call uses is there, with its connection, or is opened by the call. -/
inductive Readies (N : Network σ) (call : Call) (context : Nat) (e : Executor) (w : Wire σ) :
    (fresh : Bool) → Executor → Wire σ → Session → Connection → Prop where
  | bound {s c} (session : e.session? context = some s) (connection : s.connection = some c)
      (target : call.node?.map (·.id) = some s.node.id) :
    Readies N call context e w false e w s c
  | opened {node step args c e₁ w₁} (target : call.node? = some node)
      (asks : call.step? = some (step, args)) (opens : step.opens = true)
      (free : e.session? context = none) (lends : Lends N node.id e w c e₁ w₁) :
    Readies N call context e w true (e₁.setSession context { node, connection := some c }) w₁
      { node, connection := some c } c

/-- A session that was opened by the call itself was given nothing yet. -/
theorem Readies.phase {call : Call} {context : Nat} {e e₁ : Executor} {w w₁ : Wire σ} {s : Session}
    {c : Connection} (h : Readies N call context e w true e₁ w₁ s c) : s.phase = .opened := by
  cases h
  rfl

theorem Readies.bound_of_queued {call : Call} {context : Nat} {fresh : Bool} {e e₁ : Executor}
    {w w₁ : Wire σ} {s : Session} {c : Connection} (h : Readies N call context e w fresh e₁ w₁ s c)
    (hs : s.phase = .queued) : e.session? context = some s := by
  cases h with
  | bound hb => exact hb
  | opened => cases hs

/-! ### The ways of a call -/

/-- The faults by which an executor refuses a call at once: there is no pool for the node of the call,
or the sessions forbid it. -/
def Executor.Refuses (e : Executor) (node? : Option Node) (f : Fault) : Prop :=
  (∃ node, node? = some node ∧ e.pool? node = none ∧ f = noPool node) ∨
    ∃ s, f = .session s ∧ ∀ context, s ≠ .lostConnection context

/-- The ways that a call can go: what it answers, and the executor and the wire after it. -/
inductive Deed (N : Network σ) (call : Call) (e : Executor) (w : Wire σ) :
    Outcome Answer → Executor → Wire σ → Prop where
  /-- The executor sees at once that the call cannot be made. -/
  | refused {f} (cause : e.Refuses call.node? f) : Deed N call e w (.failed f) e w
  | absent {context} (asked : call = .endSession context) (free : e.session? context = none) :
    Deed N call e w (.ok (.ended false)) e w
  | unlent {node f? e₁ w₁} (target : call.node? = some node)
      (unlent : Unlent N node.id e w f? e₁ w₁) :
    Deed N call e w (.without f?) e₁ w₁
  /-- A single command goes over a borrowed connection. -/
  | pooled {node command c e₁ w₁ r w₂ e₂ w₃}
      (asked : call = .executeOn node command ∨
        ∃ context, call = .execute context node command ∧ e.session? context = none)
      (lends : Lends N node.id e w c e₁ w₁) (request : c.request N command w₁ = (r, w₂))
      (settles : Settles N c.counted e₁ w₂ r.verdict e₂ w₃) :
    Deed N call e w (r.map .reply) e₂ w₃
  | begun {context node c e₁ w₁} (asked : call = .begin context node)
      (free : e.session? context = none) (lends : Lends N node.id e w c e₁ w₁) :
    Deed N call e w (.ok (.opened ⟨context, node.id⟩))
      (e₁.setSession context { node, connection := some c }) w₁
  /-- A command goes over the session's connection, and the session goes on. -/
  | stayed {context fresh e₁ w₁ s c o r w₂} (asker : call.context? = some context)
      (readies : Readies N call context e w fresh e₁ w₁ s c) (order : call.order? s.phase = some o)
      (request : c.request N o.command w₁ = (r, w₂)) (keeps : o.keeps fresh r = true) :
    Deed N call e w (r.map .reply) (e₁.setSession context (s.served c o r)) w₂
  /-- A command goes over the session's connection, and the session ends. -/
  | parted {context fresh e₁ w₁ s c o r w₂ e₂ w₃} (asker : call.context? = some context)
      (readies : Readies N call context e w fresh e₁ w₁ s c) (order : call.order? s.phase = some o)
      (request : c.request N o.command w₁ = (r, w₂)) (keeps : o.keeps fresh r = false)
      (settles : Settles N c.counted (e₁.eraseSession context) w₂ r.verdict e₂ w₃) :
    Deed N call e w (r.map .reply) e₂ w₃
  /-- The session holds nothing on its connection when it is ended. -/
  | left {context s c e₁ w₁} (asked : call = .endSession context)
      (session : e.session? context = some s) (connection : s.connection = some c)
      (empty : Executor.cleanup? s.phase = none)
      (settles : Settles N c (e.eraseSession context) w .sound e₁ w₁) :
    Deed N call e w (.ok (.ended true)) e₁ w₁
  /-- What the session holds on its connection is cleared when it is ended. -/
  | cleaned {context s c command r w₁ e₁ w₂} (asked : call = .endSession context)
      (session : e.session? context = some s) (connection : s.connection = some c)
      (cleanup : Executor.cleanup? s.phase = some command)
      (request : c.request N command w = (r, w₁))
      (settles : Settles N c.counted (e.eraseSession context) w₁ r.verdict e₁ w₂) :
    Deed N call e w (if r = .stalled then .stalled else .ok (.ended true)) e₁ w₂

/-! ### There are no other ways -/

/-- Every connection that is kept or pinned belongs to the pool of its node. -/
structure Executor.Housed (e : Executor) : Prop where
  named : ∀ id p, e.pools.find? id = some p → p.node.id = id
  kept : ∀ id p, e.pools.find? id = some p → ∀ c ∈ p.idle, c.node = id
  pinned : ∀ context s, e.session? context = some s →
    ∃ c p, s.connection = some c ∧ e.pools.find? c.node = some p

/-- What is borrowed from a pool belongs to it and takes up its capacity. -/
theorem Lends.pool {id : String} {e e₁ : Executor} {w w₁ : Wire σ} {c : Connection}
    (h : Lends N id e w c e₁ w₁) (he : e.Housed) :
    c.node = id ∧ c.lent = true ∧ ∃ p, e₁ = e.setPool id p := by
  cases h with
  | @kept p c rest hp _ hi => exact ⟨he.kept _ _ hp c (by simp [hi]), rfl, _, rfl⟩
  | made hp => exact ⟨he.named _ _ hp, rfl, _, rfl⟩

theorem Executor.settle_settles {c : Connection} {e : Executor} {p : Pool} {w : Wire σ}
    {f? : Option Fault} {v : Verdict} (hp : e.pools.find? c.node = some p)
    (hv : v = if f?.any (·.breaksConnection) then .broken else .sound) :
    Settles N c e w v (e.giveBack N (Pool.settle N f?) c w).1
      (e.giveBack N (Pool.settle N f?) c w).2 := by
  have hg : e.giveBack N (Pool.settle N f?) c w =
      if f?.any (·.breaksConnection) then e.evict N c w else e.release N c w := by
    simp only [giveBack, evict, release, hp, Pool.settle]
    split <;> rfl
  subst hv
  rw [hg]
  split
  · exact Executor.evict_settles hp
  · exact Executor.release_settles hp

theorem Pool.settle_settles {id : String} {c : Connection} {e : Executor} {p : Pool} {w : Wire σ}
    {f? : Option Fault} {v : Verdict} (hn : c.node = id)
    (hv : v = if f?.any (·.breaksConnection) then .broken else .sound) :
    Settles N c (e.setPool id p) w v (e.setPool id (p.settle N f? c w).1) (p.settle N f? c w).2 := by
  subst hn
  have h := Executor.settle_settles (N := N) (w := w) (e.find?_setPool_self c.node p) hv
  simpa [Executor.giveBack] using h

theorem Pool.unclaim_settles {id : String} {c : Connection} {e : Executor} {p : Pool} {w : Wire σ}
    (hn : c.node = id) (hc : c.lent = true) :
    Settles N c (e.setPool id p) w .abandoned (e.setPool id p.unclaim) w := by
  subst hn
  have h := Settles.lost (N := N) (w := w) (e.find?_setPool_self c.node p)
  simpa [Pool.forget, hc] using h

theorem Executor.runPooled_deed {call : Call} {node : Node} {command : Command} {e : Executor}
    {w : Wire σ} (he : e.Housed)
    (asked : call = .executeOn node command ∨
      ∃ context, call = .execute context node command ∧ e.session? context = none) :
    Deed N call e w ((e.runPooled N node command w).1.map .reply)
      (e.runPooled N node command w).2.1 (e.runPooled N node command w).2.2 := by
  have target : call.node? = some node := by
    obtain rfl | ⟨_, rfl, -⟩ := asked <;> rfl
  cases hp : e.pool? node with
  | none =>
    simp only [runPooled, hp]
    exact .refused (.inl ⟨node, target, hp, rfl⟩)
  | some p =>
    simp only [runPooled, hp, Pool.run]
    split
    · rename_i hf
      rcases hs : p.starve p.node.limits.maxWait w with ⟨r, p', w'⟩
      obtain ⟨f?, rfl, hu⟩ :=
        Pool.starve_unlent (N := N) (show e.pools.find? node.id = some p from hp) hf hs
      cases f? <;> exact .unlent target hu
    · rename_i hf
      rcases hl : p.lend N w with ⟨r, p₁, w₁⟩
      obtain ⟨c, rfl, hc⟩ | ⟨hi, ⟨f, rfl, hw, rfl⟩ | ⟨rfl, hw, rfl⟩⟩ :=
        Pool.lend_cases hp (by simpa using hf) hl <;> simp only [Pool.attempt, hl]
      · obtain ⟨hn, hlent, -⟩ := hc.pool he
        rcases hr : c.request N command w₁ with ⟨v | f | _, w₂⟩
        · exact .pooled asked hc hr (Pool.settle_settles hn (by simp [Outcome.verdict]))
        · exact .pooled asked hc hr (Pool.settle_settles hn (by simp [Outcome.verdict]))
        · exact .pooled asked hc hr (Pool.unclaim_settles hn hlent)
      · have hu : Unlent N node.id e w (some f) _ w₁ := .unmade hp (by simpa using hf) hi hw
        exact .unlent target hu
      · have hu : Unlent N node.id e w none _ w₁ := .unmade (p := p) hp (by simpa using hf) hi hw
        exact .unlent target hu

/-- The opening of a session is refused, finds no connection, or pins one. -/
theorem Executor.begin_cases {context : Nat} {node : Node} {e e' : Executor} {w w' : Wire σ}
    {r : Outcome SessionHandle} (h : e.begin N context node w = (r, e', w')) :
    (∃ f, r = .failed f ∧ e.Refuses (some node) f ∧ e' = e ∧ w' = w) ∨
    (∃ f?, r = .without f? ∧ Unlent N node.id e w f? e' w') ∨
    (∃ c e₁, r = .ok ⟨context, node.id⟩ ∧ e.session? context = none ∧
      Lends N node.id e w c e₁ w' ∧ e' = e₁.setSession context { node, connection := some c }) := by
  unfold begin at h
  cases hp : e.pool? node with
  | none =>
    simp only [Opening.advance, hp, Opening.answer] at h
    cases h
    exact .inl ⟨_, rfl, .inl ⟨node, rfl, hp, rfl⟩, rfl, rfl⟩
  | some p =>
    cases hs : e.session? context with
    | some s =>
      simp only [Opening.advance, hp, hs, Opening.answer] at h
      cases h
      exact .inl ⟨_, rfl, .inr ⟨_, rfl, by simp⟩, rfl, rfl⟩
    | none =>
      rcases hb : p.borrow N w with ⟨b, p₁, w₁⟩
      obtain ⟨c, rfl, hc⟩ | ⟨f?, rfl, hu⟩ :=
        Pool.borrow_cases (show e.pools.find? node.id = some p from hp) hb
      · simp only [Opening.advance, hp, hs, hb, Opening.answer, bind, session?_setPool] at h
        cases h
        exact .inr (.inr ⟨c, _, rfl, rfl, hc, rfl⟩)
      · cases f? <;>
          simp only [Opening.advance, hp, hs, hb, Opening.answer, Outcome.without] at h <;>
          cases h <;> exact .inr (.inl ⟨_, rfl, hu⟩)

theorem Executor.endSession_deed {context : Nat} {e : Executor} {w : Wire σ} (he : e.Housed) :
    Deed N (.endSession context) e w ((e.endSession N context w).1.map .ended)
      (e.endSession N context w).2.1 (e.endSession N context w).2.2 := by
  cases hs : e.session? context with
  | none =>
    simp only [endSession, hs]
    exact .absent rfl hs
  | some s =>
    obtain ⟨c, p, hc, hp⟩ := he.pinned context s hs
    cases hk : cleanup? s.phase with
    | none =>
      simp only [endSession, hs, hc, hk]
      exact .left rfl hs hc hk (Executor.release_settles hp)
    | some command =>
      simp only [endSession, hs, hc, hk]
      rcases hr : c.request N command w with ⟨v | f | _, w₁⟩
      · exact .cleaned rfl hs hc hk hr (Executor.release_settles hp)
      · exact .cleaned rfl hs hc hk hr
          (Executor.settle_settles hp (by simp [Outcome.verdict]))
      · exact .cleaned rfl hs hc hk hr (Executor.forget_settles hp)

/-! ### Orders -/

theorem Executor.session?_giveBack {context : Nat} {c : Connection} {e : Executor} {w : Wire σ}
    {how : Executor.GiveBack σ} :
    (e.giveBack N how c w).1.session? context = e.session? context := by
  unfold giveBack
  split <;> rfl

/-- A fault that breaks the connection ends the session, and any other end leaves it served. -/
theorem Executor.runPinned_cases {context : Nat} {s : Session} {c : Connection} {o : Order}
    {e e' : Executor} {p : Pool} {w w₁ w' : Wire σ} {r r' : Outcome Resp.Value}
    (hp : e.pools.find? c.node = some p) (hr : c.request N o.command w = (r, w₁))
    (h : e.runPinned N context s c o.next o.command w = (r', e', w')) :
    r' = r ∧
    ((r.verdict = .broken ∧ e'.session? context = none ∧
      Settles N c.counted (e.eraseSession context) w₁ .broken e' w') ∨
    (r.verdict ≠ .broken ∧ e' = e.setSession context (s.served c o r) ∧ w' = w₁)) := by
  simp only [runPinned, hr] at h
  cases r with
  | ok v =>
    cases h
    exact ⟨rfl, .inr ⟨by simp [Outcome.verdict], rfl, rfl⟩⟩
  | stalled =>
    cases h
    exact ⟨rfl, .inr ⟨by simp [Outcome.verdict], rfl, rfl⟩⟩
  | failed f =>
    simp only at h
    split at h <;> cases h
    · rename_i hf
      refine ⟨rfl, .inl ⟨by simp [Outcome.verdict, hf], ?_, Executor.evict_settles hp⟩⟩
      rw [evict, session?_giveBack, session?_eraseSession_self]
    · rename_i hf
      exact ⟨rfl, .inr ⟨by simp [Outcome.verdict, hf], rfl, rfl⟩⟩

theorem Call.order?_of_step? {call : Call} {step : Step} {args : List Bytes} {p : Phase}
    (h : call.step? = some (step, args)) : call.order? p = step.order? args p := by
  cases call <;> cases h <;> rfl

theorem Readies.connection {call : Call} {context : Nat} {fresh : Bool} {e e₁ : Executor}
    {w w₁ : Wire σ} {s : Session} {c : Connection}
    (h : Readies N call context e w fresh e₁ w₁ s c) : s.connection = some c := by
  cases h with
  | bound _ hc => exact hc
  | opened => rfl

/-- A step that may not be taken was not the one that opened the session. -/
theorem Readies.bound_of_not_allowed {call : Call} {context : Nat} {fresh : Bool}
    {e e₁ : Executor} {w w₁ : Wire σ} {s : Session} {c : Connection} {step : Step}
    {args : List Bytes} (h : Readies N call context e w fresh e₁ w₁ s c)
    (asks : call.step? = some (step, args)) (hn : step.allowedIn s.phase = false) :
    e₁ = e ∧ w₁ = w := by
  cases h with
  | bound => exact ⟨rfl, rfl⟩
  | opened _ asks' opens =>
    rw [asks] at asks'
    cases asks'
    cases step <;> simp_all [Step.opens, Step.allowedIn]

/-- A step that may be taken goes over the connection, and then the session may be released. -/
theorem Executor.runStep_eq {context : Nat} {s : Session} {fresh : Bool} {step : Step}
    {command : Command} {e e₁ : Executor} {w w₁ : Wire σ} {c : Connection} {r : Outcome Resp.Value}
    (ha : step.allowedIn s.phase = true) (hc : s.connection = some c)
    (hr : e.runPinned N context s c (step.nextPhase?.getD s.phase) command w = (r, e₁, w₁)) :
    e.runStep N context s fresh step command w =
      if r ≠ .stalled ∧ (step.ends || (fresh && !r.isOk)) = true then
        (r, e₁.releaseSession N context w₁)
      else (r, e₁, w₁) := by
  simp only [runStep, ha, hc, hr]
  cases r <;> simp

theorem Executor.releaseSession_of_free {context : Nat} {e : Executor} {w : Wire σ}
    (h : e.session? context = none) : e.releaseSession N context w = (e, w) := by
  simp [releaseSession, h, eraseSession_of_free h]

theorem Executor.releaseSession_served {context : Nat} {s : Session} {c : Connection} {o : Order}
    {r : Outcome Resp.Value} {e : Executor} {w : Wire σ} :
    (e.setSession context (s.served c o r)).releaseSession N context w =
      (e.eraseSession context).release N c.counted w := by
  simp [releaseSession, Session.served]

theorem Executor.runStep_deed {call : Call} {context : Nat} {fresh : Bool} {step : Step}
    {args : List Bytes} {e e₁ : Executor} {p : Pool} {w w₁ : Wire σ} {s : Session} {c : Connection}
    (asker : call.context? = some context) (asks : call.step? = some (step, args))
    (readies : Readies N call context e w fresh e₁ w₁ s c) (hp : e₁.pools.find? c.node = some p) :
    Deed N call e w
      ((e₁.runStep N context s fresh step (.of step.commandName args) w₁).1.map .reply)
      (e₁.runStep N context s fresh step (.of step.commandName args) w₁).2.1
      (e₁.runStep N context s fresh step (.of step.commandName args) w₁).2.2 := by
  cases ha : step.allowedIn s.phase with
  | false =>
    obtain ⟨rfl, rfl⟩ := readies.bound_of_not_allowed asks ha
    simp only [runStep, ha]
    exact .refused (.inr ⟨_, rfl, by simp⟩)
  | true =>
    let o : Order := ⟨.of step.commandName args, step.nextPhase?.getD s.phase, step.ends⟩
    have order : call.order? s.phase = some o := by
      rw [Call.order?_of_step? asks, Step.order?, if_pos ha]
    rcases hr : c.request N o.command w₁ with ⟨r, w₂⟩
    rcases hn : e₁.runPinned N context s c o.next o.command w₁ with ⟨r', e₂, w₃⟩
    obtain ⟨rfl, hcases⟩ := Executor.runPinned_cases hp hr hn
    rw [Executor.runStep_eq ha readies.connection hn]
    obtain ⟨hv, hfree, hsettle⟩ | ⟨hv, rfl, rfl⟩ := hcases
    · -- The session ended with the fault, so that there is nothing left to release.
      have hk : o.keeps fresh r' = false := by simp [Order.keeps, hv]
      rw [Executor.releaseSession_of_free hfree, ite_self]
      exact .parted asker readies order hr hk (hv ▸ hsettle)
    · by_cases hst : r' = .stalled
      · rw [if_neg (fun h => h.1 hst)]
        exact .stayed asker readies order hr (by rw [hst]; rfl)
      · have hs := Outcome.sound_of_ended hv hst
        have hkeeps : o.keeps fresh r' = !(step.ends || (fresh && !r'.isOk)) := by
          simp only [Order.keeps, hs, o]
        cases hb : step.ends || (fresh && !r'.isOk) with
        | false =>
          rw [if_neg (fun h => absurd h.2 Bool.false_ne_true)]
          exact .stayed asker readies order hr (by rw [hkeeps, hb]; rfl)
        | true =>
          rw [if_pos ⟨hst, rfl⟩, Executor.releaseSession_served]
          refine .parted asker readies order hr (by rw [hkeeps, hb]; rfl) ?_
          rw [hs]
          exact Executor.release_settles hp

theorem Executor.elsewhere?_eq_none {context : Nat} {s : Session} {node : Node}
    (h : elsewhere? context s node = none) : node.id = s.node.id := by
  unfold elsewhere? at h
  split at h
  · exact Eq.symm ‹_›
  · cases h

theorem Executor.elsewhere?_eq_some {context : Nat} {s : Session} {node : Node} {f : Fault}
    (h : elsewhere? context s node = some f) (e : Executor) (node? : Option Node) :
    e.Refuses node? f := by
  unfold elsewhere? at h
  split at h <;> cases h
  exact .inr ⟨_, rfl, by simp⟩

theorem Executor.execute_deed {context : Nat} {node : Node} {command : Command} {e : Executor}
    {w : Wire σ} (he : e.Housed) :
    Deed N (.execute context node command) e w ((e.execute N context node command w).1.map .reply)
      (e.execute N context node command w).2.1 (e.execute N context node command w).2.2 := by
  cases hs : e.session? context with
  | none =>
    simp only [execute, hs]
    exact Executor.runPooled_deed he (.inr ⟨context, rfl, hs⟩)
  | some s =>
    obtain ⟨c, p, hc, hp⟩ := he.pinned context s hs
    cases hn : elsewhere? context s node with
    | some f =>
      simp only [execute, hs, hn]
      exact .refused (Executor.elsewhere?_eq_some hn e _)
    | none =>
      let o : Order := ⟨command, s.phase, false⟩
      have readies : Readies N (.execute context node command) context e w false e w s c :=
        .bound hs hc (by simp [Call.node?, Executor.elsewhere?_eq_none hn])
      rcases hr : c.request N command w with ⟨r, w₁⟩
      rcases hx : e.runPinned N context s c o.next o.command w with ⟨r', e₁, w₂⟩
      obtain ⟨rfl, hcases⟩ := Executor.runPinned_cases hp hr hx
      simp only [execute, hs, hn, hc]
      change e.runPinned N context s c s.phase command w = _ at hx
      rw [hx]
      obtain ⟨hv, -, hsettle⟩ | ⟨hv, rfl, rfl⟩ := hcases
      · exact .parted rfl readies rfl hr (by simp [Order.keeps, hv]) (hv ▸ hsettle)
      · refine .stayed rfl readies rfl hr ?_
        cases r' with
        | failed f => simp_all [Order.keeps, Outcome.verdict, show o.ends = false from rfl]
        | _ => rfl

theorem Executor.take_deed {call : Call} {context : Nat} {node : Node} {step : Step}
    {args : List Bytes} {e : Executor} {w : Wire σ} (he : e.Housed)
    (asker : call.context? = some context) (target : call.node? = some node)
    (asks : call.step? = some (step, args)) :
    Deed N call e w ((e.take N context node step args w).1.map .reply)
      (e.take N context node step args w).2.1 (e.take N context node step args w).2.2 := by
  cases hs : e.session? context with
  | some s =>
    obtain ⟨c, p, hc, hp⟩ := he.pinned context s hs
    cases hn : elsewhere? context s node with
    | some f =>
      simp only [take, hs, hn]
      exact .refused (Executor.elsewhere?_eq_some hn e _)
    | none =>
      simp only [take, hs, hn]
      exact Executor.runStep_deed asker asks
        (.bound hs hc (by simp [target, Executor.elsewhere?_eq_none hn])) hp
  | none =>
    cases ho : step.opens with
    | false =>
      simp only [take, hs, ho]
      exact .refused (.inr ⟨_, rfl, by simp⟩)
    | true =>
      rcases hb : e.begin N context node w with ⟨r, e₁, w₁⟩
      obtain ⟨f, rfl, hf, rfl, rfl⟩ | ⟨f?, rfl, hu⟩ | ⟨c, e₂, rfl, -, hc, rfl⟩ :=
        Executor.begin_cases hb
      · simp only [take, hs, ho, hb]
        exact .refused (target ▸ hf)
      · cases f? <;> simp only [take, hs, ho, hb, Outcome.without] <;> exact .unlent target hu
      · simp only [take, hs, ho, hb, session?_setSession_self]
        obtain ⟨hn, -, p, rfl⟩ := hc.pool he
        exact Executor.runStep_deed asker asks (.opened target asks ho hs hc)
          (by rw [hn, pools_setSession, find?_setPool_self])

/-- Every call goes one of the ways of a deed. -/
theorem Call.deed (call : Call) {e : Executor} {w : Wire σ} (he : e.Housed) :
    Deed N call e w (call.run N e w).1 (call.run N e w).2.1 (call.run N e w).2.2 := by
  cases call with
  | execute context node command => exact Executor.execute_deed he
  | executeOn node command => exact Executor.runPooled_deed he (.inl rfl)
  | begin context node =>
    rcases hb : e.begin N context node w with ⟨r, e₁, w₁⟩
    simp only [run, hb]
    obtain ⟨f, rfl, hf, rfl, rfl⟩ | ⟨f?, rfl, hu⟩ | ⟨c, e₂, rfl, hs, hc, rfl⟩ :=
      Executor.begin_cases hb
    · exact .refused hf
    · cases f? <;> exact .unlent rfl hu
    · exact .begun rfl hs hc
  | endSession context => exact Executor.endSession_deed he
  | watch context node keys =>
    simp only [run, Executor.watch]
    split
    · exact .refused (.inr ⟨_, rfl, by simp⟩)
    · exact Executor.take_deed he rfl rfl rfl
  | multi context node => exact Executor.take_deed he rfl rfl rfl
  | exec context node => exact Executor.take_deed he rfl rfl rfl
  | discard context node => exact Executor.take_deed he rfl rfl rfl
  | unwatch context node => exact Executor.take_deed he rfl rfl rfl

/-! ### Other sessions -/

theorem Lends.sessions {id : String} {e e₁ : Executor} {w w₁ : Wire σ} {c : Connection}
    (h : Lends N id e w c e₁ w₁) : e₁.sessions = e.sessions := by
  cases h <;> rfl

theorem Settles.sessions {c : Connection} {e e₁ : Executor} {w w₁ : Wire σ} {v : Verdict}
    (h : Settles N c e w v e₁ w₁) : e₁.sessions = e.sessions := by
  cases h <;> rfl

theorem Readies.session?_of_ne {call : Call} {context other : Nat} {fresh : Bool}
    {e e₁ : Executor} {w w₁ : Wire σ} {s : Session} {c : Connection}
    (h : Readies N call context e w fresh e₁ w₁ s c) (hne : other ≠ context) :
    e₁.session? other = e.session? other := by
  cases h with
  | bound => rfl
  | opened _ _ _ _ hl =>
    rw [Executor.session?_setSession, if_neg hne, Executor.session?, hl.sessions, Executor.session?]

/-- A call changes no session but that of its own context. -/
theorem Deed.session?_of_ne {call : Call} {other : Nat} {e e' : Executor} {w w' : Wire σ}
    {r : Outcome Answer} (h : Deed N call e w r e' w') (hne : call.context? ≠ some other) :
    e'.session? other = e.session? other := by
  have hsettles {c : Connection} {e e₁ : Executor} {w w₁ : Wire σ} {v : Verdict}
      (h : Settles N c e w v e₁ w₁) : e₁.session? other = e.session? other := by
    rw [Executor.session?, h.sessions, Executor.session?]
  cases h with
  | refused => rfl
  | absent => rfl
  | unlent _ hu => cases hu <;> rfl
  | pooled _ hl _ hs => rw [hsettles hs, Executor.session?, hl.sessions, Executor.session?]
  | @begun context _ _ _ _ asked _ hl =>
    have hne : other ≠ context := by rintro rfl; exact hne (by rw [asked]; rfl)
    rw [Executor.session?_setSession, if_neg hne, Executor.session?, hl.sessions, Executor.session?]
  | @stayed context _ _ _ _ _ _ _ _ asker hready =>
    have hne : other ≠ context := by rintro rfl; exact hne asker
    rw [Executor.session?_setSession, if_neg hne, hready.session?_of_ne hne]
  | @parted context _ _ _ _ _ _ _ _ _ _ asker hready _ _ _ hs =>
    have hne : other ≠ context := by rintro rfl; exact hne asker
    rw [hsettles hs, Executor.session?_eraseSession, if_neg hne, hready.session?_of_ne hne]
  | @left context _ _ _ _ asked _ _ _ hs =>
    have hne : other ≠ context := by rintro rfl; exact hne (by rw [asked]; rfl)
    rw [hsettles hs, Executor.session?_eraseSession, if_neg hne]
  | @cleaned context _ _ _ _ _ _ _ asked _ _ _ _ hs =>
    have hne : other ≠ context := by rintro rfl; exact hne (by rw [asked]; rfl)
    rw [hsettles hs, Executor.session?_eraseSession, if_neg hne]

/-! ### What a call requests -/

/-- Whether an event is part of a request, which the making and the closing of links are not. -/
def WireEvent.isRequest : WireEvent → Bool
  | .sent .. | .answered .. => true
  | .opened .. | .closed .. => false

/-- Whether `out` is what was requested between two moments. -/
def Wire.Requests (w w' : Wire σ) (out : List WireEvent) : Prop :=
  ∃ events, w'.trace = w.trace ++ events ∧ events.filter (·.isRequest) = out

theorem Wire.Requests.refl (w : Wire σ) : w.Requests w [] := ⟨[], by simp, rfl⟩

theorem Wire.Requests.trans {w w₁ w₂ : Wire σ} {out out' : List WireEvent}
    (h : w.Requests w₁ out) (h' : w₁.Requests w₂ out') : w.Requests w₂ (out ++ out') := by
  obtain ⟨events, ht, rfl⟩ := h
  obtain ⟨events', ht', rfl⟩ := h'
  exact ⟨events ++ events', by rw [ht', ht, List.append_assoc], List.filter_append ..⟩

theorem Wire.Requests.grows {w w' : Wire σ} {out : List WireEvent} (h : w.Requests w' out) :
    w.trace <+: w'.trace := by
  obtain ⟨events, ht, -⟩ := h
  exact ⟨events, ht.symm⟩

theorem Wire.Quiet.requests {w w' : Wire σ} (h : w.Quiet w') : w.Requests w' [] :=
  ⟨[], by simp [h.trace], rfl⟩

theorem Lends.requests {id : String} {e e₁ : Executor} {w w₁ : Wire σ} {c : Connection}
    (h : Lends N id e w c e₁ w₁) : w.Requests w₁ [] := by
  cases h with
  | kept => exact .refl w
  | made _ _ _ hw => exact ⟨_, (Wire.connect_ok hw).2.2, rfl⟩

theorem Settles.requests {c : Connection} {e e₁ : Executor} {w w₁ : Wire σ} {v : Verdict}
    (h : Settles N c e w v e₁ w₁) : w.Requests w₁ [] := by
  cases h with
  | kept | lost => exact .refl w
  | surplus | evicted => exact ⟨[.closed c.link], rfl, rfl⟩

theorem Readies.requests {call : Call} {context : Nat} {fresh : Bool} {e e₁ : Executor}
    {w w₁ : Wire σ} {s : Session} {c : Connection}
    (h : Readies N call context e w fresh e₁ w₁ s c) : w.Requests w₁ [] := by
  cases h with
  | bound => exact .refl w
  | opened _ _ _ _ hl => exact hl.requests

theorem Connection.request_requests {c : Connection} {command : Command} {w w₁ : Wire σ}
    {r : Outcome Resp.Value} (h : c.request N command w = (r, w₁)) :
    ∃ out, c.Asks command r out ∧ w.Requests w₁ out := by
  obtain ⟨-, events, hasks, ht⟩ := Connection.request_trace h
  refine ⟨events, hasks, events, ht, ?_⟩
  cases hasks <;> rfl

end ShardFleet
