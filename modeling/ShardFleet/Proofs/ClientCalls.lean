import ShardFleet.Client
import ShardFleet.Proofs.Capacity
import ShardFleet.Proofs.Checks

/-!
# Calls on a client

The calls that a client takes, one after the other, and where a run of them leads. A call that has to
do with sessions is a call on the executor, for a node that the client finds; every other call leaves
all sessions as they are.
-/

namespace ShardFleet

variable {σ : Type} {N : Network σ}

/-! ### What spares the sessions -/

namespace Executor

variable {e e' e'' : Executor}

/-- Whether all sessions stay as they are, every pool is still there for its node, and none gets a
connection to another node. -/
structure Spares (e e' : Executor) : Prop where
  sessions : ∀ context, e'.session? context = e.session? context
  equips : e.Housed → e.Equips e'
  housed : e.Housed → e'.Housed

theorem Spares.refl (e : Executor) : e.Spares e := ⟨fun _ => rfl, fun _ => .refl e, id⟩

theorem Spares.trans (h : e.Spares e') (h' : e'.Spares e'') : e.Spares e'' where
  sessions context := (h'.sessions context).trans (h.sessions context)
  equips he := (h.equips he).trans (h'.equips (h.housed he))
  housed := h'.housed ∘ h.housed

theorem spares_setPool {id : String} {p q : Pool} (hp : e.pools.find? id = some p)
    (hn : q.node = p.node) (hi : q.idle = p.idle) : e.Spares (e.setPool id q) :=
  ⟨fun _ => rfl, fun _ => equips_setPool hp hn, fun h => h.setPool_same hp hn hi⟩

theorem spares_runPooled (node : Node) (command : Command) (e : Executor) (w : Wire σ) :
    e.Spares (e.runPooled N node command w).2.1 where
  sessions context := by
    unfold runPooled
    split <;> rfl
  equips h := equips_deed (runPooled_deed (N := N) h (.inl rfl))
  housed h := h.deed (runPooled_deed (N := N) h (.inl rfl))

/-- An attempt leaves a pool as a run does, but for the capacity of a call that is given up. -/
theorem spares_attempt {node : Node} {p : Pool} (command : Command) (hp : e.pool? node = some p)
    (hf : p.isExhausted = false) (w : Wire σ) :
    e.Spares (e.setPool node.id (p.attempt N command w).2.1) := by
  have hrun := spares_runPooled (N := N) node command e w
  simp only [runPooled, hp, Pool.run, hf, Bool.false_eq_true, if_false] at hrun
  rcases ha : p.attempt N command w with ⟨v | f | _, q, w'⟩ <;> rw [ha] at hrun
  · exact hrun
  · exact hrun
  · -- The run took back the capacity of the call that was given up, which the attempt left taken.
    have hq := find?_setPool_self e node.id q.unclaim
    simpa using hrun.trans (spares_setPool hq (q := q) rfl rfl)

end Executor

theorem Outcome.map_map {α β γ : Type} (f : α → β) (g : β → γ) (r : Outcome α) :
    (r.map f).map g = r.map fun a => g (f a) := by
  cases r <;> rfl

/-! ### Checks, links and subscriptions -/

namespace Health

variable {limit : Nat} {e e' : Executor} {w w' : Wire σ}

theorem Starts.spares {node : Node} {probe : Probe} (h : Starts N limit node e w probe e' w') :
    e.Spares e' := by
  cases h with
  | unpooled | waits | hurried => exact .refl e
  | attempted hp hfree ha =>
    have hspares := Executor.spares_attempt (N := N) ping hp hfree w
    rw [ha] at hspares
    exact hspares

theorem StartsAll.spares {moment : Nat} {nodes : List Node} {probes : List Probe}
    (h : StartsAll N limit moment nodes e w probes e' w') : e.Spares e' := by
  induction h with
  | nil => exact .refl _
  | cons first _ ih => exact first.spares.trans ih

theorem Finishes.spares {node : Node} {probe : Probe} {entry : NodeHealth}
    (h : Finishes N limit node e w probe entry e' w') : e.Spares e' := by
  cases h with
  | done | unpooled | starved | inVain => exact .refl e
  | givenUp hp => exact Executor.spares_setPool hp rfl rfl
  | @attempted p q r _ hp hfree ha =>
    have hspares := Executor.spares_attempt (N := N) ping hp hfree w
    rw [ha] at hspares
    split
    · have hq := e.find?_setPool_self node.id q
      simpa using hspares.trans (Executor.spares_setPool hq (q := q.unclaim) rfl rfl)
    · exact hspares

theorem FinishesAll.spares {checks : List (Node × Probe)} {report : List NodeHealth}
    (h : FinishesAll N limit checks e w report e' w') : e.Spares e' := by
  induction h with
  | nil => exact .refl _
  | cons first _ ih => exact first.spares.trans ih

theorem spares_abandonAll (checks : List (Node × Probe)) (e : Executor) :
    e.Spares (abandonAll checks e) := by
  induction checks generalizing e with
  | nil => exact .refl e
  | cons x rest ih =>
    refine .trans ?_ (ih _)
    dsimp only
    split
    · rename_i p hp
      exact Executor.spares_setPool hp rfl rfl
    · exact .refl e

theorem Checks.spares {nodes : List Node} {r : Outcome (List NodeHealth)}
    (h : Checks N limit nodes e w r e') : e.Spares e' := by
  cases h with
  | abandoned _ starts => exact starts.spares.trans (spares_abandonAll _ _)
  | made starts finishes => exact starts.spares.trans finishes.spares

end Health

/-- Making links runs commands, one after the other. -/
theorem Chain.spares_relink (c : Chain) (applied : Nat) (links : List Link) (s : Executor × Wire σ) :
    s.1.Spares (c.relink (Client.runner N) applied links s).2.1 := by
  induction links generalizing applied s with
  | nil => exact .refl s.1
  | cons l ls ih =>
    have hrun := Executor.spares_runPooled (N := N) (c.nodeAt l.node) (c.linkCommand l) s.1 s.2
    unfold relink
    simp only [Client.runner]
    rcases hr : s.1.runPooled N (c.nodeAt l.node) (c.linkCommand l) s.2 with ⟨v | f | _, e, w⟩ <;>
      rw [hr] at hrun
    · exact hrun.trans (ih (applied + 1) (e, w))
    · exact hrun
    · exact hrun

theorem Chain.spares_promote (c : Chain) (index : Nat) (s : Executor × Wire σ) :
    s.1.Spares (c.promote (Client.runner N) index s).2.2.1 := by
  unfold promote
  split
  · have hr := spares_relink (N := N) c 0 (Link.plan c.nodes.length index) s
    dsimp only
    rcases hl : c.relink (Client.runner N) 0 (Link.plan c.nodes.length index) s with
      ⟨v | f | _, t⟩ <;> rw [hl] at hr <;> exact hr
  · exact .refl s.1

/-- A pool keeps nothing of a subscription. -/
theorem Subscription.start_pool {topic : Topic} {names : List String} {p p' : Pool} {w w' : Wire σ}
    {r : Started} (h : start N topic names p w = (r, p', w')) :
    p'.node = p.node ∧ p'.idle = p.idle := by
  have hopen {r : Outcome Connection} {p₁ : Pool} {w₁ : Wire σ}
      (ho : p.openDedicated N w = (r, p₁, w₁)) : p₁.node = p.node ∧ p₁.idle = p.idle := by
    unfold Pool.openDedicated Pool.connect at ho
    split at ho <;> cases ho <;> exact ⟨rfl, rfl⟩
  unfold start at h
  split at h
  · cases h
    exact ⟨rfl, rfl⟩
  · split at h
    · cases h
      exact hopen ‹_›
    · cases h
      exact hopen ‹_›
    · split at h
      · cases h
        exact hopen ‹_›
      · split at h <;> cases h <;> exact hopen ‹_›

/-! ### Calls -/

/-- What the holder of a subscription asks of it. -/
inductive Subscription.Request where
  | extend (topic : Topic) (names : List String)
  | leave (topic : Topic) (names : List String)
  | join
  | drop
deriving DecidableEq, Repr

/-- Does what is asked of a subscription. -/
def Subscription.Request.run (N : Network σ) :
    Request → Subscription → Wire σ → Outcome Unit × Subscription × Wire σ
  | extend topic names, s, w => s.extend N topic names w
  | leave topic names, s, w =>
    let (r, s, w) := s.leave N topic names w
    (.ofExcept r, s, w)
  | join, s, w => s.join N w
  | drop, s, w =>
    let (s, w) := s.drop N w
    (.ok (), s, w)

namespace Client

/-- A call on a client, or on a subscription of it. -/
inductive Call where
  | execute (context : Nat) (key : Bytes) (command : Command)
  | begin (context : Nat) (key : Bytes)
  | endSession (handle : SessionHandle)
  | watch (context : Nat) (keys : List Bytes)
  | multi (context : Nat) (key : Bytes)
  | exec (context : Nat)
  | discard (context : Nat)
  | unwatch (context : Nat)
  | promote (shard index : Nat)
  | reset (shard : Nat)
  | subscribe (topic : Topic) (names : List String)
  | ask (subscription : Nat) (request : Subscription.Request)
  | health
deriving DecidableEq, Repr

/-- What a call on a client answers. -/
inductive Answer where
  /-- What the executor answers. -/
  | relayed (a : ShardFleet.Answer)
  | linked (links : List Link)
  | subscribed (number : Nat)
  /-- What a subscription answers, if there is one with the number. -/
  | asked (there : Bool)
  | report (nodes : List NodeHealth)
deriving DecidableEq, Repr

/-- The call that a client makes on its executor, if it makes one, and if there is a node for it. -/
def Call.relayed? (c : Client) : Call → Option (Except Fault ShardFleet.Call)
  | execute context key command => some (.ok (.execute context (c.route key) command))
  | begin context key => some (.ok (.begin context (c.route key)))
  | endSession handle => some (.ok (.endSession handle.context))
  | watch context keys => some ((c.routeTogether "WATCH" keys).map (.watch context · keys))
  | multi context key => some (.ok (.multi context (c.route key)))
  | exec context => some ((c.boundNode context .exec).map (.exec context))
  | discard context => some ((c.boundNode context .discard).map (.discard context))
  | unwatch context => some ((c.boundNode context .unwatch).map (.unwatch context))
  | promote .. | reset .. | subscribe .. | ask .. | health => none

section

variable (N : Network σ)

/-- An answer with its kind. -/
def answered {α : Type} (kind : α → Answer) (r : Outcome α × Client × Wire σ) :
    Outcome Answer × Client × Wire σ :=
  (r.1.map kind, r.2)

/-- Makes a call. -/
def Call.run : Call → Client → Wire σ → Outcome Answer × Client × Wire σ
  | execute context key command, c, w =>
    answered (.relayed <| .reply ·) (c.execute N context key command w)
  | begin context key, c, w => answered (.relayed <| .opened ·) (c.begin N context key w)
  | endSession handle, c, w => answered (.relayed <| .ended ·) (c.endSession N handle w)
  | watch context keys, c, w => answered (.relayed <| .reply ·) (c.watch N context keys w)
  | multi context key, c, w => answered (.relayed <| .reply ·) (c.multi N context key w)
  | exec context, c, w => answered (.relayed <| .reply ·) (c.exec N context w)
  | discard context, c, w => answered (.relayed <| .reply ·) (c.discard N context w)
  | unwatch context, c, w => answered (.relayed <| .reply ·) (c.unwatch N context w)
  | promote shard index, c, w => answered .linked (c.promote N shard index w)
  | reset shard, c, w => answered .linked (c.reset N shard w)
  | subscribe topic names, c, w => answered .subscribed (c.subscribe N topic names w)
  | ask number request, c, w =>
    let (r, subscriptions, w) := c.subscriptions.act N (request.run N) number w
    ((r.map (·.map fun _ => .asked true)).getD (.ok (.asked false)), { c with subscriptions }, w)
  | health, c, w => answered .report (c.health N w)

end

/-! ### The ways of a call -/

/-- The ways that a call on a client can go. -/
inductive Way (N : Network σ) (call : Call) (c : Client) (w : Wire σ) :
    Outcome Answer → Client → Wire σ → Prop where
  /-- There is no node for the call. -/
  | unrouted {f} (refused : call.relayed? c = some (.error f)) : Way N call c w (.failed f) c w
  | relayed {d r e w'} (relays : call.relayed? c = some (.ok d))
      (deed : Deed N d c.executor w r e w') :
    Way N call c w (r.map .relayed) { c with executor := e } w'
  | aside {r c' w'} (own : call.relayed? c = none) (spares : c.executor.Spares c'.executor) :
    Way N call c w r c' w'

/-- A call that a client makes on its executor, if there is a node for it. -/
def relay (N : Network σ) (d? : Except Fault ShardFleet.Call) (c : Client) (w : Wire σ) :
    Outcome Answer × Client × Wire σ :=
  match d? with
  | .error f => (.failed f, c, w)
  | .ok d => answered .relayed (c.lift (d.run N c.executor w))

theorem relay_onNode {node : Except Fault Node} {d : Node → ShardFleet.Call}
    {call : Node → Executor → Wire σ → Outcome Resp.Value × Executor × Wire σ}
    (h : ∀ n e w, (d n).run N e w = ShardFleet.Call.replied (call n e w)) (c : Client) (w : Wire σ) :
    answered (.relayed <| .reply ·) (c.onNode node call w) = relay N (node.map d) c w := by
  cases node with
  | error f => rfl
  | ok n =>
    simp only [Except.map, relay, h, onNode, lift, answered, ShardFleet.Call.replied, Outcome.map_map]

/-- A call that is relayed is what the executor makes of it. -/
theorem Call.run_relayed {call : Call} {c : Client} {d? : Except Fault ShardFleet.Call} (w : Wire σ)
    (h : call.relayed? c = some d?) : call.run N c w = relay N d? c w := by
  cases call with
  | execute | begin | endSession | multi =>
    cases h
    simp only [run, relay, answered, Client.execute, Client.begin, Client.endSession, Client.multi,
      lift, ShardFleet.Call.run, ShardFleet.Call.replied, Outcome.map_map]
  | watch | exec | discard | unwatch =>
    cases h
    exact relay_onNode (fun _ _ _ => rfl) c w
  | promote | reset | subscribe | ask | health => cases h

theorem spares_promote (shard index : Nat) (c : Client) (w : Wire σ) :
    c.executor.Spares (c.promote N shard index w).2.1.executor := by
  unfold Client.promote
  split
  · exact .refl _
  · rename_i chain _
    exact chain.spares_promote index (c.executor, w)

theorem spares_subscribe (topic : Topic) (names : List String) (c : Client) (w : Wire σ) :
    c.executor.Spares (c.subscribe N topic names w).2.1.executor := by
  unfold Client.subscribe
  split
  · exact .refl _
  · rename_i node _
    split
    · exact .refl _
    · rename_i p hp
      rcases hs : Subscription.start N topic names p w with ⟨r, q, w'⟩
      obtain ⟨hn, hi⟩ := Subscription.start_pool hs
      simp only [Subscriptions.start, hs]
      exact Executor.spares_setPool hp hn hi

/-- A call that is not relayed spares the sessions. -/
theorem Call.spares {call : Call} {c : Client} (w : Wire σ) (h : call.relayed? c = none) :
    c.executor.Spares (call.run N c w).2.1.executor := by
  cases call with
  | promote shard index => exact spares_promote shard index c w
  | reset shard => exact spares_promote shard 0 c w
  | subscribe topic names => exact spares_subscribe topic names c w
  | ask => exact .refl _
  | health => exact (Health.checkAll_ways ..).spares
  | execute | begin | endSession | watch | multi | exec | discard | unwatch => cases h

/-- Every call goes one of the ways of a call. -/
theorem Call.way (call : Call) {c : Client} {w : Wire σ} (h : c.executor.Housed) :
    Way N call c w (call.run N c w).1 (call.run N c w).2.1 (call.run N c w).2.2 := by
  cases hr : call.relayed? c with
  | none => exact .aside hr (call.spares w hr)
  | some d? =>
    rw [call.run_relayed w hr]
    cases d? with
    | error f => exact .unrouted hr
    | ok d => exact .relayed hr (d.deed h)

theorem Way.housed {call : Call} {c c' : Client} {w w' : Wire σ} {r : Outcome Answer}
    (h : Way N call c w r c' w') (hc : c.executor.Housed) : c'.executor.Housed := by
  cases h with
  | unrouted => exact hc
  | relayed _ hd => exact hc.deed hd
  | aside _ hs => exact hs.housed hc

/-! ### Runs -/

/-- A client and the wire that it works on. -/
structure Scene (σ : Type) where
  client : Client
  wire : Wire σ

/-- What happens next. -/
inductive Move (σ : Type) where
  | call (c : Call)
  /-- Every listener takes what has arrived for it. -/
  | listen
  /-- The network and the time change by themselves, and so does the moment at which the next call
  will be given up. -/
  | meanwhile (net : σ) (clock : Nat) (deadline : Option Nat)

namespace Scene

section

variable (N : Network σ)

/-- A client over a network. -/
def start (client : Client) (net : σ) : Scene σ := ⟨client, { net }⟩

/-- How a call ends that is made now. -/
def outcome (s : Scene σ) (c : Call) : Outcome Answer := (c.run N s.client s.wire).1

/-- The scene after a call. -/
def afterCall (s : Scene σ) (c : Call) : Scene σ :=
  let (_, client, wire) := c.run N s.client s.wire
  ⟨client, wire⟩

/-- The scene after a move. -/
def after (s : Scene σ) : Move σ → Scene σ
  | .call c => s.afterCall N c
  | .listen =>
    let (subscriptions, wire) := s.client.subscriptions.settle N s.wire
    ⟨{ s.client with subscriptions }, wire⟩
  | .meanwhile net clock deadline => { s with wire := { s.wire with net, clock, deadline } }

/-- The scene after some moves. -/
def run (s : Scene σ) (moves : List (Move σ)) : Scene σ := moves.foldl (after N) s

end

theorem run_concat (s : Scene σ) (moves : List (Move σ)) (m : Move σ) :
    s.run N (moves ++ [m]) = (s.run N moves).after N m := by
  simp [run, List.foldl_append]

theorem housed_after {s : Scene σ} (h : s.client.executor.Housed) (m : Move σ) :
    (s.after N m).client.executor.Housed := by
  cases m with
  | call c => exact (c.way (N := N) h).housed h
  | listen | meanwhile => exact h

theorem housed_run {s : Scene σ} (h : s.client.executor.Housed) (moves : List (Move σ)) :
    (s.run N moves).client.executor.Housed := by
  induction moves using List.reverseRecOn with
  | nil => exact h
  | append_singleton moves m ih =>
    rw [run_concat]
    exact housed_after ih m

end Scene

/-- A client that settings describe has used no connection yet. -/
theorem build_executor {settings : Settings} {client : Client} (h : build settings = .ok client) :
    client.executor = .ofNodes client.nodes :=
  (parts_of_build h).2.2

theorem housed_build {settings : Settings} {client : Client} (h : build settings = .ok client) :
    client.executor.Housed := by
  rw [build_executor h]
  exact (Executor.accounted_ofNodes client.nodes ({ net := () } : Wire Unit)).housed

end Client

end ShardFleet
