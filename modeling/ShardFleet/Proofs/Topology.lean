import ShardFleet.Proofs.Masters
import ShardFleet.Proofs.SessionHandles

/-!
# Requests follow the masters

The master of a shard is the node of its last promotion that succeeded. A context without a session
speaks to the master of the shard that owns its key, and a session stays where this master was when it
was opened, whichever promotions come after. Links are made between the nodes of one shard only.
-/

namespace ShardFleet

variable {σ : Type} {N : Network σ}

/-! ### Where a call goes -/

section

variable {call : Call} {context : Nat} {e e' : Executor} {w w' : Wire σ} {r : Outcome Answer}

theorem Executor.Traced.deed (h : e.Traced w) (hd : Deed N call e w r e' w') : e'.Traced w' :=
  have hwire := (hd.within h.accounted).wire
  ⟨h.accounted.deed hd, hwire.numbered h.numbered, hwire.rooted h.rooted⟩

/-- A call of a context that has a session stays with the node of the session. -/
theorem Deed.stays {s : Session} (h : Deed N call e w r e' w') (ha : e.Accounted w none)
    (asker : call.context? = some context) (hs : e.session? context = some s) :
    w.Confined (some s.node.id) w' := by
  have hwire := (h.within ha).wire
  cases h with
  | refused | absent => exact .refl _ w
  | unlent _ hu =>
    obtain ⟨_, -, -, hq⟩ := hu.quiet
    exact hq.confined _
  | pooled asked =>
    obtain rfl | ⟨other, rfl, free⟩ := asked <;> cases asker
    cases free.symm.trans hs
  | begun asked free =>
    cases asked
    cases asker
    cases free.symm.trans hs
  | stayed asker' hready | parted asker' hready =>
    cases asker.symm.trans asker'
    cases hready with
    | bound hs' _ target =>
      cases hs.symm.trans hs'
      obtain ⟨node, hnode, hid⟩ := Option.map_eq_some_iff.1 target
      rwa [Call.site?_of_node? hnode, hid] at hwire
    | opened _ _ _ free => cases free.symm.trans hs
  | left asked hs' | cleaned asked hs' =>
    rw [Call.site?_of_endSession asked hs'] at hwire
    cases asked
    cases asker
    cases hs.symm.trans hs'
    exact hwire

/-- A session is opened by a call of its context, on the node that the call is for. -/
theorem Deed.opens {t : Session} (h : Deed N call e w r e' w') (free : e.session? context = none)
    (ht : e'.session? context = some t) :
    call.context? = some context ∧ call.node? = some t.node := by
  have hnone (he : e'.session? context = e.session? context) : False := by
    cases ht.symm.trans (he.trans free)
  by_cases asker : call.context? = some context
  case neg => exact (hnone (h.session?_of_ne asker)).elim
  refine ⟨asker, ?_⟩
  cases h with
  | refused | absent => exact (hnone rfl).elim
  | unlent _ hu =>
    obtain ⟨_, -, rfl, -⟩ := hu.quiet
    exact (hnone rfl).elim
  | pooled _ hl _ hs => exact (hnone (congrArg (·.find? context) (hs.sessions.trans hl.sessions))).elim
  | begun asked =>
    cases asked
    cases asker
    rw [Executor.session?_setSession_self] at ht
    cases ht
    rfl
  | stayed asker' hready =>
    cases asker.symm.trans asker'
    rw [Executor.session?_setSession_self] at ht
    cases ht
    cases hready with
    | bound hs => cases free.symm.trans hs
    | opened target => exact target
  | parted asker' _ _ _ _ hs =>
    cases asker.symm.trans asker'
    cases hs.session?_of_erased.symm.trans ht
  | left asked _ _ _ hs | cleaned asked _ _ _ _ hs =>
    cases asked
    cases asker
    cases hs.session?_of_erased.symm.trans ht

theorem Connection.Asks.sends {c : Connection} {command : Command} {r : Outcome Resp.Value}
    {out : List WireEvent} (h : c.Asks command r out) :
    (out.filterMap (·.sent?) = [] ∧ r.isOk = false) ∨
      out.filterMap (·.sent?) = [(c.link, command)] := by
  cases h with
  | unsent failed => exact .inl ⟨rfl, failed⟩
  | sent => exact .inr rfl

/-- Of a command that is run by itself nothing else is sent, and it is if the run ends well. -/
theorem Deed.sends {node : Node} {command : Command} {events : List WireEvent}
    (h : Deed N (.executeOn node command) e w r e' w') (ht : w'.trace = w.trace ++ events) :
    (events.filterMap (·.sent?) = [] ∧ r.isOk = false) ∨
      ∃ link, events.filterMap (·.sent?) = [(link, command)] := by
  obtain ⟨hrequests, hr⟩ | ⟨c, r₀, out, hasks, hrequests, hr⟩ := h.asks
  · exact .inl ⟨hrequests.sent ht, hr⟩
  · rw [hrequests.sent ht, hr]
    exact hasks.sends.imp_right fun hsent => ⟨c.link, hsent⟩

/-- What a command that is run by itself leaves on the links is on links to its node. -/
theorem Executor.Traced.runPooled_events {node : Node} {command : Command} {r : Outcome Resp.Value}
    (h : e.Traced w) (hrun : e.runPooled N node command w = (r, e', w')) :
    e'.Traced w' ∧ ∃ events, w'.trace = w.trace ++ events ∧
      (∀ d ∈ events, .opened d.link node.id ∈ w'.trace ∧
        ∀ sent, d.sent? = some sent → sent.2 = command) ∧
      (r.isOk = true → ∃ d ∈ events, ∃ link, d.sent? = some (link, command)) := by
  have hd : Deed N (.executeOn node command) e w (r.map .reply) e' w' := by
    have hpooled : Deed N (.executeOn node command) e w _ _ _ :=
      runPooled_deed h.accounted.housed (.inl rfl)
    rwa [hrun] at hpooled
  obtain ⟨events, ht, hevents⟩ := (hd.within h.accounted).wire.events
  have hsent := hd.sends ht
  refine ⟨h.deed hd, events, ht, fun d hmem => ⟨?_, fun sent hd => ?_⟩, fun hok => ?_⟩
  · obtain ⟨id, hid, hopened⟩ := hevents d hmem
    cases hid
    exact hopened
  · have hmem' : sent ∈ events.filterMap (·.sent?) := List.mem_filterMap.2 ⟨d, hmem, hd⟩
    obtain ⟨hnone, -⟩ | ⟨link, hone⟩ := hsent
    · rw [hnone] at hmem'
      cases hmem'
    · rw [hone] at hmem'
      rw [List.mem_singleton.1 hmem']
  · obtain ⟨-, hr⟩ | ⟨link, hone⟩ := hsent
    · rw [Outcome.isOk_map, hok] at hr
      cases hr
    · have hmem' : (link, command) ∈ events.filterMap (·.sent?) := by
        rw [hone]
        exact List.mem_singleton_self _
      obtain ⟨d, hd, hlink⟩ := List.mem_filterMap.1 hmem'
      exact ⟨d, hd, link, hlink⟩

end

/-- What is left on the links while errands are run is on links to their nodes, and nothing but their
commands is sent, all of those that were accepted among them. -/
theorem Chain.Ran.events {s s' : Executor × Wire σ} {es : List Chain.Errand}
    (h : Chain.Ran (Client.runner N) s es s') (hs : s.1.Traced s.2) :
    ∃ events, s'.2.trace = s.2.trace ++ events ∧
      (∀ d ∈ events, ∃ errand ∈ es, .opened d.link errand.node.id ∈ s'.2.trace ∧
        ∀ sent, d.sent? = some sent → sent.2 = errand.command) ∧
      ∀ errand ∈ es, errand.outcome.isOk = true → ∃ d ∈ events,
        .opened d.link errand.node.id ∈ s'.2.trace ∧ ∃ link, d.sent? = some (link, errand.command) := by
  induction h with
  | nil => exact ⟨[], by simp, by simp, by simp⟩
  | @cons node command r s s' s'' es first _ ih =>
    rcases hrun : s.1.runPooled N node command s.2 with ⟨r', e', w'⟩
    simp only [Client.runner, hrun] at first
    cases first
    obtain ⟨htraced, events, ht, hevents, hfirst⟩ := hs.runPooled_events hrun
    obtain ⟨rest, ht', hrest, hothers⟩ := ih htraced
    have hlater {d : WireEvent} (hd : d ∈ w'.trace) : d ∈ s''.2.trace := by
      rw [ht']
      exact List.mem_append_left _ hd
    refine ⟨events ++ rest, by rw [ht', ht, List.append_assoc], List.forall_mem_append.2 ⟨?_, ?_⟩,
      List.forall_mem_cons.2 ⟨?_, ?_⟩⟩
    · intro d hd
      obtain ⟨hopened, hsent⟩ := hevents d hd
      exact ⟨_, List.mem_cons_self, hlater hopened, hsent⟩
    · intro d hd
      obtain ⟨errand, herrand, hopened, hsent⟩ := hrest d hd
      exact ⟨errand, List.mem_cons_of_mem _ herrand, hopened, hsent⟩
    · intro hok
      obtain ⟨d, hd, hsent⟩ := hfirst hok
      exact ⟨d, List.mem_append_left _ hd, hlater (hevents d hd).1, hsent⟩
    · intro errand herrand hok
      obtain ⟨d, hd, hsent⟩ := hothers errand herrand hok
      exact ⟨d, List.mem_append_right _ hd, hsent⟩

namespace Client

variable {call : Call} {c : Client} {context : Nat} {key : Bytes} {d : ShardFleet.Call}

/-- The context that makes a call, if any does. -/
def Call.context? : Call → Option Nat
  | execute context _ _ | begin context _ | watch context _ | multi context _ | exec context
  | discard context | unwatch context => some context
  | endSession handle => some handle.context
  | promote .. | reset .. | subscribe .. | ask .. | health => none

/-- The key by which a call finds its node, the first if there are several. -/
def Call.key? : Call → Option Bytes
  | execute _ key _ | begin _ key | multi _ key => some key
  | watch _ keys => keys.head?
  | _ => none

/-- Whether a move is a call of a context, a promotion or a reset, or no call. -/
def Move.Routes : Move σ → Prop
  | .call call => call.context? ≠ none ∨ call.target? ≠ none
  | .meanwhile .. => True
  | .listen => False

theorem Call.context?_of_relayed? (h : call.relayed? c = some (.ok d)) :
    d.context? = call.context? := by
  have hmap {node : Except Fault Node} {f : Node → ShardFleet.Call} (h : node.map f = .ok d) :
      ∃ n, d = f n := by
    cases node <;> cases h
    exact ⟨_, rfl⟩
  cases call with
  | execute | begin | endSession | multi =>
    cases h
    rfl
  | watch | exec | discard | unwatch =>
    obtain ⟨n, rfl⟩ := hmap (Option.some.inj h)
    rfl
  | promote | reset | subscribe | ask | health => cases h

/-- A call of a context without a session is for the node that owns its key. -/
theorem Call.node?_of_relayed? (h : call.relayed? c = some (.ok d))
    (asker : call.context? = some context) (free : c.executor.session? context = none) :
    d.node? = call.key?.map c.route := by
  have hunbound (step : Step) :
      c.boundNode context step = .error (.session (.noSession step.commandName)) := by
    simp only [boundNode, Executor.boundNode?, free, Option.map_none]
  cases call with
  | execute | begin | endSession | multi =>
    cases h
    rfl
  | watch other keys =>
    have h := Option.some.inj h
    cases keys with
    | nil => cases h
    | cons first rest =>
      simp only [routeTogether] at h
      split at h <;> cases h
      rfl
  | exec | discard | unwatch =>
    cases asker
    rw [relayed?, hunbound] at h
    cases h
  | promote | reset | subscribe | ask | health => cases h

namespace Scene

variable {s s' : Scene σ} {moves : List (Move σ)}

section

variable (N : Network σ)

/-- What happens on the links during a call that is made now. -/
def events (s : Scene σ) (call : Call) : List WireEvent :=
  (s.afterCall N call).wire.trace.drop s.wire.trace.length

/-- Whether all that happens during a call that is made now happens on links to some nodes, which lead
nowhere else. -/
def KeepsTo (s : Scene σ) (call : Call) (nodes : List Node) : Prop :=
  ∀ d ∈ s.events N call, ∃ n ∈ nodes, ∀ id,
    .opened d.link id ∈ (s.afterCall N call).wire.trace ↔ id = n.id

/-- The node that a move makes the master of a shard, by its index. -/
def made? (s : Scene σ) (k : Nat) : Move σ → Option Nat
  | .call call => call.target?.bind fun (shard, index) =>
    if shard = k ∧ (s.outcome N call).isOk then some index else none
  | _ => none

/-- The nodes that were made the master of a shard in a run, in order. -/
def promotions (k : Nat) : Scene σ → List (Move σ) → List Nat
  | _, [] => []
  | s, m :: moves => (s.made? N k m).toList ++ promotions k (s.after N m) moves

/-- The node that was made the master of a shard last in a run, and the first one where none was. -/
def lastMade (s : Scene σ) (moves : List (Move σ)) (k : Nat) : Nat :=
  (s.promotions N k moves).getLast?.getD 0

/-- The node that was made the master of the shard of a key last in a run. -/
def owner? (s : Scene σ) (moves : List (Move σ)) (key : Bytes) : Option Node :=
  let shard := s.client.router.routeIndex key
  s.client.layout[shard]?.bind (·[s.lastMade N moves shard]?)

/-- Whether a context got its session in a run by a call with a key that `n` owned then, and has had it
ever since. -/
def OpenedOn (s : Scene σ) (moves : List (Move σ)) (context : Nat) (n : Node) : Prop :=
  ∃ before call since key, moves = before ++ .call call :: since ∧
    call.context? = some context ∧ call.key? = some key ∧
    (s.run N before).session? context = none ∧
    (s.run N (before ++ [.call call])).Lasts N since context ∧ s.owner? N before key = some n

/-- Where the calls go that are made after some moves of a run. -/
structure FollowsMasters (s : Scene σ) (moves : List (Move σ)) : Prop where
  /-- Without a session a call goes to the last master of the shard of its key. -/
  alone : ∀ call context key, call.context? = some context → call.key? = some key →
    (s.run N moves).session? context = none →
      ∃ n, s.owner? N moves key = some n ∧ (s.run N moves).KeepsTo N call [n]
  /-- Without a session and a key it goes nowhere. -/
  silent : ∀ call context, call.context? = some context → call.key? = none →
    (s.run N moves).session? context = none → (s.run N moves).events N call = []
  /-- With a session it goes to the node that was the master when the session was opened. -/
  inside : ∀ call context, call.context? = some context →
    (s.run N moves).session? context ≠ none →
      ∃ n, s.OpenedOn N moves context n ∧ (s.run N moves).KeepsTo N call [n]
  /-- A promotion goes to the nodes of its shard, and changes no other shard. -/
  links : ∀ call shard index, call.target? = some (shard, index) →
    (s.run N moves).KeepsTo N call (s.client.layout[shard]?.getD []) ∧
      ∀ other ≠ shard, ((s.run N moves).afterCall N call).client.shards[other]? =
        (s.run N moves).client.shards[other]?

end

theorem events_of_trace {call : Call} {events : List WireEvent}
    (h : (s.afterCall N call).wire.trace = s.wire.trace ++ events) : s.events N call = events := by
  rw [Scene.events, h, List.drop_left]

theorem made?_of_target {call : Call} {shard index : Nat} (h : call.target? = some (shard, index))
    (k : Nat) : s.made? N k (.call call) =
      if shard = k ∧ (s.outcome N call).isOk then some index else none := by
  simp only [made?, h, Option.bind_some]

theorem promotions_concat (k : Nat) (s : Scene σ) (moves : List (Move σ)) (m : Move σ) :
    s.promotions N k (moves ++ [m]) =
      s.promotions N k moves ++ ((s.run N moves).made? N k m).toList := by
  induction moves generalizing s with
  | nil => simp [promotions, run]
  | cons first moves ih => simp [promotions, ih, run]

/-- The last master stays the same unless a move makes another. -/
theorem lastMade_concat (s : Scene σ) (moves : List (Move σ)) (m : Move σ) (k : Nat) :
    s.lastMade N (moves ++ [m]) k =
      ((s.run N moves).made? N k m).getD (s.lastMade N moves k) := by
  rw [lastMade, promotions_concat]
  cases (s.run N moves).made? N k m with
  | none => simp [lastMade]
  | some index => simp

/-- What is confined to one node keeps to it. -/
theorem keepsTo_of_confined {home : Option Node} {call : Call}
    (h : s.wire.Confined (home.map (·.id)) (s.afterCall N call).wire) (hs : s.wire.Numbered) :
    s.KeepsTo N call home.toList := by
  obtain ⟨events, ht, hevents⟩ := h.events
  intro d hd
  rw [events_of_trace ht] at hd
  obtain ⟨id, hid, hopened⟩ := hevents d hd
  obtain ⟨n, rfl, rfl⟩ := Option.map_eq_some_iff.1 hid
  refine ⟨n, List.mem_singleton_self n, fun other => ⟨fun hother => ?_, ?_⟩⟩
  · exact (h.numbered hs).single _ _ _ hother hopened
  · rintro rfl
    exact hopened

theorem KeepsTo.nil {call : Call} (h : s.KeepsTo N call []) : s.events N call = [] :=
  List.eq_nil_iff_forall_not_mem.2 fun d hd => by
    obtain ⟨n, hn, -⟩ := h d hd
    cases hn

/-! ### Runs -/

/-- What holds after every run: the same nodes are there, every shard has its last master, and every
session is on the node that was the master when it was opened. -/
structure Steered (N : Network σ) (s : Scene σ) (moves : List (Move σ)) : Prop where
  sound : (s.run N moves).Sound
  layout : (s.run N moves).client.layout = s.client.layout
  routeIndex : (s.run N moves).client.router.routeIndex = s.client.router.routeIndex
  master : ∀ k chain, (s.run N moves).client.shards[k]? = some chain →
    chain.master = s.lastMade N moves k
  sessions : ∀ context t, (s.run N moves).session? context = some t →
    s.OpenedOn N moves context t.node

/-- A key is owned by the last master of its shard. -/
theorem Steered.owner (h : s.Steered N moves) (key : Bytes) :
    s.owner? N moves key = some ((s.run N moves).client.route key) := by
  set c := (s.run N moves).client
  have hlt : c.router.routeIndex key < c.shards.length := c.router.routeIndex_lt key
  have hchain : c.shards[c.router.routeIndex key]? = some (c.shardFor key) :=
    List.getElem?_eq_getElem hlt
  have hnodes : c.layout[c.router.routeIndex key]? = some (c.shardFor key).nodes := by
    rw [Client.layout, List.getElem?_map, hchain, Option.map_some]
  have hmaster := h.master _ _ hchain
  rw [owner?, ← h.layout, ← h.routeIndex, hnodes, Option.bind_some, ← hmaster]
  exact List.getElem?_eq_getElem (c.shardFor key).master_lt

/-- A session that lasts through one more move was opened as it was. -/
theorem OpenedOn.concat {context : Nat} {n : Node} {m : Move σ} (h : s.OpenedOn N moves context n)
    (hm : (s.run N (moves ++ [m])).session? context ≠ none) :
    s.OpenedOn N (moves ++ [m]) context n := by
  obtain ⟨before, call, since, key, rfl, asker, hkey, hfree, hlasts, howner⟩ := h
  refine ⟨before, call, since ++ [m], key, by simp, asker, hkey, hfree, ?_, howner⟩
  intro earlier hearlier
  rcases List.prefix_concat_iff.1 hearlier with rfl | hearlier
  · simpa [run] using hm
  · exact hlasts earlier hearlier

/-- A session that a move opens is opened on the node that owns the key of the call. -/
theorem Steered.opened (h : s.Steered N moves) {m : Move σ} {context : Nat} {t : Session}
    (hfree : (s.run N moves).session? context = none)
    (ht : (s.run N (moves ++ [m])).session? context = some t) :
    s.OpenedOn N (moves ++ [m]) context t.node := by
  have hlasts : (s.run N (moves ++ [m])).Lasts N [] context := by
    intro earlier hearlier
    rw [List.prefix_nil.1 hearlier, run, List.foldl_nil, ht]
    exact Option.some_ne_none t
  rw [run_concat] at ht
  have hnone (he : ((s.run N moves).after N m).session? context = (s.run N moves).session? context) :
      False := by
    cases ht.symm.trans (he.trans hfree)
  cases m with
  | listen | meanwhile => exact (hnone rfl).elim
  | call call =>
    have hway := call.way (N := N) (w := (s.run N moves).wire) h.sound.traced.accounted.housed
    simp only [after, afterCall, session?] at ht hnone
    generalize (call.run N (s.run N moves).client (s.run N moves).wire).1 = r,
      (call.run N (s.run N moves).client (s.run N moves).wire).2.1 = client,
      (call.run N (s.run N moves).client (s.run N moves).wire).2.2 = wire at hway ht hnone
    cases hway with
    | unrouted => exact (hnone rfl).elim
    | aside _ hspares => exact (hnone (hspares.sessions context)).elim
    | relayed relays deed =>
      obtain ⟨asker, target⟩ := deed.opens hfree ht
      rw [Call.context?_of_relayed? relays] at asker
      rw [Call.node?_of_relayed? relays asker hfree] at target
      obtain ⟨key, hkey, hnode⟩ := Option.map_eq_some_iff.1 target
      exact ⟨moves, call, [], key, rfl, asker, hkey, hfree, hlasts, hnode ▸ h.owner key⟩

/-- The master of a shard changes with a promotion of the shard that succeeds. -/
theorem Shifts.master {shard index k : Nat} {ok : Bool} {chain' : Chain}
    (h : Shifts N s shard index ok s') (hk : s'.client.shards[k]? = some chain') :
    ∃ chain, s.client.shards[k]? = some chain ∧
      chain'.master = if shard = k ∧ ok = true then index else chain.master := by
  cases h with
  | unknown => exact ⟨chain', hk, by simp⟩
  | @tried chain own r e w hown ways =>
    change (s.client.shards.set shard own)[k]? = some chain' at hk
    by_cases hshard : shard = k
    · subst hshard
      have hlt := (List.getElem?_eq_some_iff.1 hown).1
      rw [List.getElem?_set_self hlt] at hk
      cases hk
      refine ⟨chain, hown, ?_⟩
      cases ways with
      | refused => simp [Outcome.isOk]
      | made => simp [Outcome.isOk]
      | missed _ _ _ unmade => simp [unmade]
    · rw [List.getElem?_set_ne hshard] at hk
      exact ⟨chain', hk, by simp [hshard]⟩

theorem Shifts.routeIndex {shard index : Nat} {ok : Bool} (h : Shifts N s shard index ok s') :
    s'.client.router.routeIndex = s.client.router.routeIndex := by
  cases h <;> rfl

/-- A call of a context changes the executor and what happened on the links only, and it goes to the node
of the context's session or, if there is none, to the node that owns its key. -/
theorem Sound.relayed (hs : s.Sound) {call : Call} {context : Nat}
    (asker : call.context? = some context) :
    (s.afterCall N call).Sound ∧ (s.afterCall N call).client.router = s.client.router ∧
      s.KeepsTo N call
        (((s.session? context).map (·.node)).or (call.key?.map s.client.route)).toList := by
  have hway := call.way (N := N) (w := s.wire) hs.traced.accounted.housed
  set home := ((s.session? context).map (·.node)).or (call.key?.map s.client.route) with hhome
  have hkeeps (h : s.wire.Confined (home.map (·.id)) (s.afterCall N call).wire) :
      s.KeepsTo N call home.toList := keepsTo_of_confined h hs.traced.numbered
  simp only [afterCall] at hkeeps ⊢
  generalize (call.run N s.client s.wire).1 = r, (call.run N s.client s.wire).2.1 = client,
    (call.run N s.client s.wire).2.2 = wire at hway hkeeps ⊢
  cases hway with
  | unrouted => exact ⟨hs, rfl, hkeeps (.refl _ _)⟩
  | aside own =>
    cases call <;> cases asker <;> cases own
  | @relayed d _ _ _ relays deed =>
    refine ⟨⟨hs.traced.deed deed, hs.ids⟩, rfl, hkeeps ?_⟩
    have asker' := (Call.context?_of_relayed? relays).trans asker
    cases ht : s.session? context with
    | some t =>
      rw [hhome, ht]
      exact deed.stays hs.traced.accounted asker' ht
    | none =>
      rw [hhome, ht]
      have hsite : d.site? s.client.executor = (call.key?.map s.client.route).map (·.id) := by
        rw [← Call.node?_of_relayed? relays asker ht]
        cases d with
        | endSession =>
          cases asker'
          exact congrArg (Option.map _) ht
        | _ => rfl
      exact hsite ▸ (deed.within hs.traced.accounted).wire

/-- However a promotion goes, what happens on the links happens on links to nodes of the chain. -/
theorem promotes_events {index : Nat} {chain chain' : Chain} {t t' : Executor × Wire σ}
    {r : Outcome (List Link)} (h : Chain.Promotes (runner N) index chain t r chain' t')
    (ht : t.1.Traced t.2) : ∃ events, t'.2.trace = t.2.trace ++ events ∧
      ∀ d ∈ events, ∃ n ∈ chain.nodes, .opened d.link n.id ∈ t'.2.trace := by
  have hran {es : List Chain.Errand} {all : Bool}
      (links : chain.Relinks (Link.plan chain.nodes.length index) es all)
      (ran : Chain.Ran (runner N) t es t') : ∃ events, t'.2.trace = t.2.trace ++ events ∧
        ∀ d ∈ events, ∃ n ∈ chain.nodes, .opened d.link n.id ∈ t'.2.trace := by
    obtain ⟨events, htrace, hevents, -⟩ := ran.events ht
    refine ⟨events, htrace, fun d hd => ?_⟩
    obtain ⟨errand, herrand, hopened, -⟩ := hevents d hd
    exact ⟨errand.node, links.node_mem errand herrand, hopened⟩
  cases h with
  | refused => exact ⟨[], by simp, by simp⟩
  | made _ links ran => exact hran links ran
  | missed _ links ran => exact hran links ran

/-- A promotion goes to the nodes of its shard only. -/
theorem Shifts.keepsTo {call : Call} {shard index : Nat} {ok : Bool}
    (h : Shifts N s shard index ok (s.afterCall N call)) (hs : s.Sound) :
    s.KeepsTo N call (s.client.layout[shard]?.getD []) := by
  have hnumbered := (h.sound hs).traced.numbered
  suffices hevents : ∃ events, (s.afterCall N call).wire.trace = s.wire.trace ++ events ∧
      ∀ d ∈ events, ∃ n ∈ s.client.layout[shard]?.getD [],
        .opened d.link n.id ∈ (s.afterCall N call).wire.trace by
    obtain ⟨events, htrace, hevents⟩ := hevents
    intro d hd
    rw [events_of_trace htrace] at hd
    obtain ⟨n, hn, hopened⟩ := hevents d hd
    refine ⟨n, hn, fun id => ⟨fun hid => hnumbered.single _ _ _ hid hopened, ?_⟩⟩
    rintro rfl
    exact hopened
  generalize s.afterCall N call = s' at h
  cases h with
  | unknown => exact ⟨[], by simp, by simp⟩
  | @tried chain _ _ e w own ways =>
    rw [Client.layout, List.getElem?_map, own]
    exact promotes_events ways hs.traced

theorem Shifts.shards {shard index other : Nat} {ok : Bool} (h : Shifts N s shard index ok s')
    (hne : other ≠ shard) : s'.client.shards[other]? = s.client.shards[other]? := by
  cases h with
  | unknown => rfl
  | tried => exact List.getElem?_set_ne hne.symm

/-- One move keeps the nodes, and makes a master at most where it promotes one. -/
theorem Sound.turn (hs : s.Sound) {m : Move σ} (hm : m.Routes) :
    (s.after N m).Sound ∧ (s.after N m).client.layout = s.client.layout ∧
      (s.after N m).client.router.routeIndex = s.client.router.routeIndex ∧
      ∀ k chain', (s.after N m).client.shards[k]? = some chain' →
        ∃ chain, s.client.shards[k]? = some chain ∧
          chain'.master = (s.made? N k m).getD chain.master := by
  cases m with
  | listen => cases hm
  | meanwhile net clock deadline =>
    have hnumbered := hs.traced.numbered
    refine ⟨⟨⟨hs.traced.accounted.mono le_rfl List.prefix_rfl, ⟨hnumbered.below, hnumbered.single⟩,
      hs.traced.rooted⟩, hs.ids⟩, rfl, rfl, fun k chain hk => ⟨chain, hk, rfl⟩⟩
  | call call =>
    cases htarget : call.target? with
    | none =>
      obtain ⟨context, asker⟩ := Option.ne_none_iff_exists'.1 (hm.resolve_right (absurd htarget))
      obtain ⟨hsound, hrouter, -⟩ := hs.relayed (N := N) asker
      have hshards : (s.afterCall N call).client.shards = s.client.shards :=
        congrArg (·.ring.shards) hrouter
      have hlayout : (s.afterCall N call).client.layout = s.client.layout := by
        rw [Client.layout, hshards, Client.layout]
      refine ⟨hsound, hlayout, congrArg Router.routeIndex hrouter, ?_⟩
      intro k chain hk
      change (s.afterCall N call).client.shards[k]? = some chain at hk
      rw [hshards] at hk
      exact ⟨chain, hk, by rw [made?, htarget]; rfl⟩
    | some target =>
      obtain ⟨shard, index⟩ := target
      have hshifts := s.shifts (N := N) htarget
      refine ⟨hshifts.sound hs, hshifts.layout, hshifts.routeIndex, fun k chain' hk => ?_⟩
      obtain ⟨chain, hchain, hmaster⟩ := hshifts.master hk
      refine ⟨chain, hchain, ?_⟩
      rw [hmaster, made?_of_target htarget]
      by_cases hmade : shard = k ∧ (s.outcome N call).isOk = true
      · rw [if_pos hmade, if_pos hmade, Option.getD_some]
      · rw [if_neg hmade, if_neg hmade, Option.getD_none]

theorem Steered.step (h : s.Steered N moves) {m : Move σ} (hm : m.Routes) :
    s.Steered N (moves ++ [m]) := by
  obtain ⟨hsound, hlayout, hroute, hmaster⟩ := h.sound.turn (N := N) hm
  have hsessions (context : Nat) (t : Session)
      (ht : (s.run N (moves ++ [m])).session? context = some t) :
      s.OpenedOn N (moves ++ [m]) context t.node := by
    cases hu : (s.run N moves).session? context with
    | none => exact h.opened hu ht
    | some u =>
      have hlasts : (s.run N (moves ++ [m])).session? context ≠ none := by
        rw [ht]
        exact Option.some_ne_none t
      rw [run_concat] at ht
      rw [(session_same_after h.sound.traced.accounted.housed m hu ht).1]
      exact (h.sessions context u hu).concat hlasts
  refine ⟨?_, ?_, ?_, ?_, hsessions⟩ <;> rw [run_concat]
  · exact hsound
  · exact hlayout.trans h.layout
  · exact hroute.trans h.routeIndex
  · intro k chain' hk
    obtain ⟨chain, hchain, hchanged⟩ := hmaster k chain' hk
    rw [hchanged, lastMade_concat, h.master k chain hchain]

theorem steered_run (hs : s.Steered N []) {moves : List (Move σ)} (hmoves : ∀ m ∈ moves, m.Routes) :
    s.Steered N moves := by
  induction moves using List.reverseRecOn with
  | nil => exact hs
  | append_singleton moves m ih =>
    rw [List.forall_mem_append, List.forall_mem_singleton] at hmoves
    exact (ih hmoves.1).step hmoves.2

theorem steered_start {settings : Settings} {client : Client} (h : build settings = .ok client)
    (net : σ) : (start client net).Steered N [] where
  sound := sound_start h net
  layout := rfl
  routeIndex := rfl
  master k chain hk := masters_of_build h chain (List.mem_of_getElem? hk)
  sessions context t ht := by
    have hnone : (start client net).client.executor.session? context = none := by
      rw [start, build_executor h]
      rfl
    cases hnone.symm.trans ht

/-- **Requests follow the masters**: in every run, a context without a session speaks to the node that
was made the master of the shard of its key last, and a context with a session to the node that was
this master when the session was opened. Links are made on the nodes of one shard, and no other shard
gets another master. -/
theorem requests_follow_masters {settings : Settings} {client : Client}
    (h : build settings = .ok client) (N : Network σ) (net : σ) (moves : List (Move σ))
    (hmoves : ∀ m ∈ moves, m.Routes) : (start client net).FollowsMasters N moves := by
  have hsteered := steered_run (steered_start (N := N) h net) hmoves
  constructor
  · intro call context key asker hkey hfree
    obtain ⟨-, -, hkeeps⟩ := hsteered.sound.relayed (N := N) asker
    rw [hfree, hkey] at hkeeps
    exact ⟨_, hsteered.owner key, hkeeps⟩
  · intro call context asker hkey hfree
    obtain ⟨-, -, hkeeps⟩ := hsteered.sound.relayed (N := N) asker
    rw [hfree, hkey] at hkeeps
    exact hkeeps.nil
  · intro call context asker hsome
    obtain ⟨t, ht⟩ := Option.ne_none_iff_exists'.1 hsome
    obtain ⟨-, -, hkeeps⟩ := hsteered.sound.relayed (N := N) asker
    rw [ht] at hkeeps
    exact ⟨t.node, hsteered.sessions context t ht, hkeeps⟩
  · intro call shard index htarget
    have hshifts := ((start client net).run N moves).shifts (N := N) htarget
    rw [← hsteered.layout]
    exact ⟨hshifts.keepsTo hsteered.sound, fun other hne => hshifts.shards hne⟩

/-- A session stays on the first node when the second is made the master, to which another context then
speaks. -/
theorem requests_around_promotion :
    let settings : Settings := {
      sharding := { virtualNodes := 1, hashing := .fnv1a }
      shards := [{ nodes := ["a", "b"].map fun host => { host, port := 1 } }] }
    let moves : List (Move Rehearsal.Stage) := [.call (.multi 1 []), .call (.promote 0 1)]
    ∃ client, build settings = .ok client ∧ (∀ m ∈ moves, m.Routes) ∧
      let s := start client ({} : Rehearsal.Stage)
      s.FollowsMasters Rehearsal.network moves ∧
      ((s.run Rehearsal.network moves).session? 1).map (·.node.id) = some "a:1/0" ∧
      (s.owner? Rehearsal.network moves []).map (·.id) = some "b:1/0" ∧
      (s.run Rehearsal.network moves).events Rehearsal.network (.exec 1) ≠ [] ∧
      (s.run Rehearsal.network moves).events Rehearsal.network (.execute 2 [] (.of "PING" [])) ≠ [] := by
  intro settings moves
  obtain ⟨client, hbuild⟩ : ∃ client, build settings = .ok client := ⟨_, rfl⟩
  have hroutes : ∀ m ∈ moves, m.Routes := by
    simp [moves, Move.Routes, Call.context?, Call.target?]
  have hruns : ∀ client ∈ (build settings).toOption,
      let s := start client ({} : Rehearsal.Stage)
      ((s.run Rehearsal.network moves).session? 1).map (·.node.id) = some "a:1/0" ∧
      (s.owner? Rehearsal.network moves []).map (·.id) = some "b:1/0" ∧
      (s.run Rehearsal.network moves).events Rehearsal.network (.exec 1) ≠ [] ∧
      (s.run Rehearsal.network moves).events Rehearsal.network (.execute 2 [] (.of "PING" [])) ≠ [] := by
    decide +kernel
  have hfollows := requests_follow_masters hbuild Rehearsal.network {} moves hroutes
  exact ⟨client, hbuild, hroutes, hfollows, hruns client (by rw [hbuild]; rfl)⟩

end Scene

end Client

end ShardFleet
