import ShardFleet.Proofs.NearestLabel
import ShardFleet.Proofs.OutOfPlace
import ShardFleet.Proofs.Topology
import ShardFleet.Rehearsal.Servers

/-!
# What valid settings are good for

Settings that are valid make a client, with one pool of its own for every node. The pools stay where
they are whatever the client is asked, and so does every session on a node that has one. So no call
fails for want of a pool, or because a chain or a ring is empty.
-/

namespace ShardFleet

variable {σ : Type} {N : Network σ}

/-! ### Construction -/

namespace Settings

/-- Valid settings have shards and labels, and all their shards have nodes, with bounds that can be
used. -/
theorem bounds_of_check {s t : Settings} (h : s.check = .ok t) :
    t.shards ≠ [] ∧ 0 < t.sharding.virtualNodes ∧
      ∀ shard ∈ t.shards, shard.nodes ≠ [] ∧ ∀ n ∈ shard.nodes, (n.limits t.pool).Usable := by
  obtain ⟨rfl, hvalid⟩ := check_eq_ok h
  refine ⟨hvalid.shards, hvalid.labels, fun shard hshard => ⟨hvalid.inhabited shard hshard, ?_⟩⟩
  exact fun n hn => (hvalid.nodes n (List.mem_flatMap.2 ⟨shard, hshard, hn⟩)).bounds

end Settings

namespace Client

/-- Shards that all have nodes are made into as many chains. -/
theorem buildChains_total (limits : PoolLimits) (index : Nat) {ss : List ShardSettings}
    (h : ∀ s ∈ ss, s.nodes ≠ []) :
    ∃ chains, buildChains limits index ss = .ok chains ∧ chains.length = ss.length := by
  induction ss generalizing index with
  | nil => exact ⟨[], rfl, rfl⟩
  | cons s ss ih =>
    obtain ⟨hfirst, hrest⟩ := List.forall_mem_cons.1 h
    obtain ⟨chains, hchains, hlength⟩ := ih (index + 1) hrest
    have hpos : 0 < (s.nodes.map (·.toNode limits)).length := by
      rw [List.length_map]
      exact List.length_pos_iff.2 hfirst
    refine ⟨⟨s.title index, s.nodes.map (·.toNode limits), 0, hpos⟩ :: chains, ?_, by simp [hlength]⟩
    simp only [buildChains, Chain.build, dif_pos hpos, hchains, Except.map]

/-- Valid settings make a client. -/
theorem build_total {settings : Settings} (h : settings.check = .ok settings) :
    ∃ client, build settings = .ok client := by
  obtain ⟨hshards, hlabels, hnodes⟩ := Settings.bounds_of_check h
  obtain ⟨chains, hchains, hlength⟩ :=
    buildChains_total settings.pool 0 fun s hs => (hnodes s hs).1
  have hne : chains ≠ [] := by
    rw [← List.length_pos_iff, hlength]
    exact List.length_pos_iff.2 hshards
  obtain ⟨ring, hring, -⟩ := Ring.build_ok settings.sharding.hashing hne hlabels
  simp only [build, h, hchains, hring, Except.ok.injEq, exists_eq']

theorem nodes_of_build {settings : Settings} {client : Client} (h : build settings = .ok client) :
    client.nodes = (settings.shards.flatMap (·.nodes)).map (·.toNode settings.pool) :=
  nodes_of_buildChains (parts_of_build h).2.1

theorem usable_of_build {settings : Settings} {client : Client} (h : build settings = .ok client) :
    ∀ n ∈ client.nodes, n.limits.Usable := by
  obtain ⟨hcheck, -⟩ := parts_of_build h
  rw [nodes_of_build h]
  intro n hn
  obtain ⟨node, hnode, rfl⟩ := List.mem_map.1 hn
  obtain ⟨shard, hshard, hmem⟩ := List.mem_flatMap.1 hnode
  exact ((Settings.bounds_of_check hcheck).2.2 shard hshard).2 node hmem

end Client

/-- Nodes of different names have pools of their own. -/
theorem Executor.pool?_ofNodes_of_nodup {nodes : List Node} (h : (nodes.map (·.id)).Nodup) {n : Node}
    (hn : n ∈ nodes) : (ofNodes nodes).pool? n = some { node := n } := by
  induction nodes using List.reverseRecOn with
  | nil => cases hn
  | append_singleton nodes last ih =>
    rw [List.map_append, List.nodup_append] at h
    obtain ⟨hnodes, -, hlast⟩ := h
    rw [ofNodes_concat, pool?, find?_setPool]
    rcases List.mem_append.1 hn with hmem | hmem
    · rw [if_neg (hlast n.id (List.mem_map_of_mem hmem) last.id (by simp))]
      exact ih hnodes hmem
    · rw [List.mem_singleton.1 hmem, if_pos rfl]

/-! ### Clients -/

namespace Subscriptions

variable {t t' : Subscriptions × Wire σ}

theorem sited_advances (hN : N.Sited) (h : Advances N t t') (ht : ∀ s ∈ t.1.started, s.Sited) :
    ∀ s ∈ t'.1.started, s.Sited := by
  induction h with
  | refl => exact ht
  | tail _ hstep ih =>
    cases hstep with
    | one here stirs =>
      intro s hs
      rcases List.mem_or_eq_of_mem_set hs with hs | rfl
      · exact ih s hs
      · exact (ih _ (List.mem_of_getElem? here)).stirs hN stirs

end Subscriptions

namespace Client

variable {c : Client} {call : Call} {d : ShardFleet.Call}

theorem route_mem (c : Client) (key : Bytes) : c.route key ∈ c.nodes :=
  List.mem_flatMap.2 ⟨c.shardFor key, List.get_mem .., List.get_mem ..⟩

/-- What holds between calls: all nodes have their pools, and all sessions are on these nodes. -/
structure Equipped (c : Client) : Prop where
  housed : c.executor.Housed
  pools : ∀ n ∈ c.nodes, ∃ p, c.executor.pool? n = some p ∧ p.node = n
  sessions : ∀ context t, c.executor.session? context = some t → t.node ∈ c.nodes

theorem Equipped.pool? (hc : c.Equipped) {n : Node} (hn : n ∈ c.nodes) : c.executor.pool? n ≠ none := by
  obtain ⟨p, hp, -⟩ := hc.pools n hn
  exact Option.ne_none_iff_exists'.2 ⟨p, hp⟩

/-- A call that names several keys is for the node that owns the first, or is refused. -/
theorem routeTogether_cases (c : Client) (command : String) (names : List Bytes) :
    (∃ f, c.routeTogether command names = .error (.session f)) ∨
      ∃ key, c.routeTogether command names = .ok (c.route key) := by
  unfold routeTogether
  split
  · exact .inl ⟨_, rfl⟩
  · exact .inl ⟨_, rfl⟩
  · exact .inr ⟨_, rfl⟩

theorem boundNode_cases (c : Client) (context : Nat) (step : Step) :
    (∃ f, c.boundNode context step = .error (.session f)) ∨
      ∃ t, c.executor.session? context = some t ∧ c.boundNode context step = .ok t.node := by
  unfold boundNode Executor.boundNode?
  cases c.executor.session? context with
  | none => exact .inl ⟨_, rfl⟩
  | some t => exact .inr ⟨t, rfl, rfl⟩

/-- A call that is relayed is for a node of the client. -/
theorem Call.node_mem_of_relayed? (hc : c.Equipped) (h : call.relayed? c = some (.ok d)) {node : Node}
    (hn : d.node? = some node) : node ∈ c.nodes := by
  have hbound {context : Nat} {step : Step} {f : Node → ShardFleet.Call}
      (h : (c.boundNode context step).map f = .ok d) (hf : ∀ n, (f n).node? = some n) :
      node ∈ c.nodes := by
    obtain ⟨g, hb⟩ | ⟨t, ht, hb⟩ := c.boundNode_cases context step <;> rw [hb] at h <;> cases h
    cases (hf _).symm.trans hn
    exact hc.sessions context t ht
  cases call with
  | execute | begin | multi =>
    cases h
    cases hn
    exact c.route_mem _
  | endSession =>
    cases h
    cases hn
  | watch context keys =>
    have h := Option.some.inj h
    obtain ⟨g, hr⟩ | ⟨key, hr⟩ := c.routeTogether_cases "WATCH" keys <;> rw [hr] at h <;> cases h
    cases hn
    exact c.route_mem key
  | exec | discard | unwatch => exact hbound (Option.some.inj h) fun _ => rfl
  | promote | reset | subscribe | ask | health => cases h

/-- A call for which there is no node is a misuse of sessions. -/
theorem Call.fault_of_relayed? {f : Fault} (h : call.relayed? c = some (.error f)) :
    ∃ g, f = .session g := by
  have hbound {context : Nat} {step : Step} {k : Node → ShardFleet.Call}
      (h : (c.boundNode context step).map k = .error f) : ∃ g, f = .session g := by
    obtain ⟨g, hb⟩ | ⟨t, -, hb⟩ := c.boundNode_cases context step <;> rw [hb] at h <;> cases h
    exact ⟨g, rfl⟩
  cases call with
  | watch context keys =>
    have h := Option.some.inj h
    obtain ⟨g, hr⟩ | ⟨key, hr⟩ := c.routeTogether_cases "WATCH" keys <;> rw [hr] at h <;> cases h
    exact ⟨g, rfl⟩
  | exec | discard | unwatch => exact hbound (Option.some.inj h)
  | execute | begin | endSession | multi | promote | reset | subscribe | ask | health => cases h

/-- Only promotions and resets change the shards. -/
theorem Call.router_run (h : call.target? = none) (c : Client) (w : Wire σ) :
    (call.run N c w).2.1.router = c.router := by
  cases hr : call.relayed? c with
  | some d? =>
    rw [call.run_relayed w hr]
    cases d? <;> rfl
  | none =>
    cases call with
    | execute | begin | endSession | watch | multi | exec | discard | unwatch => cases hr
    | promote | reset => cases h
    | subscribe topic names =>
      simp only [run, answered, Client.subscribe]
      split
      · rfl
      · split <;> rfl
    | ask | health => rfl

namespace Scene

variable {s : Scene σ}

/-- No move changes which nodes there are. -/
theorem layout_after (s : Scene σ) (m : Move σ) : (s.after N m).client.layout = s.client.layout := by
  cases m with
  | listen | meanwhile => rfl
  | call call =>
    cases htarget : call.target? with
    | none =>
      have hrouter : (s.afterCall N call).client.router = s.client.router :=
        call.router_run htarget s.client s.wire
      exact congrArg (fun r => r.ring.shards.map (·.nodes)) hrouter
    | some target => exact (s.shifts htarget).layout

theorem nodes_after (s : Scene σ) (m : Move σ) : (s.after N m).client.nodes = s.client.nodes := by
  rw [Client.nodes, List.flatMap_def]
  exact congrArg List.flatten (s.layout_after m)

theorem equips_after (hs : s.client.executor.Housed) (m : Move σ) :
    s.client.executor.Equips (s.after N m).client.executor := by
  cases m with
  | listen | meanwhile => exact .refl _
  | call call =>
    have hway := call.way (N := N) (w := s.wire) hs
    simp only [after, afterCall]
    generalize (call.run N s.client s.wire).1 = r, (call.run N s.client s.wire).2.1 = client,
      (call.run N s.client s.wire).2.2 = wire at hway
    cases hway with
    | unrouted => exact .refl _
    | relayed _ deed => exact Executor.equips_deed deed
    | aside _ spares => exact spares.equips hs

/-- A session that a move opens is on a node of the client. -/
theorem opened_mem_nodes (hs : s.client.Equipped) (m : Move σ) {context : Nat} {t : Session}
    (free : s.session? context = none) (ht : (s.after N m).session? context = some t) :
    t.node ∈ s.client.nodes := by
  have hsame (h : (s.after N m).session? context = s.session? context) : t.node ∈ s.client.nodes := by
    cases ht.symm.trans (h.trans free)
  cases m with
  | listen | meanwhile => exact hsame rfl
  | call call =>
    have hway := call.way (N := N) (w := s.wire) hs.housed
    simp only [after, afterCall, session?] at ht hsame
    generalize (call.run N s.client s.wire).1 = r, (call.run N s.client s.wire).2.1 = client,
      (call.run N s.client s.wire).2.2 = wire at hway ht hsame
    cases hway with
    | unrouted => exact hsame rfl
    | relayed relays deed => exact Call.node_mem_of_relayed? hs relays (deed.opens free ht).2
    | aside _ spares => exact hsame (spares.sessions context)

/-- Every move keeps all nodes with their pools. -/
theorem equipped_after (hs : s.client.Equipped) (m : Move σ) : (s.after N m).client.Equipped where
  housed := housed_after hs.housed m
  pools n hn := by
    rw [nodes_after] at hn
    obtain ⟨p, hp, hnode⟩ := hs.pools n hn
    obtain ⟨q, hq, hsame⟩ := equips_after (N := N) hs.housed m n.id p hp
    exact ⟨q, hq, hsame.trans hnode⟩
  sessions context t ht := by
    rw [nodes_after]
    cases free : s.session? context with
    | none => exact opened_mem_nodes hs m free ht
    | some u =>
      rw [(session_same_after hs.housed m free ht).1]
      exact hs.sessions context u free

end Scene

/-! ### Calls -/

/-- Whether a call has not failed with a fault that is out of place, nor found a node unhealthy because
of one. -/
structure Undisturbed (r : Outcome Answer) : Prop where
  fault : ∀ f, r = .failed f → ¬ f.Misplaced
  reports : ∀ nodes, r = .ok (.report nodes) → ∀ n ∈ nodes, n.health.Sited

/-- Whether no listener of a client has met with a fault that is out of place. -/
def Attended (c : Client) : Prop := ∀ s ∈ c.subscriptions.started, s.Sited

theorem undisturbed_map {α : Type} {r : Outcome α} {kind : α → Answer}
    (h : ∀ f, r = .failed f → ¬ f.Misplaced) (hkind : ∀ a nodes, kind a ≠ .report nodes) :
    Undisturbed (r.map kind) where
  fault f hf := by
    cases r <;> cases hf
    exact h _ rfl
  reports nodes hr := by
    cases r with
    | ok a => exact absurd (Outcome.ok.inj hr) (hkind a nodes)
    | failed | stalled => cases hr

theorem undisturbed_relay (hN : N.Sited) (hc : c.Equipped) (w : Wire σ)
    (h : call.relayed? c = some (.ok d)) : Undisturbed (relay N (.ok d) c w).1 := by
  have hdeed := (d.deed hc.housed : Deed N d c.executor w _ _ _).sited hN fun node hnode =>
    hc.pool? (Call.node_mem_of_relayed? hc h hnode)
  exact undisturbed_map hdeed fun _ _ => Answer.noConfusion

theorem undisturbed_promote (hN : N.Sited) (hc : c.Equipped) (ha : c.Attended) (shard index : Nat)
    (w : Wire σ) : Undisturbed (answered .linked (c.promote N shard index w)).1 ∧
      (c.promote N shard index w).2.1.Attended := by
  suffices h : (∀ f, (c.promote N shard index w).1 = .failed f → ¬ f.Misplaced) ∧
      (c.promote N shard index w).2.1.Attended from
    ⟨undisturbed_map h.1 fun _ _ => Answer.noConfusion, h.2⟩
  cases hs : c.shards[shard]? with
  | none =>
    simp only [Client.promote, Client.shard, hs]
    exact ⟨not_misplaced_of_failed not_false, ha⟩
  | some chain =>
    simp only [Client.promote, Client.shard, hs]
    exact ⟨chain.promote_sited hN index hc.housed fun n hn => hc.pool? (mem_nodes hs hn), ha⟩

theorem undisturbed_subscribe (hN : N.Sited) (hc : c.Equipped) (ha : c.Attended) (topic : Topic)
    (names : List String) (w : Wire σ) :
    Undisturbed (answered .subscribed (c.subscribe N topic names w)).1 ∧
      (c.subscribe N topic names w).2.1.Attended := by
  suffices h : (∀ f, (c.subscribe N topic names w).1 = .failed f → ¬ f.Misplaced) ∧
      (c.subscribe N topic names w).2.1.Attended from
    ⟨undisturbed_map h.1 fun _ _ => Answer.noConfusion, h.2⟩
  unfold Client.subscribe
  obtain ⟨g, hr⟩ | ⟨key, hr⟩ := c.routeTogether_cases topic.joinCommand (names.map utf8) <;>
    simp only [hr]
  · exact ⟨not_misplaced_of_failed not_false, ha⟩
  · obtain ⟨p, hp, -⟩ := hc.pools _ (c.route_mem key)
    simp only [hp, Subscriptions.start]
    rcases hs : Subscription.start N topic names p w with ⟨r, q, w'⟩
    obtain ⟨hnew, hfault⟩ := Subscription.start_sited hN hs
    refine ⟨fun f hf => hfault f ?_, fun t ht => ?_⟩
    · rcases ho : r.outcome with _ | g | _ <;> simp only [ho] at hf <;> cases hf
      rfl
    · simp only [Subscriptions.started_add] at ht
      rcases List.mem_append.1 ht with ht | ht
      · exact ha t ht
      · exact hnew t (Option.mem_toList.1 ht)

theorem undisturbed_ask (hN : N.Sited) (ha : c.Attended) (number : Nat)
    (request : Subscription.Request) (w : Wire σ) :
    Undisturbed ((Call.ask number request).run N c w).1 ∧
      ((Call.ask number request).run N c w).2.1.Attended := by
  cases hs : c.subscriptions.started[number]? with
  | none =>
    simp only [Call.run, Subscriptions.act, hs]
    exact ⟨⟨by simp, by simp⟩, ha⟩
  | some s =>
    rcases hr : request.run N s w with ⟨r, s', w'⟩
    simp only [Call.run, Subscriptions.act, hs, hr]
    obtain ⟨hs', hfault⟩ := (ha s (List.mem_of_getElem? hs)).asked hN request hr
    refine ⟨undisturbed_map hfault fun _ _ => Answer.noConfusion, ?_⟩
    refine Subscriptions.sited_advances hN (Subscriptions.settle_advances _ w') fun t ht => ?_
    rcases List.mem_or_eq_of_mem_set ht with ht | rfl
    · exact ha t ht
    · exact hs'

theorem undisturbed_health (hN : N.Sited) (hc : c.Equipped) (w : Wire σ) :
    Undisturbed (answered .report (c.health N w)).1 := by
  have hways := Health.checkAll_ways (N := N) Health.standardLimit c.nodes c.executor w
  rcases hh : Health.checkAll N Health.standardLimit c.nodes c.executor w with ⟨r, e', w'⟩
  simp only [hh] at hways
  simp only [answered, Client.health, hh]
  cases r with
  | ok report =>
    refine ⟨by simp [Outcome.map], fun nodes hnodes => ?_⟩
    cases hnodes
    exact hways.sited hN hc.housed fun n hn => hc.pool? hn
  | failed => cases hways
  | stalled => exact ⟨by simp [Outcome.map], by simp [Outcome.map]⟩

/-- A call of a client that has its pools meets with no fault that is out of place. -/
theorem Call.undisturbed (hN : N.Sited) (hc : c.Equipped) (ha : c.Attended) (call : Call) (w : Wire σ) :
    Undisturbed (call.run N c w).1 ∧ (call.run N c w).2.1.Attended := by
  cases hr : call.relayed? c with
  | some d? =>
    rw [call.run_relayed w hr]
    cases d? with
    | ok d => exact ⟨undisturbed_relay hN hc w hr, ha⟩
    | error f =>
      obtain ⟨g, rfl⟩ := call.fault_of_relayed? hr
      exact ⟨⟨not_misplaced_of_failed not_false, fun _ h => nomatch h⟩, ha⟩
  | none =>
    cases call with
    | execute | begin | endSession | watch | multi | exec | discard | unwatch => cases hr
    | promote shard index => exact undisturbed_promote hN hc ha shard index w
    | reset shard => exact undisturbed_promote hN hc ha shard 0 w
    | subscribe topic names => exact undisturbed_subscribe hN hc ha topic names w
    | ask number request => exact undisturbed_ask hN ha number request w
    | health => exact ⟨undisturbed_health hN hc w, ha⟩

/-! ### Clients of valid settings -/

/-- What holds at every moment of a client that was made for some nodes. -/
structure Scene.Serves (N : Network σ) (s : Scene σ) (nodes : List Node) : Prop where
  same : s.client.nodes = nodes
  /-- Every node has a pool, which is for this very node. -/
  pools : ∀ n ∈ nodes, ∃ p, s.client.executor.pool? n = some p ∧ p.node = n
  calls : N.Sited → ∀ call, Undisturbed (s.outcome N call)
  orders : ∀ k f, s.client.order k = .error f → ¬ f.Misplaced
  listeners : N.Sited → s.client.Attended

theorem subscriptions_of_build {settings : Settings} {client : Client}
    (h : build settings = .ok client) : client.subscriptions = {} := by
  unfold build at h
  repeat' split at h
  all_goals cases h
  rfl

theorem equipped_of_build {settings : Settings} {client : Client} (h : build settings = .ok client) :
    client.Equipped where
  housed := housed_build h
  pools n hn := by
    rw [build_executor h]
    exact ⟨_, Executor.pool?_ofNodes_of_nodup (ids_of_build h) hn, rfl⟩
  sessions context t ht := by
    rw [build_executor h] at ht
    cases ht

namespace Scene

theorem attended_after (hN : N.Sited) {s : Scene σ} (hs : s.client.Equipped) (ha : s.client.Attended)
    (m : Move σ) : (s.after N m).client.Attended := by
  cases m with
  | call call => exact (call.undisturbed hN hs ha s.wire).2
  | listen =>
    exact Subscriptions.sited_advances hN (Subscriptions.settle_advances s.client.subscriptions s.wire) ha
  | meanwhile => exact ha

theorem equipped_run {s : Scene σ} (hs : s.client.Equipped) (moves : List (Move σ)) :
    (s.run N moves).client.Equipped ∧ (s.run N moves).client.nodes = s.client.nodes ∧
      (N.Sited → s.client.Attended → (s.run N moves).client.Attended) := by
  induction moves using List.reverseRecOn with
  | nil => exact ⟨hs, rfl, fun _ => id⟩
  | append_singleton moves m ih =>
    obtain ⟨hequipped, hnodes, hattended⟩ := ih
    rw [run_concat]
    exact ⟨equipped_after hequipped m, (nodes_after _ m).trans hnodes,
      fun hN ha => attended_after hN hequipped (hattended hN ha) m⟩

theorem serves_run {settings : Settings} {client : Client} (h : build settings = .ok client)
    (N : Network σ) (net : σ) (moves : List (Move σ)) :
    ((start client net).run N moves).Serves N client.nodes := by
  have hstart : (start client net).client.Equipped := equipped_of_build h
  obtain ⟨hequipped, hnodes, hattended⟩ := equipped_run (N := N) hstart moves
  have hfresh : (start client net).client.Attended := by
    intro s hs
    rw [start, subscriptions_of_build h] at hs
    cases hs
  constructor
  · exact hnodes
  · intro n hn
    rw [← show _ = client.nodes from hnodes] at hn
    exact hequipped.pools n hn
  · exact fun hN call => (call.undisturbed hN hequipped (hattended hN hfresh) _).1
  · intro k f hf
    unfold Client.order Client.shard at hf
    split at hf <;> cases hf
    exact not_false
  · exact fun hN => hattended hN hfresh

/-- **Valid settings make a client that works**: it has the nodes of the settings in their order, no two
of them have the same name, by which it finds their pools, and all can be used. However the client is
used, every node keeps its pool, and no call fails because a chain or a ring is empty or a node has no
pool, unless the network itself says so. -/
theorem valid_settings_make_working_client {settings : Settings} (h : settings.check = .ok settings) :
    ∃ client, build settings = .ok client ∧
      client.nodes = (settings.shards.flatMap (·.nodes)).map (·.toNode settings.pool) ∧
      (client.nodes.map (·.id)).Nodup ∧ (∀ n ∈ client.nodes, n.limits.Usable) ∧
      ∀ (σ : Type) (N : Network σ) (net : σ) (moves : List (Move σ)),
        ((start client net).run N moves).Serves N client.nodes := by
  obtain ⟨client, hbuild⟩ := build_total h
  exact ⟨client, hbuild, nodes_of_build hbuild, ids_of_build hbuild, usable_of_build hbuild,
    fun σ N net moves => serves_run hbuild N net moves⟩

/-- Two databases of one server are two nodes with pools of their own, also over byte streams that
nobody accepts. -/
theorem working_client_of_two_databases :
    let settings : Settings := {
      sharding := { virtualNodes := 1, hashing := .fnv1a }
      shards := [
        { nodes := [{ host := "a", port := 1, maxTotal := some 30 },
          { host := "a", port := 1, database := 1 }] },
        { nodes := [{ host := "b", port := 1, maxIdle := some 0 }] }] }
    let N := Stream.network Rehearsal.streams settings.client.readTimeout
    settings.check = .ok settings ∧ N.Sited ∧ ∃ client, build settings = .ok client ∧
      client.nodes.map (fun n => (n.id, n.limits.maxTotal, n.limits.maxIdle)) =
        [("a:1/0", 30, 8), ("a:1/1", 8, 8), ("b:1/0", 8, 0)] ∧
      (client.nodes.map (·.id)).Nodup ∧ (∀ n ∈ client.nodes, n.limits.Usable) ∧
      ((start client { net := { servers := [] } }).run N [.call (.promote 0 1)]).Serves N
        client.nodes := by
  intro settings N
  have hcheck : settings.check = .ok settings := rfl
  obtain ⟨client, hbuild, hnodes, hids, husable, hserves⟩ := valid_settings_make_working_client hcheck
  refine ⟨hcheck, Stream.network_sited _ _, client, hbuild, ?_, hids, husable,
    hserves _ N { net := { servers := [] } } [.call (.promote 0 1)]⟩
  rw [hnodes]
  decide +kernel

end Scene

end Client

end ShardFleet
