import ShardFleet.Proofs.AskedOnLinks
import ShardFleet.Proofs.Construction

/-!
# The home shards of subscribed names

A client subscribes to names only on the shard that owns them, but a subscription can be extended by any
names afterwards. So every name that is acknowledged on the link of a subscription was given to the
client, and then it is at home there, or to the subscription itself; and all names that are added to the
subscription are acknowledged on its link, wherever they are at home.
-/

namespace ShardFleet

variable {σ : Type} {N : Network σ}

/-! ### Subscriptions of a client -/

namespace Client

/-- The index of the shard that has the node with a name. -/
def shardOf? (c : Client) (id : String) : Option Nat := c.layout.findIdx? (·.any (·.id = id))

/-- A client whose nodes have different names finds the shard of each of them. -/
theorem shardOf?_eq {c : Client} (h : (c.layout.flatten.map (·.id)).Nodup) {k : Nat} {chain : Chain}
    (hk : c.shards[k]? = some chain) {n : Node} (hn : n ∈ chain.nodes) : c.shardOf? n.id = some k := by
  obtain ⟨hlt, rfl⟩ := List.getElem?_eq_some_iff.1 hk
  rw [shardOf?, layout, List.findIdx?_map, List.findIdx?_eq_some_iff_getElem]
  refine ⟨hlt, List.any_eq_true.2 ⟨n, hn, by simp⟩, fun j hj => ?_⟩
  have hother := ids_of_shards h (List.getElem?_eq_getElem (hj.trans hlt)) hk (Nat.ne_of_lt hj)
  simpa using fun m hm => hother m hm n hn

/-- A call with several names that is not refused goes to a node of the shard where all of them are at
home. -/
theorem routeTogether_home {c : Client} {command : String} {names : List Bytes} {node : Node}
    (h : c.routeTogether command names = .ok node) : ∃ k chain, c.shards[k]? = some chain ∧
      node ∈ chain.nodes ∧ ∀ name ∈ names, c.router.routeIndex name = k := by
  unfold routeTogether at h
  split at h
  · cases h
  · cases h
  · rename_i k htogether
    cases h
    cases names with
    | nil => cases htogether
    | cons first rest =>
      simp only [Router.together?] at htogether
      split at htogether <;> cases htogether
      rename_i hnone
      have hlt := c.router.routeIndex_lt first
      refine ⟨_, _, List.getElem?_eq_getElem hlt, List.get_mem .., List.forall_mem_cons.2 ⟨rfl, ?_⟩⟩
      simpa using List.find?_eq_none.1 hnone

/-- Something that happens to the subscriptions of a client. -/
inductive Event (σ : Type) where
  | subscribe (topic : Topic) (names : List String)
  | ask (number : Nat) (request : Subscription.Request)
  /-- Every listener takes what has arrived for it. -/
  | listen
  /-- The network and the time change by themselves, and so does the moment at which the next call
  will be given up. -/
  | meanwhile (net : σ) (clock : Nat) (deadline : Option Nat)

namespace Scene

/-- The scene from which on the network is overheard. -/
def overheard (s : Scene σ) : Scene (Overheard σ) :=
  ⟨s.client, { s.wire with net := { net := s.wire.net } }⟩

/-- The subscriptions of the client. -/
def subscribed (s : Scene (Overheard σ)) : Subscriptions.Scene σ := ⟨s.client.subscriptions, s.wire⟩

/-- An event as a move of a client. -/
def move (s : Scene (Overheard σ)) : Event σ → Move (Overheard σ)
  | .subscribe topic names => .call (.subscribe topic names)
  | .ask number request => .call (.ask number request)
  | .listen => .listen
  | .meanwhile net clock deadline => .meanwhile { s.wire.net with net } clock deadline

/-- An event as a move of the client's subscriptions, if it is one. -/
def mirror? (s : Scene (Overheard σ)) : Event σ → Option (Subscriptions.Move σ)
  | .subscribe topic names =>
    match s.client.routeTogether topic.joinCommand (names.map utf8) with
    | .error _ => none
    | .ok node => (s.client.executor.pool? node).map (.call <| .start topic names ·)
  | .ask number request => some (.call (.ask number request))
  | .listen => some .listen
  | .meanwhile net clock deadline => some (.meanwhile net clock deadline)

section

variable (N : Network σ)

/-- The scene after some events. -/
def follow (s : Scene (Overheard σ)) (events : List (Event σ)) : Scene (Overheard σ) :=
  events.foldl (fun s e => s.after N.overheard (s.move e)) s

end

theorem follow_concat (s : Scene (Overheard σ)) (events : List (Event σ)) (e : Event σ) :
    s.follow N (events ++ [e]) =
      (s.follow N events).after N.overheard ((s.follow N events).move e) := by
  simp [follow, List.foldl_append]

theorem subscribed_after (s : Scene (Overheard σ)) (e : Event σ) :
    (s.after N.overheard (s.move e)).subscribed =
      ((s.mirror? e).map (s.subscribed.after N)).getD s.subscribed := by
  cases e with
  | subscribe topic names =>
    simp only [move, mirror?, after, afterCall, Call.run, answered, Client.subscribe]
    cases s.client.routeTogether topic.joinCommand (names.map utf8) with
    | error f => rfl
    | ok node =>
      cases hpool : s.client.executor.pool? node with
      | none => simp [hpool, subscribed]
      | some p =>
        simp only [hpool, Option.map_some, Option.getD_some]
        rfl
  | ask number request => rfl
  | listen => rfl
  | meanwhile net clock deadline => rfl

/-- A call that starts a subscription is for a node of the shard where its names are at home. -/
theorem home_of_mirror? {s : Scene (Overheard σ)} (hs : s.client.Equipped)
    (hids : (s.client.layout.flatten.map (·.id)).Nodup) {e : Event σ} {topic : Topic}
    {names : List String} {pool : Pool} (h : s.mirror? e = some (.call (.start topic names pool))) :
    ∃ k, s.client.shardOf? pool.node.id = some k ∧
      ∀ name ∈ names.map utf8, s.client.router.routeIndex name = k := by
  cases e with
  | subscribe topic' names' =>
    simp only [mirror?] at h
    split at h
    · cases h
    · rename_i node hroute
      obtain ⟨pool', hpool, hcall⟩ := Option.map_eq_some_iff.1 h
      cases hcall
      obtain ⟨k, chain, hk, hnode, hhome⟩ := routeTogether_home hroute
      obtain ⟨p, hp, hpnode⟩ := hs.pools node (mem_nodes hk hnode)
      cases hpool.symm.trans hp
      exact ⟨k, hpnode ▸ shardOf?_eq hids hk hnode, hhome⟩
  | ask | listen | meanwhile => cases h

theorem ask_of_mirror? {s : Scene (Overheard σ)} {e : Event σ} {number : Nat}
    {request : Subscription.Request} (h : s.mirror? e = some (.call (.ask number request))) :
    e = .ask number request := by
  cases e with
  | subscribe topic names =>
    simp only [mirror?] at h
    split at h
    · cases h
    · obtain ⟨_, -, hcall⟩ := Option.map_eq_some_iff.1 h
      cases hcall
  | ask =>
    cases h
    rfl
  | listen | meanwhile => cases h

/-- Whether all names that were asked for on the link of a subscription are at home on the shard of its
node, but for those that were added to the subscription itself. -/
def Settled (client : Client) (events : List (Event σ)) (i : Nat)
    (x : Subscription × Wire (Overheard σ)) : Prop :=
  ∃ k, client.shardOf? x.1.connection.node = some k ∧
    ∀ c ∈ (Subscription.talk x).said, ∀ topic, c.joins? = some topic → ∀ name ∈ c.args,
      client.router.routeIndex name = k ∨
        ∃ names, .ask i (.extend topic names) ∈ events ∧ name ∈ names.map utf8

/-- What holds after some events on a client that had no subscription before. -/
structure Homed (client : Client) (events : List (Event σ)) (s : Scene (Overheard σ)) : Prop where
  parted : s.subscribed.Parted
  router : s.client.router = client.router
  equipped : s.client.Equipped
  settled : ∀ (i : Nat) (sub : Subscription), s.subscribed.registry.started[i]? = some sub →
    Settled client events i (sub, s.subscribed.wire)

section

variable {client : Client} {events : List (Event σ)} {s : Scene (Overheard σ)} {i : Nat}
  {x y : Subscription × Wire (Overheard σ)} {e : Event σ} {m : Subscriptions.Move σ}

theorem Settled.mono (h : Settled client events i x) (e : Event σ) :
    Settled client (events ++ [e]) i x := by
  obtain ⟨k, hk, hsaid⟩ := h
  refine ⟨k, hk, fun c hc topic hjoins name hname => (hsaid c hc topic hjoins name hname).imp_right ?_⟩
  rintro ⟨names, hadded, hmem⟩
  exact ⟨names, List.mem_append_left _ hadded, hmem⟩

theorem Settled.follows (h : Settled client events i x) (hm : s.mirror? e = some m)
    (hfollows : Subscriptions.Scene.Follows m i x y) : Settled client (events ++ [e]) i y := by
  obtain ⟨k, hk, hsaid⟩ := h.mono e
  obtain ⟨hconnection, u, hu, hasked⟩ := hfollows
  refine ⟨k, by rwa [hconnection], fun c hc topic hjoins name hname => ?_⟩
  rw [hu, Talk.said_append] at hc
  rcases List.mem_append.1 hc with hc | hc
  · exact hsaid c hc topic hjoins name hname
  · obtain ⟨request, rfl, hcommand⟩ := hasked c hc
    cases ask_of_mirror? hm
    cases request with
    | extend topic' names =>
      cases hcommand
      rw [Subscription.joins?_join] at hjoins
      cases hjoins
      exact .inr ⟨names, by simp, hname⟩
    | leave topic' names =>
      cases hcommand
      rw [Subscription.joins?_leave] at hjoins
      cases hjoins
    | join | drop => cases hcommand

theorem Homed.after (h : Homed client events s) (hids : (client.layout.flatten.map (·.id)).Nodup)
    (e : Event σ) : Homed client (events ++ [e]) (s.after N.overheard (s.move e)) := by
  have hrouter : (s.after N.overheard (s.move e)).client.router = s.client.router := by
    cases e with
    | subscribe topic names =>
      exact Call.router_run (show (Call.subscribe topic names).target? = none from rfl) ..
    | ask number request =>
      exact Call.router_run (show (Call.ask number request).target? = none from rfl) ..
    | listen | meanwhile => rfl
  have hlayout : s.client.layout = client.layout := by rw [layout, shards, h.router, layout, shards]
  have hsame := subscribed_after (N := N) s e
  cases hm : s.mirror? e with
  | none =>
    rw [hm, Option.map_none, Option.getD_none] at hsame
    refine ⟨?_, hrouter.trans h.router, equipped_after h.equipped _, ?_⟩ <;> rw [hsame]
    · exact h.parted
    · exact fun i sub hi => (h.settled i sub hi).mono e
  | some m =>
    rw [hm, Option.map_some, Option.getD_some] at hsame
    have hsteps := h.parted.steps (N := N) m
    refine ⟨?_, hrouter.trans h.router, equipped_after h.equipped _, ?_⟩ <;> rw [hsame]
    · exact hsteps.parted
    · -- On links that were there only what was asked of their subscriptions was said. A new link is to
      -- the shard of its names.
      intro i sub' hi
      obtain ⟨sub, hsub, hfollows⟩ | ⟨-, topic, names, pool, rfl, hnode, hsaid⟩ := hsteps.origin i sub' hi
      · exact (h.settled i sub hsub).follows hm hfollows
      · obtain ⟨k, hk, hhome⟩ := home_of_mirror? h.equipped (hlayout ▸ hids) hm
        rw [shardOf?, hlayout] at hk
        refine ⟨k, by rwa [hnode], fun c hc topic' hjoins name hname => .inl ?_⟩
        rw [hsaid, List.mem_singleton] at hc
        subst hc
        rw [← h.router]
        exact hhome name hname

theorem homed_follow (h : Homed client [] s) (hids : (client.layout.flatten.map (·.id)).Nodup)
    (events : List (Event σ)) : Homed client events (s.follow N events) := by
  induction events using List.reverseRecOn with
  | nil => exact h
  | append_singleton events e ih =>
    rw [follow_concat]
    exact ih.after hids e

end

/-! ### Names that are added -/

/-- Whether no call on a subscription that adds names is given up while it waits for acknowledgements, nor
has too many names. -/
def Orderly (N : Network σ) (s : Scene (Overheard σ)) (events : List (Event σ)) : Prop :=
  ∀ before number topic names, before ++ [.ask number (.extend topic names)] <+: events →
    names.length < Subscription.ackLimit ∧
      (s.follow N before).outcome N.overheard (.ask number (.extend topic names)) ≠ .stalled

/-- The client answers a request to one of its subscriptions as the subscription does. -/
theorem outcome_ask (s : Scene (Overheard σ)) (number : Nat) (request : Subscription.Request) :
    ∃ r : Option (Outcome Unit),
      s.subscribed.outcome N (.ask number request) = r.map (·.map fun _ => number) ∧
      s.outcome N.overheard (.ask number request) =
        (r.map (·.map fun _ => .asked true)).getD (.ok (.asked false)) := by
  simp only [outcome, Call.run, Subscriptions.Scene.outcome, Subscriptions.Scene.make, subscribed]
  rcases s.client.subscriptions.act N.overheard (request.run N.overheard) number s.wire with
    ⟨_ | r, -⟩
  · exact ⟨none, rfl, rfl⟩
  · exact ⟨some r, rfl, rfl⟩

theorem kept_follow {s : Scene (Overheard σ)} (h : s.subscribed.Kept) {events : List (Event σ)}
    (horderly : s.Orderly N events) : (s.follow N events).subscribed.Kept := by
  induction events using List.reverseRecOn with
  | nil => exact h
  | append_singleton events e ih =>
    have hbefore := ih fun before number topic names hpre =>
      horderly before number topic names (hpre.trans (List.prefix_append ..))
    rw [follow_concat, subscribed_after]
    cases hm : (s.follow N events).mirror? e with
    | none => exact hbefore
    | some m =>
      refine hbefore.after ?_
      rintro c rfl number topic names rfl
      cases ask_of_mirror? hm
      obtain ⟨hlimit, hstalled⟩ := horderly events number topic names List.prefix_rfl
      obtain ⟨r, hr, hanswer⟩ :=
        (s.follow N events).outcome_ask (N := N) number (.extend topic names)
      refine ⟨hlimit, fun hout => hstalled ?_⟩
      rw [hr] at hout
      rw [hanswer]
      rcases r with _ | _ | _ | _ <;> cases hout
      rfl

/-- The talk on the link of a subscription only grows. -/
theorem talk_after {s : Scene (Overheard σ)} (h : s.subscribed.Parted) (e : Event σ) :
    (s.after N.overheard (s.move e)).subscribed.Parted ∧
      ∀ (i : Nat) (sub : Subscription), s.subscribed.registry.find? i = some sub →
        ∃ sub', (s.after N.overheard (s.move e)).subscribed.registry.find? i = some sub' ∧
          s.subscribed.talk sub <+: (s.after N.overheard (s.move e)).subscribed.talk sub' := by
  rw [subscribed_after]
  cases s.mirror? e with
  | none => exact ⟨h, fun i sub hi => ⟨sub, hi, List.prefix_rfl⟩⟩
  | some m =>
    have hsteps := h.steps (N := N) m
    refine ⟨hsteps.parted, fun i sub hi => ?_⟩
    obtain ⟨sub', hi', hfollows⟩ := hsteps.kept hi
    exact ⟨sub', hi', hfollows.grows⟩

theorem talk_follow {s : Scene (Overheard σ)} (h : s.subscribed.Parted) (events : List (Event σ)) :
    (s.follow N events).subscribed.Parted ∧
      ∀ (i : Nat) (sub : Subscription), s.subscribed.registry.find? i = some sub →
        ∃ sub', (s.follow N events).subscribed.registry.find? i = some sub' ∧
          s.subscribed.talk sub <+: (s.follow N events).subscribed.talk sub' := by
  induction events using List.reverseRecOn with
  | nil => exact ⟨h, fun i sub hi => ⟨sub, hi, List.prefix_rfl⟩⟩
  | append_singleton events e ih =>
    obtain ⟨hparted, hgrows⟩ := ih
    obtain ⟨hparted', hgrows'⟩ := talk_after (N := N) hparted e
    rw [follow_concat]
    refine ⟨hparted', fun i sub hi => ?_⟩
    obtain ⟨sub', hi', hgrown⟩ := hgrows i sub hi
    obtain ⟨sub'', hi'', hgrown'⟩ := hgrows' i sub' hi'
    exact ⟨sub'', hi'', hgrown.trans hgrown'⟩

/-- Names that a call has added to a subscription are acknowledged on its link from then on. -/
theorem acknowledged_of_added {s : Scene (Overheard σ)} (h : s.subscribed.Kept) {i : Nat}
    {topic : Topic} {names : List String}
    (hok : s.outcome N.overheard (.ask i (.extend topic names)) = .ok (.asked true))
    (rest : List (Event σ)) {sub : Subscription}
    (hsub : (s.follow N (.ask i (.extend topic names) :: rest)).subscribed.registry.find? i = some sub)
    {t : Talk} (ht : (s.follow N (.ask i (.extend topic names) :: rest)).subscribed.talk sub = t)
    {server : ServerEnd} (hserves : ShardFleet.Serves t server) :
    ∀ name ∈ names, t.Acknowledges topic (utf8 name) := by
  subst ht
  intro name hname
  have hne : names ≠ [] := List.ne_nil_of_mem hname
  have hadding : s.subscribed.outcome N (.ask i (.extend topic names)) = some (.ok i) := by
    obtain ⟨r, hr, hanswer⟩ := s.outcome_ask (N := N) i (.extend topic names)
    rw [hanswer] at hok
    rw [hr]
    rcases r with _ | _ | _ | _ <;> cases hok
    rfl
  -- When the call ends, all of its names are acknowledged, and from then on the talk only grows.
  obtain ⟨sub₁, hsub₁, hpre, hadded⟩ := h.added_extend hne hadding
  have hafter : (s.after N.overheard (s.move (.ask i (.extend topic names)))).subscribed =
      s.subscribed.after N (.call (.ask i (.extend topic names))) := s.subscribed_after _
  have hparted := (talk_after (N := N) h.parted (.ask i (.extend topic names))).1
  obtain ⟨sub', hsub', hgrown⟩ := (talk_follow (N := N) hparted rest).2 i sub₁ (hafter ▸ hsub₁)
  cases hsub.symm.trans hsub'
  rw [hafter] at hgrown
  obtain ⟨server₁, hserves₁⟩ := hserves.of_prefix hgrown
  obtain ⟨server₀, hserves₀⟩ := hserves₁.of_prefix hpre
  have hpos : 0 < names.length := List.length_pos_iff.2 hne
  have hjoined := hserves₀.joined
  obtain ⟨⟨vs, hvs⟩, hawaits, hinformed⟩ := hadded (by omega)
  have hestablished := hserves₁.established hvs hne hawaits hinformed
  exact Talk.Acknowledges.of_prefix (hestablished.acknowledges name hname) hgrown

/-! ### Clients of valid settings -/

theorem routeIndex_after (s : Scene σ) (m : Move σ) :
    (s.after N m).client.router.routeIndex = s.client.router.routeIndex := by
  cases m with
  | listen | meanwhile => rfl
  | call call =>
    cases htarget : call.target? with
    | none => exact congrArg Router.routeIndex (call.router_run htarget s.client s.wire)
    | some target => exact (s.shifts htarget).routeIndex

/-- Names stay at home on the same shards, which keep their nodes, whatever a client is used for. -/
theorem homes_run (s : Scene σ) (moves : List (Move σ)) :
    (s.run N moves).client.router.routeIndex = s.client.router.routeIndex ∧
      (s.run N moves).client.layout = s.client.layout := by
  induction moves using List.reverseRecOn with
  | nil => exact ⟨rfl, rfl⟩
  | append_singleton moves m ih =>
    obtain ⟨hroute, hlayout⟩ := ih
    rw [run_concat]
    exact ⟨(routeIndex_after _ m).trans hroute, (layout_after _ m).trans hlayout⟩

/-- Where there is no subscription yet no name has been asked for. -/
theorem homed_overheard {s : Scene σ} (hs : s.client.Equipped)
    (hnone : s.client.subscriptions.started = []) : Homed s.client [] s.overheard where
  parted := ⟨by simp [overheard, subscribed, hnone], by simp [overheard, subscribed, hnone], fun _ _ => rfl⟩
  router := rfl
  equipped := hs
  settled i sub hi := by simp [overheard, subscribed, hnone] at hi

theorem kept_overheard {s : Scene σ} (hnone : s.client.subscriptions.started = []) :
    s.overheard.subscribed.Kept :=
  ⟨by simp [overheard, subscribed, hnone], by simp [overheard, subscribed, hnone], fun _ _ => rfl,
    by simp [overheard, subscribed, hnone]⟩

/-- **Names are at home on the link of a subscription, unless they were added to it**: the link is to a
node of one shard, and every name that a server acknowledges there is at home on this shard, or the
subscription was to be extended by it. Where it is at home is not asked then: all names of a call that
extends the subscription and ends well are acknowledged on its link. -/
theorem names_home_unless_added {settings : Settings} {client : Client}
    (h : build settings = .ok client) (N : Network σ) (net : σ) (earlier : List (Move σ))
    (hnone : ((start client net).run N earlier).client.subscriptions.started = [])
    (events : List (Event σ)) :
    let begun := ((start client net).run N earlier).overheard
    let ended := (begun.follow N events).subscribed
    ∀ i sub server, ended.registry.find? i = some sub → ShardFleet.Serves (ended.talk sub) server →
      (∃ k, client.shardOf? sub.connection.node = some k ∧
        ∀ topic name, (ended.talk sub).Acknowledges topic name → client.router.routeIndex name = k ∨
          ∃ names, .ask i (.extend topic names) ∈ events ∧ name ∈ names.map utf8) ∧
      (begun.Orderly N events → ∀ before topic names,
        before ++ [.ask i (.extend topic names)] <+: events →
        (begun.follow N before).outcome N.overheard (.ask i (.extend topic names)) = .ok (.asked true) →
          ∀ name ∈ names, (ended.talk sub).Acknowledges topic (utf8 name)) := by
  intro begun ended i sub server hsub hserves
  constructor
  · obtain ⟨hroute, hlayout⟩ := (start client net).homes_run (N := N) earlier
    have hequipped := (equipped_run (N := N) (s := start client net) (equipped_of_build h) earlier).1
    have hids := ids_of_build h
    rw [show client.layout = _ from hlayout.symm] at hids
    have hhomed := homed_follow (N := N) (homed_overheard hequipped hnone) hids events
    obtain ⟨k, hk, hsaid⟩ := hhomed.settled i sub hsub
    rw [shardOf?, hlayout] at hk
    rw [hroute] at hsaid
    refine ⟨k, hk, fun topic name hack => ?_⟩
    obtain ⟨c, hc, hjoins, hname⟩ := hserves.asked hack
    exact hsaid c hc topic hjoins name hname
  · rintro horderly before topic names ⟨rest, rfl⟩ hok
    have hkept : (begun.follow N before).subscribed.Kept :=
      kept_follow (kept_overheard hnone) fun before' number topic' names' hpre =>
        horderly before' number topic' names' (hpre.trans (List.append_assoc .. ▸ List.prefix_append ..))
    have hsplit : begun.follow N (before ++ [.ask i (.extend topic names)] ++ rest) =
        (begun.follow N before).follow N (.ask i (.extend topic names) :: rest) := by
      simp [follow, List.foldl_append]
    simp only [ended, hsplit] at hsub hserves ⊢
    exact acknowledged_of_added hkept hok rest hsub rfl hserves

/-- Two shards of one node each. -/
def twoShards : Settings where
  sharding := { virtualNodes := 1, hashing := .fnv1a }
  shards := ["a", "b"].map fun host => { nodes := [{ host, port := 1 }] }

/-- Their client, with its points spelt out. -/
def ofPoints (points : List Ring.Point) (h : points = Ring.place .fnv1a 2 1) : Client :=
  let chains : List Chain := [("shard-0", "a"), ("shard-1", "b")].map fun (name, host) =>
    { name, nodes := [{ host, port := 1 }], master := 0, master_lt := Nat.one_pos }
  { router := {
      ring := {
        shards := chains
        virtualNodes := 1
        hashing := .fnv1a
        points
        points_eq := h
        shards_ne_nil := List.cons_ne_nil _ _
        virtualNodes_pos := Nat.one_pos }
      keyTags := true }
    executor := .ofNodes (chains.flatMap (·.nodes)) }

theorem build_twoShards {points : List Ring.Point} (h : points = Ring.place .fnv1a 2 1) :
    build twoShards = .ok (ofPoints points h) := by
  subst h
  rfl

/-- Their points are in the order of the shards. -/
theorem labelled_twoShards : Ring.labelled .fnv1a 2 1 = Ring.place .fnv1a 2 1 := by
  rw [Ring.place, List.mergeSort_of_pairwise (by decide +kernel)]
  decide +kernel

/-- Orders live on the first of two shards and shipments on the second. When a subscription to orders is
extended by shipments, those are acknowledged on the first shard. -/
theorem shipments_acknowledged_away_from_home :
    let events : List (Event Rehearsal.Stage) :=
      [.subscribe .channels ["orders"], .ask 0 (.extend .channels ["shipments"])]
    ∃ client sub server, build twoShards = .ok client ∧
      let begun := (start client ({} : Rehearsal.Stage)).overheard
      let ended := (begun.follow Rehearsal.network events).subscribed
      begun.Orderly Rehearsal.network events ∧ ended.registry.find? 0 = some sub ∧
      ShardFleet.Serves (ended.talk sub) server ∧ client.shardOf? sub.connection.node = some 0 ∧
      client.router.routeIndex (utf8 "shipments") = 1 ∧
      (ended.talk sub).Acknowledges .channels (utf8 "shipments") := by
  intro events
  let joining (names : List String) : Command := .of "SUBSCRIBE" (names.map utf8)
  let acknowledging (name : String) (n : Int64) := (Change.join .channels (utf8 name)).frame n
  let client := ofPoints _ labelled_twoShards
  let begun := (start client ({} : Rehearsal.Stage)).overheard
  let ended := (begun.follow Rehearsal.network events).subscribed
  have hbuild : build twoShards = .ok client := build_twoShards _
  have haway : client.router.routeIndex (utf8 "shipments") = 1 := by decide +kernel
  have hok : (begun.follow Rehearsal.network [.subscribe .channels ["orders"]]).outcome
      Rehearsal.network.overheard (.ask 0 (.extend .channels ["shipments"])) = .ok (.asked true) := by
    decide +kernel
  obtain ⟨sub, hsub, hfacts⟩ := Option.map_eq_some_iff.1 (show (ended.registry.find? 0).map
      (fun sub => (client.shardOf? sub.connection.node, ended.talk sub)) =
        some (some 0, [.said (joining ["orders"]), .heard (acknowledging "orders" 1),
          .said (joining ["shipments"]), .heard (acknowledging "shipments" 2)]) by decide +kernel)
  obtain ⟨hshard, htalk⟩ := Prod.mk.inj hfacts
  have horderly : begun.Orderly Rehearsal.network events := by
    intro before number topic names hpre
    rcases before with _ | ⟨e, _ | ⟨e', before⟩⟩
    · cases (List.cons_prefix_cons.1 hpre).1
    · obtain ⟨rfl, rfl, rfl, rfl⟩ :
          e = .subscribe .channels ["orders"] ∧ number = 0 ∧ topic = .channels ∧
            names = ["shipments"] := by simpa [events] using hpre
      refine ⟨by decide, ?_⟩
      rw [hok]
      simp
    · simp [events] at hpre
  have hfirst : ShardFleet.Serves _ { held := _, due := [acknowledging "orders" 1] } :=
    (Serves.fresh.said (c := joining ["orders"])).carried (s := {})
      (.joins (show _ = some Topic.channels by decide +kernel)) (.cons (n := 1) (by decide +kernel) .nil)
  have hsecond := ((hfirst.heard (s := { held := _ })).said (c := joining ["shipments"])).carried
    (s := { held := _ }) (.joins (show _ = some Topic.channels by decide +kernel))
    (.cons (n := 2) (by decide +kernel) .nil)
  obtain ⟨server, hserves⟩ : ∃ server, ShardFleet.Serves (ended.talk sub) server :=
    ⟨_, by rw [htalk]; exact hsecond.heard (s := { held := _ })⟩
  obtain ⟨-, hadded⟩ :=
    names_home_unless_added hbuild Rehearsal.network {} [] rfl events 0 sub server hsub hserves
  exact ⟨client, sub, server, hbuild, horderly, hsub, hserves, hshard, haway,
    hadded horderly [.subscribe .channels ["orders"]] .channels ["shipments"] List.prefix_rfl hok
      "shipments" (by simp)⟩

end Scene

end Client

end ShardFleet
