import ShardFleet.Proofs.HashTags
import ShardFleet.Proofs.Misuse

/-!
# Calls for several names

A call with several names is for the one shard that owns all of them, and it is refused where no shard
does. In which order the names are given, and how often, does not matter, and names with the same tag
are always owned by one shard if tags count. A call that is not refused is made on the node that is the
master of that shard now.
-/

namespace ShardFleet

variable {σ : Type} {N : Network σ}

namespace Client

variable {c : Client} {command : String} {names : List Bytes} {call : Call}

theorem shardFor_congr {a b : Bytes} (h : c.router.routeIndex a = c.router.routeIndex b) :
    c.shardFor a = c.shardFor b := by
  simp only [shardFor, Router.route_eq_get, h]

/-- Where one shard owns all names, a command for them goes to its master, whichever name is asked. -/
theorem routeTogether_of_owned (h : c.OwnsTogether names) {name : Bytes} (hname : name ∈ names)
    (command : String) : c.routeTogether command names = .ok (c.route name) := by
  cases names with
  | nil => cases hname
  | cons first rest =>
    have hfirst := h first List.mem_cons_self
    have hnone : rest.find? (c.router.routeIndex · ≠ c.router.routeIndex first) = none :=
      List.find?_eq_none.2 fun b hb => by
        simpa using (hfirst b (List.mem_cons_of_mem _ hb)).symm
    simp only [routeTogether, Router.together?, hnone, List.headD_cons, route]
    rw [shardFor_congr (hfirst name hname)]

theorem ownsTogether_of_ok {node : Node} (h : c.routeTogether command names = .ok node) :
    names ≠ [] ∧ c.OwnsTogether names := by
  by_contra hnot
  obtain ⟨f, hf⟩ := c.routeTogether_refuses command (not_and_or.1 hnot |>.imp_left not_not.1)
  cases h.symm.trans hf

/-- A command with several names is refused exactly if there are none, or if no shard owns them all. -/
theorem routeTogether_error_iff : (∃ f, c.routeTogether command names = .error f) ↔
    names = [] ∨ ∃ a ∈ names, ∃ b ∈ names, c.router.routeIndex a ≠ c.router.routeIndex b := by
  constructor
  · rintro ⟨f, hf⟩
    by_contra hnot
    simp only [not_or, not_exists, not_and, not_not] at hnot
    obtain ⟨hsome, howns⟩ := hnot
    obtain ⟨name, hname⟩ := List.exists_mem_of_ne_nil names hsome
    cases hf.symm.trans (routeTogether_of_owned howns hname command)
  · rintro h
    have hspread : names = [] ∨ ¬ c.OwnsTogether names :=
      h.imp_right fun ⟨a, ha, b, hb, hne⟩ howns => hne (howns a ha b hb)
    obtain ⟨f, hf⟩ := c.routeTogether_refuses command hspread
    exact ⟨_, hf⟩

/-- The same names in another order, or given more or less often, go to the same node. -/
theorem routeTogether_congr {names' : List Bytes} (h : ∀ b, b ∈ names' ↔ b ∈ names)
    (command' : String) :
    (c.routeTogether command' names').toOption = (c.routeTogether command names).toOption := by
  have howns : c.OwnsTogether names' ↔ c.OwnsTogether names := by simp only [OwnsTogether, h]
  cases hr : c.routeTogether command names with
  | ok node =>
    obtain ⟨hsome, hall⟩ := ownsTogether_of_ok hr
    obtain ⟨name, hname⟩ := List.exists_mem_of_ne_nil names hsome
    rw [routeTogether_of_owned (howns.2 hall) ((h name).2 hname),
      ← hr, routeTogether_of_owned hall hname]
  | error f =>
    cases hr' : c.routeTogether command' names' with
    | error => rfl
    | ok node =>
      obtain ⟨hsome, hall⟩ := ownsTogether_of_ok hr'
      obtain ⟨name, hname⟩ := List.exists_mem_of_ne_nil names' hsome
      cases hr.symm.trans (routeTogether_of_owned (howns.1 hall) ((h name).1 hname) command)

/-- Names with the same tag are owned by one shard, if tags count. -/
theorem ownsTogether_of_tagged (counts : c.router.keyTags = true) {tag : Bytes}
    (h : ∀ name ∈ names, Tagged name tag) : c.OwnsTogether names := by
  intro a ha b hb
  exact Router.routeIndex_of_hashTag counts ((h a ha).hashTag_eq.trans (h b hb).hashTag_eq.symm)

/-! ### Calls -/

/-- The command and the names of a call that is for one shard. -/
def Call.names? : Call → Option (String × List Bytes)
  | watch _ keys => some ("WATCH", keys)
  | subscribe topic names => some (topic.joinCommand, names.map utf8)
  | _ => none

/-- Whether a call with several names, made on a client, is made on one node: as a call of the executor
for that node, or as a subscription on a dedicated connection of the pool for that node. -/
inductive Call.MadeOn (N : Network σ) (node : Node) (c : Client) (w : Wire σ) :
    Call → Outcome Answer × Client × Wire σ → Prop where
  | watch {context keys} :
    MadeOn N node c w (watch context keys) (relay N (.ok (.watch context node keys)) c w)
  | subscribe {topic names p r subscriptions p' w'} (pool : c.executor.pool? node = some p)
      (start : c.subscriptions.start N topic names p w = (r, subscriptions, p', w')) :
    MadeOn N node c w (subscribe topic names) (r.map .subscribed,
      { c with subscriptions, executor := c.executor.setPool node.id p' }, w')
  | unpooled {topic names} (none : c.executor.pool? node = none) :
    MadeOn N node c w (subscribe topic names) (.failed (Executor.noPool node), c, w)

/-- What becomes of a call with several names. -/
structure GoesTogether (N : Network σ) (c : Client) (w : Wire σ) (call : Call) (command : String)
    (names : List Bytes) : Prop where
  /-- It is refused if there are no names, or two that live on different shards, and only then. -/
  refused : (∃ f, c.routeTogether command names = .error f) ↔
    names = [] ∨ ∃ a ∈ names, ∃ b ∈ names, c.router.routeIndex a ≠ c.router.routeIndex b
  /-- A refusal is the misuse of a session, and changes nothing. -/
  misused : ∀ f, c.routeTogether command names = .error f →
    (∃ g, f = .session g) ∧ call.run N c w = (.failed f, c, w)
  /-- The order of the names does not matter, nor how often each is given. -/
  unordered : ∀ names', (∀ b, b ∈ names' ↔ b ∈ names) →
    (c.routeTogether command names').toOption = (c.routeTogether command names).toOption
  /-- Names with the same tag are not refused if tags count. -/
  tagged : c.router.keyTags = true → names ≠ [] → ∀ tag, (∀ name ∈ names, Tagged name tag) →
    ∃ node, c.routeTogether command names = .ok node
  /-- If it is not refused it is made on the master of the shard that owns every name. -/
  made : ∀ node, c.routeTogether command names = .ok node →
    (∃ k chain, c.shards[k]? = some chain ∧ chain.masterNode = node ∧
      ∀ name ∈ names, c.router.routeIndex name = k ∧ c.shardFor name = chain) ∧
    call.MadeOn N node c w (call.run N c w)
  /-- That node has its pool, on a client that has what it needs. -/
  pooled : c.Equipped → ∀ node, c.routeTogether command names = .ok node →
    ∃ p, c.executor.pool? node = some p ∧ p.node = node

theorem Call.run_unowned (h : call.names? = some (command, names)) (w : Wire σ) {f : Fault}
    (hf : c.routeTogether command names = .error f) : call.run N c w = (.failed f, c, w) := by
  cases call <;> cases h
  · rename_i context
    have hrelayed : (watch context names).relayed? c = some (.error f) := by
      rw [relayed?, hf]
      rfl
    exact Call.run_relayed w hrelayed
  · simp only [run, answered, Client.subscribe, hf]
    rfl

theorem Call.run_owned (h : call.names? = some (command, names)) (w : Wire σ) {node : Node}
    (hnode : c.routeTogether command names = .ok node) : call.MadeOn N node c w (call.run N c w) := by
  cases call <;> cases h
  · rename_i context
    have hrelayed : (watch context names).relayed? c = some (.ok (.watch context node names)) := by
      rw [relayed?, hnode]
      rfl
    rw [Call.run_relayed w hrelayed]
    exact .watch
  · rename_i topic given
    simp only [run, answered, Client.subscribe, hnode]
    cases hp : c.executor.pool? node with
    | none => exact .unpooled hp
    | some p =>
      rcases hs : c.subscriptions.start N topic given p w with ⟨r, subscriptions, p', w'⟩
      simp only [hs]
      exact .subscribe hp hs

/-- The node of a command that is not refused is the master of the shard that owns every name. -/
theorem master_of_routeTogether {node : Node} (h : c.routeTogether command names = .ok node) :
    ∃ k chain, c.shards[k]? = some chain ∧ chain.masterNode = node ∧
      ∀ name ∈ names, c.router.routeIndex name = k ∧ c.shardFor name = chain := by
  obtain ⟨hsome, howns⟩ := ownsTogether_of_ok h
  obtain ⟨first, hfirst⟩ := List.exists_mem_of_ne_nil names hsome
  cases h.symm.trans (routeTogether_of_owned howns hfirst command)
  refine ⟨_, c.shardFor first, List.getElem?_eq_getElem (c.router.routeIndex_lt first), rfl,
    fun name hname => ?_⟩
  have hsame := howns name hname first hfirst
  exact ⟨hsame, shardFor_congr hsame⟩

/-- **Calls with several names stay on one shard**: such a call is refused, and then changes nothing,
exactly if there are no names or two of them live on different shards, whatever their order; names with
the same tag stay together if tags count; and what is not refused is made on the node that is now the
master of the shard that owns every name. -/
theorem names_stay_together (N : Network σ) (c : Client) (w : Wire σ) {call : Call} {command : String}
    {names : List Bytes} (h : call.names? = some (command, names)) :
    GoesTogether N c w call command names where
  refused := routeTogether_error_iff
  misused f hf := by
    refine ⟨?_, call.run_unowned h w hf⟩
    obtain ⟨g, hg⟩ | ⟨key, hkey⟩ := c.routeTogether_cases command names
    · cases hf.symm.trans hg
      exact ⟨g, rfl⟩
    · cases hf.symm.trans hkey
  unordered names' hsame := routeTogether_congr hsame command
  tagged counts hsome tag htagged := by
    obtain ⟨name, hname⟩ := List.exists_mem_of_ne_nil names hsome
    exact ⟨_, routeTogether_of_owned (ownsTogether_of_tagged counts htagged) hname command⟩
  made node hnode := ⟨master_of_routeTogether hnode, call.run_owned h w hnode⟩
  pooled hequipped node hnode := by
    obtain ⟨k, chain, hk, rfl, -⟩ := master_of_routeTogether hnode
    exact hequipped.pools _ (List.mem_flatMap.2 ⟨chain, List.mem_of_getElem? hk, List.get_mem ..⟩)

/-- Two accounts with one tag are watched together on one of two shards, while orders and shipments are
refused. -/
theorem accounts_stay_together :
    let client := Scene.ofPoints _ Scene.labelled_twoShards
    let w : Wire Rehearsal.Stage := { net := {} }
    let watching : Call := .watch 1 [utf8 "\x7bacct\x7da", utf8 "\x7bacct\x7db"]
    let subscribing : Call := .subscribe .channels ["orders", "shipments"]
    (∃ node, watching.MadeOn Rehearsal.network node client w
      (watching.run Rehearsal.network client w)) ∧
    ∃ f, subscribing.run Rehearsal.network client w = (.failed (.session f), client, w) := by
  intro client w watching subscribing
  have hwatched : GoesTogether Rehearsal.network client w watching "WATCH" _ :=
    names_stay_together Rehearsal.network client w rfl
  have hsubscribed : GoesTogether Rehearsal.network client w subscribing "SUBSCRIBE" _ :=
    names_stay_together Rehearsal.network client w rfl
  constructor
  · have htagged : ∀ name ∈ [utf8 "\x7bacct\x7da", utf8 "\x7bacct\x7db"], Tagged name (utf8 "acct") := by
      simp only [List.forall_mem_cons, List.not_mem_nil, false_implies, implies_true, and_true]
      exact ⟨⟨[], utf8 "a", by decide +kernel, by decide +kernel, by decide +kernel, by decide +kernel⟩,
        ⟨[], utf8 "b", by decide +kernel, by decide +kernel, by decide +kernel, by decide +kernel⟩⟩
    obtain ⟨node, hnode⟩ := hwatched.tagged rfl (by simp) _ htagged
    exact ⟨node, (hwatched.made node hnode).2⟩
  · have hapart : client.router.routeIndex (utf8 "orders") ≠
        client.router.routeIndex (utf8 "shipments") := by decide +kernel
    obtain ⟨f, hf⟩ := hsubscribed.refused.2 (.inr ⟨_, by simp, _, by simp, hapart⟩)
    obtain ⟨⟨g, rfl⟩, hrun⟩ := hsubscribed.misused f hf
    exact ⟨g, hrun⟩

end Client

end ShardFleet
