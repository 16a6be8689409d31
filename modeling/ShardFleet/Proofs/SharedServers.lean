import ShardFleet.Proofs.Topology
import ShardFleet.Proofs.Upstreams

/-!
# Nodes on one server

Nodes are told apart by their databases too, which the commands that make links do not name. So a node
that comes after another node of its own server in the order of a shard is told to follow itself, and
no other node ever is.
-/

namespace ShardFleet

open Chain

variable {σ : Type} {N : Network σ}

/-- Whether two nodes are different databases of one server. -/
def Node.Twin (m n : Node) : Prop := (m.host, m.port) = (n.host, n.port) ∧ m.database ≠ n.database

theorem Node.twin_of_server {m n : Node} (h : m.server = n.server) (hid : m.id ≠ n.id) :
    m.Twin n := by
  have hserver := Node.server_inj.1 h
  obtain ⟨hhost, hport⟩ := Prod.mk.inj hserver
  refine ⟨hserver, fun hdatabase => hid ?_⟩
  rw [Node.id, hhost, hport, hdatabase, Node.id]

namespace Chain

variable {c : Chain} {index k : Nat}

/-- What a place in an order tells the node there of its upstream. -/
theorem upstream?_placing (c : Chain) (index k : Nat) :
    (placing c.nodes index k).upstream? =
      some (if k = index then none else some (c.predecessor k).server) := by
  rw [placing, predecessor]
  split
  · exact Command.upstream?_follow none
  · exact Command.upstream?_follow (some _)

/-- A node is not its own predecessor, unless it is alone. -/
theorem predecessor_id_ne (hids : (c.nodes.map (·.id)).Nodup) (hk : k < c.nodes.length)
    (hindex : index < c.nodes.length) (hne : k ≠ index) : (c.predecessor k).id ≠ c.nodes[k].id := by
  rw [← around_of_lt hk]
  intro hsame
  exact not_modEq_of_lt (by omega) (by omega) (modEq_of_around hids c.nodes_ne_nil hsame)

/-- A node whose place in an order is to follow its own server comes after a twin. -/
theorem twin_of_placing (hids : (c.nodes.map (·.id)).Nodup) (hk : k < c.nodes.length)
    (hindex : index < c.nodes.length)
    (h : (placing c.nodes index k).upstream? = some (some c.nodes[k].server)) :
    k ≠ index ∧ (c.predecessor k).Twin c.nodes[k] := by
  rw [upstream?_placing] at h
  split at h
  · cases h
  · rename_i hne
    have hserver : (c.predecessor k).server = c.nodes[k].server := by simpa using h
    exact ⟨hne, Node.twin_of_server hserver (predecessor_id_ne hids hk hindex hne)⟩

/-- Every node has its place in a new order. -/
theorem placing_mem_tasks (hindex : index < c.nodes.length) (hk : k < c.nodes.length) :
    (c.nodes[k], placing c.nodes index k) ∈ (Link.plan c.nodes.length index).map c.task := by
  rw [plan_eq_cons c.length_pos, List.map_cons, task_detach hindex, ← around_of_lt hk, placing]
  by_cases hne : k = index
  · rw [if_pos hne, hne]
    exact List.mem_cons_self
  · rw [if_neg hne]
    obtain ⟨j, hle, hlt, hnext⟩ : ∃ j, index ≤ j ∧ j < index + (c.nodes.length - 1) ∧
        (j + 1 = k ∨ j + 1 = k + c.nodes.length) := by
      rcases Nat.lt_or_gt_of_ne hne with hbefore | hafter
      · exact ⟨k + c.nodes.length - 1, by omega, by omega, .inr (by omega)⟩
      · exact ⟨k - 1, by omega, by omega, .inl (by omega)⟩
    have hmod : j + 1 ≡ k [MOD c.nodes.length] ∧ j ≡ k + c.nodes.length - 1 [MOD c.nodes.length] := by
      obtain hnext | hnext := hnext
      · refine ⟨by rw [hnext], ?_⟩
        rw [show k + c.nodes.length - 1 = j + c.nodes.length by omega]
        exact (Nat.add_mod_right j _).symm
      · refine ⟨?_, by rw [show k + c.nodes.length - 1 = j by omega]⟩
        rw [hnext]
        exact Nat.add_mod_right k _
    have hlink : Link.replicate ((j + 1) % c.nodes.length) (j % c.nodes.length) ∈
        (List.range' index (c.nodes.length - 1)).map fun k =>
          Link.replicate ((k + 1) % c.nodes.length) (k % c.nodes.length) :=
      List.mem_map.2 ⟨j, List.mem_range'_1.2 ⟨hle, hlt⟩, rfl⟩
    refine List.mem_cons_of_mem _ (List.mem_map.2 ⟨_, hlink, ?_⟩)
    rw [task_replicate, around_congr hmod.1, around_congr hmod.2]

/-- If a whole order is made, every node has accepted its place there. -/
theorem Relinks.placed {es : List Errand} (h : c.Relinks (Link.plan c.nodes.length index) es true)
    (hindex : index < c.nodes.length) (hk : k < c.nodes.length) :
    ∃ e ∈ es, e.node = c.nodes[k] ∧ e.command = placing c.nodes index k ∧ e.outcome.isOk = true := by
  obtain ⟨htasks, haccepted⟩ := h.all_made
  have hmem := placing_mem_tasks hindex hk
  rw [← htasks] at hmem
  obtain ⟨e, he, htask⟩ := List.mem_map.1 hmem
  obtain ⟨hnode, hcommand⟩ := Prod.mk.inj htask
  exact ⟨e, he, hnode, hcommand, haccepted e he⟩

end Chain

namespace Client.Scene

variable {s s' : Scene σ} {call : Call} {shard index : Nat}

/-- Whether a node is told, during a call that is made now, to follow the server that it is on. -/
def ToldItself (N : Network σ) (s : Scene σ) (call : Call) (n : Node) : Prop :=
  ∃ link label command, .sent link label command ∈ s.events N call ∧
    .opened link n.id ∈ (s.afterCall N call).wire.trace ∧ command.upstream? = some (some n.server)

/-- Nodes of one name are one node. -/
theorem Sound.node_inj (hs : s.Sound) {m n : Node} (hm : m ∈ s.client.nodes) (hn : n ∈ s.client.nodes)
    (hid : m.id = n.id) : m = n := by
  have hids : ((s.client.nodes).map (·.id)).Nodup := hs.ids
  exact List.inj_on_of_nodup_map hids hm hn hid

/-- Who is told to follow itself comes after a twin in its shard, and is not the one to be the master. -/
theorem Shifts.toldItself {ok : Bool} (h : Shifts N s shard index ok (s.afterCall N call))
    (hs : s.Sound) {n : Node} (hn : n ∈ s.client.nodes) (htold : s.ToldItself N call n) :
    ∃ chain k, s.client.shards[shard]? = some chain ∧ chain.nodes[k]? = some n ∧ k ≠ index ∧
      (chain.predecessor k).Twin n := by
  have hnumbered := (h.sound hs).traced.numbered
  obtain ⟨link, label, command, hsent, hopened, hupstream⟩ := htold
  have hmem : .sent link label command ∈ (s.afterCall N call).wire.trace.drop s.wire.trace.length :=
    hsent
  clear hsent
  generalize s.afterCall N call = s' at *
  cases h with
  | unknown => simp at hmem
  | @tried chain chain' r e w own ways =>
    have hplaced {es : List Errand} {all : Bool} (hindex : index < chain.nodes.length)
        (links : chain.Relinks (Link.plan chain.nodes.length index) es all)
        (ran : Ran (runner N) (s.client.executor, s.wire) es (e, w)) :
        ∃ chain k, s.client.shards[shard]? = some chain ∧ chain.nodes[k]? = some n ∧ k ≠ index ∧
          (chain.predecessor k).Twin n := by
      obtain ⟨events, htrace, hevents, -⟩ := ran.events hs.traced
      rw [show w.trace = s.wire.trace ++ events from htrace, List.drop_left] at hmem
      obtain ⟨errand, herrand, hopened', hcommand⟩ := hevents _ hmem
      have hid : errand.node.id = n.id := hnumbered.single _ _ _ hopened' hopened
      have hnode := links.node_mem errand herrand
      obtain rfl := hs.node_inj (mem_nodes own hnode) hn hid
      obtain ⟨k, hk, hget⟩ := List.mem_iff_getElem.1 hnode
      have hids := ids_of_shard hs.ids own
      have hplace := links.command_eq hids hindex hk errand herrand (by rw [hget])
      rw [show command = errand.command from hcommand _ rfl, hplace, ← hget] at hupstream
      obtain ⟨hne, htwin⟩ := twin_of_placing hids hk hindex hupstream
      exact ⟨chain, k, own, List.getElem?_eq_some_iff.2 ⟨hk, hget⟩, hne, hget ▸ htwin⟩
    cases ways with
    | refused => simp at hmem
    | made hindex links ran => exact hplaced hindex links ran
    | missed hindex links ran => exact hplaced hindex links ran

/-- When an order is made, all that come after a twin are told to follow themselves. -/
theorem Shifts.tells (h : Shifts N s shard index true (s.afterCall N call)) (hs : s.Sound)
    {chain : Chain} {k : Nat} {n : Node} (hchain : s.client.shards[shard]? = some chain)
    (hn : chain.nodes[k]? = some n) (hne : k ≠ index) (htwin : (chain.predecessor k).Twin n) :
    s.ToldItself N call n := by
  suffices htold : ∃ events, (s.afterCall N call).wire.trace = s.wire.trace ++ events ∧
      ∃ d ∈ events, .opened d.link n.id ∈ (s.afterCall N call).wire.trace ∧
        ∃ link command, d.sent? = some (link, command) ∧
          command.upstream? = some (some n.server) by
    obtain ⟨events, htrace, d, hd, hopened, link, command, hsent, hupstream⟩ := htold
    rw [ToldItself, events_of_trace htrace]
    cases d <;> cases hsent
    exact ⟨_, _, _, hd, hopened, hupstream⟩
  generalize s.afterCall N call = s' at h
  generalize hok : true = ok at h
  cases h with
  | unknown => cases hok
  | @tried _ _ _ e w own ways =>
    cases own.symm.trans hchain
    cases ways with
    | refused => cases hok
    | missed _ _ _ unmade => cases hok.trans unmade
    | made hindex links ran =>
      obtain ⟨hk, rfl⟩ := List.getElem?_eq_some_iff.1 hn
      obtain ⟨errand, herrand, hnode, hcommand, haccepted⟩ := links.placed hindex hk
      obtain ⟨events, htrace, -, hsent⟩ := ran.events hs.traced
      obtain ⟨d, hd, hopened, link, hlink⟩ := hsent errand herrand haccepted
      refine ⟨events, htrace, d, hd, hnode ▸ hopened, link, _, hlink, ?_⟩
      rw [hcommand, upstream?_placing, if_neg hne, Node.server_inj.2 htwin.1]

/-- **Only nodes that come after a twin are told to follow themselves**: whatever came before, and
however a promotion goes, a node is told to follow its own server only if the node before it in the
configured order is another database of that server, and it is not itself to be the master; and it is
told so whenever the promotion succeeds. -/
theorem told_itself_only_after_twin {settings : Settings} {client : Client}
    (h : build settings = .ok client) (N : Network σ) (net : σ) (moves : List (Move σ))
    (hmoves : ∀ m ∈ moves, m.Routes) (call : Call) (shard index : Nat)
    (htarget : call.target? = some (shard, index)) :
    let s := (start client net).run N moves
    (∀ n ∈ client.nodes, s.ToldItself N call n → ∃ chain k, s.client.shards[shard]? = some chain ∧
      chain.nodes[k]? = some n ∧ k ≠ index ∧ (chain.predecessor k).Twin n) ∧
    ((s.outcome N call).isOk = true → ∀ chain k n, s.client.shards[shard]? = some chain →
      chain.nodes[k]? = some n → k ≠ index → (chain.predecessor k).Twin n →
        s.ToldItself N call n) := by
  intro s
  have hsteered := steered_run (steered_start (N := N) h net) hmoves
  have hshifts := s.shifts (N := N) htarget
  have hnodes : s.client.nodes = client.nodes := congrArg List.flatten hsteered.layout
  refine ⟨fun n hn => hshifts.toldItself hsteered.sound (hnodes ▸ hn), ?_⟩
  intro hok chain k n hchain hn hne htwin
  rw [hok] at hshifts
  exact hshifts.tells hsteered.sound hchain hn hne htwin

/-- Of two databases of one server the second is told to follow the server when the first is made the
master. -/
theorem told_itself_of_two_databases :
    let settings : Settings := {
      sharding := { virtualNodes := 1, hashing := .fnv1a }
      shards := [{ nodes := [{ host := "a", port := 1 }, { host := "a", port := 1, database := 1 }] }] }
    ∃ client, build settings = .ok client ∧
      ∃ n ∈ client.nodes, n.id = "a:1/1" ∧
        (start client ({} : Rehearsal.Stage)).ToldItself Rehearsal.network (.reset 0) n := by
  intro settings
  obtain ⟨client, hbuild⟩ : ∃ client, build settings = .ok client := ⟨_, rfl⟩
  have hruns : ∀ client ∈ (build settings).toOption,
      ((start client ({} : Rehearsal.Stage)).outcome Rehearsal.network (.reset 0)).isOk = true ∧
      ∃ chain ∈ client.shards, ∃ n ∈ chain.nodes, client.shards[0]? = some chain ∧
        chain.nodes[1]? = some n ∧ n.id = "a:1/1" ∧
        (chain.predecessor 1).host = n.host ∧ (chain.predecessor 1).port = n.port ∧
        (chain.predecessor 1).database ≠ n.database := by decide +kernel
  obtain ⟨hok, chain, -, n, hmem, hchain, hn, hid, hhost, hport, hdatabase⟩ :=
    hruns client (by rw [hbuild]; rfl)
  obtain ⟨-, htold⟩ := told_itself_only_after_twin hbuild Rehearsal.network {} [] (by simp)
    (.reset 0) 0 0 rfl
  have htwin : (chain.predecessor 1).Twin n := ⟨Prod.ext hhost hport, hdatabase⟩
  exact ⟨client, hbuild, n, mem_nodes hchain hmem, hid, htold hok chain 1 n hchain hn (by simp) htwin⟩

end Client.Scene

end ShardFleet
