import ShardFleet.Client
import ShardFleet.Proofs.Validity

/-!
# The names of nodes

Settings are valid only if all their nodes have different names, in one shard or in several. A client
has just these nodes, and whichever of them are the masters, they stay where they are.
-/

namespace ShardFleet

namespace Settings

/-- The nodes of valid settings have different names. -/
theorem ids_of_check {s t : Settings} (h : s.check = .ok t) :
    ((t.shards.flatMap (·.nodes)).map (·.id)).Nodup := by
  obtain ⟨rfl, hvalid⟩ := check_eq_ok h
  exact nodup_ids_iff.2 hvalid.distinct

end Settings

namespace Client

/-- The nodes of every shard. -/
def layout (c : Client) : List (List Node) := c.shards.map (·.nodes)

theorem mem_nodes {c : Client} {k : Nat} {chain : Chain} {n : Node} (hk : c.shards[k]? = some chain)
    (hn : n ∈ chain.nodes) : n ∈ c.nodes :=
  List.mem_flatMap.2 ⟨chain, List.mem_of_getElem? hk, hn⟩

theorem nodes_of_buildChains {limits : PoolLimits} {index : Nat} {ss : List ShardSettings}
    {chains : List Chain} (h : buildChains limits index ss = .ok chains) :
    chains.flatMap (·.nodes) = (ss.flatMap (·.nodes)).map (·.toNode limits) := by
  induction ss generalizing index chains with
  | nil =>
    cases h
    rfl
  | cons s ss ih =>
    simp only [buildChains, Chain.build] at h
    split at h
    · cases h
    · rename_i c hc
      split at hc <;> cases hc
      cases hrest : buildChains limits (index + 1) ss with
      | error f =>
        rw [hrest] at h
        cases h
      | ok rest =>
        rw [hrest] at h
        cases h
        rw [List.flatMap_cons, List.flatMap_cons, List.map_append, ih hrest]

theorem masters_of_buildChains {limits : PoolLimits} {index : Nat} {ss : List ShardSettings}
    {chains : List Chain} (h : buildChains limits index ss = .ok chains) :
    ∀ chain ∈ chains, chain.master = 0 := by
  induction ss generalizing index chains with
  | nil =>
    cases h
    simp
  | cons s ss ih =>
    simp only [buildChains, Chain.build] at h
    split at h
    · cases h
    · rename_i c hc
      split at hc <;> cases hc
      cases hrest : buildChains limits (index + 1) ss with
      | error f =>
        rw [hrest] at h
        cases h
      | ok rest =>
        rw [hrest] at h
        cases h
        exact List.forall_mem_cons.2 ⟨rfl, ih hrest⟩

/-- All nodes of a client that settings describe have different names. -/
theorem ids_of_build {settings : Settings} {client : Client} (h : build settings = .ok client) :
    (client.layout.flatten.map (·.id)).Nodup := by
  obtain ⟨hcheck, hchains, -⟩ := parts_of_build h
  have hnodes : client.layout.flatten = _ := nodes_of_buildChains hchains
  rw [hnodes, List.map_map]
  exact Settings.ids_of_check hcheck

/-- The first node of every shard is its master in a client that settings describe. -/
theorem masters_of_build {settings : Settings} {client : Client} (h : build settings = .ok client) :
    ∀ chain ∈ client.shards, chain.master = 0 :=
  masters_of_buildChains (parts_of_build h).2.1

theorem layout_setShard {c : Client} {index : Nat} {chain chain' : Chain}
    (h : c.shards[index]? = some chain) (hnodes : chain'.nodes = chain.nodes) :
    (c.setShard index chain').layout = c.layout := by
  change (c.shards.set index chain').map (·.nodes) = c.shards.map (·.nodes)
  rw [List.map_set, hnodes]
  refine List.ext_getElem? fun k => ?_
  rw [List.getElem?_set]
  split
  · rename_i hk
    subst hk
    have hlt := (List.getElem?_eq_some_iff.1 h).1
    rw [if_pos (by simpa using hlt), List.getElem?_map, h]
    rfl
  · rfl

/-- Clients that have the same nodes have the same shards, up to which nodes are the masters. -/
theorem shard_of_layout {c c' : Client} (h : c'.layout = c.layout) {k : Nat} {chain' : Chain}
    (hk : c'.shards[k]? = some chain') : ∃ chain, c.shards[k]? = some chain ∧
      chain.nodes = chain'.nodes := by
  have hnodes : c.layout[k]? = some chain'.nodes := by
    rw [← h, layout, List.getElem?_map, hk]
    rfl
  rw [layout, List.getElem?_map] at hnodes
  exact Option.map_eq_some_iff.1 hnodes

/-- Two nodes of one shard have different names. -/
theorem ids_of_shard {c : Client} (h : (c.layout.flatten.map (·.id)).Nodup) {k : Nat} {chain : Chain}
    (hk : c.shards[k]? = some chain) : (chain.nodes.map (·.id)).Nodup := by
  have hmem : chain.nodes ∈ c.layout := List.mem_map_of_mem (List.mem_of_getElem? hk)
  exact h.sublist ((List.sublist_flatten_of_mem hmem).map _)

/-- Two nodes of different shards have different names. -/
theorem ids_of_shards {c : Client} (h : (c.layout.flatten.map (·.id)).Nodup) {j k : Nat}
    {chain chain' : Chain} (hj : c.shards[j]? = some chain) (hk : c.shards[k]? = some chain')
    (hne : j ≠ k) : ∀ m ∈ chain.nodes, ∀ n ∈ chain'.nodes, m.id ≠ n.id := by
  rw [List.Nodup, List.pairwise_map, List.pairwise_flatten, layout, List.pairwise_map] at h
  have hpairs := List.pairwise_iff_getElem.1 h.2
  obtain ⟨hlt, rfl⟩ := List.getElem?_eq_some_iff.1 hj
  obtain ⟨hlt', rfl⟩ := List.getElem?_eq_some_iff.1 hk
  intro m hm n hn
  rcases Nat.lt_or_gt_of_ne hne with hjk | hkj
  · exact hpairs j k hlt hlt' hjk m hm n hn
  · exact (hpairs k j hlt' hlt hkj n hn m hm).symm

end Client

end ShardFleet
