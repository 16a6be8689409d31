import ShardFleet.Proofs.Acknowledged
import ShardFleet.Proofs.ClientCalls
import ShardFleet.Proofs.NodeNames
import ShardFleet.Rehearsal.Script

/-!
# What masters were told last

A promotion that fails leaves the master as it was, and leaves the nodes that had accepted their links
with these links. So the master of a shard follows nobody, or such a promotion has made it follow the
node before it, and it has accepted no link since.
-/

namespace ShardFleet

open Chain

variable {σ : Type} {N : Network σ}

/-- The links that a node has accepted, in order, as the commands that make them. -/
def Wire.linksOf (w : Wire σ) (id : String) : List Command :=
  (w.acceptedBy id).filter (·.name = "REPLICAOF")

/-- Whether the last link that a node has accepted, if any, was to follow nobody. -/
def Wire.Detached (w : Wire σ) (id : String) : Prop :=
  ∀ command ∈ (w.linksOf id).getLast?, command = follow none

theorem Wire.detached_of_last {w : Wire σ} {id : String}
    (h : (w.linksOf id).getLast? = some (follow none)) : w.Detached id :=
  fun _ hcommand => (Option.some.inj (h.symm.trans hcommand)).symm

/-- What is added to a list is its end, if it is always the same. -/
theorem getLast?_append_of_forall {α : Type} {l added : List α} {a : α} (hne : added ≠ [])
    (h : ∀ b ∈ added, b = a) : (l ++ added).getLast? = some a := by
  rw [List.getLast?_append_of_ne_nil _ hne, List.getLast?_eq_some_getLast hne,
    h _ (List.getLast_mem hne)]

namespace Chain

/-- The command that gives a node its place in the order that begins with the node `index`. -/
def placing (nodes : List Node) (index k : Nat) : Command :=
  if k = index then follow none else follow (some (around nodes (k + nodes.length - 1)))

/-- The node before the one at a place in the configured order, where the last comes before the
first. -/
def predecessor (c : Chain) (k : Nat) : Node := around c.nodes (k + c.nodes.length - 1)

/-- The node before the master. -/
def previous (c : Chain) : Node := c.predecessor c.master

variable {c : Chain} {index k : Nat} {es : List Errand} {all : Bool}

/-- Whatever a node is told in the making of an order is its place in it. -/
theorem Relinks.command_eq (hids : (c.nodes.map (·.id)).Nodup)
    (h : c.Relinks (Link.plan c.nodes.length index) es all) (hindex : index < c.nodes.length)
    (hk : k < c.nodes.length) :
    ∀ e ∈ es, e.node.id = c.nodes[k].id → e.command = placing c.nodes index k := by
  intro e he hid
  obtain ⟨l, hl, htask⟩ := h.mem e he
  have hplace {j : Nat} (hnode : e.node = around c.nodes j) : j ≡ k [MOD c.nodes.length] := by
    rw [hnode, ← around_of_lt hk] at hid
    exact modEq_of_around hids c.nodes_ne_nil hid
  rw [plan_eq_cons c.length_pos] at hl
  rcases List.mem_cons.1 hl with rfl | hl
  · rw [task_detach hindex] at htask
    obtain ⟨hnode, hcommand⟩ := Prod.mk.inj htask
    rw [hcommand, placing, if_pos ((hplace hnode).eq_of_lt_of_lt hindex hk).symm]
  · obtain ⟨j, hj, rfl⟩ := eq_replicate_of_mem hl
    rw [task_replicate] at htask
    obtain ⟨hnode, hcommand⟩ := Prod.mk.inj htask
    have hnext := hplace hnode
    have hbefore : j ≡ k + c.nodes.length - 1 [MOD c.nodes.length] := by
      refine Nat.ModEq.add_right_cancel' 1 ?_
      rw [Nat.sub_add_cancel (by omega)]
      exact hnext.trans (Nat.add_mod_right k _).symm
    have hother : k ≠ index := by
      rintro rfl
      exact hj hnext
    rw [hcommand, placing, if_neg hother, around_congr hbefore]

theorem Relinks.name (h : c.Relinks (Link.plan c.nodes.length index) es all) :
    ∀ e ∈ es, e.command.name = "REPLICAOF" := by
  intro e he
  obtain ⟨l, -, htask⟩ := h.mem e he
  rw [(Prod.mk.inj htask).2]
  cases l <;> exact toUpper_replicaof

/-- The links that a node accepts in the making of an order all give it its place there. -/
theorem Relinks.accepted (hids : (c.nodes.map (·.id)).Nodup)
    (h : c.Relinks (Link.plan c.nodes.length index) es all) (hindex : index < c.nodes.length)
    (hk : k < c.nodes.length) :
    ∀ command ∈ acceptedIn es c.nodes[k].id, command = placing c.nodes index k := by
  intro command hmem
  obtain ⟨e, he, hsome⟩ := List.mem_filterMap.1 hmem
  split at hsome <;> cases hsome
  rename_i hnode
  exact h.command_eq hids hindex hk e he hnode.1

/-- If a whole order is made, its first node has accepted to follow nobody. -/
theorem Relinks.detached (h : c.Relinks (Link.plan c.nodes.length index) es true)
    (hindex : index < c.nodes.length) : follow none ∈ acceptedIn es c.nodes[index].id := by
  obtain ⟨htasks, haccepted⟩ := h.all_made
  rw [plan_eq_cons c.length_pos, List.map_cons, task_detach hindex, around_of_lt hindex] at htasks
  cases es with
  | nil => cases htasks
  | cons e es =>
    obtain ⟨hnode, hcommand⟩ := Prod.mk.inj (List.cons.inj htasks).1
    refine List.mem_filterMap.2 ⟨e, List.mem_cons_self, ?_⟩
    rw [if_pos ⟨by rw [hnode], haccepted e List.mem_cons_self⟩, hcommand]

theorem nodeAt_mem (c : Chain) (index : Nat) : c.nodeAt index ∈ c.nodes := by
  rw [nodeAt, List.getD_eq_getElem?_getD]
  cases hn : c.nodes[index]? with
  | none => exact List.get_mem ..
  | some n => exact List.mem_of_getElem? hn

theorem Relinks.node_mem {links : List Link} (h : c.Relinks links es all) :
    ∀ e ∈ es, e.node ∈ c.nodes := by
  intro e he
  obtain ⟨l, -, htask⟩ := h.mem e he
  rw [(Prod.mk.inj htask).1]
  exact c.nodeAt_mem l.node

/-- Nodes of other names accept nothing while links of a chain are made. -/
theorem Relinks.accepted_of_ne {links : List Link} (h : c.Relinks links es all) {id : String}
    (hid : ∀ n ∈ c.nodes, n.id ≠ id) : acceptedIn es id = [] :=
  List.filterMap_eq_nil_iff.2 fun e he => if_neg fun hsame => hid _ (h.node_mem e he) hsame.1

theorem Relinks.linksOf (h : c.Relinks (Link.plan c.nodes.length index) es all)
    {s s' : Executor × Wire σ} (hran : Ran (Client.runner N) s es s') (hs : s.1.Traced s.2)
    (id : String) : s'.2.linksOf id = s.2.linksOf id ++ acceptedIn es id := by
  have hlinks : (acceptedIn es id).filter (·.name = "REPLICAOF") = acceptedIn es id := by
    refine List.filter_eq_self.2 fun command hmem => ?_
    obtain ⟨e, he, hsome⟩ := List.mem_filterMap.1 hmem
    split at hsome <;> cases hsome
    exact decide_eq_true (h.name e he)
  rw [Wire.linksOf, (hran.accepted hs).2 id, List.filter_append, hlinks, Wire.linksOf]

/-- However a promotion goes, the nodes of the chain stay the same. -/
theorem Promotes.nodes {τ : Type} {run : Runner τ} {s s' : τ} {r : Outcome (List Link)} {c' : Chain}
    (h : Promotes run index c s r c' s') : c'.nodes = c.nodes := by
  cases h <;> rfl

/-- However a promotion goes, everything is accounted for, and other nodes accept nothing. -/
theorem Promotes.kept {s s' : Executor × Wire σ} {r : Outcome (List Link)} {c' : Chain}
    (h : Promotes (Client.runner N) index c s r c' s') (hs : s.1.Traced s.2) :
    s'.1.Traced s'.2 ∧
      ∀ id, (∀ n ∈ c.nodes, n.id ≠ id) → s'.2.linksOf id = s.2.linksOf id := by
  have helsewhere {es : List Errand} {all : Bool}
      (hlinks : c.Relinks (Link.plan c.nodes.length index) es all)
      (hran : Ran (Client.runner N) s es s') {id : String} (hid : ∀ n ∈ c.nodes, n.id ≠ id) :
      s'.2.linksOf id = s.2.linksOf id := by
    rw [hlinks.linksOf hran hs, hlinks.accepted_of_ne hid, List.append_nil]
  cases h with
  | refused => exact ⟨hs, fun _ _ => rfl⟩
  | made _ hlinks hran => exact ⟨(hran.accepted hs).1, fun _ => helsewhere hlinks hran⟩
  | missed _ hlinks hran => exact ⟨(hran.accepted hs).1, fun _ => helsewhere hlinks hran⟩

end Chain

namespace Client

/-- The shard and the node that a call is to make its master, if it is a promotion or a reset. -/
def Call.target? : Call → Option (Nat × Nat)
  | promote shard index => some (shard, index)
  | reset shard => some (shard, 0)
  | _ => none

theorem Call.run_of_target {call : Call} {shard index : Nat} (h : call.target? = some (shard, index))
    (c : Client) (w : Wire σ) : call.run N c w = answered .linked (c.promote N shard index w) := by
  cases call <;> cases h <;> rfl

/-- Whether a move is a promotion, a reset, or no call. -/
def Move.Relinks : Move σ → Prop
  | .call c => c.target? ≠ none
  | .meanwhile .. => True
  | .listen => False

namespace Scene

variable {s s' : Scene σ} {shard index : Nat} {ok : Bool}

/-- The ways that a promotion of a shard can go: whether it succeeds, and the scene after it. -/
inductive Shifts (N : Network σ) (s : Scene σ) (shard index : Nat) : (ok : Bool) → Scene σ → Prop where
  /-- There is no shard with the index. -/
  | unknown : Shifts N s shard index false s
  | tried {chain chain' r e w} (own : s.client.shards[shard]? = some chain)
      (ways : Promotes (runner N) index chain (s.client.executor, s.wire) r chain' (e, w)) :
    Shifts N s shard index r.isOk ⟨{ s.client.setShard shard chain' with executor := e }, w⟩

theorem shifts (s : Scene σ) {call : Call} (h : call.target? = some (shard, index)) :
    Shifts N s shard index (s.outcome N call).isOk (s.afterCall N call) := by
  simp only [outcome, afterCall, Call.run_of_target h, answered, Outcome.isOk_map]
  cases hs : s.client.shards[shard]? with
  | none =>
    simp only [Client.promote, Client.shard, hs]
    exact .unknown
  | some chain =>
    have hways := Chain.promote_ways (runner N) index chain (s.client.executor, s.wire)
    simp only [Client.promote, Client.shard, hs]
    exact .tried hs hways

/-- What holds between calls: everything is accounted for, and all nodes have different names. -/
structure Sound (s : Scene σ) : Prop where
  traced : s.client.executor.Traced s.wire
  ids : (s.client.layout.flatten.map (·.id)).Nodup

theorem Shifts.layout (h : Shifts N s shard index ok s') :
    s'.client.layout = s.client.layout := by
  cases h with
  | unknown => rfl
  | tried own ways => exact layout_setShard own ways.nodes

theorem Shifts.sound (h : Shifts N s shard index ok s') (hs : s.Sound) : s'.Sound := by
  have hids := h.layout ▸ hs.ids
  cases h with
  | unknown => exact hs
  | tried own ways => exact ⟨(ways.kept hs.traced).1, hids⟩

/-- What a promotion makes of a shard, which has `chain` before it: its chain after it, and the links
that its nodes have accepted. -/
inductive Treats (s : Scene σ) (shard index : Nat) (ok : Bool) (s' : Scene σ) (k : Nat)
    (chain : Chain) : Chain → Prop where
  | spared (links : ∀ n ∈ chain.nodes, s'.wire.linksOf n.id = s.wire.linksOf n.id) :
    Treats s shard index ok s' k chain chain
  | made (own : shard = k) (made : ok = true) (h : index < chain.nodes.length)
      (last : (s'.wire.linksOf chain.nodes[index].id).getLast? = some (follow none)) :
    Treats s shard index ok s' k chain { chain with master := index, master_lt := h }
  /-- Some nodes may have accepted their places in an order that was not made as a whole. -/
  | missed (own : shard = k) (unmade : ok = false)
      (links : ∀ j (h : j < chain.nodes.length), ∃ added,
        s'.wire.linksOf chain.nodes[j].id = s.wire.linksOf chain.nodes[j].id ++ added ∧
          ∀ command ∈ added, command = placing chain.nodes index j) :
    Treats s shard index ok s' k chain chain

/-- A promotion treats the shard that it is for. -/
theorem treats_own {chain chain' : Chain} {r : Outcome (List Link)} {e : Executor} {w : Wire σ}
    (hs : s.Sound) (own : s.client.shards[shard]? = some chain)
    (ways : Promotes (runner N) index chain (s.client.executor, s.wire) r chain' (e, w))
    (hw : s'.wire = w) : Treats s shard index r.isOk s' shard chain chain' := by
  have hids := ids_of_shard hs.ids own
  cases ways with
  | refused => exact .spared fun _ _ => by rw [hw]
  | made hindex hlinks hran =>
    refine .made rfl rfl hindex ?_
    have hplaced := hlinks.accepted hids hindex hindex
    rw [placing, if_pos rfl] at hplaced
    rw [hw, hlinks.linksOf hran hs.traced]
    exact getLast?_append_of_forall (List.ne_nil_of_mem (hlinks.detached hindex)) hplaced
  | missed hindex hlinks hran unmade =>
    refine .missed rfl unmade fun j hj => ?_
    rw [hw]
    exact ⟨_, hlinks.linksOf hran hs.traced _, hlinks.accepted hids hindex hj⟩

/-- A promotion treats every shard in one of these ways, and spares all shards but its own. -/
theorem Shifts.treats (h : Shifts N s shard index ok s') (hs : s.Sound) {k : Nat} {chain : Chain}
    (hk : s.client.shards[k]? = some chain) : ∃ chain', s'.client.shards[k]? = some chain' ∧
      Treats s shard index ok s' k chain chain' := by
  cases h with
  | unknown => exact ⟨chain, hk, .spared fun _ _ => rfl⟩
  | @tried own own' r e w hown ways =>
    have hshards : Client.shards { s.client.setShard shard own' with executor := e } =
        s.client.shards.set shard own' := rfl
    simp only [hshards]
    by_cases hshard : shard = k
    · subst hshard
      cases hown.symm.trans hk
      exact ⟨own', List.getElem?_set_self (List.getElem?_eq_some_iff.1 hown).1,
        treats_own hs hown ways rfl⟩
    · refine ⟨chain, by rw [List.getElem?_set_ne hshard, hk], .spared fun n hn => ?_⟩
      exact (ways.kept hs.traced).2 n.id fun m hm => ids_of_shards hs.ids hown hk hshard m hm n hn

/-! ### Runs -/

theorem Sound.after (hs : s.Sound) {m : Move σ} (hm : m.Relinks) :
    (s.after N m).Sound ∧ (s.after N m).client.layout = s.client.layout := by
  cases m with
  | listen => cases hm
  | meanwhile net clock deadline =>
    have hnumbered := hs.traced.numbered
    exact ⟨⟨⟨hs.traced.accounted.mono le_rfl List.prefix_rfl, ⟨hnumbered.below, hnumbered.single⟩,
      hs.traced.rooted⟩, hs.ids⟩, rfl⟩
  | call call =>
    obtain ⟨⟨shard, index⟩, htarget⟩ := Option.ne_none_iff_exists'.1 hm
    have hshifts := s.shifts (N := N) htarget
    exact ⟨hshifts.sound hs, hshifts.layout⟩

theorem Sound.run (hs : s.Sound) {moves : List (Move σ)} (hmoves : ∀ m ∈ moves, m.Relinks) :
    (s.run N moves).Sound ∧ (s.run N moves).client.layout = s.client.layout := by
  induction moves using List.reverseRecOn with
  | nil => exact ⟨hs, rfl⟩
  | append_singleton moves m ih =>
    rw [List.forall_mem_append, List.forall_mem_singleton] at hmoves
    obtain ⟨hs', hlayout⟩ := ih hmoves.1
    obtain ⟨hafter, hlayout'⟩ := hs'.after (N := N) hmoves.2
    rw [run_concat]
    exact ⟨hafter, hlayout'.trans hlayout⟩

theorem sound_start {settings : Settings} {client : Client} (h : build settings = .ok client)
    (net : σ) : (start client net).Sound where
  traced := by
    rw [start, build_executor h]
    exact ⟨Executor.accounted_ofNodes _ _, ⟨by simp, by simp⟩, by simp [Wire.Rooted]⟩
  ids := ids_of_build h

/-- Whether the master of a shard, which is `chain` after a run, was left behind: a promotion of another
node has failed after the master had accepted its place in the order of that node, and it has accepted
no link since. -/
def LeftBehind (N : Network σ) (s : Scene σ) (moves : List (Move σ)) (k : Nat) (chain : Chain) : Prop :=
  ∃ before call since index, moves = before ++ .call call :: since ∧
    call.target? = some (k, index) ∧ index ≠ chain.master ∧
    ((s.run N before).outcome N call).isOk = false ∧
    (s.run N (before ++ [.call call])).wire.linksOf chain.masterNode.id ≠
      (s.run N before).wire.linksOf chain.masterNode.id ∧
    (s.run N moves).wire.linksOf chain.masterNode.id =
      (s.run N (before ++ [.call call])).wire.linksOf chain.masterNode.id

theorem LeftBehind.concat {moves : List (Move σ)} {m : Move σ} {k : Nat} {chain : Chain}
    (h : s.LeftBehind N moves k chain) (hsame : ((s.run N moves).after N m).wire.linksOf
      chain.masterNode.id = (s.run N moves).wire.linksOf chain.masterNode.id) :
    s.LeftBehind N (moves ++ [m]) k chain := by
  obtain ⟨before, call, since, index, rfl, htarget, hother, hfailed, hchanged, hsince⟩ := h
  refine ⟨before, call, since ++ [m], index, by simp, htarget, hother, hfailed, hchanged, ?_⟩
  rw [run_concat, hsame, hsince]

/-- A master that was left behind follows the node before it. -/
theorem Sound.last_of_leftBehind (hs : s.Sound) {moves : List (Move σ)}
    (hmoves : ∀ m ∈ moves, m.Relinks) {k : Nat} {chain : Chain}
    (hk : (s.run N moves).client.shards[k]? = some chain) (h : s.LeftBehind N moves k chain) :
    ((s.run N moves).wire.linksOf chain.masterNode.id).getLast? =
      some (follow (some chain.previous)) := by
  have hlayout := (hs.run (N := N) hmoves).2
  obtain ⟨before, call, since, index, rfl, htarget, hother, hfailed, hchanged, hsince⟩ := h
  obtain ⟨hbefore, hlayout'⟩ := hs.run (N := N) (List.forall_mem_append.1 hmoves).1
  obtain ⟨⟨_, _, _, _⟩, hk', rfl⟩ := shard_of_layout (hlayout.trans hlayout'.symm) hk
  obtain ⟨chain', -, htreats⟩ := (shifts (N := N) _ htarget).treats hbefore hk'
  rw [hsince]
  rw [run_concat] at hchanged ⊢
  cases htreats with
  | spared links => exact absurd (links _ (List.get_mem ..)) hchanged
  | made _ made => cases hfailed.symm.trans made
  | missed _ _ links =>
    obtain ⟨added, hadded, hplaced⟩ := links chain.master chain.master_lt
    have hne : added ≠ [] := by
      rintro rfl
      rw [List.append_nil] at hadded
      exact hchanged hadded
    rw [placing, if_neg hother.symm] at hplaced
    exact (congrArg _ hadded).trans (getLast?_append_of_forall hne hplaced)

/-- A master that was not left behind follows nobody. -/
theorem Sound.detached_or_leftBehind (hs : s.Sound) (hfresh : s.wire.trace = [])
    {moves : List (Move σ)} (hmoves : ∀ m ∈ moves, m.Relinks) {k : Nat} {chain : Chain}
    (hk : (s.run N moves).client.shards[k]? = some chain) :
    (s.run N moves).wire.Detached chain.masterNode.id ∨ s.LeftBehind N moves k chain := by
  induction moves using List.reverseRecOn generalizing chain with
  | nil =>
    left
    simp [Scene.run, Wire.Detached, Wire.linksOf, Wire.acceptedBy, Wire.logOf, hfresh]
  | append_singleton moves m ih =>
    rw [List.forall_mem_append, List.forall_mem_singleton] at hmoves
    have hs' := (hs.run (N := N) hmoves.1).1
    rw [run_concat] at hk
    obtain ⟨before, hbefore, -⟩ := shard_of_layout (hs'.after hmoves.2).2 hk
    have hkept (hsame : ((s.run N moves).after N m).wire.linksOf before.masterNode.id =
        (s.run N moves).wire.linksOf before.masterNode.id) :
        (s.run N (moves ++ [m])).wire.Detached before.masterNode.id ∨
          s.LeftBehind N (moves ++ [m]) k before := by
      refine (ih hmoves.1 hbefore).imp (fun h => ?_) fun h => h.concat hsame
      rwa [run_concat, Wire.Detached, hsame]
    cases m with
    | listen => cases hmoves.2
    | meanwhile =>
      cases hk.symm.trans hbefore
      exact hkept rfl
    | call call =>
      obtain ⟨⟨shard, index⟩, htarget⟩ := Option.ne_none_iff_exists'.1 hmoves.2
      obtain ⟨chain', hk', htreats⟩ := (shifts (N := N) _ htarget).treats hs' hbefore
      cases hk.symm.trans hk'
      cases htreats with
      | spared links => exact hkept (links _ (List.get_mem ..))
      | made _ _ _ last =>
        left
        rw [run_concat]
        exact Wire.detached_of_last last
      | missed own unmade links =>
        subst own
        obtain ⟨added, hadded, hplaced⟩ := links chain.master chain.master_lt
        by_cases hne : added = []
        · rw [hne, List.append_nil] at hadded
          exact hkept hadded
        by_cases hmaster : chain.master = index
        · -- The call was to make the master the master again.
          left
          rw [placing, if_pos hmaster] at hplaced
          rw [run_concat]
          exact Wire.detached_of_last
            ((congrArg _ hadded).trans (getLast?_append_of_forall hne hplaced))
        · right
          refine ⟨moves, call, [], index, rfl, htarget, Ne.symm hmaster, unmade, ?_, rfl⟩
          rw [run_concat]
          exact fun hsame => hne (List.append_right_eq_self.1 (hadded.symm.trans hsame))

/-- **A master follows nobody unless it was left behind**: the last link that the master of a shard has
accepted, if any, is to follow nobody, except where the promotion of another node has failed after the
master had accepted to follow the node before it, which is then the last it has accepted. -/
theorem master_detached_unless_left_behind {settings : Settings} {client : Client}
    (h : build settings = .ok client) (N : Network σ) (net : σ) (moves : List (Move σ))
    (hmoves : ∀ m ∈ moves, m.Relinks) (k : Nat) (chain : Chain)
    (hk : ((start client net).run N moves).client.shards[k]? = some chain) :
    let w := ((start client net).run N moves).wire
    (¬ (start client net).LeftBehind N moves k chain → w.Detached chain.masterNode.id) ∧
    ((start client net).LeftBehind N moves k chain →
      (w.linksOf chain.masterNode.id).getLast? = some (follow (some chain.previous))) := by
  intro w
  have hs := sound_start h net
  exact ⟨fun hnot => (hs.detached_or_leftBehind rfl hmoves hk).resolve_right hnot,
    hs.last_of_leftBehind hmoves hk⟩

/-! ### A promotion that is refused -/

/-- One shard of three nodes. -/
def threeNodes : Settings where
  sharding := { virtualNodes := 1, hashing := .fnv1a }
  shards := [{ nodes := ["a", "b", "c"].map fun host => { host, port := 1 } }]

/-- A network in which the second of the three refuses one link. -/
def refusing : Rehearsal.Stage where
  rules := [{
    node := some "b:1/0"
    command := some "REPLICAOF"
    action := .reply (utf8 "-ERR busy\r\n") }]

/-- When the third node is to be the master and the second refuses, the first stays the master, and has
accepted to follow the third. -/
theorem last_of_refused : ∃ client, build threeNodes = .ok client ∧
    let s := (start client refusing).run Rehearsal.network [.call (.promote 0 2)]
    ∃ chain, s.client.shards[0]? = some chain ∧ chain.master = 0 ∧
      (s.wire.linksOf chain.masterNode.id).getLast? = some (.of "REPLICAOF" [utf8 "c", utf8 "1"]) := by
  obtain ⟨client, hbuild⟩ : ∃ client, build threeNodes = .ok client := ⟨_, rfl⟩
  have hruns : ∀ client ∈ (build threeNodes).toOption,
      let s := (start client refusing).run Rehearsal.network [.call (.promote 0 2)]
      ∃ chain ∈ s.client.shards, s.client.shards[0]? = some chain ∧ chain.master = 0 ∧
        (s.wire.linksOf chain.masterNode.id).getLast? =
          some (.of "REPLICAOF" [utf8 "c", utf8 "1"]) := by decide +kernel
  obtain ⟨chain, -, hchain⟩ := hruns client (by rw [hbuild]; rfl)
  exact ⟨client, hbuild, chain, hchain⟩

theorem follow_third_ne : Command.of "REPLICAOF" [utf8 "c", utf8 "1"] ≠ follow none :=
  fun h => absurd (congrArg (·.args) h) (by decide)

/-- Masters do not always follow nobody. -/
theorem master_told_to_follow : ¬ ∀ (σ : Type) (N : Network σ) (net : σ) (settings : Settings)
    (client : Client), build settings = .ok client → ∀ moves : List (Move σ),
      (∀ m ∈ moves, m.Relinks) → ∀ (k : Nat) (chain : Chain),
        let s := (start client net).run N moves
        s.client.shards[k]? = some chain → s.wire.Detached chain.masterNode.id := by
  intro halways
  obtain ⟨client, hbuild, chain, hk, -, hlast⟩ := last_of_refused
  exact follow_third_ne (halways _ Rehearsal.network refusing threeNodes client hbuild
    [.call (.promote 0 2)] (by simp [Move.Relinks, Call.target?]) 0 chain hk _ hlast)

/-- The master that stays has been left behind, and follows the last of the three. -/
theorem master_left_behind_of_refused : ∃ client, build threeNodes = .ok client ∧
    let moves : List (Move Rehearsal.Stage) := [.call (.promote 0 2)]
    let s := (start client refusing).run Rehearsal.network moves
    (∀ m ∈ moves, m.Relinks) ∧ ∃ chain, s.client.shards[0]? = some chain ∧ chain.master = 0 ∧
      (start client refusing).LeftBehind Rehearsal.network moves 0 chain ∧
      (s.wire.linksOf chain.masterNode.id).getLast? = some (follow (some chain.previous)) := by
  obtain ⟨client, hbuild, chain, hk, hmaster, hlast⟩ := last_of_refused
  have hmoves : ∀ m ∈ ([.call (.promote 0 2)] : List (Move Rehearsal.Stage)), m.Relinks := by
    simp [Move.Relinks, Call.target?]
  obtain ⟨hdetached, hfollows⟩ := master_detached_unless_left_behind hbuild Rehearsal.network refusing
    [.call (.promote 0 2)] hmoves 0 chain hk
  have hleft := by_contra fun hnot => follow_third_ne (hdetached hnot _ hlast)
  exact ⟨client, hbuild, hmoves, chain, hk, hmaster, hleft, hfollows hleft⟩

end Scene

end Client

end ShardFleet
