import ShardFleet.Proofs.Upstreams
import ShardFleet.Rehearsal.Recorder

/-!
# Promotions that succeed

When a promotion succeeds every node has accepted its place in the new order. Whatever was left of the
orders before it, the servers then form one line that begins with the master.
-/

namespace ShardFleet

open Chain

theorem Chain.map_fst_line (upstream : Option Node) (ns : List Node) :
    (line upstream ns).map (·.1) = ns := by
  induction ns generalizing upstream with
  | nil => rfl
  | cons n ns ih => rw [line, List.map_cons, ih]

theorem Chain.name_of_mem_line {upstream : Option Node} {ns : List Node} {t : Node × Command}
    (h : t ∈ line upstream ns) : t.2.name = "REPLICAOF" := by
  induction ns generalizing upstream with
  | nil => cases h
  | cons n ns ih =>
    rcases List.mem_cons.1 h with rfl | h
    · exact name_follow upstream
    · exact ih h

theorem Chain.order_head (c : Chain) (h : 0 < c.order.length) : c.order[0] = c.masterNode := by
  rw [c.getElem_order, Nat.add_zero, around_of_lt c.master_lt]
  rfl

/-- Errands that were accepted put the servers in line, whatever their upstreams were before. -/
theorem Upstreams.inLine_acknowledged {ns : List Node} (hservers : (ns.map (·.server)).Nodup)
    {upstream : Option Node} {es : List Errand}
    (htasks : es.map (fun e => (e.node, e.command)) = line upstream ns)
    (haccepted : ∀ e ∈ es, e.outcome.isOk = true) (u : Upstreams) :
    (u.acknowledged es).InLine (upstream.map (·.server)) ns := by
  induction ns generalizing upstream es u with
  | nil => trivial
  | cons n ns ih =>
    cases es with
    | nil => cases htasks
    | cons e es =>
      obtain ⟨htask, htasks⟩ := List.cons.inj htasks
      obtain ⟨rfl, hcommand⟩ := Prod.mk.inj htask
      obtain ⟨hfirst, hservers⟩ := List.nodup_cons.1 hservers
      obtain ⟨hok, haccepted⟩ := List.forall_mem_cons.1 haccepted
      rw [acknowledged_cons_of_ok u hok, hcommand, told_follow]
      refine ⟨?_, ih hservers htasks haccepted _⟩
      -- The errands that follow go to other servers.
      have hnodes : es.map (·.node) = ns := by
        rw [← map_fst_line (some e.node) ns, ← htasks, List.map_map]
        rfl
      rw [acknowledged_of_ne, Function.update_self]
      intro d hd hsame
      have hmem : d.node ∈ ns := hnodes ▸ List.mem_map_of_mem hd
      exact hfirst (List.mem_map.2 ⟨d.node, hmem, hsame⟩)

namespace Chain

variable {τ : Type} {R : Runner τ}

namespace Scene

/-- The upstreams as the servers have last acknowledged them, where none had one at first. -/
def upstreams (s : Scene τ) : Upstreams := Upstreams.acknowledged (fun _ => none) s.log

/-- What a call has done that made the node with an index the master and answered with links. -/
structure Converged (s : Scene τ) (index : Nat) (links : List Link) (s' : Scene τ) : Prop where
  nodes : s'.chain.nodes = s.chain.nodes
  master : s'.chain.master = index
  planned : links = Link.plan s.chain.nodes.length index
  length : links.length = s.chain.nodes.length
  /-- The nodes were told one after the other in the order that the chain has now. -/
  sent : ∃ es, s'.log = s.log ++ es ∧ es.map (·.node) = s'.chain.order ∧
    es.map (fun e => (e.node, e.command)) = links.map s.chain.task ∧
    ∀ e ∈ es, e.command.name = "REPLICAOF" ∧ e.outcome.isOk = true
  /-- The order has every node once. -/
  once : s'.chain.order.Perm s.chain.nodes
  first : s'.chain.order.head? = s.chain.nodes[index]?
  inLine : s'.upstreams.InLine none s'.chain.order
  climbs : ∀ n ∈ s.chain.nodes, ∃ hops ≤ s.chain.nodes.length - 1,
    s'.upstreams.climb hops n.server = some s'.chain.masterNode.server

theorem Ways.converged {s s' : Scene τ} {call : Call} {index : Nat} {links : List Link}
    (h : s.Ways call (.ok links) s') (htarget : call.target? = some index)
    (hapart : Apart s.chain.nodes) : s.Converged index links s' := by
  cases h with
  | missed _ _ _ unmade => cases unmade
  | pointed asked =>
    rw [asked] at htarget
    cases htarget
  | made asked hindex hlinks =>
    rename_i es state
    cases htarget.symm.trans asked
    obtain ⟨htasks, haccepted⟩ := hlinks.all_made
    have hline := htasks.trans (plan_tasks hindex)
    let c' : Chain := { s.chain with master := index, master_lt := hindex }
    have hperm : c'.order.Perm s.chain.nodes := c'.order_perm
    have hpos : 0 < c'.order.length := c'.length_order ▸ c'.length_pos
    have hinLine : (Upstreams.acknowledged (fun _ => none) (s.log ++ es)).InLine none c'.order := by
      rw [Upstreams.acknowledged_append]
      exact Upstreams.inLine_acknowledged ((hperm.map _).nodup_iff.2 hapart.servers) hline haccepted _
    refine ⟨rfl, rfl, rfl, Link.length_plan .., ⟨es, rfl, ?_, htasks, ?_⟩, hperm, ?_, hinLine, ?_⟩
    · rw [← map_fst_line none c'.order, ← hline, List.map_map]
      rfl
    · intro e he
      have hmem : (e.node, e.command) ∈ line none c'.order :=
        hline ▸ List.mem_map_of_mem (f := fun e : Errand => (e.node, e.command)) he
      exact ⟨name_of_mem_line hmem, haccepted e he⟩
    · rw [List.head?_eq_getElem?, List.getElem?_eq_getElem hpos, c'.order_head hpos]
      exact (List.getElem?_eq_getElem hindex).symm
    · intro n hn
      obtain ⟨k, hk, rfl⟩ := List.getElem_of_mem (hperm.mem_iff.2 hn)
      refine ⟨k, ?_, ?_⟩
      · have := hperm.length_eq
        omega
      · rw [← c'.order_head hpos]
        exact hinLine.climb hk

/-- Whatever calls were made before, a promotion that succeeds has done all this. -/
theorem converged_run {c : Chain} (hapart : Apart c.nodes) {state : τ} {calls : List Call} {call : Call}
    {index : Nat} {links : List Link} (htarget : call.target? = some index)
    (hok : (run R ⟨c, state, []⟩ calls).outcome R call = .ok links) :
    (run R ⟨c, state, []⟩ calls).Converged index links ((run R ⟨c, state, []⟩ calls).after R call) := by
  have hways := (run R ⟨c, state, []⟩ calls).ways (R := R) call
  rw [hok] at hways
  exact hways.converged htarget (by rwa [nodes_run])

theorem order_eq_of_converged {τ' : Type} {s s' : Scene τ} {t t' : Scene τ'} {index : Nat}
    {links links' : List Link} (hs : s.Converged index links s') (ht : t.Converged index links' t')
    (hnodes : t.chain.nodes = s.chain.nodes) : t'.chain.order = s'.chain.order := by
  rw [order, order, ht.nodes, hs.nodes, ht.master, hs.master, hnodes]

end Scene

/-- **A promotion that succeeds converges**: every node was told its place once, in the order that the
chain has then, and the servers form a line in this order, in which the master is reached from every
other one. Nothing of it depends on what was before. -/
theorem promotion_converges (c : Chain) (hapart : Apart c.nodes) (R : Runner τ) (state : τ)
    (calls : List Call) (call : Call) {index : Nat} {links : List Link}
    (htarget : call.target? = some index)
    (hok : (Scene.run R ⟨c, state, []⟩ calls).outcome R call = .ok links) :
    let s := Scene.run R ⟨c, state, []⟩ calls
    s.Converged index links (s.after R call) ∧
    ∀ (τ' : Type) (R' : Runner τ') (state' : τ') (calls' : List Call) (call' : Call) (links' : List Link),
      let t := Scene.run R' ⟨c, state', []⟩ calls'
      call'.target? = some index → t.outcome R' call' = .ok links' →
        links' = links ∧ (t.after R' call').chain.order = (s.after R call).chain.order ∧
        ∀ n ∈ c.nodes, (t.after R' call').upstreams n.server = (s.after R call).upstreams n.server := by
  intro s
  have hs := Scene.converged_run hapart htarget hok
  refine ⟨hs, ?_⟩
  intro τ' R' state' calls' call' links' t htarget' hok'
  have ht := Scene.converged_run hapart htarget' hok'
  have hnodes : t.chain.nodes = s.chain.nodes := by rw [Scene.nodes_run, Scene.nodes_run]
  have horder := Scene.order_eq_of_converged hs ht hnodes
  refine ⟨by rw [ht.planned, hs.planned, hnodes], horder, fun n hn => ?_⟩
  have hmem : n ∈ (s.after R call).chain.order := by
    rw [hs.once.mem_iff, Scene.nodes_run]
    exact hn
  exact (horder ▸ ht.inLine).unique hs.inLine n hmem

/-- Three nodes, of which the first refused one promotion before, and the same nodes without a past. -/
theorem promotion_converges_of_refused :
    let run : Runner Rehearsal.Recorder := Rehearsal.Recorder.run
    let c : Chain :=
      ⟨"s", [⟨"a", 1, none, 0, {}⟩, ⟨"b", 1, none, 0, {}⟩, ⟨"c", 1, none, 0, {}⟩], 0, by decide⟩
    let before := Scene.run run ⟨c, { fails := [("a", .data "busy")] }, []⟩ [.promote 2]
    let fresh := Scene.run run ⟨c, {}, []⟩ []
    let links : List Link := [.detach 1, .replicate 2 1, .replicate 0 2]
    Apart c.nodes ∧ before.log.length = 2 ∧ before.outcome run (.promote 1) = .ok links ∧
      before.Converged 1 links (before.after run (.promote 1)) ∧
      fresh.outcome run (.promote 1) = .ok links ∧
      (fresh.after run (.promote 1)).chain.order = (before.after run (.promote 1)).chain.order ∧
      ∀ n ∈ c.nodes, (fresh.after run (.promote 1)).upstreams n.server =
        (before.after run (.promote 1)).upstreams n.server := by
  intro run c before fresh links
  have hapart : Apart c.nodes := by
    unfold Apart
    decide
  have hok : before.outcome run (.promote 1) = .ok links := by decide +kernel
  have hfresh : fresh.outcome run (.promote 1) = .ok links := by decide +kernel
  obtain ⟨hconverged, hothers⟩ :=
    promotion_converges c hapart run _ [.promote 2] (.promote 1) rfl hok
  obtain ⟨-, horder, hupstreams⟩ := hothers _ run {} [] (.promote 1) links rfl hfresh
  exact ⟨hapart, by decide +kernel, hok, hconverged, hfresh, horder, hupstreams⟩

end Chain

end ShardFleet
