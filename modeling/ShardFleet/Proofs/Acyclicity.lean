import ShardFleet.Proofs.Upstreams
import ShardFleet.Rehearsal.Recorder

/-!
# No cycles of upstreams

The nodes of a chain lie on a ring, and every order that a promotion makes is the ring cut open before
the master. So whatever mixture of orders failed promotions leave behind, every server has as its
upstream the one before it on the ring or nobody, and as the cut is made first, there is always a cut.
-/

namespace ShardFleet

open Chain

/-- Whether no server of some nodes is reached from itself, and one of them has no upstream. -/
structure Upstreams.Acyclic (u : Upstreams) (nodes : List Node) : Prop where
  no_return : ∀ n ∈ nodes, ∀ hops, 0 < hops → u.climb hops n.server ≠ some n.server
  detached : ∃ n ∈ nodes, u n.server = none

/-- Whether the servers of some nodes have the one before them on the ring as their upstream, or none,
and the one at a place has none. -/
structure Upstreams.Ringed (u : Upstreams) (nodes : List Node) (cut : Nat) : Prop where
  cut : u (around nodes cut).server = none
  before : ∀ k, u (around nodes (k + 1)).server = none ∨
    u (around nodes (k + 1)).server = some (around nodes k).server

variable {nodes : List Node} {u u' : Upstreams}

theorem Chain.server_around_inj (hapart : Apart nodes) (hne : nodes ≠ []) {j k : Nat}
    (h : (around nodes j).server = (around nodes k).server) : j ≡ k [MOD nodes.length] :=
  modEq_of_around hapart.servers hne h

/-- Every place on a ring comes after a given one by less than one round. -/
theorem Chain.exists_add_modEq {n m : Nat} (hm : m < n) (k : Nat) : ∃ r < n, m + r ≡ k [MOD n] := by
  refine ⟨(k + (n - m)) % n, Nat.mod_lt _ (Nat.zero_lt_of_lt hm), ?_⟩
  have hround : m + (k + (n - m)) = k + n := by omega
  calc m + (k + (n - m)) % n ≡ m + (k + (n - m)) [MOD n] := (Nat.mod_modEq _ n).add_left m
    _ ≡ k [MOD n] := by rw [hround]; exact Nat.add_mod_right k n

namespace Upstreams

/-! ### What holds on a ring -/

/-- On a ring with a cut one goes back one place at a time, and never over the cut. -/
theorem Ringed.climb {cut : Nat} (h : u.Ringed nodes cut) {hops r : Nat} {a : Server}
    (ha : u.climb hops (around nodes (cut + r)).server = some a) :
    ∃ r', r' + hops = r ∧ a = (around nodes (cut + r')).server := by
  induction hops generalizing r with
  | zero => exact ⟨r, rfl, (Option.some.inj ha).symm⟩
  | succ hops ih =>
    rw [Upstreams.climb, Option.bind_eq_some_iff] at ha
    obtain ⟨b, hb, ha⟩ := ha
    cases r with
    | zero => cases h.cut.symm.trans hb
    | succ r =>
      obtain hnone | hsome := h.before (cut + r)
      · cases hnone.symm.trans hb
      · cases hsome.symm.trans hb
        obtain ⟨r', hr, rfl⟩ := ih ha
        exact ⟨r', by omega, rfl⟩

theorem Ringed.acyclic (hapart : Apart nodes) (hne : nodes ≠ []) {cut : Nat}
    (h : u.Ringed nodes cut) : u.Acyclic nodes where
  detached := ⟨_, around_mem hne cut, h.cut⟩
  no_return := by
    intro n hn hops hpos hreturn
    obtain ⟨k, hk, rfl⟩ := List.getElem_of_mem hn
    have hlength := List.length_pos_iff.2 hne
    have hcut : around nodes (cut % nodes.length) = around nodes cut :=
      around_congr (Nat.mod_modEq ..)
    have h' : u.Ringed nodes (cut % nodes.length) := ⟨hcut ▸ h.cut, h.before⟩
    obtain ⟨r, hr, hplace⟩ := exists_add_modEq (Nat.mod_lt cut hlength) k
    have hnode : nodes[k] = around nodes (cut % nodes.length + r) := by
      rw [around_congr hplace, around_of_lt hk]
    rw [hnode] at hreturn
    obtain ⟨r', hhops, hsame⟩ := h'.climb hreturn
    exact not_modEq_of_lt (by omega) (by omega) (server_around_inj hapart hne hsame)

/-! ### What links do to a ring -/

theorem Ringed.detach {cut : Nat} (h : u.Ringed nodes cut) (index : Nat) :
    (u.told (around nodes index).server (follow none)).Ringed nodes index := by
  rw [told_follow]
  refine ⟨Function.update_self .., fun k => ?_⟩
  by_cases hk : (around nodes (k + 1)).server = (around nodes index).server
  · rw [hk, Function.update_self]
    exact .inl rfl
  · rw [Function.update_of_ne hk]
    exact h.before k

theorem Ringed.replicate (hapart : Apart nodes) (hne : nodes ≠ []) {cut k : Nat}
    (h : u.Ringed nodes cut) (hk : ¬ k + 1 ≡ cut [MOD nodes.length]) :
    (u.told (around nodes (k + 1)).server (follow (some (around nodes k)))).Ringed nodes cut := by
  rw [told_follow]
  refine ⟨?_, fun j => ?_⟩
  · rw [Function.update_of_ne fun hsame => hk (server_around_inj hapart hne hsame).symm]
    exact h.cut
  · by_cases hj : (around nodes (j + 1)).server = (around nodes (k + 1)).server
    · have hplace := Nat.ModEq.add_right_cancel' 1 (server_around_inj hapart hne hj)
      rw [hj, Function.update_self, around_congr hplace]
      exact .inr rfl
    · rw [Function.update_of_ne hj]
      exact h.before j

/-- Whichever of the links after the first take effect, the cut stays. -/
theorem Ringed.leads (hapart : Apart nodes) (hne : nodes ≠ []) {cut : Nat} {es : List Errand}
    (h : u.Ringed nodes cut)
    (htasks : ∀ e ∈ es, ∃ k, ¬ k + 1 ≡ cut [MOD nodes.length] ∧
      (e.node, e.command) = (around nodes (k + 1), follow (some (around nodes k))))
    (hl : u.Leads es u') : u'.Ringed nodes cut := by
  induction hl with
  | nil => exact h
  | heeded _ ih =>
    obtain ⟨⟨k, hk, htask⟩, hrest⟩ := List.forall_mem_cons.1 htasks
    obtain ⟨hnode, hcommand⟩ := Prod.mk.inj htask
    refine ih ?_ hrest
    rw [hnode, hcommand]
    exact h.replicate hapart hne hk
  | lost _ _ ih => exact ih h (List.forall_mem_cons.1 htasks).2

/-- Wherever the links of an order are left off, and whichever of them take effect, there is a cut. -/
theorem Ringed.relinks {c : Chain} (hapart : Apart c.nodes) {cut index : Nat}
    (h : u.Ringed c.nodes cut) (hindex : index < c.nodes.length) {es es' : List Errand} {all : Bool}
    (hlinks : c.Relinks (Link.plan c.nodes.length index) es all) (hpre : es' <+: es)
    (hl : u.Leads es' u') : ∃ cut, u'.Ringed c.nodes cut := by
  have hdetach := h.detach index
  obtain ⟨hnode, hcommand⟩ := Prod.mk.inj (task_detach hindex)
  rw [← hnode, ← hcommand] at hdetach
  rw [plan_eq_cons c.length_pos] at hlinks
  cases hl with
  | nil => exact ⟨cut, h⟩
  | @heeded _ e es' _ rest =>
    cases hlinks with
    | made hrest =>
      obtain ⟨rfl, hpre'⟩ := List.cons_prefix_cons.1 hpre
      refine ⟨index, hdetach.leads hapart c.nodes_ne_nil (fun e he => ?_) rest⟩
      obtain ⟨l, hl, htask⟩ := hrest.mem e (hpre'.subset he)
      obtain ⟨k, hk, rfl⟩ := eq_replicate_of_mem hl
      exact ⟨k, hk, htask.trans (task_replicate c ..)⟩
    | missed =>
      obtain ⟨rfl, hpre'⟩ := List.cons_prefix_cons.1 hpre
      cases List.prefix_nil.1 hpre'
      cases rest
      exact ⟨index, hdetach⟩
  | @lost _ e es' _ failed rest =>
    cases hlinks with
    | made =>
      obtain ⟨rfl, -⟩ := List.cons_prefix_cons.1 hpre
      cases failed
    | missed =>
      obtain ⟨rfl, hpre'⟩ := List.cons_prefix_cons.1 hpre
      cases List.prefix_nil.1 hpre'
      cases rest
      exact ⟨cut, h⟩

/-! ### Where servers begin -/

theorem ringed_of_none (hne : nodes ≠ []) (h : ∀ n ∈ nodes, u n.server = none) :
    u.Ringed nodes 0 :=
  ⟨h _ (around_mem hne 0), fun k => .inl (h _ (around_mem hne (k + 1)))⟩

/-- The order of a chain is a ring with its cut before the master. -/
theorem InLine.ringed {c : Chain} (h : u.InLine none c.order) : u.Ringed c.nodes c.master := by
  have hcut : u (around c.nodes c.master).server = none := by
    have hhead := h.head (by simpa only [c.length_order] using c.length_pos)
    rwa [c.getElem_order] at hhead
  refine ⟨hcut, fun k => ?_⟩
  obtain ⟨r, hr, hplace⟩ := exists_add_modEq c.master_lt (k + 1)
  rw [← around_congr hplace]
  cases r with
  | zero => exact .inl hcut
  | succ r =>
    have hbefore : c.master + r ≡ k [MOD c.nodes.length] := Nat.ModEq.add_right_cancel' 1 hplace
    have hnext := h.next (k := r) (by rwa [c.length_order])
    rw [c.getElem_order, c.getElem_order, around_congr hbefore] at hnext
    exact .inr hnext

end Upstreams

namespace Chain

variable {τ : Type} {R : Runner τ}

theorem Scene.ringed_run {c : Chain} (hapart : Apart c.nodes) {start : Upstreams} {cut : Nat}
    (hstart : start.Ringed c.nodes cut) (state : τ) (calls : List Call) :
    ∀ log, log <+: (Scene.run R ⟨c, state, []⟩ calls).log → ∀ u, start.Leads log u →
      ∃ cut, u.Ringed c.nodes cut := by
  induction calls using List.reverseRecOn with
  | nil =>
    intro log hlog u hu
    cases List.prefix_nil.1 hlog
    cases hu
    exact ⟨cut, hstart⟩
  | append_singleton calls call ih =>
    rw [run_concat]
    have hnodes : (Scene.run R ⟨c, state, []⟩ calls).chain.nodes = c.nodes := nodes_run ..
    have hways := (Scene.run R ⟨c, state, []⟩ calls).ways (R := R) call
    generalize Scene.run R ⟨c, state, []⟩ calls = s at ih hnodes hways ⊢
    generalize s.outcome R call = r, s.after R call = s' at hways ⊢
    -- What a call adds to the log are errands of one order, and the log may be left off among them.
    have hrelinks {index : Nat} {es : List Errand} {all : Bool} (hindex : index < s.chain.nodes.length)
        (hlinks : s.chain.Relinks (Link.plan s.chain.nodes.length index) es all) (log : List Errand)
        (hlog : log <+: s.log ++ es) (u : Upstreams) (hu : start.Leads log u) :
        ∃ cut, u.Ringed c.nodes cut := by
      rcases List.prefix_or_prefix_of_prefix hlog (List.prefix_append s.log es) with hpre | ⟨es', rfl⟩
      · exact ih log hpre u hu
      · obtain ⟨v, hv, hu⟩ := hu.of_append
        obtain ⟨cut, hcut⟩ := ih s.log List.prefix_rfl v hv
        rw [← hnodes] at hcut hapart ⊢
        exact hcut.relinks hapart hindex hlinks ((List.prefix_append_right_inj s.log).1 hlog) hu
    cases hways with
    | refused | pointed => exact ih
    | made _ hindex hlinks => exact hrelinks hindex hlinks
    | missed _ hindex hlinks => exact hrelinks hindex hlinks

/-- **Promotions never make a cycle of upstreams**, nor leave a chain without a server that has none:
not after any command, whichever commands failed, and whichever of those took effect all the same. -/
theorem links_never_cyclic (c : Chain) (hapart : Apart c.nodes) (start : Upstreams)
    (hstart : (∀ n ∈ c.nodes, start n.server = none) ∨ ∃ index, ∃ h : index < c.nodes.length,
      start.InLine none { c with master := index, master_lt := h }.order)
    (R : Runner τ) (state : τ) (calls : List Call) :
    ∀ log, log <+: (Scene.run R ⟨c, state, []⟩ calls).log → ∀ u, start.Leads log u →
      u.Acyclic c.nodes := by
  intro log hlog u hu
  obtain ⟨cut, hcut⟩ : ∃ cut, start.Ringed c.nodes cut := by
    obtain hnone | ⟨index, h, hline⟩ := hstart
    · exact ⟨0, Upstreams.ringed_of_none c.nodes_ne_nil hnone⟩
    · exact ⟨index, hline.ringed⟩
  obtain ⟨cut, hu⟩ := Scene.ringed_run hapart hcut state calls log hlog u hu
  exact hu.acyclic hapart c.nodes_ne_nil

/-- Two promotions of three nodes fail at their second links, of which only the first one is lost. -/
theorem links_never_cyclic_of_failed :
    let run : Runner Rehearsal.Recorder := Rehearsal.Recorder.run
    let a : Node := ⟨"a", 1, none, 0, {}⟩
    let b : Node := ⟨"b", 1, none, 0, {}⟩
    let c : Node := ⟨"c", 1, none, 0, {}⟩
    let chain : Chain := ⟨"s", [a, b, c], 0, by decide⟩
    let state : Rehearsal.Recorder := { fails := [("a", .data "busy"), ("b", .data "busy")] }
    let start : Upstreams := fun _ => none
    let log : List Errand := [⟨c, follow none, .ok (.simple "OK")⟩,
      ⟨a, follow (some c), .failed (.data "busy")⟩, ⟨a, follow none, .ok (.simple "OK")⟩,
      ⟨b, follow (some a), .failed (.data "busy")⟩]
    Apart chain.nodes ∧ (Scene.run run ⟨chain, state, []⟩ [.promote 2, .reset]).log = log ∧
      ∃ u, start.Leads log u ∧ u.Acyclic chain.nodes := by
  intro run a b c chain state start log
  have hapart : Apart chain.nodes := by
    unfold Apart
    decide
  have hlog : (Scene.run run ⟨chain, state, []⟩ [.promote 2, .reset]).log = log := by
    decide +kernel
  have hleads : start.Leads log _ :=
    .heeded (.lost rfl (.heeded (.heeded (.nil _))))
  exact ⟨hapart, hlog, _, hleads, links_never_cyclic chain hapart start (.inl fun _ _ => rfl) run state
    [.promote 2, .reset] log (hlog ▸ List.prefix_rfl) _ hleads⟩

end Chain

end ShardFleet
