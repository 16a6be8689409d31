import ShardFleet.Proofs.Numerals
import ShardFleet.Proofs.Relinking

/-!
# Upstreams

A server replicates from one other at most, its upstream, which is the one that the last command of that
kind has named. What the upstreams are is read from the errands of a chain: those that were accepted
have taken effect, while any that failed may have taken effect all the same.
-/

namespace ShardFleet

/-- A server as commands name it: its host and its port. -/
abbrev Server := Bytes × Bytes

/-- The server of a node, whichever of its databases the node is. -/
def Node.server (n : Node) : Server := (utf8 n.host, utf8 s!"{n.port}")

theorem Node.server_inj {m n : Node} :
    m.server = n.server ↔ (m.host, m.port) = (n.host, n.port) := by
  have hport : utf8 s!"{m.port}" = utf8 s!"{n.port}" ↔ m.port = n.port :=
    utf8_natural_injective.eq_iff
  rw [server, server, Prod.mk.injEq, Prod.mk.injEq, hport, utf8_injective.eq_iff]

/-- What a command tells a server of its upstream: nothing, that it has none, or which one it has. -/
def Command.upstream? (c : Command) : Option (Option Server) :=
  if c.name = "REPLICAOF" then
    match c.args with
    | [host, port] => some (if host = utf8 "NO" ∧ port = utf8 "ONE" then none else some (host, port))
    | _ => none
  else none

/-- A port is written in digits, so that no server is taken for nobody. -/
theorem utf8_natural_ne_one (n : Nat) : utf8 (toString n) ≠ utf8 "ONE" := by
  intro h
  have hdigits : Resp.Numeral.Digits (utf8 (toString n)) := (Resp.Numeral.digits_repr n).1
  rw [h] at hdigits
  exact absurd (hdigits.digit 0x4F (by decide)) (by decide)

theorem Command.upstream?_follow (upstream : Option Node) :
    (Chain.follow upstream).upstream? = some (upstream.map (·.server)) := by
  cases upstream with
  | none => rw [Chain.follow, Command.of, Chain.toUpper_replicaof]; rfl
  | some n =>
    have hport : ¬ (utf8 n.host = utf8 "NO" ∧ utf8 s!"{n.port}" = utf8 "ONE") :=
      fun h => utf8_natural_ne_one n.port h.2
    rw [Chain.follow, Command.of, Chain.toUpper_replicaof, upstream?, if_pos rfl]
    exact congrArg some (if_neg hport)

/-- The upstream of every server that has one. -/
abbrev Upstreams := Server → Option Server

namespace Upstreams

open Chain

/-- The upstreams after a server has carried out a command. -/
def told (u : Upstreams) (server : Server) (command : Command) : Upstreams :=
  match command.upstream? with
  | some upstream => Function.update u server upstream
  | none => u

theorem told_follow (u : Upstreams) (server : Server) (upstream : Option Node) :
    u.told server (follow upstream) = Function.update u server (upstream.map (·.server)) := by
  rw [told, Command.upstream?_follow]

theorem told_of_ne (u : Upstreams) {server a : Server} (h : a ≠ server) (command : Command) :
    u.told server command a = u a := by
  unfold told
  cases command.upstream? with
  | none => rfl
  | some upstream => exact Function.update_of_ne h ..

/-- The upstreams after errands of which all that were accepted took effect, and no others. -/
def acknowledged (u : Upstreams) (log : List Errand) : Upstreams :=
  log.foldl (fun u e => if e.outcome.isOk then u.told e.node.server e.command else u) u

theorem acknowledged_append (u : Upstreams) (log log' : List Errand) :
    u.acknowledged (log ++ log') = (u.acknowledged log).acknowledged log' := List.foldl_append ..

theorem acknowledged_cons_of_ok (u : Upstreams) {e : Errand} (h : e.outcome.isOk = true)
    (es : List Errand) :
    u.acknowledged (e :: es) = (u.told e.node.server e.command).acknowledged es := by
  rw [acknowledged, List.foldl_cons, if_pos h, acknowledged]

/-- Errands to other servers change nothing for a server. -/
theorem acknowledged_of_ne (u : Upstreams) {a : Server} {es : List Errand}
    (h : ∀ e ∈ es, e.node.server ≠ a) : u.acknowledged es a = u a := by
  induction es generalizing u with
  | nil => rfl
  | cons e es ih =>
    obtain ⟨hne, hrest⟩ := List.forall_mem_cons.1 h
    rw [acknowledged, List.foldl_cons]
    split
    · exact (ih _ hrest).trans (u.told_of_ne hne.symm e.command)
    · exact ih _ hrest

/-- The upstreams that servers can have after errands: what was accepted has taken effect, and what
failed may have. -/
inductive Leads : Upstreams → List Errand → Upstreams → Prop where
  | nil (u) : Leads u [] u
  | heeded {u e es u'} (rest : Leads (u.told e.node.server e.command) es u') : Leads u (e :: es) u'
  | lost {u e es u'} (failed : e.outcome.isOk = false) (rest : Leads u es u') : Leads u (e :: es) u'

theorem Leads.of_append {u u'' : Upstreams} {es es' : List Errand} (h : u.Leads (es ++ es') u'') :
    ∃ u', u.Leads es u' ∧ u'.Leads es' u'' := by
  induction es generalizing u with
  | nil => exact ⟨u, .nil u, h⟩
  | cons e es ih =>
    cases h with
    | heeded rest =>
      obtain ⟨u', h, h'⟩ := ih rest
      exact ⟨u', .heeded h, h'⟩
    | lost failed rest =>
      obtain ⟨u', h, h'⟩ := ih rest
      exact ⟨u', .lost failed h, h'⟩

/-- Whether every one of some nodes has the one before it as its upstream, and the first one has
`upstream`. -/
def InLine (u : Upstreams) : (upstream : Option Server) → List Node → Prop
  | _, [] => True
  | upstream, n :: ns => u n.server = upstream ∧ u.InLine (some n.server) ns

/-- The server that is reached by going from a server to its upstream so many times. -/
def climb (u : Upstreams) : Nat → Server → Option Server
  | 0, a => some a
  | hops + 1, a => (u a).bind (u.climb hops)

theorem InLine.head {u : Upstreams} {upstream : Option Server} {ns : List Node}
    (h : u.InLine upstream ns) (hns : 0 < ns.length) : u ns[0].server = upstream := by
  cases ns with
  | nil => cases hns
  | cons => exact h.1

theorem InLine.next {u : Upstreams} {upstream : Option Server} {ns : List Node}
    (h : u.InLine upstream ns) {k : Nat} (hk : k + 1 < ns.length) :
    u ns[k + 1].server = some ns[k].server := by
  induction ns generalizing upstream k with
  | nil => cases hk
  | cons n ns ih =>
    cases k with
    | zero => exact h.2.head (Nat.lt_of_succ_lt_succ hk)
    | succ k => exact ih h.2 (Nat.lt_of_succ_lt_succ hk)

/-- In a line the first is reached from every other one. -/
theorem InLine.climb {u : Upstreams} {upstream : Option Server} {ns : List Node}
    (h : u.InLine upstream ns) {k : Nat} (hk : k < ns.length) :
    u.climb k ns[k].server = some (ns.get ⟨0, Nat.zero_lt_of_lt hk⟩).server := by
  induction k with
  | zero => rfl
  | succ k ih => rw [Upstreams.climb, h.next hk, Option.bind_some, ih]

/-- A line leaves nothing open. -/
theorem InLine.unique {u v : Upstreams} {upstream : Option Server} {ns : List Node}
    (hu : u.InLine upstream ns) (hv : v.InLine upstream ns) :
    ∀ n ∈ ns, u n.server = v n.server := by
  induction ns generalizing upstream with
  | nil => simp
  | cons n ns ih => exact List.forall_mem_cons.2 ⟨hu.1.trans hv.1.symm, ih hu.2 hv.2⟩

end Upstreams

/-- Whether nodes are on different servers. -/
def Chain.Apart (nodes : List Node) : Prop := (nodes.map fun n => (n.host, n.port)).Nodup

theorem Chain.Apart.servers {nodes : List Node} (h : Apart nodes) : (nodes.map (·.server)).Nodup := by
  rw [Apart, List.Nodup, List.pairwise_map] at h
  exact List.pairwise_map.2 (h.imp fun hne he => hne (Node.server_inj.1 he))

end ShardFleet
