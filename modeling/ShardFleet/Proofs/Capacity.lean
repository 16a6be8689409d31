import ShardFleet.Proofs.Custody

/-!
# Capacity and ownership

Wherever a run of calls stops, each connection has one holder: the pool that keeps it, the session that
it is pinned to, or the call that is using it. What a pool counts as lent is what sessions and the call
hold of it, so that no way out of a call loses capacity.
-/

namespace ShardFleet

/-! ### Keys that stay -/

namespace Table

variable {κ α : Type} [DecidableEq κ]

/-- Whether every key of a table still has a value in another. -/
def Covers (t u : Table κ α) : Prop := ∀ key, (∃ a, t.find? key = some a) → ∃ a, u.find? key = some a

theorem Covers.trans {t u v : Table κ α} (h : t.Covers u) (h' : u.Covers v) : t.Covers v :=
  fun key ha => h' key (h key ha)

end Table

variable {σ : Type} {N : Network σ}

namespace Executor

variable {e : Executor} {w w' : Wire σ}

/-! ### Runs -/

theorem ofNodes_concat (nodes : List Node) (n : Node) :
    ofNodes (nodes ++ [n]) = (ofNodes nodes).setPool n.id { node := n } := by
  simp [ofNodes, Table.ofList, setPool]

/-- The pools of a new executor are those of its nodes, and nothing was lent yet. -/
theorem pool_ofNodes {nodes : List Node} {id : String} {p : Pool}
    (hp : (ofNodes nodes).pools.find? id = some p) : p = { node := p.node } ∧ p.node.id = id := by
  induction nodes using List.reverseRecOn with
  | nil => simp [ofNodes, Table.ofList] at hp
  | append_singleton nodes n ih =>
    rw [ofNodes_concat, find?_setPool] at hp
    split at hp
    · cases hp
      exact ⟨rfl, Eq.symm ‹_›⟩
    · exact ih hp

theorem accounted_ofNodes (nodes : List Node) (w : Wire σ) : (ofNodes nodes).Accounted w none where
  named id p hp := (pool_ofNodes hp).2
  kept id p hp c hc := by
    rw [(pool_ofNodes hp).1] at hc
    cases hc
  pinned context s hs := by cases hs
  handed := by simp
  once link := by
    have hpools : (ofNodes nodes).pools.sum (fun p => linkCount link p.idle) = 0 := by
      refine List.sum_eq_zero fun x hx => ?_
      obtain ⟨⟨id, p⟩, hm, rfl⟩ := List.mem_map.1 hx
      rw [(pool_ofNodes (Table.find?_eq_some_iff.2 hm)).1]
      rfl
    have hsessions : (ofNodes nodes).sessions.sum
        (fun s => linkCount link s.connection.toList) = 0 := rfl
    simp [holders, hpools, hsessions]
  active id p hp := by
    rw [(pool_ofNodes hp).1]
    rfl

/-! ### Pools stay where they are -/

/-- Whether every pool is still there, and for the same node. -/
def Equips (e e' : Executor) : Prop :=
  ∀ id p, e.pools.find? id = some p → ∃ q, e'.pools.find? id = some q ∧ q.node = p.node

variable {e₁ e' : Executor}

theorem Equips.refl (e : Executor) : e.Equips e := fun _ p hp => ⟨p, hp, rfl⟩

theorem Equips.trans (h : e.Equips e₁) (h' : e₁.Equips e') : e.Equips e' := by
  intro id p hp
  obtain ⟨q, hq, hnode⟩ := h id p hp
  obtain ⟨q', hq', hnode'⟩ := h' id q hq
  exact ⟨q', hq', hnode'.trans hnode⟩

theorem Equips.covers (h : e.Equips e') : e.pools.Covers e'.pools := by
  rintro id ⟨p, hp⟩
  obtain ⟨q, hq, -⟩ := h id p hp
  exact ⟨q, hq⟩

theorem equips_setPool {id : String} {p q : Pool} (hp : e.pools.find? id = some p)
    (hnode : q.node = p.node) : e.Equips (e.setPool id q) := by
  intro other p' hp'
  rw [find?_setPool]
  split
  · rename_i hother
    rw [hother, hp] at hp'
    cases hp'
    exact ⟨q, rfl, hnode⟩
  · exact ⟨p', hp', rfl⟩

theorem equips_unlent {id : String} {f? : Option Fault} (h : Unlent N id e w f? e₁ w') :
    e.Equips e₁ := by
  obtain ⟨p, hp, rfl, -⟩ := h.quiet
  exact equips_setPool hp rfl

theorem equips_lend {id : String} {c : Connection} (h : Lends N id e w c e₁ w') : e.Equips e₁ := by
  cases h with
  | kept hp | made hp => exact equips_setPool hp rfl

theorem equips_settle {c : Connection} {v : Verdict} (h : Settles N c e w v e₁ w') :
    e.Equips e₁ := by
  cases h with
  | kept hp | surplus hp | evicted hp | lost hp => exact equips_setPool hp (Pool.forget_node c _)

theorem equips_ready {call : Call} {context : Nat} {fresh : Bool} {s : Session} {c : Connection}
    (h : Readies N call context e w fresh e₁ w' s c) : e.Equips e₁ := by
  cases h with
  | bound => exact .refl e
  | opened _ _ _ _ hl => exact (equips_lend hl :)

/-- A call leaves every pool there, and for the same node. -/
theorem equips_deed {call : Call} {r : Outcome Answer} (h : Deed N call e w r e' w') :
    e.Equips e' := by
  cases h with
  | refused | absent => exact .refl e
  | unlent _ hu => exact equips_unlent hu
  | pooled _ hl _ hs => exact (equips_lend hl).trans (equips_settle hs)
  | begun _ _ hl => exact (equips_lend hl :)
  | stayed _ hready => exact (equips_ready hready :)
  | parted _ hready _ _ _ hs => exact (equips_ready hready).trans (equips_settle hs :)
  | left _ _ _ _ hs => exact (equips_settle hs :)
  | cleaned _ _ _ _ _ hs => exact (equips_settle hs :)

theorem pool?_ofNodes {nodes : List Node} {node : Node} (h : node ∈ nodes) :
    ∃ p, (ofNodes nodes).pool? node = some p := by
  induction nodes using List.reverseRecOn with
  | nil => cases h
  | append_singleton nodes n ih =>
    rw [ofNodes_concat, pool?, find?_setPool]
    split
    · exact ⟨_, rfl⟩
    · rename_i hne
      refine ih ?_
      rcases List.mem_append.1 h with h | h
      · exact h
      · exact absurd (congrArg Node.id (List.mem_singleton.1 h)) hne

end Executor

/-- A session that is there never lacks its connection, unless the network itself says so. -/
theorem Deed.lost_connection {call : Call} {e e' : Executor} {w w' : Wire σ} {r : Outcome Answer}
    {context : Nat} (h : Deed N call e w r e' w')
    (hr : r = .failed (.session (.lostConnection context))) :
    N.Raises (.session (.lostConnection context)) := by
  have key {c : Connection} {command : Command} {r : Outcome Resp.Value} {w w' : Wire σ}
      (hreq : c.request N command w = (r, w'))
      (hr : r.map Answer.reply = .failed (.session (.lostConnection context))) :
      N.Raises (.session (.lostConnection context)) := by
    cases r with
    | failed f =>
      cases hr
      obtain hf | ⟨m, hf⟩ | ⟨t, hf⟩ := Connection.request_fault hreq
      · exact hf
      · cases hf
      · cases hf
    | _ => cases hr
  cases h with
  | refused cause =>
    cases hr
    obtain ⟨_, -, -, hf⟩ | ⟨s, hf, hs⟩ := cause
    · cases hf
    · cases hf
      exact absurd rfl (hs context)
  | absent => cases hr
  | @unlent _ f? _ _ _ hu =>
    cases f? with
    | none => cases hr
    | some f =>
      cases hr
      rcases hu.cause with hf | ⟨p, hf⟩
      · exact hf
      · cases hf
  | pooled _ _ hreq => exact key hreq hr
  | begun => cases hr
  | stayed _ _ _ hreq => exact key hreq hr
  | parted _ _ _ hreq => exact key hreq hr
  | left => cases hr
  | cleaned => split at hr <;> cases hr

namespace Scene

theorem accounted_run (nodes : List Node) (net : σ) (moves : List (Move σ)) :
    ((start nodes net).run N moves).executor.Accounted ((start nodes net).run N moves).wire none := by
  refine run_induction (P := fun s : Scene σ => s.executor.Accounted s.wire none)
    (Executor.accounted_ofNodes nodes _) ?_ moves
  rintro s (call | ⟨net, clock, deadline⟩) h
  · exact h.deed (call.deed h.housed)
  · exact h.mono (Nat.le_refl _) (List.prefix_refl _)

theorem deed_of_run (nodes : List Node) (net : σ) (moves : List (Move σ)) (call : Call) :
    let s := (start nodes net).run N moves
    Deed N call s.executor s.wire (s.outcome N call) (s.afterCall N call).executor
      (s.afterCall N call).wire :=
  call.deed (accounted_run nodes net moves).housed

theorem covers_run (nodes : List Node) (net : σ) (moves : List (Move σ)) :
    (Executor.ofNodes nodes).pools.Covers ((start nodes net).run N moves).executor.pools := by
  induction moves using List.reverseRecOn with
  | nil => exact fun _ hp => hp
  | append_singleton moves m ih =>
    rw [run_concat]
    cases m with
    | call c => exact ih.trans (Executor.equips_deed (deed_of_run nodes net moves c)).covers
    | meanwhile => exact ih

/-- Capacity and connections are where they should be. -/
structure Balanced (N : Network σ) (nodes : List Node) (s : Scene σ) : Prop where
  /-- As many connections of a node are in use as contexts have their session there. -/
  active : ∀ node ∈ nodes, ∃ p, s.executor.pool? node = some p ∧
    p.active = s.executor.sessionsOn node.id
  /-- Every session has a connection that was made to its node, for the pool of that node. -/
  connected : ∀ context session, s.executor.session? context = some session →
    ∃ c p, session.connection = some c ∧ c.node = session.node.id ∧
      .opened c.link session.node.id ∈ s.wire.trace ∧ s.executor.pool? session.node = some p
  /-- No two sessions have the same connection. -/
  exclusive : ∀ context other c d, s.executor.Pins context c → s.executor.Pins other d →
    c.link = d.link → context = other
  /-- No connection of a session is kept for later. -/
  apart : ∀ context c, s.executor.Pins context c →
    ∀ id p, s.executor.pools.find? id = some p → ∀ d ∈ p.idle, d.link ≠ c.link
  /-- No call finds a session without its connection. -/
  found : ∀ call context, s.outcome N call = .failed (.session (.lostConnection context)) →
    N.Raises (.session (.lostConnection context))

/-- **No call leaks capacity**, whatever the network does and whichever calls are given up. -/
theorem capacity_accounted (N : Network σ) (nodes : List Node) (net : σ) (moves : List (Move σ)) :
    ((start nodes net).run N moves).Balanced N nodes where
  active node hn := by
    obtain ⟨p, hp⟩ := covers_run (N := N) nodes net moves node.id (Executor.pool?_ofNodes hn)
    have := (accounted_run (N := N) nodes net moves).active node.id p hp
    exact ⟨p, hp, by simpa using this⟩
  connected context session hs := by
    obtain ⟨c, hc, hn, hl⟩ := (accounted_run nodes net moves).pinned context session hs
    obtain ⟨p, hp⟩ := hl.pool
    exact ⟨c, p, hc, hn, hn ▸ hl.shared.opened, by rw [Executor.pool?, ← hn, hp]⟩
  exclusive context other c d hc hd hlink :=
    ((accounted_run nodes net moves).pinned_once hd).2 context c hc hlink
  apart context c hc := ((accounted_run nodes net moves).pinned_once hc).1
  found call context h := (deed_of_run nodes net moves call).lost_connection h

end Scene

end ShardFleet
