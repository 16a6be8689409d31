import ShardFleet.Proofs.Transactions

/-!
# Contexts and nodes apart

A call has one context and one node: the node it is made for or, where it ends a session, the node of
that session. Whatever becomes of the call, it changes the session of no other context, and the pool
and the links of no other node.
-/

namespace ShardFleet

/-- The link on which something happened. -/
def WireEvent.link : WireEvent → Nat
  | .opened link _ | .sent link _ _ | .answered link _ _ | .closed link => link

namespace Call

/-- The name of the node where a call has its effects. -/
def site? (call : Call) (e : Executor) : Option String :=
  match call with
  | endSession context => (e.session? context).map (·.node.id)
  | _ => call.node?.map (·.id)

theorem site?_of_node? {call : Call} {node : Node} (h : call.node? = some node) (e : Executor) :
    call.site? e = some node.id := by
  cases call <;> cases h <;> rfl

theorem site?_of_endSession {call : Call} {context : Nat} {e : Executor} {s : Session}
    (h : call = .endSession context) (hs : e.session? context = some s) :
    call.site? e = some s.node.id := by
  rw [h, site?, hs, Option.map_some]

end Call

namespace Wire

variable {σ : Type} {N : Network σ}

/-- What happened on the links to a node, in order: their making, the commands on them, the ends of
requests, and their closing. -/
def logOf (w : Wire σ) (id : String) : List WireEvent :=
  w.trace.filter fun d => .opened d.link id ∈ w.trace

/-- Whether links are numbered as they were made, so that each leads to one node. -/
structure Numbered (w : Wire σ) : Prop where
  below : ∀ link id, .opened link id ∈ w.trace → link < w.opened
  single : ∀ link id other, .opened link id ∈ w.trace → .opened link other ∈ w.trace → id = other

/-- Whether all that happened between two moments happened on links to one node, or nothing at all if
there is none. -/
structure Confined (home : Option String) (w w' : Wire σ) : Prop where
  numbered : w.Numbered → w'.Numbered
  events : ∃ events, w'.trace = w.trace ++ events ∧
    ∀ d ∈ events, ∃ id, home = some id ∧ .opened d.link id ∈ w'.trace

variable {home : Option String} {w w₁ w' : Wire σ}

theorem Confined.refl (home : Option String) (w : Wire σ) : w.Confined home w :=
  ⟨id, [], by simp, by simp⟩

theorem Confined.trans (h : w.Confined home w₁) (h' : w₁.Confined home w') : w.Confined home w' := by
  obtain ⟨hnum, events, ht, hevents⟩ := h
  obtain ⟨hnum', events', ht', hevents'⟩ := h'
  refine ⟨fun hw => hnum' (hnum hw), events ++ events', by rw [ht', ht, List.append_assoc], ?_⟩
  intro d hd
  rcases List.mem_append.1 hd with hd | hd
  · obtain ⟨id, hid, hmem⟩ := hevents d hd
    exact ⟨id, hid, by rw [ht']; exact List.mem_append_left _ hmem⟩
  · exact hevents' d hd

theorem Quiet.confined (h : w.Quiet w') (home : Option String) : w.Confined home w' where
  numbered hw := by
    refine ⟨?_, ?_⟩
    · rw [h.trace, h.opened]
      exact hw.below
    · rw [h.trace]
      exact hw.single
  events := ⟨[], by simp [h.trace], by simp⟩

/-- What is said on a link that leads to the node, and its closing, stay with the node. -/
theorem confined_of_link {link : Nat} {id : String} {events : List WireEvent}
    (ho : w'.opened = w.opened) (ht : w'.trace = w.trace ++ events)
    (hlink : .opened link id ∈ w.trace) (hevents : ∀ d ∈ events, d.link = link)
    (hnew : ∀ other name, .opened other name ∉ events) : w.Confined (some id) w' := by
  have hopened (other : Nat) (name : String) :
      .opened other name ∈ w'.trace ↔ .opened other name ∈ w.trace := by
    rw [ht, List.mem_append, or_iff_left (hnew other name)]
  refine ⟨fun hw => ⟨?_, ?_⟩, events, ht, fun d hd => ⟨id, rfl, ?_⟩⟩
  · intro other name hmem
    rw [ho]
    exact hw.below other name ((hopened other name).1 hmem)
  · intro other name name' hmem hmem'
    exact hw.single other name name' ((hopened other name).1 hmem) ((hopened other name').1 hmem')
  · rw [hevents d hd]
    exact (hopened link id).2 hlink

theorem confined_of_connect {node : Node} {link : Nat} (h : w.connect N node = (.ok link, w')) :
    w.Confined (some node.id) w' := by
  obtain ⟨rfl, ho, ht⟩ := connect_ok h
  have hnew {other : Nat} {name : String} (hmem : .opened other name ∈ w'.trace) :
      .opened other name ∈ w.trace ∨ other = w.opened ∧ name = node.id := by
    rw [ht] at hmem
    rcases List.mem_append.1 hmem with hmem | hmem
    · exact .inl hmem
    · cases List.mem_singleton.1 hmem
      exact .inr ⟨rfl, rfl⟩
  refine ⟨fun hw => ⟨?_, ?_⟩, _, ht, ?_⟩
  · intro other name hmem
    rcases hnew hmem with hold | ⟨rfl, -⟩
    · have := hw.below other name hold
      omega
    · omega
  · intro other name name' hmem hmem'
    rcases hnew hmem with hold | ⟨rfl, rfl⟩ <;> rcases hnew hmem' with hold' | ⟨hlink, rfl⟩
    · exact hw.single other name name' hold hold'
    · have := hw.below other name hold
      omega
    · have := hw.below _ name' hold'
      omega
    · rfl
  · intro d hd
    cases List.mem_singleton.1 hd
    exact ⟨node.id, rfl, by simp [ht, WireEvent.link]⟩

/-- What is confined to one node leaves no mark on the links to another. -/
theorem Confined.logOf_eq (h : w.Confined home w') (hw : w.Numbered) {id : String}
    (hne : home ≠ some id) : w'.logOf id = w.logOf id := by
  have hw' := h.numbered hw
  obtain ⟨events, ht, hevents⟩ := h.events
  -- No link on which something happened since leads to `id`.
  have hother : ∀ d ∈ events, .opened d.link id ∉ w'.trace := by
    intro d hd hmem
    obtain ⟨name, rfl, hname⟩ := hevents d hd
    exact hne (congrArg some (hw'.single _ _ _ hname hmem))
  have hold : ∀ d ∈ w.trace, .opened d.link id ∈ w'.trace ↔ .opened d.link id ∈ w.trace := by
    intro d _
    refine ⟨fun hmem => ?_, fun hmem => by rw [ht]; exact List.mem_append_left _ hmem⟩
    rw [ht] at hmem
    rcases List.mem_append.1 hmem with hmem | hmem
    · exact hmem
    · exact absurd (by rw [ht]; exact List.mem_append_right _ hmem) (hother _ hmem)
  rw [logOf, logOf]
  conv_lhs => rw [ht, List.filter_append]
  have hnone : events.filter (fun d => decide (.opened d.link id ∈ w.trace ++ events)) = [] := by
    refine List.filter_eq_nil_iff.2 fun d hd => ?_
    rw [← ht]
    simpa using hother d hd
  rw [hnone, List.append_nil]
  refine List.filter_congr fun d hd => ?_
  rw [← ht]
  simpa using hold d hd

end Wire

variable {σ : Type} {N : Network σ}

/-- Whether all that changed between two moments are the pool and the links of one node, and sessions. -/
structure Within (home : Option String) (e : Executor) (w : Wire σ) (e' : Executor) (w' : Wire σ) :
    Prop where
  pools : ∀ id, home ≠ some id → e'.pools.find? id = e.pools.find? id
  wire : w.Confined home w'

namespace Within

variable {home : Option String} {e e₁ e' : Executor} {w w₁ w' : Wire σ}

theorem refl (home : Option String) (e : Executor) (w : Wire σ) : Within home e w e w :=
  ⟨fun _ _ => rfl, .refl home w⟩

theorem trans (h : Within home e w e₁ w₁) (h' : Within home e₁ w₁ e' w') : Within home e w e' w' :=
  ⟨fun id hne => (h'.pools id hne).trans (h.pools id hne), h.wire.trans h'.wire⟩

theorem setPool {id : String} (p : Pool) (hw : w.Confined (some id) w') :
    Within (some id) e w (e.setPool id p) w' := by
  refine ⟨fun other hne => ?_, hw⟩
  rw [Executor.find?_setPool, if_neg fun h => hne (congrArg some h.symm)]

end Within

variable {e e' : Executor} {w w' : Wire σ}

theorem Unlent.within {id : String} {f? : Option Fault} (h : Unlent N id e w f? e' w') :
    Within (some id) e w e' w' := by
  obtain ⟨p, -, rfl, hq⟩ := h.quiet
  exact .setPool p (hq.confined _)

theorem Lends.within {id : String} {c : Connection} (h : Lends N id e w c e' w') (he : e.Housed) :
    Within (some id) e w e' w' := by
  cases h with
  | kept => exact .setPool _ (.refl _ w)
  | @made p link w' hp _ _ hw =>
    have hid : p.node.id = id := he.named id p hp
    exact .setPool _ (hid ▸ Wire.confined_of_connect hw)

theorem Connection.request_within {c : Connection} {command : Command} {r : Outcome Resp.Value}
    (hc : c.Shared w) (h : c.request N command w = (r, w')) : Within (some c.node) e w e w' := by
  obtain ⟨ho, events, hasks, ht⟩ := Connection.request_trace h
  obtain ⟨out, rfl, hout⟩ := hasks.split
  refine ⟨fun _ _ => rfl, Wire.confined_of_link ho ht hc.opened ?_ ?_⟩
  · intro d hd
    rcases List.mem_append.1 hd with hd | hd
    · rw [hout d hd]
      rfl
    · cases List.mem_singleton.1 hd
      rfl
  · intro other name hmem
    rcases List.mem_append.1 hmem with hmem | hmem
    · cases hout _ hmem
    · cases List.mem_singleton.1 hmem

theorem Settles.within {c : Connection} {v : Verdict} (h : Settles N c e w v e' w')
    (hc : c.Shared w) : Within (some c.node) e w e' w' := by
  have hclose : w.Confined (some c.node) (c.close N w) :=
    Wire.confined_of_link rfl rfl hc.opened (by simp [WireEvent.link]) (by simp)
  cases h with
  | kept | lost => exact .setPool _ (.refl _ w)
  | surplus | evicted => exact .setPool _ hclose

/-- The connection that a call uses for its session is one to the call's node. -/
theorem Readies.within {call : Call} {context : Nat} {fresh : Bool} {s : Session} {c : Connection}
    (h : Readies N call context e w fresh e' w' s c) (ha : e.Accounted w none) :
    call.site? e = some c.node ∧ Within (some c.node) e w e' w' := by
  cases h with
  | @bound s c hs hc target =>
    obtain ⟨d, hd, hn, -⟩ := ha.pinned context s hs
    cases hc.symm.trans hd
    obtain ⟨node, hnode, hid⟩ := Option.map_eq_some_iff.1 target
    exact ⟨by rw [Call.site?_of_node? hnode, hid, hn], .refl _ e w⟩
  | @opened node _ _ c e₁ _ target _ _ _ hl =>
    obtain ⟨hn, -, -⟩ := hl.pool ha.housed
    rw [Call.site?_of_node? target, hn]
    exact ⟨rfl, (hl.within ha.housed).trans ⟨fun _ _ => rfl, .refl _ w'⟩⟩

theorem Executor.Accounted.pinned_at {context : Nat} {s : Session} {c : Connection}
    (ha : e.Accounted w none) (hs : e.session? context = some s) (hc : s.connection = some c) :
    c.node = s.node.id ∧ c.Shared w := by
  obtain ⟨d, hd, hn, hl⟩ := ha.pinned context s hs
  cases hc.symm.trans hd
  exact ⟨hn, hl.shared⟩

theorem Connection.Shared.counted {c : Connection} (h : c.Shared w) : c.counted.Shared w :=
  ⟨h.undedicated, h.opened⟩

/-- What is requested over a connection, and what becomes of the connection then, stays with its node. -/
theorem Within.served {c : Connection} {command : Command} {r : Outcome Resp.Value} {v : Verdict}
    {e₁ : Executor} {w₁ : Wire σ} (hc : c.Shared w) (hr : c.request N command w = (r, w₁))
    (hs : Settles N c.counted e w₁ v e₁ w') : Within (some c.node) e w e₁ w' := by
  obtain ⟨-, events, -, ht⟩ := Connection.request_trace hr
  exact (Connection.request_within hc hr).trans (hs.within (hc.mono ⟨events, ht.symm⟩).counted)

theorem Within.eraseSession {home : Option String} {context : Nat}
    (h : Within home (e.eraseSession context) w e' w') : Within home e w e' w' := ⟨h.pools, h.wire⟩

/-- However a call goes, it stays with its node. -/
theorem Deed.within {call : Call} {r : Outcome Answer} (h : Deed N call e w r e' w')
    (ha : e.Accounted w none) : Within (call.site? e) e w e' w' := by
  cases h with
  | refused => exact .refl _ e w
  | absent => exact .refl _ e w
  | unlent target hu =>
    rw [Call.site?_of_node? target]
    exact hu.within
  | @pooled node command c e₁ w₁ _ _ _ _ asked hl hr hs =>
    have target : call.node? = some node := by
      obtain rfl | ⟨_, rfl, -⟩ := asked <;> rfl
    obtain ⟨hn, -, -⟩ := hl.pool ha.housed
    have hshared := ((ha.lend hl).handed c rfl).shared
    rw [Call.site?_of_node? target]
    exact (hl.within ha.housed).trans (hn ▸ .served hshared hr hs)
  | @begun context node c e₁ _ asked _ hl =>
    have target : call.node? = some node := by rw [asked]; rfl
    rw [Call.site?_of_node? target]
    exact (hl.within ha.housed).trans ⟨fun _ _ => rfl, .refl _ w'⟩
  | stayed _ hready _ hr =>
    obtain ⟨hsite, hwithin⟩ := hready.within ha
    obtain ⟨ha₁, hs⟩ := ha.ready hready
    have hshared := (ha₁.pinned_at hs hready.connection).2
    rw [hsite]
    exact hwithin.trans ((Connection.request_within hshared hr).trans ⟨fun _ _ => rfl, .refl _ w'⟩)
  | parted _ hready _ hr _ hsettle =>
    obtain ⟨hsite, hwithin⟩ := hready.within ha
    obtain ⟨ha₁, hs⟩ := ha.ready hready
    have hshared := (ha₁.pinned_at hs hready.connection).2
    rw [hsite]
    exact hwithin.trans (Within.served hshared hr hsettle).eraseSession
  | left asked hs hc _ hsettle =>
    obtain ⟨hn, hshared⟩ := ha.pinned_at hs hc
    rw [Call.site?_of_endSession asked hs, ← hn]
    exact (hsettle.within hshared).eraseSession
  | cleaned asked hs hc _ hr hsettle =>
    obtain ⟨hn, hshared⟩ := ha.pinned_at hs hc
    rw [Call.site?_of_endSession asked hs, ← hn]
    exact (Within.served hshared hr hsettle).eraseSession

namespace Scene

theorem numbered_run (nodes : List Node) (net : σ) (moves : List (Move σ)) :
    ((start nodes net).run N moves).wire.Numbered := by
  induction moves using List.reverseRecOn with
  | nil => exact ⟨by simp [run, start], by simp [run, start]⟩
  | append_singleton moves m ih =>
    rw [run_concat]
    cases m with
    | call c =>
      have hd := deed_of_run (N := N) nodes net moves c
      exact (hd.within (accounted_run nodes net moves)).wire.numbered ih
    | meanwhile => exact ⟨ih.below, ih.single⟩

/-- A call that keeps to its context and its node. -/
structure Isolated (N : Network σ) (s : Scene σ) (call : Call) : Prop where
  sessions : ∀ context, call.context? ≠ some context →
    (s.afterCall N call).executor.session? context = s.executor.session? context
  pools : ∀ id, call.site? s.executor ≠ some id →
    (s.afterCall N call).executor.pools.find? id = s.executor.pools.find? id
  logs : ∀ id, call.site? s.executor ≠ some id →
    (s.afterCall N call).wire.logOf id = s.wire.logOf id
  /-- All that happens during the call happens on links to its node. -/
  events : ∀ d ∈ s.events N call, ∃ id, call.site? s.executor = some id ∧
    .opened d.link id ∈ (s.afterCall N call).wire.trace

/-- **Contexts and nodes do not interfere**: after every run, and whatever becomes of a call, the sessions
of all other contexts and the pools and links of all other nodes are as they were. -/
theorem calls_isolated (N : Network σ) (nodes : List Node) (net : σ) (moves : List (Move σ))
    (call : Call) : ((start nodes net).run N moves).Isolated N call := by
  have hd := deed_of_run (N := N) nodes net moves call
  have hwithin := hd.within (accounted_run nodes net moves)
  have hnumbered := numbered_run (N := N) nodes net moves
  refine ⟨fun context hne => hd.session?_of_ne hne, hwithin.pools, ?_, ?_⟩
  · exact fun id hne => hwithin.wire.logOf_eq hnumbered hne
  · obtain ⟨events, ht, hevents⟩ := hwithin.wire.events
    rw [events_of_trace ht]
    exact hevents

end Scene

end ShardFleet
