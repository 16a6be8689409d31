import ShardFleet.Client
import ShardFleet.Proofs.Isolation
import ShardFleet.Proofs.Relinking

/-!
# What nodes have accepted

The commands that a node has accepted are read from what happened on the links to it. A command that a
chain has run on a node is accepted by this node exactly if the run ended well, and by no other.
-/

namespace ShardFleet

variable {σ : Type} {N : Network σ}

/-- The command that was accepted, if an event is the end of a request that was. -/
def WireEvent.accepted? : WireEvent → Option Command
  | .answered _ command (.ok _) => some command
  | _ => none

namespace Wire

/-- The commands that a node has accepted, in order. -/
def acceptedBy (w : Wire σ) (id : String) : List Command := (w.logOf id).filterMap (·.accepted?)

/-- Whether everything happened on a link that was made. -/
def Rooted (w : Wire σ) : Prop := ∀ d ∈ w.trace, ∃ id, .opened d.link id ∈ w.trace

variable {w w' : Wire σ}

theorem Confined.rooted {home : Option String} (h : w.Confined home w') (hw : w.Rooted) :
    w'.Rooted := by
  obtain ⟨events, ht, hevents⟩ := h.events
  intro d hd
  rw [ht] at hd
  rcases List.mem_append.1 hd with hd | hd
  · obtain ⟨id, hid⟩ := hw d hd
    exact ⟨id, by rw [ht]; exact List.mem_append_left _ hid⟩
  · obtain ⟨id, -, hid⟩ := hevents d hd
    exact ⟨id, hid⟩

/-- What is confined to one node is all added to what happened on the links to it. -/
theorem Confined.logOf_append {id : String} (h : w.Confined (some id) w') (hw : w.Numbered)
    (hr : w.Rooted) : ∃ events, w'.trace = w.trace ++ events ∧ w'.logOf id = w.logOf id ++ events := by
  have hw' := h.numbered hw
  obtain ⟨events, ht, hevents⟩ := h.events
  refine ⟨events, ht, ?_⟩
  have hold : ∀ d ∈ w.trace, .opened d.link id ∈ w'.trace ↔ .opened d.link id ∈ w.trace := by
    intro d hd
    refine ⟨fun hmem => ?_, fun hmem => by rw [ht]; exact List.mem_append_left _ hmem⟩
    obtain ⟨name, hname⟩ := hr d hd
    have hname' : .opened d.link name ∈ w'.trace := by
      rw [ht]
      exact List.mem_append_left _ hname
    rw [hw'.single _ _ _ hmem hname']
    exact hname
  have hnew : ∀ d ∈ events, .opened d.link id ∈ w'.trace := by
    intro d hd
    obtain ⟨name, hname, hmem⟩ := hevents d hd
    cases hname
    exact hmem
  rw [logOf, logOf]
  conv_lhs => rw [ht, List.filter_append]
  rw [← ht]
  congr 1
  · exact List.filter_congr fun d hd => by simpa using hold d hd
  · exact List.filter_eq_self.2 fun d hd => by simpa using hnew d hd

/-- What was accepted between two moments was requested between them. -/
theorem Requests.accepted {out : List WireEvent} (h : w.Requests w' out) :
    ∃ events, w'.trace = w.trace ++ events ∧
      events.filterMap (·.accepted?) = out.filterMap (·.accepted?) := by
  obtain ⟨events, ht, rfl⟩ := h
  refine ⟨events, ht, ?_⟩
  rw [List.filterMap_filter]
  refine List.filterMap_congr fun d _ => ?_
  cases d <;> rfl

end Wire

theorem Connection.Asks.accepted {c : Connection} {command : Command} {r : Outcome Resp.Value}
    {out : List WireEvent} (h : c.Asks command r out) :
    out.filterMap (·.accepted?) = if r.isOk then [command] else [] := by
  cases h with
  | unsent failed =>
    cases r with
    | ok => cases failed
    | failed | stalled => rfl
  | sent => cases r <;> rfl

variable {e : Executor} {w w' : Wire σ}

theorem Outcome.isOk_map {α β : Type} (f : α → β) (r : Outcome α) : (r.map f).isOk = r.isOk := by
  cases r <;> rfl

/-- A command that is run by itself is requested once at most, and the run ends well only if it is. -/
theorem Deed.asks {node : Node} {command : Command} {r : Outcome Answer} {e' : Executor}
    (h : Deed N (.executeOn node command) e w r e' w') :
    (w.Requests w' [] ∧ r.isOk = false) ∨
    ∃ (c : Connection) (r₀ : Outcome Resp.Value) (out : List WireEvent),
      c.Asks command r₀ out ∧ w.Requests w' out ∧ r.isOk = r₀.isOk := by
  cases h with
  | refused => exact .inl ⟨.refl w, rfl⟩
  | @unlent _ f? _ _ _ hu =>
    obtain ⟨_, -, -, hq⟩ := hu.quiet
    exact .inl ⟨hq.requests, by cases f? <;> rfl⟩
  | @pooled _ _ c _ _ r₀ _ _ _ asked hl hreq hs =>
    obtain ⟨out, hasks, hout⟩ := Connection.request_requests hreq
    have hrequests := (hl.requests.trans hout).trans hs.requests
    rw [List.nil_append, List.append_nil] at hrequests
    obtain asked | ⟨_, asked, -⟩ := asked <;> cases asked
    exact .inr ⟨c, r₀, out, hasks, hrequests, Outcome.isOk_map ..⟩
  | absent asked | begun asked | left asked | cleaned asked => cases asked
  | stayed asker | parted asker => cases asker

/-- A command that is run by itself is accepted exactly if the run ends well. -/
theorem Deed.accepted {node : Node} {command : Command} {r : Outcome Answer} {e' : Executor}
    (h : Deed N (.executeOn node command) e w r e' w') :
    ∃ events, w'.trace = w.trace ++ events ∧
      events.filterMap (·.accepted?) = if r.isOk then [command] else [] := by
  obtain ⟨hout, hr⟩ | ⟨c, r₀, out, hasks, hout, hr⟩ := h.asks
  · obtain ⟨events, ht, haccepted⟩ := hout.accepted
    exact ⟨events, ht, by rw [haccepted, hr]; rfl⟩
  · obtain ⟨events, ht, haccepted⟩ := hout.accepted
    exact ⟨events, ht, by rw [haccepted, hasks.accepted, hr]⟩

/-- Whether all connections are accounted for, and everything happened on a link to one node. -/
structure Executor.Traced (e : Executor) (w : Wire σ) : Prop where
  accounted : e.Accounted w none
  numbered : w.Numbered
  rooted : w.Rooted

namespace Executor

theorem Traced.runPooled {node : Node} {command : Command} {r : Outcome Resp.Value} {e' : Executor}
    (h : e.Traced w) (hrun : e.runPooled N node command w = (r, e', w')) :
    e'.Traced w' ∧ ∀ id, w'.acceptedBy id =
      w.acceptedBy id ++ if node.id = id ∧ r.isOk then [command] else [] := by
  have hd : Deed N (.executeOn node command) e w (r.map .reply) e' w' := by
    have hpooled : Deed N (.executeOn node command) e w _ _ _ :=
      runPooled_deed h.accounted.housed (.inl rfl)
    rwa [hrun] at hpooled
  obtain ⟨events, ht, haccepted⟩ := hd.accepted
  rw [Outcome.isOk_map] at haccepted
  have hwithin : w.Confined (some node.id) w' := (hd.within h.accounted).wire
  refine ⟨⟨h.accounted.deed hd, hwithin.numbered h.numbered, hwithin.rooted h.rooted⟩, ?_⟩
  intro id
  by_cases hid : node.id = id
  · subst hid
    obtain ⟨events', ht', hlog⟩ := hwithin.logOf_append h.numbered h.rooted
    obtain rfl := List.append_cancel_left (ht.symm.trans ht')
    rw [Wire.acceptedBy, hlog, List.filterMap_append, haccepted, Wire.acceptedBy]
    simp only [true_and]
  · rw [Wire.acceptedBy, hwithin.logOf_eq h.numbered (by simpa using hid), Wire.acceptedBy,
      if_neg (fun hsame => hid hsame.1), List.append_nil]

end Executor

namespace Chain

/-- The commands that a node has accepted in errands. -/
def acceptedIn (es : List Errand) (id : String) : List Command :=
  es.filterMap fun d => if d.node.id = id ∧ d.outcome.isOk then some d.command else none

/-- What nodes accept while errands are run is what they accept in these errands. -/
theorem Ran.accepted {s s' : Executor × Wire σ} {es : List Errand}
    (h : Ran (Client.runner N) s es s') (hs : s.1.Traced s.2) :
    s'.1.Traced s'.2 ∧ ∀ id, s'.2.acceptedBy id = s.2.acceptedBy id ++ acceptedIn es id := by
  induction h with
  | nil => exact ⟨hs, by simp [acceptedIn]⟩
  | @cons node command r s s' s'' es first _ ih =>
    rcases hrun : s.1.runPooled N node command s.2 with ⟨r', e', w'⟩
    simp only [Client.runner, hrun] at first
    cases first
    obtain ⟨htraced, haccepted⟩ := hs.runPooled hrun
    obtain ⟨htraced', haccepted'⟩ := ih htraced
    refine ⟨htraced', fun id => ?_⟩
    rw [haccepted', haccepted, List.append_assoc, acceptedIn, acceptedIn, List.filterMap_cons]
    split <;> rfl

end Chain

end ShardFleet
