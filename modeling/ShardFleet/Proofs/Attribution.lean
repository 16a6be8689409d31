import ShardFleet.Proofs.Streams
import ShardFleet.Proofs.Transactions
import ShardFleet.Rehearsal.Servers

/-!
# Whose reply it is

Over streams of bytes, where every command gets one reply sooner or later, a call returns the reply to
its own command. A connection that still owes a reply, or that has bytes left of one, is never kept:
between calls every connection that is kept or pinned has taken all replies to what was written on it.
-/

namespace ShardFleet

section

variable {σ : Type} {N : Network σ}

theorem Wire.connect_net {node : Node} {w w' : Wire σ} {r : Outcome Nat}
    (h : w.connect N node = (r, w')) :
    ∃ r' t, N.connect w.opened node w.clock w.deadline w.net = (r', t, w'.net) ∧
      (∀ link, r = .ok link → r' = .ok ()) ∧ ∀ f, r = .failed f → r' = .failed f := by
  unfold Wire.connect at h
  split at h <;> cases h <;> rename_i hn
  · exact ⟨_, _, hn, fun _ _ => rfl, by simp⟩
  · exact ⟨_, _, hn, by simp, by simp⟩
  · exact ⟨_, _, hn, by simp, by simp⟩

theorem Connection.request_net {c : Connection} {command : Command} {w w' : Wire σ}
    {r : Outcome Resp.Value} (h : c.request N command w = (r, w')) :
    ∃ t, N.request c.link c.node command w.clock w.deadline w.net = (r, t, w'.net) := by
  unfold Connection.request Wire.request Wire.send at h
  rcases hs : N.send c.link command w.clock w.net with ⟨_ | f | f, net⟩ <;> simp only [hs] at h <;>
    cases h <;> rw [Network.request, hs]
  · exact ⟨_, rfl⟩
  · exact ⟨_, rfl⟩
  · exact ⟨_, rfl⟩

end

open ShardFleet.Stream

variable {σ : Type} {B : ByteNetwork σ} {patience : Option Nat}

namespace Executor

variable {e e' : Executor} {w w' : Wire (State (Logged σ))}
  {hand hand' : Option (Connection × Verdict)} {cut : Prop}

/-- Whether every connection that is held has taken as many frames as commands were written on it. -/
structure InStep (e : Executor) (w : Wire (State (Logged σ)))
    (hand : Option (Connection × Verdict)) : Prop where
  held : ∀ link, e.holders link ≠ 0 → ∃ vs, Synced w.net link vs
  handed : ∀ c v, hand = some (c, v) → v ≠ .abandoned ∧ (v = .sound → ∃ vs, Synced w.net c.link vs)

/-! ### Steps -/

/-- A step that changes the streams of no link that is held, after which `e'` holds no other links. -/
theorem InStep.apart {link : Nat} (h : e.InStep w hand) (ha : Apart link w.net w'.net)
    (hfree : e.holders link = 0) (hholders : ∀ other, e'.holders other ≠ 0 → e.holders other ≠ 0)
    (other : Nat) (hother : e'.holders other ≠ 0) : ∃ vs, Synced w'.net other vs := by
  obtain ⟨vs, hvs⟩ := h.held other (hholders other hother)
  refine ⟨vs, hvs.apart ha ?_⟩
  rintro rfl
  exact hholders _ hother hfree

/-- A request changes no stream but its own, and one that leaves its connection sound takes the next
frame. -/
theorem exchanges_of_request {c : Connection} {command : Command} {r : Outcome Resp.Value}
    (hr : c.request (network B.logged patience) command w = (r, w')) :
    Apart c.link w.net w'.net ∧ ∀ vs, Synced w.net c.link vs → r.verdict = .sound →
      ∃ v, r = v.toOutcome ∧ Exchanges c.link command vs v w.net w'.net := by
  obtain ⟨t, hr⟩ := Connection.request_net hr
  rw [request_network] at hr
  exact request_exchanges hr

theorem InStep.take {c d : Connection} (h : e.InStep w none) (hd : d.link = c.link)
    (hholders : ∀ link, e'.holders link + (if c.link = link then 1 else 0) = e.holders link) :
    e'.InStep w (some (d, .sound)) := by
  constructor
  · intro link hlink
    refine h.held link ?_
    have := hholders link
    omega
  · rintro _ _ ⟨rfl, rfl⟩
    refine ⟨by simp, fun _ => h.held d.link ?_⟩
    have := hholders c.link
    rw [if_pos rfl] at this
    rw [hd]
    omega

theorem InStep.unlent {id : String} {f? : Option Fault} (h : e.InStep w none)
    (ha : e.Accounted w none) (hu : Unlent (network B.logged patience) id e w f? e' w') :
    e'.InStep w' none := by
  refine ⟨fun link hlink => ?_, by simp⟩
  cases hu with
  | exhausted hp _ hw =>
    rw [holders_setPool_same hp rfl] at hlink
    rw [Wire.wait_net hw]
    exact h.held link hlink
  | unmade hp _ _ hw =>
    obtain ⟨r, t, hnet, -⟩ := Wire.connect_net hw
    refine h.apart (connect_exchanges hnet).1 ha.unmade (fun other hother => ?_) link hlink
    rwa [holders_setPool_same hp rfl] at hother

theorem InStep.lend {id : String} {c : Connection} (h : e.InStep w none) (ha : e.Accounted w none)
    (hl : Lends (network B.logged patience) id e w c e' w') : e'.InStep w' (some (c, .sound)) := by
  cases hl with
  | @kept p c rest hp _ hi =>
    exact h.take (c := c) rfl (holders_setPool_tail (q := { p.claim with idle := rest }) hp hi)
  | @made p link w' hp _ hi hw =>
    obtain ⟨r, t, hnet, hok, -⟩ := Wire.connect_net hw
    obtain ⟨hapart, hsynced, -⟩ := connect_exchanges hnet
    obtain ⟨rfl, -, -⟩ := Wire.connect_ok hw
    constructor
    · refine h.apart hapart ha.unmade fun other hother => ?_
      rwa [holders_setPool_same hp (by rfl)] at hother
    · rintro _ _ ⟨rfl, rfl⟩
      obtain ⟨vs, hvs, -⟩ := hsynced (hok _ rfl)
      exact ⟨by simp, fun _ => ⟨vs, hvs⟩⟩

theorem InStep.settle {c : Connection} {v : Verdict} (h : e.InStep w (some (c, v)))
    (hs : Settles (network B.logged patience) c e w v e' w') : e'.InStep w' none := by
  refine ⟨fun link hlink => ?_, by simp⟩
  have hclose (h : ∃ vs, Synced w.net link vs) :
      ∃ vs, Synced (c.close (network B.logged patience) w).net link vs := by
    obtain ⟨vs, hvs⟩ := h
    exact ⟨vs, hvs.same (close_same B patience ..)⟩
  cases hs with
  | @kept p hp =>
    by_cases hc : c.link = link
    · rw [← hc]
      exact (h.handed c _ rfl).2 rfl
    · rw [holders_setPool_cons hp (by rfl), if_neg hc] at hlink
      exact h.held link hlink
  | surplus hp =>
    rw [holders_setPool_same hp (by simp)] at hlink
    exact hclose (h.held link hlink)
  | evicted hp =>
    rw [holders_setPool_same hp (by simp)] at hlink
    exact hclose (h.held link hlink)
  | lost hp =>
    rw [holders_setPool_same hp (by simp)] at hlink
    exact h.held link hlink

theorem InStep.handles (h : e.InStep w hand) (ha : e.Accounted w (hand.map (·.1))) (hcut : ¬ cut)
    (hs : Handles (network B.logged patience) cut e w hand e' w' hand') : e'.InStep w' hand' := by
  cases hs with
  | unlent hu => exact h.unlent ha hu
  | lend hl => exact h.lend ha hl
  | unpin hs hc => exact h.take rfl (holders_unpin hs hc)
  | @request c command r _ _ _ hr hended =>
    obtain ⟨hapart, hexchange⟩ := exchanges_of_request hr
    refine ⟨h.apart hapart ha.holders_hand fun _ hother => hother, ?_⟩
    rintro _ _ ⟨rfl, rfl⟩
    refine ⟨fun hv => ?_, fun hv => ?_⟩
    · cases r with
      | stalled => exact hcut (hended rfl)
      | ok => cases hv
      | failed f =>
        simp only [Outcome.verdict] at hv
        split at hv <;> cases hv
    · obtain ⟨vs, hvs⟩ := (h.handed c _ rfl).2 rfl
      obtain ⟨v, -, hex⟩ := hexchange vs hvs hv
      exact ⟨_, hex.synced⟩
  | @pin context s c v _ _ free hc hn hv =>
    refine ⟨fun link hlink => ?_, by simp⟩
    rw [holders_pin free hc] at hlink
    by_cases hlink' : c.link = link
    · obtain ⟨hv', hsynced⟩ := h.handed c v rfl
      rw [← hlink']
      refine hsynced ?_
      cases v with
      | sound => rfl
      | broken => exact absurd rfl hv
      | abandoned => exact absurd rfl hv'
    · rw [if_neg hlink'] at hlink
      exact h.held link hlink
  | settle hs => exact h.settle hs

theorem InStep.deed {call : Call} {r : Outcome Answer} (h : e.InStep w none)
    (ha : e.Accounted w none) (hr : r ≠ .stalled)
    (hd : Deed (network B.logged patience) call e w r e' w') : e'.InStep w' none := by
  have hboth := hd.induction
    (P := fun e w hand => e.Accounted w (hand.map (·.1)) ∧ e.InStep w hand) ha
    (fun hs h => ⟨h.1.handles hs, h.2.handles h.1 hr hs⟩) ⟨ha, h⟩
  exact hboth.2

end Executor

/-! ### What a call takes -/

/-- The command with which a call asks for a reply. -/
def Call.command? : Call → Option Command
  | .execute _ _ command | .executeOn _ command => some command
  | call => call.step?.map fun (s, args) => .of s.commandName args

theorem Call.command?_of_order {call : Call} {p : Phase} {o : Order} (h : call.order? p = some o) :
    call.command? = some o.command := by
  rcases Call.order?_cases h with ⟨_, _, rfl, -, -⟩ | ⟨s, args, asks, -, rfl⟩
  · rfl
  · cases call <;> simp_all [Call.command?, Call.step?]

/-- Nothing passed over the stream of a link between two moments, unless it is a new one. -/
def Rests (link : Nat) (s s' : State (Logged σ)) : Prop :=
  s'.net.script link = s.net.script link ∨
    (s.net.script link).dials < (s'.net.script link).dials

/-- The last that was written on a link is a command, after what had been there at an earlier moment,
and the frame that was taken for it, and last of all, is `v`. -/
def Draws (link : Nat) (command : Command) (v : Resp.Value) (s s' : State (Logged σ)) : Prop :=
  ∃ s₁ vs, Rests link s s₁ ∧ Exchanges link command vs v s₁ s'

section

variable {call : Call} {context : Nat} {fresh : Bool} {e e' e₁ : Executor}
  {w w' w₁ w₂ : Wire (State (Logged σ))} {r : Outcome Answer} {c : Connection}

theorem Lends.rests {id : String} (h : Lends (network B.logged patience) id e w c e₁ w₁) :
    Rests c.link w.net w₁.net := by
  cases h with
  | kept => exact .inl rfl
  | made _ _ _ hw =>
    obtain ⟨r, t, hnet, hok, -⟩ := Wire.connect_net hw
    obtain ⟨-, hsynced, -⟩ := connect_exchanges hnet
    obtain ⟨rfl, -, -⟩ := Wire.connect_ok hw
    obtain ⟨vs, -, hdials⟩ := hsynced (hok _ rfl)
    exact .inr hdials

theorem Executor.InStep.pinned {s : Session} (h : e.InStep w none) (hs : e.session? context = some s)
    (hc : s.connection = some c) : ∃ vs, Synced w.net c.link vs :=
  h.held c.link fun hz => (Executor.link_ne_of_holders_eq_zero hz).2 context c ⟨s, hs, hc⟩ rfl

theorem Readies.rests {s : Session}
    (h : Readies (network B.logged patience) call context e w fresh e₁ w₁ s c)
    (ha : e.Accounted w none) (hstep : e.InStep w none) :
    (∃ vs, Synced w₁.net c.link vs) ∧ Rests c.link w.net w₁.net := by
  cases h with
  | bound hs hc => exact ⟨hstep.pinned hs hc, .inl rfl⟩
  | opened _ _ _ _ hl => exact ⟨((hstep.lend ha hl).handed c _ rfl).2 rfl, hl.rests⟩

theorem Settles.same {v : Verdict} (h : Settles (network B.logged patience) c e w v e₁ w₁) :
    Same w.net w₁.net := by
  cases h with
  | kept | lost => exact .refl _
  | surplus | evicted => exact close_same B patience ..

theorem Connection.request_draws {command : Command} {r : Outcome Resp.Value}
    (hr : c.request (network B.logged patience) command w₁ = (r, w₂))
    (hsynced : ∃ vs, Synced w₁.net c.link vs) (hrests : Rests c.link w.net w₁.net)
    (hsame : Same w₂.net w'.net) (hv : r.verdict = .sound) :
    ∃ v, r = v.toOutcome ∧ Draws c.link command v w.net w'.net := by
  obtain ⟨vs, hvs⟩ := hsynced
  obtain ⟨-, hexchange⟩ := Executor.exchanges_of_request hr
  obtain ⟨v, hrv, hex⟩ := hexchange vs hvs hv
  exact ⟨v, hrv, w₁.net, vs, hrests, hex.same hsame⟩

/-- A rejection that keeps a connection from being lent is the reply to the greeting of a new link. -/
theorem Unlent.draws {id : String} {m : String}
    (h : Unlent (network B.logged patience) id e w (some (.data m)) e' w') :
    ∃ p command, e.pools.find? id = some p ∧ command ∈ greeting p.node ∧
      Draws w.opened command (.error m) w.net w'.net := by
  cases h with
  | exhausted _ _ _ cause => cases cause _ rfl
  | unmade hp _ _ hw =>
    obtain ⟨r, t, hnet, -, hfailed⟩ := Wire.connect_net hw
    obtain ⟨-, -, hrejected⟩ := connect_exchanges hnet
    obtain ⟨command, hc, s₁, vs, hex, hdials⟩ := hrejected m (hfailed _ rfl)
    exact ⟨_, command, hp, hc, s₁, vs, .inr (hex.dials ▸ hdials), hex⟩

/-- A call draws one frame at most for its own command, and answers with it. -/
theorem Deed.draws (hd : Deed (network B.logged patience) call e w r e' w')
    (ha : e.Accounted w none) (h : e.InStep w none) :
    (w.Requests w' [] ∧ (∀ v, r ≠ .ok (.reply v)) ∧ ∀ m, r = .failed (.data m) →
      ∃ node p command, call.node? = some node ∧ e.pools.find? node.id = some p ∧
        command ∈ greeting p.node ∧ Draws w.opened command (.error m) w.net w'.net) ∨
    ∃ c : Connection, ∃ command r₀ out, c.Asks command r₀ out ∧ w.Requests w' out ∧
      (call.command? = some command ∧ r = r₀.map .reply ∨
        (∀ v, r ≠ .ok (.reply v)) ∧ ∀ f, r ≠ .failed f) ∧
      (r₀.verdict = .sound → ∃ v, r₀ = v.toOutcome ∧ Draws c.link command v w.net w'.net) := by
  cases hd with
  | refused cause =>
    refine .inl ⟨.refl w, by simp, fun m hm => ?_⟩
    cases hm
    obtain ⟨_, -, -, hf⟩ | ⟨_, hf, -⟩ := cause <;> cases hf
  | absent => exact .inl ⟨.refl w, by simp, by simp⟩
  | @unlent node f? _ _ target hu =>
    obtain ⟨_, -, -, hq⟩ := hu.quiet
    refine .inl ⟨hq.requests, ?_, fun m hm => ?_⟩
    · cases f? <;> simp [Outcome.without]
    · cases f? with
      | none => cases hm
      | some f =>
        cases hm
        obtain ⟨p, command, hp, hc, hdraws⟩ := hu.draws
        exact ⟨node, p, command, target, hp, hc, hdraws⟩
  | begun _ _ hl => exact .inl ⟨hl.requests, by simp, by simp⟩
  | left _ _ _ _ hs => exact .inl ⟨hs.requests, by simp, by simp⟩
  | @pooled node command c e₁ w₁ r w₂ _ _ asked hl hreq hs =>
    obtain ⟨out, hasks, hout⟩ := Connection.request_requests hreq
    have hcommand : call.command? = some command := by
      obtain rfl | ⟨_, rfl, -⟩ := asked <;> rfl
    exact .inr ⟨c, command, r, out, hasks, by simpa using (hl.requests.trans hout).trans hs.requests,
      .inl ⟨hcommand, rfl⟩,
      Connection.request_draws hreq (((h.lend ha hl).handed c _ rfl).2 rfl) hl.rests hs.same⟩
  | @stayed context fresh e₁ w₁ s c o r w₂ asker hready order hreq keeps =>
    obtain ⟨out, hasks, hout⟩ := Connection.request_requests hreq
    obtain ⟨hsynced, hrests⟩ := hready.rests ha h
    exact .inr ⟨c, o.command, r, out, hasks, hready.requests.trans hout,
      .inl ⟨Call.command?_of_order order, rfl⟩,
      Connection.request_draws hreq hsynced hrests (.refl _)⟩
  | @parted context fresh e₁ w₁ s c o r w₂ _ _ asker hready order hreq keeps hs =>
    obtain ⟨out, hasks, hout⟩ := Connection.request_requests hreq
    obtain ⟨hsynced, hrests⟩ := hready.rests ha h
    exact .inr ⟨c, o.command, r, out, hasks,
      by simpa using (hready.requests.trans hout).trans hs.requests,
      .inl ⟨Call.command?_of_order order, rfl⟩,
      Connection.request_draws hreq hsynced hrests hs.same⟩
  | @cleaned context s c command r w₁ _ _ asked hs hc cleanup hreq hsettle =>
    obtain ⟨out, hasks, hout⟩ := Connection.request_requests hreq
    refine .inr ⟨c, command, r, out, hasks, by simpa using hout.trans hsettle.requests, .inr ?_,
      Connection.request_draws hreq (h.pinned hs hc) (.inl rfl) hsettle.same⟩
    constructor <;> intro _ <;> split <;> simp

end

/-! ### Replies -/

/-- Whether what arrived on a stream are the replies to what was written on it, one for each and in
order, as far as they have come. -/
def Transcript.AnsweredBy (reply : Nat → Nat → Bytes) (t : Transcript) : Prop :=
  t.arrived <+: ((List.range t.written.length).map (reply t.dials)).flatten

instance (reply : Nat → Nat → Bytes) (t : Transcript) : Decidable (t.AnsweredBy reply) :=
  inferInstanceAs (Decidable (_ <+: _))

theorem answered_of_links {s : Logged σ} {reply : Nat → Nat → Nat → Bytes} {n : Nat}
    (hlinks : ∀ t ∈ s.log, t.link < n) (h : ∀ link < n, (s.script link).AnsweredBy (reply link))
    (link : Nat) : (s.script link).AnsweredBy (reply link) := by
  by_cases hn : link < n
  · exact h link hn
  · have huntouched : ∀ t ∈ s.log, t.link ≠ link := by
      rintro t ht rfl
      exact hn (hlinks t ht)
    rw [Logged.script_of_untouched huntouched]
    exact List.nil_prefix

/-- The last that was written on a link between two moments is a command, and `v` is the reply to it:
the reply to what stands in this place on this stream of the link. -/
def Attributed (reply : Nat → Nat → Nat → Bytes) (link : Nat) (command : Command) (v : Resp.Value)
    (s s' : State (Logged σ)) : Prop :=
  ∃ earlier, (s'.net.script link).written = earlier ++ [command.encode] ∧
    ((s'.net.script link).dials = (s.net.script link).dials →
      earlier = (s.net.script link).written) ∧
    Resp.parse (reply link (s'.net.script link).dials earlier.length) = .found v []

/-- Whether a link has no reply outstanding and none unread. -/
structure Settled (reply : Nat → Nat → Nat → Bytes) (link : Nat) (s : State (Logged σ)) : Prop where
  arrived : (s.net.script link).arrived =
    ((List.range (s.net.script link).written.length).map
      (reply link (s.net.script link).dials)).flatten
  read : ∃ l, s.links.find? link = some l ∧ l.buffer = []

section

variable {reply : Nat → Nat → Nat → Bytes} {link : Nat} {s s' : State (Logged σ)}
  {vs : List Resp.Value}

/-- Where as many frames were taken as commands were written, they are the replies. -/
theorem Stream.Synced.replies (h : Synced s link vs)
    (hreply : ∀ link dial place, Resp.IsReply (reply link dial place))
    (ha : (s.net.script link).AnsweredBy (reply link)) :
    Settled reply link s ∧ (List.range vs.length).map
      (fun place => Resp.parse (reply link (s.net.script link).dials place)) =
      vs.map (Resp.Scan.found · []) := by
  obtain ⟨l, hl, htakes⟩ := h.takes
  have hall : ∀ b ∈ (List.range (s.net.script link).written.length).map
      (reply link (s.net.script link).dials), Resp.IsReply b := by
    intro b hb
    obtain ⟨place, -, rfl⟩ := List.mem_map.1 hb
    exact hreply ..
  obtain ⟨hmap, hbuffer, harrived⟩ := htakes.of_replies hall (by simp [h.written]) ha
  refine ⟨⟨harrived, l, hl, hbuffer⟩, ?_⟩
  rw [h.written, ← hmap, List.map_map]
  rfl

theorem Draws.attributed {command : Command} {v : Resp.Value} (h : Draws link command v s s')
    (hreply : ∀ link dial place, Resp.IsReply (reply link dial place))
    (ha : (s'.net.script link).AnsweredBy (reply link)) : Attributed reply link command v s s' := by
  obtain ⟨s₁, vs, hrests, hex⟩ := h
  refine ⟨(s₁.net.script link).written, hex.written, fun hdials => ?_, ?_⟩
  · rcases hrests with hsame | hnew
    · rw [hsame]
    · have := hex.dials
      omega
  · obtain ⟨-, hmap⟩ := hex.synced.replies hreply ha
    have hlen : vs.length = (s₁.net.script link).written.length := by
      have := hex.synced.written
      rw [hex.written] at this
      simpa using this
    rw [List.length_append, List.length_singleton, List.range_succ, List.map_append,
      List.map_append] at hmap
    obtain ⟨-, hlast⟩ := List.append_inj' hmap rfl
    rw [← hlen]
    exact List.singleton_inj.1 hlast

end

/-! ### Runs -/

namespace Scene

/-- Whether, among some moves, all calls are brought to their end, what passed over the streams changes
by calls only, and every command that is written gets one reply, in order and as late as may be. -/
structure Faithful (B : ByteNetwork σ) (patience : Option Nat) (reply : Nat → Nat → Nat → Bytes)
    (s : Scene (State (Logged σ))) (moves : List (Move (State (Logged σ)))) : Prop where
  ended : ∀ before call, before ++ [.call call] <+: moves →
    (s.run (network B.logged patience) before).outcome (network B.logged patience) call ≠ .stalled
  untouched : ∀ before net clock deadline, before ++ [.meanwhile net clock deadline] <+: moves →
    Same (s.run (network B.logged patience) before).wire.net net
  answered : ∀ before, before <+: moves → ∀ link,
    ((s.run (network B.logged patience) before).wire.net.net.script link).AnsweredBy (reply link)
  /-- A reply is a frame, or bytes that a reader rejects. -/
  replies : ∀ link dial place, Resp.IsReply (reply link dial place)

/-- Whether the answer of a call is the reply to its own command. -/
structure Answers (B : ByteNetwork σ) (patience : Option Nat) (reply : Nat → Nat → Nat → Bytes)
    (s : Scene (State (Logged σ))) (call : Call) : Prop where
  accepted : ∀ link command v,
    .answered link command (.ok v) ∈ s.events (network B.logged patience) call →
    Attributed reply link command v s.wire.net
      (s.afterCall (network B.logged patience) call).wire.net
  rejected : ∀ link command m,
    .answered link command (.failed (.data m)) ∈ s.events (network B.logged patience) call →
    Attributed reply link command (.error m) s.wire.net
      (s.afterCall (network B.logged patience) call).wire.net
  /-- A value that the caller gets was the end of a request of the caller's command. -/
  returned : ∀ v, s.outcome (network B.logged patience) call = .ok (.reply v) →
    ∃ link command, call.command? = some command ∧
      .answered link command (.ok v) ∈ s.events (network B.logged patience) call
  /-- So it is with a rejection, unless the node already rejected the greeting of a new link. -/
  refused : ∀ m, s.outcome (network B.logged patience) call = .failed (.data m) →
    (∃ link command, call.command? = some command ∧
      .answered link command (.failed (.data m)) ∈ s.events (network B.logged patience) call) ∨
    ∃ node p command, call.node? = some node ∧ s.executor.pools.find? node.id = some p ∧
      command ∈ greeting p.node ∧
      Attributed reply s.wire.opened command (.error m) s.wire.net
        (s.afterCall (network B.logged patience) call).wire.net

/-- Whether no connection that is kept or pinned has a reply outstanding or unread. -/
structure Quiescent (reply : Nat → Nat → Nat → Bytes) (s : Scene (State (Logged σ))) : Prop where
  idle : ∀ id p, s.executor.pools.find? id = some p → ∀ c ∈ p.idle, Settled reply c.link s.wire.net
  pinned : ∀ context c, s.executor.Pins context c → Settled reply c.link s.wire.net

variable {reply : Nat → Nat → Nat → Bytes}

theorem Faithful.of_prefix {s : Scene (State (Logged σ))}
    {before moves : List (Move (State (Logged σ)))} (h : Faithful B patience reply s moves)
    (hpre : before <+: moves) : Faithful B patience reply s before where
  ended earlier call hc := h.ended earlier call (hc.trans hpre)
  untouched earlier net clock deadline hm := h.untouched earlier net clock deadline (hm.trans hpre)
  answered earlier hc := h.answered earlier (hc.trans hpre)
  replies := h.replies

theorem faithful_nil {s : Scene (State (Logged σ))}
    (hreply : ∀ link dial place, Resp.IsReply (reply link dial place))
    (ha : ∀ link, (s.wire.net.net.script link).AnsweredBy (reply link)) :
    Faithful B patience reply s [] where
  ended before call hpre := by simp at hpre
  untouched before net clock deadline hpre := by simp at hpre
  answered before hpre := by
    rw [List.prefix_nil.1 hpre]
    exact ha
  replies := hreply

theorem faithful_cons {s : Scene (State (Logged σ))} {m : Move (State (Logged σ))}
    {moves : List (Move (State (Logged σ)))}
    (hended : ∀ call, m = .call call → s.outcome (network B.logged patience) call ≠ .stalled)
    (hsame : ∀ net clock deadline, m = .meanwhile net clock deadline → Same s.wire.net net)
    (ha : ∀ link, (s.wire.net.net.script link).AnsweredBy (reply link))
    (h : Faithful B patience reply (s.after (network B.logged patience) m) moves) :
    Faithful B patience reply s (m :: moves) := by
  refine ⟨fun before call hpre => ?_, fun before net clock deadline hpre => ?_,
    fun before hpre => ?_, h.replies⟩
  · cases before with
    | nil => exact hended call (List.cons_prefix_cons.1 hpre).1.symm
    | cons _ before =>
      obtain ⟨rfl, htail⟩ := List.cons_prefix_cons.1 hpre
      exact h.ended before call htail
  · cases before with
    | nil => exact hsame net clock deadline (List.cons_prefix_cons.1 hpre).1.symm
    | cons _ before =>
      obtain ⟨rfl, htail⟩ := List.cons_prefix_cons.1 hpre
      exact h.untouched before net clock deadline htail
  · cases before with
    | nil => exact ha
    | cons _ before =>
      obtain ⟨rfl, htail⟩ := List.cons_prefix_cons.1 hpre
      exact h.answered before htail

theorem inStep_run {nodes : List Node} {net : State (Logged σ)}
    {moves : List (Move (State (Logged σ)))}
    (h : Faithful B patience reply (start nodes net) moves) :
    ((start nodes net).run (network B.logged patience) moves).executor.InStep
      ((start nodes net).run (network B.logged patience) moves).wire none := by
  induction moves using List.reverseRecOn with
  | nil =>
    refine ⟨fun link hlink => ?_, by simp⟩
    have honce : (Executor.ofNodes nodes).holders link + linkCount link [] ≤ 0 :=
      (accounted_run (N := network B.logged patience) nodes net []).once link
    exact absurd (Nat.eq_zero_of_add_eq_zero_right (Nat.le_zero.1 honce)) hlink
  | append_singleton moves m ih =>
    have ih := ih (h.of_prefix (List.prefix_append ..))
    rw [run_concat]
    cases m with
    | call call =>
      exact ih.deed (accounted_run nodes net moves) (h.ended moves call (List.prefix_refl _))
        (deed_of_run nodes net moves call)
    | meanwhile net' clock deadline =>
      have hsame := h.untouched moves net' clock deadline (List.prefix_refl _)
      refine ⟨fun link hlink => ?_, by simp⟩
      obtain ⟨vs, hvs⟩ := ih.held link hlink
      exact ⟨vs, hvs.same hsame⟩

theorem quiescent_run {nodes : List Node} {net : State (Logged σ)}
    {moves : List (Move (State (Logged σ)))}
    (h : Faithful B patience reply (start nodes net) moves) :
    Quiescent reply ((start nodes net).run (network B.logged patience) moves) := by
  have hsettled (link : Nat) (hlink : ((start nodes net).run (network B.logged patience)
      moves).executor.holders link ≠ 0) :
      Settled reply link ((start nodes net).run (network B.logged patience) moves).wire.net := by
    obtain ⟨vs, hvs⟩ := (inStep_run h).held link hlink
    exact (hvs.replies h.replies (h.answered moves (List.prefix_refl _) link)).1
  constructor
  · intro id p hp c hc
    exact hsettled c.link fun hz => (Executor.link_ne_of_holders_eq_zero hz).1 id p hp c hc rfl
  · intro context c hc
    exact hsettled c.link fun hz => (Executor.link_ne_of_holders_eq_zero hz).2 context c hc rfl

/-- **No reply is taken for another**: a call answers with the reply to its own command, and between
calls no connection that is kept or pinned owes one. -/
theorem replies_attributed {nodes : List Node} {net : σ}
    {moves : List (Move (State (Logged σ)))}
    (h : Faithful B patience reply (start nodes { net := { net } }) moves) :
    (∀ before call, before ++ [.call call] <+: moves → Answers B patience reply
      ((start nodes { net := { net } }).run (network B.logged patience) before) call) ∧
    ∀ before, before <+: moves → Quiescent reply
      ((start nodes { net := { net } }).run (network B.logged patience) before) := by
  refine ⟨fun before call hpre => ?_, fun before hpre => quiescent_run (h.of_prefix hpre)⟩
  have hbefore := h.of_prefix ((List.prefix_append ..).trans hpre)
  have hanswered (link : Nat) := h.answered (before ++ [.call call]) hpre link
  rw [run_concat] at hanswered
  have hd := deed_of_run (N := network B.logged patience) nodes { net := { net } } before call
  rcases hd.draws (accounted_run nodes _ before) (inStep_run hbefore) with
    ⟨hout, hreply, hrejected⟩ | ⟨c, command, r, out, hasks, hout, hr, hdraws⟩
  · -- Nothing was requested but by the greeting of a new link.
    refine ⟨fun _ _ _ hmem => absurd ((answered_mem hout).1 hmem) (by simp),
      fun _ _ _ hmem => absurd ((answered_mem hout).1 hmem) (by simp),
      fun v hv => absurd hv (hreply v), fun m hm => .inr ?_⟩
    obtain ⟨node, p, command, hnode, hp, hc, hdraw⟩ := hrejected m hm
    exact ⟨node, p, command, hnode, hp, hc, hdraw.attributed h.replies (hanswered _)⟩
  · have hanswer := (answered_of_asks hasks hout).2 ⟨rfl, rfl, rfl⟩
    refine ⟨?_, ?_, ?_, ?_⟩
    · intro link asked v hmem
      obtain ⟨rfl, rfl, rfl⟩ := (answered_of_asks hasks hout).1 hmem
      obtain ⟨w, hw, hdraw⟩ := hdraws rfl
      rw [value_of_ok hw.symm] at hdraw
      exact hdraw.attributed h.replies (hanswered _)
    · intro link asked m hmem
      obtain ⟨rfl, rfl, rfl⟩ := (answered_of_asks hasks hout).1 hmem
      obtain ⟨w, hw, hdraw⟩ := hdraws rfl
      rw [value_of_data hw.symm] at hdraw
      exact hdraw.attributed h.replies (hanswered _)
    · intro v hv
      rcases hr with ⟨hcommand, hr⟩ | ⟨hnone, -⟩
      · rw [hr] at hv
        cases r with
        | ok => cases hv; exact ⟨c.link, command, hcommand, hanswer⟩
        | _ => cases hv
      · exact absurd hv (hnone v)
    · intro m hm
      rcases hr with ⟨hcommand, hr⟩ | ⟨-, hnone⟩
      · rw [hr] at hm
        cases r with
        | failed => cases hm; exact .inl ⟨c.link, command, hcommand, hanswer⟩
        | _ => cases hm
      · exact absurd hm (hnone _)

/-- A reply that comes when it was given up is not taken for that to the next command. -/
theorem replies_attributed_of_late_reply :
    let node : Node := { host := "a", port := 1 }
    let late : Rehearsal.Reply := { chunks := [utf8 "+one\r\n"], delay := 100 }
    let prompt : Rehearsal.Reply := { chunks := [utf8 "+two\r\n"] }
    let net : Rehearsal.Servers := { servers := [{ replies := [some late, some prompt] }] }
    let reply (link _ _ : Nat) : Bytes := if link = 0 then utf8 "+one\r\n" else utf8 "+two\r\n"
    let N := network Rehearsal.streams.logged (some 50)
    let get : Call := .execute 1 node (.of "GET" [utf8 "k"])
    let s := start [node] { net := { net } }
    let moves := [.call get, .meanwhile (s.afterCall N get).wire.net 200 none, .call get]
    ((∀ before call, before ++ [.call call] <+: moves →
        Answers Rehearsal.streams (some 50) reply (s.run N before) call) ∧
      ∀ before, before <+: moves → Quiescent reply (s.run N before)) ∧
    s.outcome N get = .failed (.timeout (.reply "GET" node.id)) ∧
    (s.run N (moves.take 2)).outcome N get = .ok (.reply (.simple "two")) := by
  intro node late prompt net reply N get s moves
  have hreply (link dial place : Nat) : Resp.IsReply (reply link dial place) := by
    by_cases hlink : link = 0
    · have hone : reply link dial place = utf8 "+one\r\n" := if_pos hlink
      rw [hone]
      exact .inl ⟨.simple "one", by decide +kernel⟩
    · have htwo : reply link dial place = utf8 "+two\r\n" := if_neg hlink
      rw [htwo]
      exact .inl ⟨.simple "two", by decide +kernel⟩
  have hanswered (before : List (Move (State (Logged Rehearsal.Servers))))
      (hlinks : ∀ t ∈ (s.run N before).wire.net.net.log, t.link < 2)
      (h : ∀ link < 2, ((s.run N before).wire.net.net.script link).AnsweredBy (reply link)) :=
    answered_of_links hlinks h
  have hfaithful : Faithful Rehearsal.streams (some 50) reply s moves := by
    refine faithful_cons ?_ (by simp) (hanswered [] ?_ ?_) (faithful_cons (by simp) ?_
      (hanswered (moves.take 1) ?_ ?_) (faithful_cons ?_ (by simp) (hanswered (moves.take 2) ?_ ?_)
      (faithful_nil hreply (hanswered moves ?_ ?_))))
    case refine_1 => rintro _ ⟨rfl⟩; decide +kernel
    case refine_4 => rintro _ _ _ ⟨rfl⟩; exact .refl _
    case refine_7 => rintro _ ⟨rfl⟩; decide +kernel
    all_goals decide +kernel
  exact ⟨replies_attributed hfaithful, by decide +kernel, by decide +kernel⟩

end Scene

end ShardFleet
