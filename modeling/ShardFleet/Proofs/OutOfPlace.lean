import ShardFleet.Proofs.Listening
import ShardFleet.Proofs.Masters
import ShardFleet.Stream

/-!
# Faults that are out of place

Some faults say that a chain or a ring is empty, or that a node has no pool. They come from nowhere but
the network where all nodes that are asked for have pools: no call for such a node fails with one, no
listener ends with one, and no report tells one. Byte streams raise none.
-/

namespace ShardFleet

variable {σ : Type} {N : Network σ}

/-! ### Networks -/

/-- Whether a fault says that a chain or a ring is empty, or that a node has no pool, by itself or as
the reason why a link was not made. -/
def Fault.Misplaced : Fault → Prop
  | .emptyChain | .routing _ => True
  | .linkFailed _ _ _ source => source.Misplaced
  | _ => False

theorem not_misplaced_of_failed {α : Type} {f : Fault} (h : ¬ f.Misplaced) :
    ∀ g, (Outcome.failed f : Outcome α) = .failed g → ¬ g.Misplaced := by
  rintro g ⟨⟩
  exact h

/-- Whether a network itself never raises such a fault. -/
def Network.Sited (N : Network σ) : Prop := ∀ f, N.Raises f → ¬ f.Misplaced

namespace Stream

variable {B : ByteNetwork σ} {patience : Option Nat}

theorem frame_sited {fuel link now t : Nat} {l l' : Link} {deadline : Option Nat} {s s' : σ} {f : Fault}
    (h : frame B fuel link l now deadline s = (.failed f, l', t, s')) : ¬ f.Misplaced := by
  induction fuel generalizing l now s with
  | zero =>
    unfold frame at h
    split at h <;> cases h
    exact not_false
  | succ fuel ih =>
    unfold frame at h
    split at h
    · cases h
    · cases h
      exact not_false
    · dsimp only at h
      split at h
      · exact ih h
      · cases h
        exact not_false
      · cases h
        exact not_false
      · cases h

theorem bare_sited (B : ByteNetwork σ) (patience : Option Nat) : (bare B patience).Sited := by
  rintro f (h | h | h | h) <;> simp only [bare] at h
  · split at h <;> cases h
    exact not_false
  · split at h
    · cases h
    · split at h <;> cases h
      exact not_false
  · split at h
    · cases h
      exact not_false
    · split at h <;> cases h
  · split at h
    · cases h
      exact not_false
    · rename_i l _
      rcases hf : frame B _ _ l _ _ _ with ⟨r, l', t, net⟩
      rw [hf] at h
      cases h
      exact frame_sited hf

theorem greet_sited {link now t : Nat} {node : String} {cs : List Command} {deadline : Option Nat}
    {s s' : State σ} {f : Fault}
    (h : greet (bare B patience) link node cs now deadline s = (.failed f, t, s')) :
    ¬ f.Misplaced := by
  induction cs generalizing now s with
  | nil => cases h
  | cons c cs ih =>
    unfold greet at h
    rcases hr : (bare B patience).request link node c now deadline s with ⟨v | g | _, t₁, s₁⟩ <;>
      simp only [hr] at h
    · exact ih h
    · cases h
      unfold Network.request at hr
      split at hr
      · obtain hraised | ⟨m, rfl⟩ | ⟨t, rfl⟩ := Network.receiveReply_fault hr
        · exact bare_sited B patience f hraised
        · exact not_false
        · exact not_false
      · cases hr
        exact bare_sited B patience f (.losing ‹_›)
      · cases hr
        exact bare_sited B patience f (.refusing ‹_›)
    · cases h

/-- Byte streams raise no such fault, whatever is behind them. -/
theorem network_sited (B : ByteNetwork σ) (patience : Option Nat) :
    (Stream.network B patience).Sited := by
  rintro f (h | h | h | h)
  · simp only [network] at h
    split at h
    · exact greet_sited h
    · exact bare_sited B patience f (.connecting h)
  · exact bare_sited B patience f (.losing h)
  · exact bare_sited B patience f (.refusing h)
  · exact bare_sited B patience f (.receiving h)

end Stream

/-! ### Calls on nodes -/

theorem Executor.Equips.pool? {e e' : Executor} {n : Node} (h : e.Equips e') (hn : e.pool? n ≠ none) :
    e'.pool? n ≠ none := by
  obtain ⟨p, hp⟩ := Option.ne_none_iff_exists'.1 hn
  obtain ⟨q, hq, -⟩ := h n.id p hp
  exact Option.ne_none_iff_exists'.2 ⟨q, hq⟩

theorem Connection.request_sited (hN : N.Sited) {c : Connection} {command : Command} {w w' : Wire σ}
    {f : Fault} (h : c.request N command w = (.failed f, w')) : ¬ f.Misplaced := by
  obtain hraised | ⟨m, rfl⟩ | ⟨t, rfl⟩ := Connection.request_fault h
  · exact hN f hraised
  · exact not_false
  · exact not_false

theorem Unlent.sited (hN : N.Sited) {id : String} {e e' : Executor} {w w' : Wire σ} {f : Fault}
    (h : Unlent N id e w (some f) e' w') : ¬ f.Misplaced := by
  obtain hraised | ⟨p, rfl⟩ := h.cause
  · exact hN f hraised
  · exact not_false

/-- A call for a node that has a pool does not fail for want of one. -/
theorem Deed.sited (hN : N.Sited) {call : Call} {e e' : Executor} {w w' : Wire σ} {r : Outcome Answer}
    (h : Deed N call e w r e' w') (hpool : ∀ node, call.node? = some node → e.pool? node ≠ none) :
    ∀ f, r = .failed f → ¬ f.Misplaced := by
  intro f hr
  have hreply {c : Connection} {command : Command} {r : Outcome Resp.Value} {w w' : Wire σ}
      (hreq : c.request N command w = (r, w')) (hr : r.map Answer.reply = .failed f) :
      ¬ f.Misplaced := by
    cases r <;> cases hr
    exact Connection.request_sited hN hreq
  cases h with
  | refused cause =>
    cases hr
    obtain ⟨node, hnode, hnone, -⟩ | ⟨_, rfl, -⟩ := cause
    · exact absurd hnone (hpool node hnode)
    · exact not_false
  | @unlent _ f? _ _ _ hu =>
    cases f? <;> cases hr
    exact hu.sited hN
  | pooled _ _ hreq | stayed _ _ _ hreq | parted _ _ _ hreq => exact hreply hreq hr
  | absent | begun | left => cases hr
  | cleaned => split at hr <;> cases hr

/-- No link of a chain whose nodes have pools fails for want of one. -/
theorem Chain.relink_sited (hN : N.Sited) (c : Chain) (applied : Nat) (links : List Link)
    {s : Executor × Wire σ} (hs : s.1.Housed) (hpools : ∀ n ∈ c.nodes, s.1.pool? n ≠ none) :
    ∀ f, (c.relink (Client.runner N) applied links s).1 = .failed f → ¬ f.Misplaced := by
  induction links generalizing applied s with
  | nil =>
    intro f hf
    cases hf
  | cons l ls ih =>
    have hdeed : Deed N (.executeOn (c.nodeAt l.node) (c.linkCommand l)) s.1 s.2 _ _ _ :=
      Executor.runPooled_deed hs (.inl rfl)
    have hpool : ∀ node, (ShardFleet.Call.executeOn (c.nodeAt l.node) (c.linkCommand l)).node? =
        some node → s.1.pool? node ≠ none := by
      rintro node ⟨⟩
      exact hpools _ (c.nodeAt_mem l.node)
    have hequips := Executor.equips_deed hdeed
    have hhoused := hs.deed hdeed
    have hfault := hdeed.sited hN hpool
    intro f hf
    unfold relink at hf
    simp only [Client.runner] at hf
    rcases hr : s.1.runPooled N (c.nodeAt l.node) (c.linkCommand l) s.2 with ⟨v | g | _, e, w⟩ <;>
      simp only [hr] at hf hequips hhoused hfault
    · exact ih (applied + 1) hhoused (fun n hn => hequips.pool? (hpools n hn)) f hf
    · cases hf
      exact hfault g rfl
    · cases hf

/-- Making a node the master fails for other reasons than empty chains and missing pools. -/
theorem Chain.promote_sited (hN : N.Sited) (c : Chain) (index : Nat) {s : Executor × Wire σ}
    (hs : s.1.Housed) (hpools : ∀ n ∈ c.nodes, s.1.pool? n ≠ none) :
    ∀ f, (c.promote (Client.runner N) index s).1 = .failed f → ¬ f.Misplaced := by
  intro f hf
  have hlinks := c.relink_sited hN 0 (Link.plan c.nodes.length index) hs hpools
  unfold promote at hf
  split at hf
  · rcases hl : c.relink (Client.runner N) 0 (Link.plan c.nodes.length index) s with
      ⟨v | g | _, t⟩ <;> simp only [hl] at hf hlinks <;> cases hf
    exact hlinks _ rfl
  · cases hf
    exact not_false

theorem Pool.attempt_sited (hN : N.Sited) {p p' : Pool} {command : Command} {w w' : Wire σ} {f : Fault}
    (h : p.attempt N command w = (.failed f, p', w')) : ¬ f.Misplaced := by
  unfold attempt at h
  rcases hl : p.lend N w with ⟨c | g | _, q, w₁⟩ <;> simp only [hl] at h
  · rcases hr : c.request N command w₁ with ⟨v | g | _, w₂⟩ <;> simp only [hr] at h <;> cases h
    exact Connection.request_sited hN hr
  · cases h
    obtain ⟨_, _, -, hg, -⟩ | ⟨-, ⟨_, hg, -⟩ | ⟨_, hg, hconnect, -⟩ | ⟨hg, -⟩⟩ := Pool.lend_ways hl <;>
      cases hg
    exact hN _ (Wire.connect_failed hconnect).1
  · cases h

/-! ### Subscriptions -/

namespace Subscription

/-- Whether the listener of a subscription has not ended with such a fault, nor reported one. -/
structure Sited (s : Subscription) : Prop where
  ending : ∀ f, s.listener.ending = some (.failed f) → ¬ f.Misplaced
  calls : ∀ f, .failed f ∈ s.calls → ¬ f.Misplaced

variable {s s' : Subscription} {w w' : Wire σ}

theorem Sited.stepped (hs : s.Sited) {r : Listener × List Callback}
    (hending : ∀ f, r.1.ending = some (.failed f) → ¬ f.Misplaced)
    (hcalls : ∀ f, .failed f ∈ r.2 → ¬ f.Misplaced) (w : Wire σ) : (s.stepped N r w).1.Sited := by
  rw [stepped_fst]
  refine ⟨hending, fun f hf => ?_⟩
  rcases List.mem_append.1 hf with hf | hf
  · exact hs.calls f hf
  · exact hcalls f hf

theorem Sited.fail (hs : s.Sited) {f : Fault} (hf : ¬ f.Misplaced) (w : Wire σ) :
    (s.stepped N (s.listener.fail f) w).1.Sited := by
  refine hs.stepped (fun g hg => ?_) (fun g hg => ?_) w
  · cases hg
    exact hf
  · cases List.mem_singleton.1 hg
    exact hf

theorem Sited.hear (hs : s.Sited) (v : Resp.Value) (w : Wire σ) :
    (s.stepped N (s.listener.hear v) w).1.Sited := by
  have hquiet {n : Notice} : (s.stepped N (s.listener.note n) w).1.Sited := by
    refine hs.stepped (fun f hf => ?_) (fun f hf => ?_) w
    · refine hs.ending f ?_
      cases n <;> simp only [Listener.note] at hf
      case left topic name count =>
        split at hf
        · cases hf
        · exact hf
      all_goals exact hf
    · cases n <;> simp [Listener.note] at hf
  rw [Listener.hear]
  cases hv : Notice.ofFrame v with
  | ok n => exact hquiet
  | error f =>
    refine hs.fail ?_ w
    obtain ⟨m, rfl⟩ | ⟨p, rfl⟩ := Notice.fault_ofFrame hv
    · exact not_false
    · exact not_false

theorem Sited.stirs (hN : N.Sited) (h : Stirs N (s, w) (s', w')) (hs : s.Sited) : s'.Sited := by
  generalize hstart : (s, w) = start, hlast : (s', w') = last at h
  cases h with
  | heard =>
    cases hstart
    obtain rfl : s' = _ := congrArg Prod.fst hlast
    exact hs.hear _ _
  | lost _ failed =>
    cases hstart
    obtain rfl : s' = _ := congrArg Prod.fst hlast
    exact hs.fail (hN _ (Wire.receiveBefore_raises failed)) _
  | waited =>
    cases hstart
    cases hlast
    exact hs
  | abandoned =>
    cases hstart
    obtain rfl : s' = _ := congrArg Prod.fst hlast
    exact hs.stepped (by simp [Listener.abandon]) (by simp) _

theorem Sited.advances (hN : N.Sited) {t t' : Subscription × Wire σ} (h : Advances N t t')
    (hs : t.1.Sited) : t'.1.Sited := by
  induction h with
  | refl => exact hs
  | tail _ hstep ih => exact ih.stirs hN hstep

theorem Sited.send (hN : N.Sited) (hs : s.Sited) (c : Command) (w : Wire σ) :
    (s.send N c w).1.Sited := by
  unfold Subscription.send
  rcases hc : s.connection.send N c w with ⟨f | _, w₁⟩
  · exact hs.fail (hN f (Wire.send_raises hc)) w₁
  · exact hs

/-- A wait for acknowledgements does not fail with such a fault. -/
theorem Sited.awaitAcks (hN : N.Sited) (hs : s.Sited) {count : Nat} {r : Outcome Unit}
    (h : s.awaitAcks N count w = (r, s', w')) : s'.Sited ∧ ∀ f, r = .failed f → ¬ f.Misplaced := by
  obtain ⟨-, rfl, rfl, -⟩ | ⟨s₁, hadvances, hends⟩ := awaitAcks_advances h
  · exact ⟨hs, not_misplaced_of_failed not_false⟩
  · have hs₁ : s₁.Sited := hs.advances hN hadvances
    obtain ⟨rfl, -, -, rfl⟩ | ⟨rfl, rfl⟩ | ⟨rfl, -, rfl⟩ := hends
    · exact ⟨⟨hs₁.ending, hs₁.calls⟩, by simp⟩
    · exact ⟨hs₁, by simp⟩
    · refine ⟨⟨hs₁.ending, hs₁.calls⟩, ?_⟩
      rintro f ⟨⟩
      unfold deadEnd
      split
      · rename_i hending
        exact hs₁.ending _ hending
      · exact not_false

theorem Sited.settle (hN : N.Sited) (hs : s.Sited) (w : Wire σ) : (s.settle N w).1.Sited :=
  hs.advances hN (settle_advances s w)

theorem Sited.drop (hN : N.Sited) (hs : s.Sited) (w : Wire σ) : (s.drop N w).1.Sited :=
  Sited.settle (s := { s with held := false }) hN ⟨hs.ending, hs.calls⟩ w

/-- Whatever is asked of a subscription, it does not fail with such a fault. -/
theorem Sited.asked (hN : N.Sited) (hs : s.Sited) (request : Request) {r : Outcome Unit}
    (h : request.run N s w = (r, s', w')) : s'.Sited ∧ ∀ f, r = .failed f → ¬ f.Misplaced := by
  cases request with
  | extend topic names =>
    simp only [Request.run, Subscription.extend] at h
    split at h
    · cases h
      exact ⟨hs, by simp⟩
    split at h
    · cases h
      exact ⟨hs, not_misplaced_of_failed not_false⟩
    split at h
    · rcases ha : s.awaitAcks N names.length w with ⟨r₁, s₁, w₁⟩
      obtain ⟨hs₁, hr⟩ := hs.awaitAcks hN ha
      simp only [ha] at h
      cases h
      exact ⟨hs₁.send hN _ _, hr⟩
    · exact (hs.send hN _ w).awaitAcks hN h
  | leave topic names =>
    simp only [Request.run, Subscription.leave, control] at h
    split at h
    · cases h
      exact ⟨hs.send hN _ w, by simp [Outcome.ofExcept]⟩
    · cases h
      exact ⟨hs, not_misplaced_of_failed not_false⟩
  | drop =>
    cases h
    exact ⟨hs.drop hN w, by simp⟩
  | join =>
    simp only [Request.run, Subscription.join] at h
    split at h
    · cases h
      exact ⟨hs.drop hN w, by simp⟩
    · rcases hr : s.run N (fun _ => false) w with ⟨_ | _, s₁, w₁⟩ <;> simp only [hr] at h
      all_goals have hs₁ : s₁.Sited := hs.advances hN (runUntil_advances hr).1
      · cases h
        exact ⟨hs₁.drop hN w₁, by simp⟩
      · split at h
        · rename_i hending
          cases h
          exact ⟨⟨hs₁.ending, hs₁.calls⟩, not_misplaced_of_failed (hs₁.ending _ hending)⟩
        · cases h
          exact ⟨⟨hs₁.ending, hs₁.calls⟩, by simp⟩

/-- An attempt to subscribe does not fail with such a fault. -/
theorem start_sited (hN : N.Sited) {topic : Topic} {names : List String} {p p' : Pool} {r : Started}
    (h : start N topic names p w = (r, p', w')) :
    (∀ s ∈ r.subscription, s.Sited) ∧ ∀ f, r.outcome = .failed f → ¬ f.Misplaced := by
  unfold start at h
  split at h
  · cases h
    exact ⟨by simp, not_misplaced_of_failed not_false⟩
  rcases ho : p.openDedicated N w with ⟨c | f | _, p₁, w₁⟩ <;> simp only [ho] at h
  · rcases hc : c.send N (command topic.joinCommand names) w₁ with ⟨f | _, w₂⟩ <;> simp only [hc] at h
    · cases h
      exact ⟨by simp, not_misplaced_of_failed (hN f (Wire.send_raises hc))⟩
    · have hnew : Sited { node := p₁.node, connection := c } := ⟨by simp, by simp⟩
      rcases ha : awaitAcks N names.length { node := p₁.node, connection := c } w₂ with
        ⟨_ | f | _, s₁, w₃⟩ <;> simp only [ha] at h <;> obtain ⟨hs₁, hr⟩ := hnew.awaitAcks hN ha <;>
        cases h
      · exact ⟨by simpa using hs₁, by simp⟩
      · refine ⟨?_, hr⟩
        rintro s ⟨⟩
        exact hs₁.drop hN w₃
      · refine ⟨?_, by simp⟩
        rintro s ⟨⟩
        exact hs₁.drop hN w₃
  · cases h
    refine ⟨by simp, ?_⟩
    rintro g ⟨⟩
    unfold Pool.openDedicated Pool.connect at ho
    split at ho <;> cases ho
    exact hN f (Wire.connect_failed ‹_›).1
  · cases h
    exact ⟨by simp, by simp⟩

end Subscription

/-! ### Reports -/

theorem head?_append {s t : String} {c : Char} (h : s.toList.head? = some c) :
    (s ++ t).toList.head? = some c := by
  rw [String.toList_append, List.head?_append, h]
  rfl

/-- The wording of no other fault begins like that of a routing fault. -/
theorem Fault.routing_of_head? {f : Fault} (h : f.message.toList.head? = some 'R') :
    ∃ r, f = .routing r := by
  have hfirst {s t : String} {c : Char} (hs : s.toList.head? = some c) (hc : c ≠ 'R')
      (h : (s ++ t).toList.head? = some 'R') : False :=
    hc (Option.some.inj ((head?_append hs).symm.trans h))
  cases f with
  | routing r => exact ⟨r, rfl⟩
  | emptyChain => cases h
  | connection => exact (hfirst (head?_append (head?_append rfl)) (c := 'C') (by decide) h).elim
  | masterOutOfRange | unknownShard | linkFailed =>
    exact (hfirst (s := "Topology error: ") rfl (by decide) h).elim
  | data | session | settings | protocol | timeout | internal =>
    exact (hfirst rfl (by decide) h).elim

namespace Health

variable {limit : Nat} {e e' : Executor} {w w' : Wire σ}

/-- Whether it is not a routing fault why a node is said to be unhealthy. -/
def Sited (h : Health) : Prop := ∀ r, h ≠ .unhealthy (Fault.routing r).message

theorem sited_unhealthy {reason : String} (h : reason.toList.head? ≠ some 'R') :
    (unhealthy reason).Sited := by
  rintro r hsame
  cases hsame
  exact h (head?_append rfl)

theorem sited_message {f : Fault} (h : ¬ f.Misplaced) : (unhealthy f.message).Sited :=
  sited_unhealthy fun hfirst => by
    obtain ⟨r, rfl⟩ := Fault.routing_of_head? hfirst
    exact h trivial

theorem sited_timeout : Health.timeout.Sited := fun _ => Health.noConfusion

theorem sited_ofReply (v : Resp.Value) : (ofReply v).Sited := by
  have hunexpected (t : String) : (unhealthy ("Unexpected PING response: " ++ t)).Sited :=
    sited_unhealthy (by rw [head?_append (c := 'U') rfl]; decide)
  unfold ofReply
  split
  · split
    · exact fun _ => Health.noConfusion
    · exact hunexpected _
  · exact hunexpected _

theorem sited_verdict {r : Outcome Resp.Value} (h : ∀ f, r = .failed f → ¬ f.Misplaced) :
    (verdict r).Sited := by
  cases r with
  | ok v => exact sited_ofReply v
  | failed f => exact sited_message (h f rfl)
  | stalled => exact sited_timeout

/-- Whether a check that has ended has not ended with such a fault. -/
def Probe.Sited (p : Probe) : Prop := ∀ h took, p = .done h took → h.Sited

theorem Starts.sited (hN : N.Sited) {node : Node} {probe : Probe}
    (h : Starts N limit node e w probe e' w') (hnode : e.pool? node ≠ none) : probe.Sited := by
  cases h with
  | unpooled hnone => exact absurd hnone hnode
  | waits => exact fun _ _ => Probe.noConfusion
  | hurried =>
    rintro _ _ ⟨⟩
    exact sited_timeout
  | @attempted _ _ r _ _ _ ha =>
    cases r with
    | ok v =>
      rintro _ _ ⟨⟩
      exact sited_ofReply v
    | failed f =>
      rintro _ _ ⟨⟩
      exact sited_message (Pool.attempt_sited hN ha)
    | stalled => exact fun _ _ => Probe.noConfusion

theorem StartsAll.sited (hN : N.Sited) {moment : Nat} {nodes : List Node} {probes : List Probe}
    (h : StartsAll N limit moment nodes e w probes e' w') (he : e.Housed)
    (hnodes : ∀ n ∈ nodes, e.pool? n ≠ none) : ∀ probe ∈ probes, probe.Sited := by
  induction h with
  | nil => exact fun _ h => nomatch h
  | cons first _ ih =>
    obtain ⟨hn, hns⟩ := List.forall_mem_cons.1 hnodes
    have hrest := ih (first.spares.housed he) fun m hm => (first.spares.equips he).pool? (hns m hm)
    exact List.forall_mem_cons.2 ⟨first.sited hN hn, hrest⟩

theorem Finishes.sited (hN : N.Sited) {node : Node} {probe : Probe} {entry : NodeHealth}
    (h : Finishes N limit node e w probe entry e' w') (hprobe : probe.Sited) : entry.health.Sited := by
  cases h with
  | done => exact hprobe _ _ rfl
  | unpooled | givenUp => exact sited_timeout
  | starved => exact sited_message not_false
  | inVain =>
    dsimp only
    split
    · exact sited_message not_false
    · exact sited_timeout
  | attempted _ _ ha =>
    exact sited_verdict fun f hf => by
      subst hf
      exact Pool.attempt_sited hN ha

theorem FinishesAll.sited (hN : N.Sited) {checks : List (Node × Probe)} {report : List NodeHealth}
    (h : FinishesAll N limit checks e w report e' w') (hchecks : ∀ check ∈ checks, check.2.Sited) :
    ∀ entry ∈ report, entry.health.Sited := by
  induction h with
  | nil => exact fun _ h => nomatch h
  | cons first _ ih =>
    obtain ⟨hfirst, hrest⟩ := List.forall_mem_cons.1 hchecks
    exact List.forall_mem_cons.2 ⟨first.sited hN hfirst, ih hrest⟩

/-- No node that has a pool is unhealthy for want of one. -/
theorem Checks.sited (hN : N.Sited) {nodes : List Node} {report : List NodeHealth}
    (h : Checks N limit nodes e w (.ok report) e') (he : e.Housed)
    (hnodes : ∀ n ∈ nodes, e.pool? n ≠ none) : ∀ entry ∈ report, entry.health.Sited := by
  cases h with
  | made starts finishes =>
    have hprobes := starts.sited hN he hnodes
    exact finishes.sited hN fun check hcheck => hprobes _ (List.of_mem_zip hcheck).2

end Health

end ShardFleet
