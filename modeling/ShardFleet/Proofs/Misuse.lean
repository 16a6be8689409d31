import ShardFleet.Proofs.HomeShards

/-!
# Misused sessions

A context that opens a second session, leaves the node of its session, takes a step that is not its
turn, or names what several shards own, is refused before anything is done for it: no connection is
made, borrowed or given back, nothing is said to a server, and no time passes. This is so wherever a
client has come to, also if its shards were pointed to other masters or its executor was called by
itself.
-/

namespace ShardFleet

variable {σ : Type} {N : Network σ}

/-! ### Networks -/

/-- A request fails with the misuse of a session only if the network says so itself. -/
theorem Connection.raises_of_misuse {c : Connection} {command : Command} {w w' : Wire σ}
    {f : SessionFault} (h : c.request N command w = (.failed (.session f), w')) :
    N.Raises (.session f) := by
  obtain hraised | ⟨_, hdata⟩ | ⟨_, htime⟩ := Connection.request_fault h
  · exact hraised
  · cases hdata
  · cases htime

namespace Stream

variable {B : ByteNetwork σ} {patience : Option Nat} {f : SessionFault}

theorem frame_not_misuse {fuel link now t : Nat} {l l' : Link} {deadline : Option Nat} {s s' : σ} :
    frame B fuel link l now deadline s ≠ (.failed (.session f), l', t, s') := by
  intro h
  induction fuel generalizing l now s with
  | zero =>
    unfold frame at h
    split at h <;> cases h
  | succ fuel ih =>
    unfold frame at h
    split at h
    · cases h
    · cases h
    · dsimp only at h
      split at h
      · exact ih h
      all_goals cases h

theorem bare_not_misuse (B : ByteNetwork σ) (patience : Option Nat) (f : SessionFault) :
    ¬ (bare B patience).Raises (.session f) := by
  rintro (h | h | h | h) <;> simp only [bare] at h
  · split at h <;> cases h
  · split at h
    · cases h
    · split at h <;> cases h
  · split at h
    · cases h
    · split at h <;> cases h
  · split at h
    · cases h
    · rename_i l _
      rcases hf : frame B _ _ l _ _ _ with ⟨r, l', t, net⟩
      rw [hf] at h
      cases h
      exact frame_not_misuse hf

theorem greet_not_misuse {link now t : Nat} {node : String} {cs : List Command}
    {deadline : Option Nat} {s s' : State σ} :
    greet (bare B patience) link node cs now deadline s ≠ (.failed (.session f), t, s') := by
  intro h
  induction cs generalizing now s with
  | nil => cases h
  | cons c cs ih =>
    unfold greet at h
    rcases hr : (bare B patience).request link node c now deadline s with ⟨v | g | _, t₁, s₁⟩ <;>
      simp only [hr] at h
    · exact ih h
    · cases h
      unfold Network.request at hr
      split at hr
      · obtain hraised | ⟨_, hdata⟩ | ⟨_, htime⟩ := Network.receiveReply_fault hr
        · exact bare_not_misuse _ _ _ hraised
        · cases hdata
        · cases htime
      · cases hr
        exact bare_not_misuse _ _ _ (.losing ‹_›)
      · cases hr
        exact bare_not_misuse _ _ _ (.refusing ‹_›)
    · cases h

/-- Byte streams know nothing of sessions. -/
theorem network_not_misuse (B : ByteNetwork σ) (patience : Option Nat) (f : SessionFault) :
    ¬ (Stream.network B patience).Raises (.session f) := by
  rintro (h | h | h | h)
  · simp only [network] at h
    split at h
    · exact greet_not_misuse h
    · exact bare_not_misuse B patience f (.connecting h)
  · exact bare_not_misuse B patience f (.losing h)
  · exact bare_not_misuse B patience f (.refusing h)
  · exact bare_not_misuse B patience f (.receiving h)

end Stream

/-! ### Calls on an executor -/

/-- Of the ways of a call only the refusal at once fails with the misuse of a session, unless the
network says so itself. -/
theorem Deed.unchanged_of_misuse {call : Call} {e e' : Executor} {w w' : Wire σ} {r : Outcome Answer}
    {f : SessionFault} (h : Deed N call e w r e' w') (hr : r = .failed (.session f)) :
    N.Raises (.session f) ∨ e' = e ∧ w' = w := by
  have hreply {c : Connection} {command : Command} {r : Outcome Resp.Value} {w w' : Wire σ}
      (hreq : c.request N command w = (r, w')) (hr : r.map Answer.reply = .failed (.session f)) :
      N.Raises (.session f) := by
    cases r <;> cases hr
    exact Connection.raises_of_misuse hreq
  cases h with
  | refused => exact .inr ⟨rfl, rfl⟩
  | @unlent _ f? _ _ _ hu =>
    cases f? <;> cases hr
    obtain hraised | ⟨_, htime⟩ := hu.cause
    · exact .inl hraised
    · cases htime
  | pooled _ _ hreq | stayed _ _ _ hreq | parted _ _ _ hreq => exact .inl (hreply hreq hr)
  | absent | begun | left => cases hr
  | cleaned => split at hr <;> cases hr

/-! ### Calls on a client -/

namespace Client

/-- Whether one shard owns all of some names. -/
def OwnsTogether (c : Client) (names : List Bytes) : Prop :=
  ∀ a ∈ names, ∀ b ∈ names, c.router.routeIndex a = c.router.routeIndex b

/-- Whether a call can misuse a session: it runs a command for a context, opens a session or takes a
step, or it subscribes to no names at all, or to names that no shard owns together. -/
def Call.MayMisuse (c : Client) : Call → Prop
  | execute .. | begin .. | watch .. | multi .. | exec _ | discard _ | unwatch _ => True
  | subscribe _ names => names = [] ∨ ¬ c.OwnsTogether (names.map utf8)
  | endSession _ | promote .. | reset _ | ask .. | health => False

/-- There is no node for no names, nor for names that no shard owns together. -/
theorem routeTogether_refuses (c : Client) (command : String) {names : List Bytes}
    (h : names = [] ∨ ¬ c.OwnsTogether names) :
    ∃ f, c.routeTogether command names = .error (.session f) := by
  obtain hrefused | ⟨key, hnode⟩ := c.routeTogether_cases command names
  · exact hrefused
  · obtain rfl | hspread := h
    · cases hnode
    · obtain ⟨k, -, -, -, hhome⟩ := routeTogether_home hnode
      exact absurd (fun a ha b hb => (hhome a ha).trans (hhome b hb).symm) hspread

/-- A misused call leaves a client and its wire as they are. -/
theorem Call.unchanged_of_misuse {call : Call} {c : Client} {w : Wire σ} {f : SessionFault}
    (hc : c.executor.Housed) (hcall : call.MayMisuse c)
    (hf : (call.run N c w).1 = .failed (.session f)) :
    N.Raises (.session f) ∨ (call.run N c w).2 = (c, w) := by
  cases hr : call.relayed? c with
  | some d? =>
    rw [call.run_relayed w hr] at hf ⊢
    cases d? with
    | error g => exact .inr rfl
    | ok d =>
      have hdeed := d.deed (N := N) (w := w) hc
      simp only [relay, answered, lift] at hf ⊢
      rcases hd : d.run N c.executor w with ⟨r, e, w'⟩
      simp only [hd] at hf hdeed ⊢
      have hrefused : r = .failed (.session f) := by
        cases r <;> cases hf
        rfl
      refine (hdeed.unchanged_of_misuse hrefused).imp_right ?_
      rintro ⟨rfl, rfl⟩
      rfl
  | none =>
    cases call with
    | subscribe topic names =>
      have hnames : names.map utf8 = [] ∨ ¬ c.OwnsTogether (names.map utf8) :=
        hcall.imp_left fun h => by rw [h, List.map_nil]
      obtain ⟨g, hg⟩ := c.routeTogether_refuses topic.joinCommand hnames
      simp only [run, answered, Client.subscribe, hg, or_true]
    | promote | reset | ask | health => exact hcall.elim
    | execute | begin | endSession | watch | multi | exec | discard | unwatch => cases hr

namespace Scene

/-- Where a client can come to over a network: it is called, the shards are pointed to other masters,
and the executor is called by itself. -/
inductive Reached (N : Network σ) (client : Client) : Scene σ → Prop where
  | start (net : σ) : Reached N client (start client net)
  | moved {s} (before : Reached N client s) (m : Move σ) : Reached N client (s.after N m)
  | pointed {s c shard index} (before : Reached N client s)
      (point : s.client.point shard index = .ok c) : Reached N client { s with client := c }
  | relayed {s e w r} (before : Reached N client s) {call : ShardFleet.Call}
      (run : call.run N s.client.executor s.wire = (r, e, w)) :
    Reached N client ⟨{ s.client with executor := e }, w⟩

theorem Reached.housed {client : Client} {s : Scene σ} (h : Reached N client s)
    (hc : client.executor.Housed) : s.client.executor.Housed := by
  induction h with
  | start => exact hc
  | moved _ m ih => exact housed_after ih m
  | @pointed s c shard index _ hpoint ih =>
    unfold point at hpoint
    split at hpoint
    · cases hpoint
    · rename_i chain _
      cases hchain : chain.point index <;> rw [hchain] at hpoint <;> cases hpoint
      exact ih
  | @relayed s e w r _ call hrun ih =>
    have hdeed := call.deed (N := N) (w := s.wire) ih
    rw [hrun] at hdeed
    exact ih.deed hdeed

/-- **Who misuses a session changes nothing**: a call that fails for this reason, on an executor or on
a client, leaves all connections, sessions, pools, masters and subscriptions as they are, and the
network as well, unless it is the network that fails so, which byte streams do not. -/
theorem misuse_changes_nothing (N : Network σ) :
    (∀ (nodes : List Node) (net : σ) (moves : List (ShardFleet.Move σ)) (call : ShardFleet.Call)
      (f : SessionFault), let s := (ShardFleet.Scene.start nodes net).run N moves
      s.outcome N call = .failed (.session f) → N.Raises (.session f) ∨ s.afterCall N call = s) ∧
    (∀ (settings : Settings) (client : Client), build settings = .ok client →
      ∀ s : Scene σ, Reached N client s → ∀ (call : Call) (f : SessionFault),
      call.MayMisuse s.client → s.outcome N call = .failed (.session f) →
      N.Raises (.session f) ∨ s.afterCall N call = s) ∧
    ∀ (τ : Type) (B : ByteNetwork τ) (patience : Option Nat) (f : SessionFault),
      ¬ (Stream.network B patience).Raises (.session f) := by
  refine ⟨?_, ?_, fun τ => Stream.network_not_misuse⟩
  · intro nodes net moves call f s hf
    have hdeed := ShardFleet.Scene.deed_of_run (N := N) nodes net moves call
    refine (hdeed.unchanged_of_misuse hf).imp_right ?_
    rintro ⟨hexecutor, hwire⟩
    exact congrArg₂ ShardFleet.Scene.mk hexecutor hwire
  · intro settings client hbuild s hs call f hcall hf
    have hhoused := hs.housed (housed_build hbuild)
    refine (call.unchanged_of_misuse hhoused hcall hf).imp_right fun hsame => ?_
    simp only [afterCall, hsame]

/-- Once a context queues commands it may not watch keys, and asking for it changes nothing. -/
theorem watch_while_queued_changes_nothing :
    let settings : Settings := {
      sharding := { virtualNodes := 1, hashing := .fnv1a }
      shards := [{ nodes := [{ host := "a", port := 1 }] }] }
    let N := Stream.network Rehearsal.streams settings.client.readTimeout
    ∃ client, build settings = .ok client ∧
      let s := (start client { net := { servers := [{}] } }).run N [.call (.multi 1 (utf8 "cart"))]
      let call : Call := .watch 1 [utf8 "stock"]
      s.outcome N call = .failed (.session (.notAllowed .watch .queued)) ∧ s.afterCall N call = s := by
  intro settings N
  have hcheck : settings.check = .ok settings := rfl
  obtain ⟨client, hbuild⟩ := build_total hcheck
  have hrefused : (build settings).toOption.map (fun c =>
      ((start c { net := { servers := [{}] } }).run N [.call (.multi 1 (utf8 "cart"))]).outcome N
        (.watch 1 [utf8 "stock"])) = some (.failed (.session (.notAllowed .watch .queued))) := by
    decide +kernel
  rw [hbuild] at hrefused
  have hrefused := Option.some.inj hrefused
  obtain ⟨-, hclient, hstreams⟩ := misuse_changes_nothing N
  have hreached : Reached N client
      ((start client { net := { servers := [{}] } }).run N [.call (.multi 1 (utf8 "cart"))]) :=
    .moved (.start _) (.call (.multi 1 (utf8 "cart")))
  obtain hraised | hsame := hclient settings client hbuild _ hreached
    (.watch 1 [utf8 "stock"]) _ trivial hrefused
  · exact absurd hraised (hstreams _ _ _ _)
  · exact ⟨client, hbuild, hrefused, hsame⟩

end Scene

end Client

end ShardFleet
