import ShardFleet.Proofs.Capacity
import ShardFleet.Rehearsal.Script

/-!
# Transactions on the wire

While a context has a session, nobody else sends on its connection and its own calls send nowhere else.
So the command that finishes a transaction goes where the session's own MULTI went, and nothing finished
that transaction before.
-/

namespace ShardFleet

variable {σ : Type} {N : Network σ}

/-- Whether the command finishes a transaction. -/
def Command.Finishes (c : Command) : Prop := c.step? = some .exec ∨ c.step? = some .discard

/-! ### What a call sends -/

/-- The link and the command of an event that sends one. -/
def WireEvent.sent? : WireEvent → Option (Nat × Command)
  | .sent link _ command => some (link, command)
  | _ => none

/-- What was sent between two moments was requested between them. -/
theorem Wire.Requests.sent {w w' : Wire σ} {out events : List WireEvent} (h : w.Requests w' out)
    (ht : w'.trace = w.trace ++ events) :
    events.filterMap (·.sent?) = out.filterMap (·.sent?) := by
  obtain ⟨events', ht', rfl⟩ := h
  rw [List.append_cancel_left (ht.symm.trans ht'), List.filterMap_filter]
  refine List.filterMap_congr fun d _ => ?_
  cases d <;> rfl

/-! ### Over whose connection -/

/-- Whether a connection is pinned to a context at one of two moments. -/
def Executor.Engages (e e' : Executor) (context : Nat) (c : Connection) : Prop :=
  e.Pins context c ∨ e'.Pins context c

/-- A call with an outcome `r` that turns `e` into `e'` may send a command on a connection. -/
structure Speaks (call : Call) (e e' : Executor) (r : Outcome Answer) (c : Connection)
    (command : Command) : Prop where
  /-- The connection of a session is for its context only. -/
  owned : ∀ context d, e.Engages e' context d → d.link = c.link → call.context? = some context
  /-- A context with a session sends on its connection only. -/
  inside : ∀ context d, e.Engages e' context d → call.context? = some context → d.link = c.link
  finishes : call.IsPlain → command.Finishes → ∃ context s, call.context? = some context ∧
    e.session? context = some s ∧ s.connection = some c ∧ s.phase = .queued
  /-- The session does not outlive the command that finishes its transaction. -/
  ended : call.IsPlain → r ≠ .stalled → command.Finishes →
    ∀ context, call.context? = some context → e'.session? context = none

section

variable {call : Call} {e e' e₁ : Executor} {w w' w₁ : Wire σ} {r : Outcome Answer}

theorem Speaks.alone {node : Node} {command : Command} {c : Connection}
    (ha : e.Accounted w none) (hl : Lends N node.id e w c e₁ w₁)
    (asked : call = .executeOn node command ∨
      ∃ context, call = .execute context node command ∧ e.session? context = none)
    (hs : e'.sessions = e.sessions) : Speaks call e e' r c command := by
  have hengages {context : Nat} {d : Connection} (h : e.Engages e' context d) :
      e₁.Pins context d ∧ e.Pins context d := by
    have h : e.Pins context d := by
      simpa [Executor.Engages, Executor.Pins, Executor.session?, hs] using h
    refine ⟨?_, h⟩
    simpa [Executor.Pins, Executor.session?, hl.sessions] using h
  have hapart := (Executor.link_ne_of_holders_eq_zero (ha.lend hl).holders_hand).2
  have hnone (hplain : call.IsPlain) : command.step? = none := by
    obtain rfl | ⟨_, rfl, -⟩ := asked <;> exact hplain
  constructor
  · intro context d hd hlink
    exact absurd hlink (hapart context d (hengages hd).1)
  · intro context d hd hasker
    obtain ⟨s, hs, -⟩ := (hengages hd).2
    obtain rfl | ⟨_, rfl, hfree⟩ := asked
    · cases hasker
    · cases hasker
      cases hfree.symm.trans hs
  · intro hplain hf
    simp [Command.Finishes, hnone hplain] at hf
  · intro hplain _ hf
    simp [Command.Finishes, hnone hplain] at hf

theorem Speaks.pinned {context : Nat} {command : Command} {c : Connection}
    (asker : call.context? = some context) (h₁ : e₁.Accounted w₁ none) (hc : e₁.Pins context c)
    (hmid : ∀ other ≠ context, e₁.session? other = e.session? other)
    (hothers : ∀ {other}, call.context? ≠ some other → e'.session? other = e.session? other)
    (inside : ∀ d, e.Engages e' context d → d.link = c.link)
    (finishes : call.IsPlain → command.Finishes →
      ∃ s, e.session? context = some s ∧ s.connection = some c ∧ s.phase = .queued)
    (ended : call.IsPlain → r ≠ .stalled → command.Finishes → e'.session? context = none) :
    Speaks call e e' r c command where
  owned other d hd hlink := by
    by_cases hother : other = context
    · rw [asker, hother]
    · have hafter : e'.session? other = e.session? other := by
        refine hothers ?_
        rw [asker]
        rintro ⟨rfl⟩
        exact hother rfl
      have hd : e₁.Pins other d := by
        simpa [Executor.Engages, Executor.Pins, hafter, hmid other hother] using hd
      exact absurd ((h₁.pinned_once hc).2 other d hd hlink) hother
  inside other d hd hother := by
    cases asker.symm.trans hother
    exact inside d hd
  finishes hplain hf := by
    obtain ⟨s, hs⟩ := finishes hplain hf
    exact ⟨context, s, asker, hs⟩
  ended hplain hr hf other hother := by
    cases asker.symm.trans hother
    exact ended hplain hr hf

theorem Call.order?_finishes {p : Phase} {o : Order} (ho : call.order? p = some o)
    (hplain : call.IsPlain) (hf : o.command.Finishes) : p = .queued ∧ o.ends = true := by
  rcases Call.order?_cases ho with ⟨context, node, rfl, -, -⟩ | ⟨s, args, -, ha, rfl⟩
  · have hnone : o.command.step? = none := hplain
    simp [Command.Finishes, hnone] at hf
  · simp only [Command.Finishes, Command.step?_of, Option.some.injEq] at hf
    rcases hf with rfl | rfl <;> exact ⟨by simpa [Step.allowedIn] using ha, rfl⟩

theorem Executor.queued_of_cleanup_finishes {p : Phase} {c : Command}
    (hc : Executor.cleanup? p = some c) (hf : c.Finishes) : p = .queued := by
  cases p with
  | opened => cases hc
  | watching =>
    cases hc
    have hstep : (Command.of "UNWATCH" []).step? = some .unwatch := Command.step?_of .unwatch []
    simp [Command.Finishes, hstep] at hf
  | queued => rfl

/-- A session that was there before a call that uses it has the connection that the call uses. -/
theorem Readies.pins {context : Nat} {fresh : Bool} {s : Session} {c d : Connection}
    (h : Readies N call context e w fresh e₁ w₁ s c) (hd : e.Pins context d) : d = c := by
  obtain ⟨t, ht, hd⟩ := hd
  cases h with
  | bound hs hc =>
    cases hs.symm.trans ht
    exact Option.some.inj (hd.symm.trans hc)
  | opened _ _ _ free => cases free.symm.trans ht

theorem Readies.finishes {context : Nat} {fresh : Bool} {s : Session} {c : Connection} {o : Order}
    (h : Readies N call context e w fresh e₁ w₁ s c) (ho : call.order? s.phase = some o)
    (hplain : call.IsPlain) (hf : o.command.Finishes) :
    ∃ s, e.session? context = some s ∧ s.connection = some c ∧ s.phase = .queued := by
  have hq := (Call.order?_finishes ho hplain hf).1
  exact ⟨s, h.bound_of_queued hq, h.connection, hq⟩

theorem Settles.session?_of_erased {context : Nat} {c : Connection} {v : Verdict}
    (h : Settles N c (e.eraseSession context) w v e₁ w₁) : e₁.session? context = none := by
  rw [Executor.session?, h.sessions]
  exact e.session?_eraseSession_self context

/-- A call makes one request at most, and keeps to its session. -/
theorem Deed.speaks (hd : Deed N call e w r e' w') (ha : e.Accounted w none) :
    w.Requests w' [] ∨ ∃ c command r₀ out, c.Asks command r₀ out ∧ w.Requests w' out ∧
      Speaks call e e' r c command := by
  have hothers {other : Nat} (h : call.context? ≠ some other) := hd.session?_of_ne h
  cases hd with
  | refused => exact .inl (.refl w)
  | absent => exact .inl (.refl w)
  | unlent _ hu =>
    obtain ⟨_, -, -, hq⟩ := hu.quiet
    exact .inl hq.requests
  | begun _ _ hl => exact .inl hl.requests
  | left _ _ _ _ hs => exact .inl hs.requests
  | @pooled _ _ c _ _ _ _ _ _ asked hl hreq hs =>
    obtain ⟨out, hasks, h⟩ := Connection.request_requests hreq
    exact .inr ⟨c, _, _, out, hasks, by simpa using (hl.requests.trans h).trans hs.requests,
      .alone ha hl asked (hs.sessions.trans hl.sessions)⟩
  | @stayed context fresh e₁ w₁ s c o r w₂ asker hready order hreq keeps =>
    obtain ⟨out, hasks, h⟩ := Connection.request_requests hreq
    obtain ⟨h₁, hs⟩ := ha.ready hready
    refine .inr ⟨c, _, _, out, hasks, hready.requests.trans h,
      .pinned asker h₁ ⟨s, hs, hready.connection⟩ (fun _ => hready.session?_of_ne) hothers ?_
      (hready.finishes order) ?_⟩
    · rintro d (hd | ⟨t, ht, hd⟩)
      · rw [hready.pins hd]
      · rw [Executor.session?_setSession_self] at ht
        cases ht
        cases hd
        rfl
    · intro hplain hr hf
      have hv : r.verdict = .sound := Order.sound_of_keeps keeps (by rintro rfl; exact hr rfl)
      have hends := (Call.order?_finishes order hplain hf).2
      rw [Order.ends_of_keeps keeps hv] at hends
      cases hends
  | @parted context fresh e₁ w₁ s c o r w₂ _ _ asker hready order hreq keeps hsettle =>
    obtain ⟨out, hasks, h⟩ := Connection.request_requests hreq
    obtain ⟨h₁, hs⟩ := ha.ready hready
    have hended := hsettle.session?_of_erased
    refine .inr ⟨c, _, _, out, hasks,
      by simpa using (hready.requests.trans h).trans hsettle.requests,
      .pinned asker h₁ ⟨s, hs, hready.connection⟩ (fun _ => hready.session?_of_ne) hothers ?_
      (hready.finishes order) (fun _ _ _ => hended)⟩
    rintro d (hd | ⟨t, ht, -⟩)
    · rw [hready.pins hd]
    · cases hended.symm.trans ht
  | @cleaned context s c command r w₁ _ _ asked hs hc cleanup hreq hsettle =>
    obtain ⟨out, hasks, h⟩ := Connection.request_requests hreq
    have hended := hsettle.session?_of_erased
    refine .inr ⟨c, _, _, out, hasks, by simpa using h.trans hsettle.requests,
      .pinned (by rw [asked]; rfl) ha ⟨s, hs, hc⟩ (fun _ _ => rfl) hothers ?_ ?_
      (fun _ _ _ => hended)⟩
    · rintro d (⟨t, ht, hd⟩ | ⟨t, ht, -⟩)
      · cases hs.symm.trans ht
        cases hc.symm.trans hd
        rfl
      · cases hended.symm.trans ht
    · intro _ hf
      exact ⟨s, hs, hc, Executor.queued_of_cleanup_finishes cleanup hf⟩

/-- Only MULTI leads to the queued phase. -/
theorem Call.order?_queued {context : Nat} {p : Phase} {o : Order}
    (asker : call.context? = some context) (ho : call.order? p = some o) (hn : o.next = .queued)
    (hp : p ≠ .queued) :
    ∃ node, call = .multi context node ∧ o.command = .of "MULTI" [] := by
  rcases Call.order?_cases ho with ⟨_, _, -, hsame, -⟩ | ⟨s, args, asks, -, rfl⟩
  · exact absurd (hsame.symm.trans hn) hp
  · cases s with
    | watch => cases hn
    | multi =>
      cases call <;> cases asks
      cases asker
      exact ⟨_, rfl, rfl⟩
    | exec | discard | unwatch => exact absurd hn hp

/-- Whether a context queues commands on a link. -/
def Executor.Queues (e : Executor) (context link : Nat) : Prop :=
  ∃ s c, e.session? context = some s ∧ s.phase = .queued ∧ s.connection = some c ∧ c.link = link

/-- A context queues on a link because it did so before, or because its MULTI was accepted there. -/
theorem Deed.queues_cases (hd : Deed N call e w r e' w') {context link : Nat}
    (hq : e'.Queues context link) :
    e.Queues context link ∨
    ∃ node v id events, call = .multi context node ∧ w'.trace = w.trace ++ events ∧
      .sent link id (.of "MULTI" []) ∈ events ∧ .answered link (.of "MULTI" []) (.ok v) ∈ events := by
  by_cases hcontext : call.context? = some context
  case neg =>
    left
    rwa [Executor.Queues, hd.session?_of_ne hcontext] at hq
  obtain ⟨t, d, ht, hp, hd', rfl⟩ := hq
  cases hd with
  | refused => exact .inl ⟨t, d, ht, hp, hd', rfl⟩
  | absent => exact .inl ⟨t, d, ht, hp, hd', rfl⟩
  | unlent _ hu =>
    obtain ⟨_, -, rfl, -⟩ := hu.quiet
    exact .inl ⟨t, d, ht, hp, hd', rfl⟩
  | pooled _ hl _ hs =>
    rw [Executor.session?, hs.sessions, hl.sessions] at ht
    exact .inl ⟨t, d, ht, hp, hd', rfl⟩
  | begun asked =>
    cases asked
    cases hcontext
    rw [Executor.session?_setSession_self] at ht
    cases ht
    cases hp
  | @stayed _ fresh e₁ w₁ s c o r w₂ asker hready order hreq keeps =>
    cases hcontext.symm.trans asker
    rw [Executor.session?_setSession_self] at ht
    cases ht
    cases hd'
    by_cases hs : s.phase = .queued
    · exact .inl ⟨s, c, hready.bound_of_queued hs, hs, hready.connection, rfl⟩
    · -- The phase moved, so that the step was accepted.
      cases r with
      | ok v =>
        obtain ⟨node, rfl, ho⟩ := Call.order?_queued hcontext order hp hs
        obtain ⟨events, ht, -⟩ := hready.requests
        obtain ⟨-, _, ⟨⟨⟩⟩ | _, ht'⟩ := Connection.request_trace hreq
        rw [ht, ho] at ht'
        exact .inr ⟨node, v, c.node, _, rfl, by rw [ht', List.append_assoc], by simp, by simp⟩
      | _ => exact absurd hp hs
  | parted asker _ _ _ _ hsettle =>
    cases hcontext.symm.trans asker
    cases hsettle.session?_of_erased.symm.trans ht
  | left asked _ _ _ hsettle =>
    cases asked
    cases hcontext
    cases hsettle.session?_of_erased.symm.trans ht
  | cleaned asked _ _ _ _ hsettle =>
    cases asked
    cases hcontext
    cases hsettle.session?_of_erased.symm.trans ht

end

/-! ### Runs -/

namespace Scene

/-- What happens on the links during a call that is made now. -/
def events (N : Network σ) (s : Scene σ) (c : Call) : List WireEvent :=
  (s.afterCall N c).wire.trace.drop s.wire.trace.length

/-- The links and commands that a call sends that is made now. -/
def sends (N : Network σ) (s : Scene σ) (c : Call) : List (Nat × Command) :=
  (s.events N c).filterMap WireEvent.sent?

theorem events_of_trace {s : Scene σ} {c : Call} {events : List WireEvent}
    (h : (s.afterCall N c).wire.trace = s.wire.trace ++ events) : s.events N c = events := by
  rw [Scene.events, h, List.drop_left]

theorem sends_of_requests {s : Scene σ} {c : Call} {out : List WireEvent}
    (h : s.wire.Requests (s.afterCall N c).wire out) :
    s.sends N c = out.filterMap WireEvent.sent? := by
  obtain ⟨events, ht, hout⟩ := h
  rw [sends, events_of_trace ht]
  exact Wire.Requests.sent ⟨events, ht, hout⟩ ht

theorem answered_mem {s : Scene σ} {c : Call} {out : List WireEvent} {link : Nat}
    {command : Command} {r : Outcome Resp.Value}
    (h : s.wire.Requests (s.afterCall N c).wire out) :
    .answered link command r ∈ s.events N c ↔ .answered link command r ∈ out := by
  obtain ⟨events, ht, rfl⟩ := h
  rw [events_of_trace ht, List.mem_filter]
  exact (and_iff_left rfl).symm

/-- What is answered during a call that requests something is this request. -/
theorem answered_of_asks {s : Scene σ} {c : Call} {d : Connection} {out : List WireEvent}
    {link : Nat} {command asked : Command} {r r' : Outcome Resp.Value}
    (hasks : d.Asks command r out) (h : s.wire.Requests (s.afterCall N c).wire out) :
    .answered link asked r' ∈ s.events N c ↔ link = d.link ∧ asked = command ∧ r' = r := by
  rw [answered_mem h]
  cases hasks <;> simp

/-- A call sends one command at most, and keeps to its session. -/
theorem speaks {s : Scene σ} (ha : s.executor.Accounted s.wire none) (c : Call) :
    s.sends N c = [] ∨ ∃ d command, s.sends N c = [(d.link, command)] ∧
      Speaks c s.executor (s.afterCall N c).executor (s.outcome N c) d command := by
  have hd : Deed N c s.executor s.wire (s.outcome N c) (s.afterCall N c).executor
      (s.afterCall N c).wire := c.deed ha.housed
  rcases hd.speaks ha with hout | ⟨d, command, r, out, hasks, hout, hspeaks⟩
  · exact .inl (sends_of_requests hout)
  · cases hasks with
    | unsent => exact .inl (sends_of_requests hout)
    | sent => exact .inr ⟨d, command, sends_of_requests hout, hspeaks⟩

/-- Where a context still queues after a call, the call finished nothing. -/
theorem unfinished_of_queues {s : Scene σ} {c : Call} (ha : s.executor.Accounted s.wire none)
    (hplain : c.IsPlain) (hend : s.outcome N c ≠ .stalled) {context link : Nat}
    (hq : (s.afterCall N c).executor.Queues context link) {command : Command}
    (hc : (link, command) ∈ s.sends N c) : ¬ command.Finishes := by
  intro hf
  obtain ⟨t, b, ht, -, hb, hlink⟩ := hq
  rcases speaks ha c with hnone | ⟨d, sent, hone, hspeaks⟩
  · rw [hnone] at hc
    cases hc
  · rw [hone] at hc
    obtain ⟨rfl, rfl⟩ := Prod.mk.inj (List.mem_singleton.1 hc)
    have howner := hspeaks.owned context b (.inr ⟨t, ht, hb⟩) hlink
    have hended := hspeaks.ended hplain hend hf context howner
    rw [ht] at hended
    cases hended

/-- A transaction of a context that is under way on a link after some moves: it was begun by a call
after the moves `earlier`, and goes on since. -/
structure Transaction (N : Network σ) (s : Scene σ) (moves : List (Move σ)) (context link : Nat)
    (earlier : List (Move σ)) (node : Node) (since : List (Move σ)) : Prop where
  split : moves = earlier ++ .call (.multi context node) :: since
  sent : (link, .of "MULTI" []) ∈ (s.run N earlier).sends N (.multi context node)
  accepted : ∃ v, .answered link (.of "MULTI" []) (.ok v) ∈
    (s.run N earlier).events N (.multi context node)
  /-- The session is there all the time. -/
  queues : ∀ mid, mid <+: since →
    (s.run N (earlier ++ .call (.multi context node) :: mid)).executor.Queues context link
  /-- Nothing that finishes a transaction was sent on the link. -/
  unfinished : ∀ mid call, mid ++ [.call call] <+: since → ∀ command,
    (link, command) ∈ (s.run N (earlier ++ .call (.multi context node) :: mid)).sends N call →
      ¬ command.Finishes

theorem Transaction.concat {s : Scene σ} {moves earlier since : List (Move σ)}
    {context link : Nat} {node : Node} {m : Move σ}
    (h : Transaction N s moves context link earlier node since)
    (hq : (s.run N (moves ++ [m])).executor.Queues context link)
    (hm : ∀ call, m = .call call → ∀ command,
      (link, command) ∈ (s.run N moves).sends N call → ¬ command.Finishes) :
    Transaction N s (moves ++ [m]) context link earlier node (since ++ [m]) where
  split := by rw [h.split, List.append_assoc, List.cons_append]
  sent := h.sent
  accepted := h.accepted
  queues mid hmid := by
    rcases List.prefix_concat_iff.1 hmid with rfl | hmid
    · rwa [h.split, List.append_assoc, List.cons_append] at hq
    · exact h.queues mid hmid
  unfinished mid call hmid command hc := by
    rcases List.prefix_concat_iff.1 hmid with heq | hmid
    · obtain ⟨rfl, hlast⟩ := List.append_inj' heq rfl
      rw [← h.split] at hc
      exact hm call (List.cons.inj hlast).1.symm command hc
    · exact h.unfinished mid call hmid command hc

/-- A session that queues after a call that found it otherwise began its transaction with the call. -/
theorem Transaction.begun {s : Scene σ} {moves : List (Move σ)} {context link : Nat} {node : Node}
    {id : String} {v : Resp.Value} {events : List WireEvent}
    (hq : (s.run N (moves ++ [.call (.multi context node)])).executor.Queues context link)
    (ht : ((s.run N moves).afterCall N (.multi context node)).wire.trace =
      (s.run N moves).wire.trace ++ events)
    (hsent : .sent link id (.of "MULTI" []) ∈ events)
    (haccepted : .answered link (.of "MULTI" []) (.ok v) ∈ events) :
    Transaction N s (moves ++ [.call (.multi context node)]) context link moves node [] where
  split := rfl
  sent := by
    rw [sends, events_of_trace ht, List.mem_filterMap]
    exact ⟨_, hsent, rfl⟩
  accepted := by
    rw [events_of_trace ht]
    exact ⟨v, haccepted⟩
  queues mid hmid := by
    rw [List.prefix_nil.1 hmid]
    exact hq
  unfinished mid call hmid := by simp at hmid

/-- Every session that queues is in a transaction that it began itself. -/
theorem transaction_of_queues {nodes : List Node} {net : σ} {moves : List (Move σ)}
    (h : (start nodes net).Orderly N moves) {context link : Nat}
    (hq : ((start nodes net).run N moves).executor.Queues context link) :
    ∃ earlier node since,
      Transaction N (start nodes net) moves context link earlier node since := by
  induction moves using List.reverseRecOn with
  | nil =>
    obtain ⟨s, c, hs, -⟩ := hq
    cases hs
  | append_singleton moves m ih =>
    have ih := ih (h.of_prefix (List.prefix_append ..))
    have hq' := hq
    rw [run_concat] at hq'
    cases m with
    | meanwhile net clock deadline =>
      obtain ⟨earlier, node, since, ht⟩ := ih hq'
      exact ⟨earlier, node, _, ht.concat hq (by simp)⟩
    | call c =>
      obtain ⟨hplain, hend⟩ := h.last
      have ha := accounted_run (N := N) nodes net moves
      rcases (deed_of_run nodes net moves c).queues_cases hq' with
        hq₀ | ⟨node, v, id, events, rfl, ht, hsent, haccepted⟩
      · obtain ⟨earlier, node, since, ht⟩ := ih hq₀
        refine ⟨earlier, node, _, ht.concat hq ?_⟩
        rintro _ ⟨rfl⟩ command hc
        exact unfinished_of_queues ha hplain hend hq' hc
      · exact ⟨moves, node, [], .begun hq ht hsent haccepted⟩

/-- Whether a call that is made after some moves keeps all transactions apart. -/
structure Unmixed (N : Network σ) (s : Scene σ) (moves : List (Move σ)) (c : Call) : Prop where
  /-- What is sent on the connection of a session comes from its context. -/
  owned : ∀ context d, (s.run N moves).executor.Engages
      ((s.run N moves).afterCall N c).executor context d →
    ∀ command, (d.link, command) ∈ (s.run N moves).sends N c → c.context? = some context
  /-- What a context with a session sends goes over the connection of the session. -/
  inside : ∀ context d, (s.run N moves).executor.Engages
      ((s.run N moves).afterCall N c).executor context d → c.context? = some context →
    ∀ link command, (link, command) ∈ (s.run N moves).sends N c → link = d.link
  /-- So it is with a session that a call opens and ends, because a call sends one command at most. -/
  single : ((s.run N moves).sends N c).length ≤ 1
  /-- What finishes a transaction is sent where the transaction is under way. -/
  finishes : ∀ link command, (link, command) ∈ (s.run N moves).sends N c → command.Finishes →
    ∃ context earlier node since, c.context? = some context ∧
      Transaction N s moves context link earlier node since

/-- **Transactions never mix on the wire.** -/
theorem transactions_apart {nodes : List Node} {net : σ} {moves : List (Move σ)}
    (h : (start nodes net).Orderly N moves) :
    ∀ before c, before ++ [.call c] <+: moves → Unmixed N (start nodes net) before c := by
  intro before c hpre
  have hbefore := h.of_prefix ((List.prefix_append ..).trans hpre)
  have hplain := (h before c hpre).1
  have ha := accounted_run (N := N) nodes net before
  rcases speaks (N := N) ha c with hnone | ⟨d, sent, hone, hspeaks⟩
  · exact ⟨by simp [hnone], by simp [hnone], by simp [hnone], by simp [hnone]⟩
  · refine ⟨?_, ?_, by simp [hone], ?_⟩
    · intro context b hb command hc
      rw [hone] at hc
      obtain ⟨hlink, -⟩ := Prod.mk.inj (List.mem_singleton.1 hc)
      exact hspeaks.owned context b hb hlink
    · intro context b hb hasker link command hc
      rw [hone] at hc
      obtain ⟨rfl, -⟩ := Prod.mk.inj (List.mem_singleton.1 hc)
      exact (hspeaks.inside context b hb hasker).symm
    · intro link command hc hf
      rw [hone] at hc
      obtain ⟨rfl, rfl⟩ := Prod.mk.inj (List.mem_singleton.1 hc)
      obtain ⟨context, s, hasker, hs, hconn, hphase⟩ := hspeaks.finishes hplain hf
      obtain ⟨earlier, node, since, ht⟩ :=
        transaction_of_queues hbefore ⟨s, d, hs, hphase, hconn, rfl⟩
      exact ⟨context, earlier, node, since, hasker, ht⟩

/-- Two contexts with a transaction each, on connections of their own. -/
theorem transactions_apart_of_two :
    let node : Node := { host := "a", port := 1 }
    let moves : List (Move Rehearsal.Stage) := [.call (.multi 1 node), .call (.multi 2 node),
      .call (.execute 1 node (.of "SET" [])), .call (.exec 2 node)]
    (∀ before c, before ++ [.call c] <+: moves →
      Unmixed Rehearsal.network (start [node] {}) before c) ∧
    ((start [node] {}).run Rehearsal.network (moves.take 3)).sends Rehearsal.network (.exec 2 node) =
      [(1, .of "EXEC" [])] := by
  intro node moves
  have horderly : (start [node] {}).Orderly Rehearsal.network moves := by
    have hset : (Command.of "SET" []).step? = none := by decide +kernel
    refine orderly_call trivial ?_ (orderly_call trivial ?_ (orderly_call hset ?_
      (orderly_call trivial ?_ (orderly_nil _))))
    all_goals decide +kernel
  exact ⟨transactions_apart horderly, by decide +kernel⟩

end Scene

end ShardFleet
