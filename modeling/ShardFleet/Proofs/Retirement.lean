import ShardFleet.Proofs.Transactions

/-!
# Connections that failed

A request that ends with a fault other than a rejection breaks its connection. Such a connection is
closed once, in the same call, and nothing is sent on it afterwards; a rejection costs neither the
connection nor the session, unless the session was to end with the call anyway.
-/

namespace ShardFleet

/-! ### Reading the trace -/

/-- Whether an event is the end of a request that broke a link. -/
def WireEvent.Breaks (link : Nat) : WireEvent → Prop
  | .answered l _ r => l = link ∧ r.verdict = .broken
  | _ => False

/-- Whether an event belongs to a request on a link. -/
def WireEvent.Uses (link : Nat) : WireEvent → Prop
  | .sent l _ _ | .answered l _ _ => l = link
  | _ => False

/-- Whether a request broke a link. -/
def Broken (link : Nat) (trace : List WireEvent) : Prop := ∃ d ∈ trace, d.Breaks link

/-- How often a link was closed. -/
def closings (link : Nat) (trace : List WireEvent) : Nat := trace.count (.closed link)

/-- Whether no link is used once a request broke it or it was closed. -/
def Silent (trace : List WireEvent) : Prop :=
  trace.Pairwise fun a b => ∀ link, a.Breaks link ∨ a = .closed link → ¬ b.Uses link

section

variable {link : Nat} {trace events : List WireEvent}

theorem WireEvent.Breaks.uses {d : WireEvent} (h : d.Breaks link) : d.Uses link := by
  cases d with
  | answered => exact h.1
  | _ => exact h.elim

@[simp] theorem closings_append : closings link (trace ++ events) =
    closings link trace + closings link events := List.count_append ..

@[simp] theorem closings_closed (other : Nat) :
    closings link [.closed other] = if other = link then 1 else 0 := by
  simp [closings, List.count_singleton]

theorem broken_append : Broken link (trace ++ events) ↔ Broken link trace ∨ Broken link events := by
  simp [Broken, or_and_right, exists_or]

theorem Broken.mono (h : Broken link trace) (ht : trace <+: events) : Broken link events := by
  obtain ⟨d, hd, hbreaks⟩ := h
  exact ⟨d, ht.subset hd, hbreaks⟩

/-- Where what is used next is neither broken nor closed, silence goes on. -/
theorem Silent.append (h : Silent trace) (he : Silent events)
    (hlater : ∀ d ∈ events, ∀ link, d.Uses link → ¬ Broken link trace ∧ closings link trace = 0) :
    Silent (trace ++ events) := by
  refine List.pairwise_append.2 ⟨h, he, fun a ha b hb link hover huses => ?_⟩
  obtain ⟨hbroken, hclosed⟩ := hlater b hb link huses
  rcases hover with hbreaks | rfl
  · exact hbroken ⟨a, ha, hbreaks⟩
  · exact List.count_eq_zero.1 hclosed ha

/-- After a request that broke a link the link is not used, and all its closings are still to come. -/
theorem Silent.of_broken {command : Command} {r : Outcome Resp.Value} {since : List WireEvent}
    (h : Silent (trace ++ .answered link command r :: since)) (hr : r.verdict = .broken) :
    (∀ d ∈ since, ¬ d.Uses link) ∧ closings link trace = 0 := by
  obtain ⟨-, hsince, hbefore⟩ := List.pairwise_append.1 h
  constructor
  · intro d hd
    exact (List.pairwise_cons.1 hsince).1 d hd link (.inl ⟨rfl, hr⟩)
  · refine List.count_eq_zero.2 fun hmem => ?_
    exact hbefore _ hmem _ List.mem_cons_self link (.inr rfl) rfl

end

variable {σ : Type} {N : Network σ}

/-- The events of one request break its own link at most, and use no other. -/
theorem Connection.request_events {c : Connection} {command : Command} {w w' : Wire σ}
    {r : Outcome Resp.Value} (h : c.request N command w = (r, w')) :
    w'.opened = w.opened ∧ ∃ events, w'.trace = w.trace ++ events ∧ Silent events ∧
      (∀ link, closings link events = 0) ∧ (∀ d ∈ events, ∀ link, d.Uses link → link = c.link) ∧
      ∀ link, Broken link events ↔ link = c.link ∧ r.verdict = .broken := by
  obtain ⟨ho, events, hasks, ht⟩ := Connection.request_trace h
  obtain ⟨out, rfl, hsent⟩ := hasks.split
  refine ⟨ho, _, ht, ?_, ?_, ?_, ?_⟩
  · have hover : ∀ a ∈ out, ∀ link, ¬ (a.Breaks link ∨ a = .closed link) := by
      intro a ha link
      rw [hsent a ha]
      rintro (hbreaks | hclosed)
      · exact hbreaks.elim
      · cases hclosed
    refine List.pairwise_append.2 ⟨?_, List.pairwise_singleton _ _, ?_⟩
    · exact List.pairwise_of_forall_mem_list fun a ha _ _ link h => absurd h (hover a ha link)
    · exact fun a ha _ _ link h => absurd h (hover a ha link)
  · intro link
    refine List.count_eq_zero.2 fun hmem => ?_
    rcases List.mem_append.1 hmem with hmem | hmem
    · cases hsent _ hmem
    · cases List.mem_singleton.1 hmem
  · intro d hd link huses
    rcases List.mem_append.1 hd with hd | hd
    · rw [hsent d hd] at huses
      exact Eq.symm huses
    · rw [List.mem_singleton.1 hd] at huses
      exact Eq.symm huses
  · intro link
    constructor
    · rintro ⟨d, hd, hbreaks⟩
      rcases List.mem_append.1 hd with hd | hd
      · rw [hsent d hd] at hbreaks
        exact hbreaks.elim
      · rw [List.mem_singleton.1 hd] at hbreaks
        exact ⟨hbreaks.1.symm, hbreaks.2⟩
    · rintro ⟨rfl, hv⟩
      exact ⟨.answered c.link command r, by simp, rfl, hv⟩

namespace Executor

/-! ### What every step keeps -/

/-- Whether a broken link is out of use, where a call has `hand` in use. -/
structure Retires (e : Executor) (w : Wire σ) (hand : Option (Connection × Verdict)) : Prop where
  /-- A link that was closed is held by nobody, and not closed again. -/
  once : ∀ link, closings link w.trace + e.holders link + linkCount link (hand.map (·.1)).toList ≤
    if link < w.opened then 1 else 0
  /-- A broken link was closed, or is in hand to be closed. -/
  closed : ∀ link, Broken link w.trace →
    closings link w.trace = 1 ∨ ∃ c, hand = some (c, .broken) ∧ c.link = link
  usable : ∀ c v, hand = some (c, v) → v ≠ .broken → ¬ Broken c.link w.trace
  silent : Silent w.trace

variable {e e' : Executor} {w w' : Wire σ} {hand hand' : Option (Connection × Verdict)} {cut : Prop}

namespace Retires

theorem closings_of_broken (h : e.Retires w hand) (hhand : ∀ c, hand ≠ some (c, .broken))
    {link : Nat} (hb : Broken link w.trace) : closings link w.trace = 1 := by
  rcases h.closed link hb with hc | ⟨c, hc, -⟩
  · exact hc
  · exact absurd hc (hhand c)

theorem sound_of_held (h : e.Retires w none) {link : Nat} (hlink : e.holders link ≠ 0) :
    ¬ Broken link w.trace := by
  intro hb
  have honce := h.once link
  have hclosed := h.closings_of_broken (by simp) hb
  split at honce <;> omega

theorem sound_of_unmade (h : e.Retires w none) {link : Nat} (hlink : w.opened ≤ link) :
    ¬ Broken link w.trace := by
  intro hb
  have honce := h.once link
  have hclosed := h.closings_of_broken (by simp) hb
  rw [if_neg (Nat.not_lt.2 hlink)] at honce
  omega

/-- A step that makes no request, after which only `once` is left to see. -/
theorem quiet {events : List WireEvent} (h : e.Retires w hand)
    (ht : w'.trace = w.trace ++ events) (hevents : ∀ d ∈ events, ∀ link, ¬ d.Uses link)
    (once : ∀ link, closings link w'.trace + e'.holders link +
      linkCount link (hand'.map (·.1)).toList ≤ if link < w'.opened then 1 else 0)
    (closed : ∀ link, Broken link w.trace →
      closings link w'.trace = 1 ∨ ∃ c, hand' = some (c, .broken) ∧ c.link = link)
    (usable : ∀ c v, hand' = some (c, v) → v ≠ .broken → ¬ Broken c.link w.trace) :
    e'.Retires w' hand' := by
  have hbroken (link : Nat) : Broken link w'.trace ↔ Broken link w.trace := by
    rw [ht, broken_append, or_iff_left]
    rintro ⟨d, hd, hbreaks⟩
    exact hevents d hd link hbreaks.uses
  have hsilent : Silent w'.trace := by
    rw [ht]
    refine h.silent.append ?_ fun d hd link huses => absurd huses (hevents d hd link)
    refine List.Pairwise.imp_of_mem (R := fun _ _ => True) ?_ (List.pairwise_of_forall fun _ _ => trivial)
    intro a b _ hb _ link _
    exact hevents b hb link
  exact ⟨once, fun link hb => closed link ((hbroken link).1 hb),
    fun c v hc hv hb => usable c v hc hv ((hbroken _).1 hb), hsilent⟩

theorem unlent {id : String} {f? : Option Fault} (h : e.Retires w none)
    (hu : Unlent N id e w f? e' w') : e'.Retires w' none := by
  obtain ⟨p, hp, rfl, hq⟩ := hu.quiet
  have ht : w'.trace = w.trace ++ [] := by rw [hq.trace, List.append_nil]
  refine h.quiet ht (by simp) ?_ ?_ (by simp)
  · intro link
    rw [hq.trace, hq.opened, holders_setPool_same hp rfl]
    exact h.once link
  · rw [hq.trace]
    exact h.closed

theorem take {c d : Connection} (h : e.Retires w none) (hd : d.link = c.link)
    (hholders : ∀ link, e'.holders link + (if c.link = link then 1 else 0) = e.holders link) :
    e'.Retires w (some (d, .sound)) := by
  refine h.quiet (List.append_nil _).symm (by simp) ?_ ?_ ?_
  · intro link
    have h₁ := hholders link
    have h₂ := h.once link
    simp only [Option.map_some, Option.map_none, Option.toList_some, Option.toList_none,
      linkCount_cons, linkCount_nil, hd] at h₂ ⊢
    omega
  · exact fun link hb => .inl (h.closings_of_broken (by simp) hb)
  · rintro _ _ ⟨rfl, rfl⟩ -
    refine h.sound_of_held ?_
    have := hholders c.link
    rw [if_pos rfl] at this
    rw [hd]
    omega

theorem lend {id : String} {c : Connection} (h : e.Retires w none)
    (hl : Lends N id e w c e' w') : e'.Retires w' (some (c, .sound)) := by
  cases hl with
  | @kept p c rest hp _ hi =>
    exact h.take (c := c) rfl (holders_setPool_tail (q := { p.claim with idle := rest }) hp hi)
  | @made p link w' hp _ hi hw =>
    obtain ⟨rfl, ho, ht⟩ := Wire.connect_ok hw
    have hclosings (link : Nat) : closings link w'.trace = closings link w.trace := by
      rw [ht, closings_append]
      simp [closings]
    refine h.quiet ht (by simp [WireEvent.Uses]) ?_ ?_ ?_
    · intro link
      have h₂ := h.once link
      simp only [Option.map_some, Option.map_none, Option.toList_some,
        Option.toList_none, linkCount_cons, linkCount_nil] at h₂ ⊢
      rw [hclosings, ho, holders_setPool_same hp (by rfl)]
      split at h₂ <;> split <;> split <;> omega
    · intro link hb
      rw [hclosings]
      exact .inl (h.closings_of_broken (by simp) hb)
    · rintro _ _ ⟨rfl, rfl⟩ -
      exact h.sound_of_unmade (Nat.le_refl _)

theorem unpin {context : Nat} {s : Session} {c : Connection} (h : e.Retires w none)
    (hs : e.session? context = some s) (hc : s.connection = some c) :
    (e.eraseSession context).Retires w (some (c, .sound)) :=
  h.take rfl (holders_unpin hs hc)

theorem request {c : Connection} {command : Command} {r : Outcome Resp.Value}
    (h : e.Retires w (some (c, .sound))) (hr : c.request N command w = (r, w')) :
    e.Retires w' (some (c.counted, r.verdict)) := by
  obtain ⟨ho, events, ht, hsilent, hclosings, huses, hbroken⟩ := Connection.request_events hr
  have hc : ¬ Broken c.link w.trace := h.usable c .sound rfl (by simp)
  have hopen : closings c.link w.trace = 0 := by
    have := h.once c.link
    simp only [Option.map_some, Option.toList_some, linkCount_cons, linkCount_nil, if_true] at this
    split at this <;> omega
  have hclosings (link : Nat) : closings link w'.trace = closings link w.trace := by
    rw [ht, closings_append, hclosings, Nat.add_zero]
  constructor
  · intro link
    rw [hclosings, ho]
    exact h.once link
  · intro link hb
    rw [ht, broken_append] at hb
    rw [hclosings]
    rcases hb with hb | hb
    · exact .inl (h.closings_of_broken (by simp) hb)
    · obtain ⟨rfl, hv⟩ := (hbroken link).1 hb
      exact .inr ⟨c.counted, by rw [hv], rfl⟩
  · rintro _ _ ⟨rfl, rfl⟩ hv hb
    rw [ht, broken_append] at hb
    rcases hb with hb | hb
    · exact hc hb
    · exact hv ((hbroken _).1 hb).2
  · rw [ht]
    refine h.silent.append hsilent fun d hd link hd' => ?_
    rw [huses d hd link hd']
    exact ⟨hc, hopen⟩

theorem pin {context : Nat} {s : Session} {c : Connection} {v : Verdict}
    (h : e.Retires w (some (c, v))) (free : e.session? context = none)
    (hs : s.connection = some c) (hv : v ≠ .broken) : (e.setSession context s).Retires w none := by
  refine h.quiet (List.append_nil _).symm (by simp) ?_ ?_ (by simp)
  · intro link
    have h₁ := holders_pin free hs link
    have h₂ := h.once link
    simp only [Option.map_some, Option.map_none, Option.toList_some, Option.toList_none,
      linkCount_cons, linkCount_nil] at h₂ ⊢
    omega
  · have hsound : ∀ d, some (c, v) ≠ some (d, Verdict.broken) := by
      rintro d ⟨-, rfl⟩
      exact hv rfl
    exact fun link hb => .inl (h.closings_of_broken hsound hb)

theorem settle {c : Connection} {v : Verdict} (h : e.Retires w (some (c, v)))
    (hs : Settles N c e w v e' w') : e'.Retires w' none := by
  have honce (link : Nat) : closings link w.trace + e.holders link +
      (if c.link = link then 1 else 0) ≤ if link < w.opened then 1 else 0 := by
    simpa using h.once link
  have hclosed {link : Nat} (hb : Broken link w.trace) (hv : v ≠ .broken) :
      closings link w.trace = 1 := by
    refine h.closings_of_broken ?_ hb
    rintro d ⟨-, rfl⟩
    exact hv rfl
  have hclose {p q : Pool} (hp : e.pools.find? c.node = some p) (hq : q.idle = p.idle) :
      (e.setPool c.node q).Retires (c.close N w) none := by
    have ht : (c.close N w).trace = w.trace ++ [.closed c.link] := rfl
    refine h.quiet ht (by simp [WireEvent.Uses]) ?_ ?_ (by simp)
    · intro link
      have := honce link
      rw [ht, closings_append, closings_closed, holders_setPool_same hp hq]
      show _ ≤ if link < w.opened then 1 else 0
      simp only [Option.map_none, Option.toList_none, linkCount_nil]
      omega
    · intro link hb
      left
      have := honce link
      rw [ht, closings_append, closings_closed]
      by_cases hlink : c.link = link
      · rw [if_pos hlink] at this ⊢
        split at this <;> omega
      · rw [if_neg hlink]
        rcases h.closed link hb with hc | ⟨_, hc, hlink'⟩
        · omega
        · cases hc
          exact absurd hlink' hlink
  cases hs with
  | @kept p hp =>
    refine h.quiet (List.append_nil _).symm (by simp) ?_ ?_ (by simp)
    · intro link
      have h₁ := honce link
      rw [holders_setPool_cons hp (by rfl)]
      simp only [Option.map_none, Option.toList_none, linkCount_nil]
      omega
    · exact fun link hb => .inl (hclosed hb (by simp))
  | surplus hp => exact hclose hp (by simp)
  | evicted hp => exact hclose hp (by simp)
  | @lost p hp =>
    refine h.quiet (List.append_nil _).symm (by simp) ?_ ?_ (by simp)
    · intro link
      have h₁ := honce link
      rw [holders_setPool_same hp (p.forget_idle c)]
      simp only [Option.map_none, Option.toList_none, linkCount_nil]
      omega
    · exact fun link hb => .inl (hclosed hb (by simp))

theorem handles (h : e.Retires w hand) (hs : Handles N cut e w hand e' w' hand') :
    e'.Retires w' hand' := by
  cases hs with
  | unlent hu => exact h.unlent hu
  | lend hl => exact h.lend hl
  | unpin hs hc => exact h.unpin hs hc
  | request hr => exact h.request hr
  | pin free hc _ hv => exact h.pin free hc hv
  | settle hs => exact h.settle hs

theorem deed {call : Call} {r : Outcome Answer} (h : e.Retires w none) (ha : e.Accounted w none)
    (hd : Deed N call e w r e' w') : e'.Retires w' none :=
  hd.induction ha (fun hs h => h.handles hs) h

theorem ofNodes (nodes : List Node) (net : σ) : (ofNodes nodes).Retires { net } none where
  once link := by
    simpa [closings] using (accounted_ofNodes nodes ({ net } : Wire σ)).once link
  closed link hb := by
    obtain ⟨d, hd, -⟩ := hb
    cases hd
  usable := by simp
  silent := .nil

end Retires

/-! ### Evictions -/

/-- How many connections the pool of a name has thrown away. -/
def evicted (e : Executor) (id : String) : Nat := (e.pools.find? id).elim 0 (·.evicted)

theorem evicted_of_find? {id : String} {p : Pool} (hp : e.pools.find? id = some p) :
    e.evicted id = p.evicted := by
  rw [evicted, hp]
  rfl

theorem evicted_setPool {id : String} {p q : Pool} (hp : e.pools.find? id = some p) (n : Nat)
    (hq : q.evicted = p.evicted + n) (other : String) :
    (e.setPool id q).evicted other = e.evicted other + if other = id then n else 0 := by
  by_cases h : other = id
  · rw [h, if_pos rfl, evicted_of_find? hp, evicted_of_find? (find?_setPool_self ..), hq]
  · rw [if_neg h, evicted, evicted, find?_setPool, if_neg h, Nat.add_zero]

end Executor

section

variable {call : Call} {e e' e₁ : Executor} {w w' w₁ : Wire σ} {c : Connection}

theorem Lends.evicted_eq {id : String} (h : Lends N id e w c e₁ w₁) (other : String) :
    e₁.evicted other = e.evicted other := by
  cases h with
  | kept hp => simpa using Executor.evicted_setPool hp 0 (by simp [Pool.claim]) other
  | made hp => simpa using Executor.evicted_setPool hp 0 (by simp [Pool.claim]) other

theorem Readies.evicted_eq {context : Nat} {fresh : Bool} {s : Session}
    (h : Readies N call context e w fresh e₁ w₁ s c) (other : String) :
    e₁.evicted other = e.evicted other := by
  cases h with
  | bound => rfl
  | opened _ _ _ _ hl => exact hl.evicted_eq other

theorem Settles.evicted_eq {v : Verdict} (h : Settles N c e w v e₁ w₁) (other : String) :
    e₁.evicted other = e.evicted other + if v = .broken ∧ other = c.node then 1 else 0 := by
  have hnone {q : Pool} {p : Pool} (hp : e.pools.find? c.node = some p) (hq : q.evicted = p.evicted) :
      (e.setPool c.node q).evicted other = e.evicted other := by
    simpa using Executor.evicted_setPool hp 0 hq other
  cases h with
  | @kept p hp =>
    have hq := hnone (q := { p.forget c with idle := { c with lent := false } :: p.idle }) hp
      (p.forget_evicted c)
    simpa using hq
  | surplus hp => simpa using hnone hp (Pool.forget_evicted c _)
  | evicted hp => simpa using Executor.evicted_setPool hp 1 (by rfl) other
  | lost hp => simpa using hnone hp (Pool.forget_evicted c _)

/-! ### What becomes of a connection -/

/-- The session after one more command that leaves its phase alone. -/
def Session.counted (s : Session) : Session :=
  { s with connection := s.connection.map Connection.counted }

/-- Whether a call may end a session although its command was only rejected: the call ends sessions,
or its step does, or its step was to open the session. -/
def Call.MayPart (call : Call) (e : Executor) : Prop :=
  (∃ context, call = .endSession context) ∨
  ∃ step args, call.step? = some (step, args) ∧
    (step.ends = true ∨
      step.opens = true ∧ ∃ context, call.context? = some context ∧ e.session? context = none)

/-- Whether a link is still held, or had to go because the pool of its node keeps enough. -/
def Executor.Retains (e : Executor) (node : String) (link : Nat) : Prop :=
  (∃ p, ∃ d ∈ p.idle, e.pools.find? node = some p ∧ d.link = link) ∨
  (∃ context d, e.Pins context d ∧ d.link = link) ∨
  ∃ p, e.pools.find? node = some p ∧ p.node.limits.maxIdle ≤ p.idle.length

/-- A call turned `e` into `e'`, and on its way a request over `c` ended with `r`. -/
structure Fate (call : Call) (e e' : Executor) (c : Connection) (r : Outcome Resp.Value) : Prop where
  evicted : ∀ id, e'.evicted id = e.evicted id + if r.verdict = .broken ∧ id = c.node then 1 else 0
  ended : r.verdict = .broken → ∀ context, call.context? = some context → e'.session? context = none
  bound : ∀ m, r = .failed (.data m) → ¬ call.MayPart e →
    ∀ context, call.context? = some context →
      e'.session? context = (e.session? context).map Session.counted
  retained : r.verdict = .sound → e'.Retains c.node c.link

theorem Settles.retains {v : Verdict} (h : Settles N c e w v e₁ w₁) (hc : c.dedicated = false)
    (hv : v = .sound) : e₁.Retains c.node c.link := by
  cases h with
  | @kept p hp => exact .inl ⟨_, { c with lent := false }, by simp, Executor.find?_setPool_self .., rfl⟩
  | @surplus p hp full =>
    refine .inr (.inr ⟨_, Executor.find?_setPool_self .., ?_⟩)
    rcases full with hd | hfull
    · rw [hc] at hd
      cases hd
    · simpa using hfull
  | evicted | lost => cases hv

theorem Order.keeps_rejected (o : Order) (fresh : Bool) (m : String) :
    o.keeps fresh (.failed (.data m)) = !(o.ends || fresh) := by
  simp [keeps, show (Outcome.failed (.data m) : Outcome Resp.Value).verdict = .sound from rfl,
    Outcome.isOk]

theorem Call.mayPart_of_ends {p : Phase} {o : Order} (ho : call.order? p = some o)
    (hends : o.ends = true) (e : Executor) : call.MayPart e := by
  rcases Call.order?_cases ho with ⟨_, _, -, -, hnot⟩ | ⟨step, args, asks, -, rfl⟩
  · rw [hnot] at hends
    cases hends
  · exact .inr ⟨step, args, asks, .inl hends⟩

theorem Readies.mayPart_of_fresh {context : Nat} {s : Session} (asker : call.context? = some context)
    (h : Readies N call context e w true e₁ w₁ s c) : call.MayPart e := by
  cases h with
  | opened _ asks opens free => exact .inr ⟨_, _, asks, .inr ⟨opens, context, asker, free⟩⟩

namespace Fate

variable {context : Nat} {fresh : Bool} {s : Session} {o : Order} {r : Outcome Resp.Value}
  {w₂ : Wire σ}

/-- A call that borrows its connection has no session in its context. -/
theorem pooled {id : String} (free : ∀ context, call.context? = some context →
      e.session? context = none)
    (hshared : c.Shared w₁) (hl : Lends N id e w c e₁ w₁)
    (hs : Settles N c.counted e₁ w₂ r.verdict e' w') : Fate call e e' c r := by
  have hsessions : e'.sessions = e.sessions := hs.sessions.trans hl.sessions
  have hnone {context : Nat} (asker : call.context? = some context) :
      e'.session? context = none := by
    rw [Executor.session?, hsessions]
    exact free context asker
  refine ⟨fun id => ?_, fun _ context asker => hnone asker, fun m _ _ context asker => ?_,
    hs.retains hshared.undedicated⟩
  · rw [hs.evicted_eq, hl.evicted_eq]
    rfl
  · rw [hnone asker, free context asker]
    rfl

theorem stayed (asker : call.context? = some context)
    (hready : Readies N call context e w fresh e₁ w₁ s c) (keeps : o.keeps fresh r = true) :
    Fate call e (e₁.setSession context (s.served c o r)) c r := by
  have hkeeps : r.verdict ≠ .broken := by
    intro hv
    simp [Order.keeps, hv] at keeps
  refine ⟨fun id => ?_, fun hv => absurd hv hkeeps, ?_, fun _ => ?_⟩
  · rw [if_neg (fun h => hkeeps h.1)]
    exact hready.evicted_eq id
  · rintro m rfl - other hother
    cases asker.symm.trans hother
    rw [Executor.session?_setSession_self]
    cases hready with
    | bound hb hc =>
      rw [hb]
      simp [Session.served, Session.counted, Outcome.isOk, hc]
    | opened =>
      -- A rejected step does not keep a session that it opened.
      rw [Order.keeps_rejected] at keeps
      simp at keeps
  · exact .inr (.inl ⟨context, _, ⟨_, Executor.session?_setSession_self .., rfl⟩, rfl⟩)

theorem parted (asker : call.context? = some context)
    (hready : Readies N call context e w fresh e₁ w₁ s c) (order : call.order? s.phase = some o)
    (keeps : o.keeps fresh r = false) (hshared : c.Shared w₁)
    (hs : Settles N c.counted (e₁.eraseSession context) w₂ r.verdict e' w') : Fate call e e' c r := by
  refine ⟨fun id => ?_, fun _ other hother => ?_, ?_, hs.retains hshared.undedicated⟩
  · rw [hs.evicted_eq, ← hready.evicted_eq id]
    rfl
  · cases asker.symm.trans hother
    exact hs.session?_of_erased
  · rintro m rfl hstays
    refine absurd ?_ hstays
    rw [Order.keeps_rejected] at keeps
    have hends : o.ends = true ∨ fresh = true := by
      rwa [Bool.not_eq_false', Bool.or_eq_true] at keeps
    rcases hends with hends | rfl
    · exact Call.mayPart_of_ends order hends e
    · exact hready.mayPart_of_fresh asker

theorem cleaned (asked : call = .endSession context) (hshared : c.Shared w)
    (hs : Settles N c.counted (e.eraseSession context) w₁ r.verdict e' w') : Fate call e e' c r := by
  refine ⟨hs.evicted_eq, fun _ other hother => ?_,
    fun m _ hstays => absurd (.inl ⟨context, asked⟩) hstays, hs.retains hshared.undedicated⟩
  rw [asked] at hother
  cases hother
  exact hs.session?_of_erased

end Fate

/-- A call makes one request at most, and its end decides what becomes of the connection. -/
theorem Deed.fate {r : Outcome Answer} (hd : Deed N call e w r e' w') (ha : e.Accounted w none) :
    (w.Requests w' [] ∧ ∀ id, e'.evicted id = e.evicted id) ∨
    ∃ c command r₀ out, c.Asks command r₀ out ∧ w.Requests w' out ∧
      .opened c.link c.node ∈ w'.trace ∧ Fate call e e' c r₀ := by
  cases hd with
  | refused => exact .inl ⟨.refl w, fun _ => rfl⟩
  | absent => exact .inl ⟨.refl w, fun _ => rfl⟩
  | unlent _ hu =>
    obtain ⟨p, hp, rfl, hq⟩ := hu.quiet
    exact .inl ⟨hq.requests, by simpa using Executor.evicted_setPool hp 0 rfl⟩
  | begun _ _ hl => exact .inl ⟨hl.requests, hl.evicted_eq⟩
  | left _ _ _ _ hs =>
    refine .inl ⟨hs.requests, fun id => ?_⟩
    rw [hs.evicted_eq]
    rfl
  | @pooled node command c e₁ w₁ r w₂ _ _ asked hl hreq hs =>
    obtain ⟨out, hasks, hout⟩ := Connection.request_requests hreq
    have hshared := ((ha.lend hl).handed c rfl).shared
    have hrequests := (hl.requests.trans hout).trans hs.requests
    have hopened := (hshared.mono (hout.trans hs.requests).grows).opened
    refine .inr ⟨c, command, r, out, hasks, by simpa using hrequests, hopened,
      .pooled (fun context asker => ?_) hshared hl hs⟩
    obtain rfl | ⟨_, rfl, hfree⟩ := asked <;> cases asker
    exact hfree
  | @stayed context fresh e₁ w₁ s c o r w₂ asker hready order hreq keeps =>
    obtain ⟨out, hasks, hout⟩ := Connection.request_requests hreq
    obtain ⟨h₁, hs⟩ := ha.ready hready
    have hshared := (h₁.pinned_shared ⟨s, hs, hready.connection⟩).mono hout.grows
    exact .inr ⟨c, o.command, r, out, hasks, hready.requests.trans hout, hshared.opened,
      .stayed asker hready keeps⟩
  | @parted context fresh e₁ w₁ s c o r w₂ _ _ asker hready order hreq keeps hsettle =>
    obtain ⟨out, hasks, hout⟩ := Connection.request_requests hreq
    obtain ⟨h₁, hs⟩ := ha.ready hready
    have hshared := h₁.pinned_shared ⟨s, hs, hready.connection⟩
    have hrequests := (hready.requests.trans hout).trans hsettle.requests
    have hopened := (hshared.mono (hout.trans hsettle.requests).grows).opened
    exact .inr ⟨c, o.command, r, out, hasks, by simpa using hrequests, hopened,
      .parted asker hready order keeps hshared hsettle⟩
  | @cleaned context s c command r w₁ _ _ asked hs hc cleanup hreq hsettle =>
    obtain ⟨out, hasks, hout⟩ := Connection.request_requests hreq
    have hshared := ha.pinned_shared ⟨s, hs, hc⟩
    have hopened := (hshared.mono (hout.trans hsettle.requests).grows).opened
    exact .inr ⟨c, command, r, out, hasks, by simpa using hout.trans hsettle.requests, hopened,
      .cleaned asked hshared hsettle⟩

end

/-! ### Runs -/

namespace Scene

theorem retires_run (nodes : List Node) (net : σ) (moves : List (Move σ)) :
    ((start nodes net).run N moves).executor.Retires ((start nodes net).run N moves).wire none := by
  have h := run_induction (N := N)
    (P := fun s : Scene σ => s.executor.Accounted s.wire none ∧ s.executor.Retires s.wire none)
    (s := start nodes net) ⟨Executor.accounted_ofNodes nodes _, .ofNodes nodes net⟩ ?_ moves
  · exact h.2
  · rintro s (call | ⟨net, clock, deadline⟩) ⟨ha, h⟩
    · have hd := call.deed (N := N) (w := s.wire) ha.housed
      exact ⟨ha.deed hd, h.deed ha hd⟩
    · exact ⟨ha.mono (Nat.le_refl _) (List.prefix_refl _), h.once, h.closed, h.usable, h.silent⟩

/-- Whether a connection that failed with `f` during a call is gone for good. -/
structure Retired (N : Network σ) (s : Scene σ) (call : Call) (link : Nat) (f : Fault) : Prop where
  /-- However it goes on, nothing is sent on the link after it failed, and it is closed then, once. -/
  silent : ∀ later earlier command since,
    ((s.afterCall N call).run N later).wire.trace =
      earlier ++ .answered link command (.failed f) :: since →
    (∀ node next, .sent link node next ∉ since) ∧ closings link earlier = 0 ∧
      closings link since = 1
  /-- No pool keeps it, and no context is bound to it. -/
  free : ∀ later, ((s.afterCall N call).run N later).executor.holders link = 0
  /-- Its pool counts one more connection thrown away, and the other pools count none. -/
  evicted : ∃ node, .opened link node ∈ (s.afterCall N call).wire.trace ∧ ∀ id,
    (s.afterCall N call).executor.evicted id =
      s.executor.evicted id + if id = node then 1 else 0
  /-- The context that it was pinned to is no longer bound. -/
  unbound : ∀ context c, s.executor.Pins context c → c.link = link →
    (s.afterCall N call).executor.session? context = none
  /-- So it is with the context that made the call, which may have been bound by the call itself. -/
  caller : ∀ context, call.context? = some context →
    (s.afterCall N call).executor.session? context = none

/-- Whether a rejection of a command during a call costs no connection. -/
structure Spared (N : Network σ) (s : Scene σ) (call : Call) (link : Nat) : Prop where
  evicted : ∀ id, (s.afterCall N call).executor.evicted id = s.executor.evicted id
  /-- The connection is still pinned or kept for later, unless its pool keeps enough. -/
  retained : ∃ node, .opened link node ∈ (s.afterCall N call).wire.trace ∧
    (s.afterCall N call).executor.Retains node link
  /-- The session of the caller goes on in its phase, unless the call was to end it anyway. -/
  bound : ¬ call.MayPart s.executor → ∀ context, call.context? = some context →
    (s.afterCall N call).executor.session? context =
      (s.executor.session? context).map Session.counted
  others : ∀ context, call.context? ≠ some context →
    (s.afterCall N call).executor.session? context = s.executor.session? context

/-- Whether the ends of requests decide which connections a call throws away. -/
structure Judged (N : Network σ) (s : Scene σ) (call : Call) : Prop where
  retired : ∀ link command f, .answered link command (.failed f) ∈ s.events N call →
    (∀ m, f ≠ .data m) → Retired N s call link f
  spared : ∀ link command m, .answered link command (.failed (.data m)) ∈ s.events N call →
    Spared N s call link
  untouched : (∀ link, ¬ Broken link (s.events N call)) →
    ∀ id, (s.afterCall N call).executor.evicted id = s.executor.evicted id

theorem trace_grows {s : Scene σ} (ha : s.executor.Accounted s.wire none)
    (later : List (Move σ)) : s.wire.trace <+: (s.run N later).wire.trace := by
  have h := run_induction (N := N)
    (P := fun t : Scene σ => t.executor.Accounted t.wire none ∧ s.wire.trace <+: t.wire.trace)
    (s := s) ⟨ha, List.prefix_refl _⟩ ?_ later
  · exact h.2
  · rintro t (call | ⟨net, clock, deadline⟩) ⟨ha, h⟩
    · have hd := call.deed (N := N) (w := t.wire) ha.housed
      refine ⟨ha.deed hd, h.trans ?_⟩
      rcases hd.fate ha with ⟨hout, -⟩ | ⟨_, _, _, _, -, hout, -⟩ <;> exact hout.grows
    · exact ⟨ha.mono (Nat.le_refl _) (List.prefix_refl _), h⟩

theorem free_of_broken {nodes : List Node} {net : σ} {moves : List (Move σ)} {link : Nat}
    (hb : Broken link ((start nodes net).run N moves).wire.trace) :
    closings link ((start nodes net).run N moves).wire.trace = 1 ∧
      ((start nodes net).run N moves).executor.holders link = 0 := by
  have h := retires_run (N := N) nodes net moves
  have honce := h.once link
  have hclosed := h.closings_of_broken (by simp) hb
  refine ⟨hclosed, ?_⟩
  split at honce <;> omega

theorem retired_of_fate {nodes : List Node} {net : σ} {moves : List (Move σ)} {call : Call}
    {c : Connection} {f : Fault}
    (hf : (Outcome.failed f : Outcome Resp.Value).verdict = .broken)
    (hbroken : Broken c.link ((start nodes net).run N (moves ++ [.call call])).wire.trace)
    (hopened : .opened c.link c.node ∈
      ((start nodes net).run N (moves ++ [.call call])).wire.trace)
    (hfate : Fate call ((start nodes net).run N moves).executor
      ((start nodes net).run N (moves ++ [.call call])).executor c (.failed f)) :
    Retired N ((start nodes net).run N moves) call c.link f := by
  have hafter : (start nodes net).run N (moves ++ [.call call]) =
      ((start nodes net).run N moves).afterCall N call := run_concat ..
  rw [hafter] at hbroken hopened hfate
  have hlater (later : List (Move σ)) :
      (((start nodes net).run N moves).afterCall N call).run N later =
        (start nodes net).run N (moves ++ .call call :: later) := by
    simp [Scene.run, Scene.after]
  have hfree (later : List (Move σ)) :
      ((((start nodes net).run N moves).afterCall N call).run N later).executor.holders c.link = 0 := by
    have ha := accounted_run (N := N) nodes net (moves ++ [.call call])
    rw [hafter] at ha
    have hb := hbroken.mono (trace_grows (N := N) ha later)
    rw [hlater] at hb ⊢
    exact (free_of_broken hb).2
  have hended := hfate.ended hf
  refine ⟨?_, hfree, ⟨c.node, hopened, ?_⟩, ?_, hended⟩
  · intro later earlier command since ht
    rw [hlater] at ht
    have hb : Broken c.link ((start nodes net).run N (moves ++ .call call :: later)).wire.trace := by
      rw [ht]
      exact ⟨.answered c.link command (.failed f), by simp, rfl, hf⟩
    have hclosed := (free_of_broken hb).1
    have hsilent := (retires_run (N := N) nodes net (moves ++ .call call :: later)).silent
    rw [ht] at hclosed hsilent
    obtain ⟨huses, hearlier⟩ := hsilent.of_broken hf
    refine ⟨fun node next hsent => huses _ hsent rfl, hearlier, ?_⟩
    simpa [closings, List.count_cons, show earlier.count (.closed c.link) = 0 from hearlier] using hclosed
  · intro id
    rw [hfate.evicted]
    simp [hf]
  · intro context d hd hlink
    by_cases hcaller : call.context? = some context
    · exact hended context hcaller
    · -- Otherwise the session would still hold the link.
      have hsame := (deed_of_run (N := N) nodes net moves call).session?_of_ne hcaller
      obtain ⟨t, ht, hd⟩ := hd
      exact absurd hlink
        ((Executor.link_ne_of_holders_eq_zero (hfree [])).2 context d ⟨t, hsame.trans ht, hd⟩)

/-- **A connection that failed is never used again**, and none is thrown away for a rejection. -/
theorem failures_retired (N : Network σ) (nodes : List Node) (net : σ) (moves : List (Move σ))
    (call : Call) : Judged N ((start nodes net).run N moves) call := by
  have hafter : (start nodes net).run N (moves ++ [.call call]) =
      ((start nodes net).run N moves).afterCall N call := run_concat ..
  have hd := deed_of_run (N := N) nodes net moves call
  rcases hd.fate (accounted_run nodes net moves) with
    ⟨hout, hevicted⟩ | ⟨c, sent, r, out, hasks, hout, hopened, hfate⟩
  · -- Nothing was requested.
    exact ⟨fun _ _ _ h => absurd ((answered_mem hout).1 h) (by simp),
      fun _ _ _ h => absurd ((answered_mem hout).1 h) (by simp), fun _ => hevicted⟩
  · refine ⟨?_, ?_, ?_⟩
    · intro link command f hmem hf
      obtain ⟨rfl, rfl, rfl⟩ := (answered_of_asks hasks hout).1 hmem
      have hv : (Outcome.failed f : Outcome Resp.Value).verdict = .broken :=
        Outcome.broken_of_failed hf
      rw [← hafter] at hopened hfate
      refine retired_of_fate hv ?_ hopened hfate
      rw [hafter]
      exact ⟨_, List.mem_of_mem_drop hmem, rfl, hv⟩
    · intro link command m hmem
      obtain ⟨rfl, rfl, rfl⟩ := (answered_of_asks hasks hout).1 hmem
      refine ⟨fun id => ?_, ⟨c.node, hopened, hfate.retained rfl⟩, hfate.bound m rfl,
        fun context => hd.session?_of_ne⟩
      rw [hfate.evicted, if_neg, Nat.add_zero]
      rintro ⟨hv, -⟩
      cases hv
    · intro hbroken id
      rw [hfate.evicted, if_neg, Nat.add_zero]
      rintro ⟨hv, -⟩
      have hmem := (answered_of_asks hasks hout).2 ⟨rfl, rfl, rfl⟩
      exact hbroken c.link ⟨.answered c.link sent r, hmem, rfl, hv⟩

end Scene

end ShardFleet
