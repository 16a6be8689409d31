import ShardFleet.Proofs.Deadlines
import ShardFleet.Proofs.Shutdowns
import ShardFleet.Rehearsal.Script

/-!
# Attempts to subscribe that fail

A link may not be made, the names may not be sent, and the listener may end before all of them are
acknowledged, for whatever arrives on its link. Whoever tried to subscribe is then told why, the link
is closed once, and everything is counted as before. That the attempt comes to its end at all is shown
for every sequence of frames and faults that a network brings.
-/

namespace ShardFleet

variable {σ : Type} {N : Network σ}

/-! ### What arrives on a link -/

/-- What arrives on a link: a frame, or a fault instead of one. -/
abbrev Arrival := Except Fault Resp.Value

namespace Arrival

/-- How an arrival ends a listener, if it does. -/
def ending? : Arrival → Option Ending
  | .ok v => v.ending?
  | .error f => some (.failed f)

/-- Whether it acknowledges that a name was joined. -/
def joins : Arrival → Bool
  | .ok v => v.joins
  | .error _ => false

end Arrival

namespace Listener

/-- Takes what arrives. -/
def take : Arrival → Listener → Listener × List Callback
  | .ok v, l => l.hear v
  | .error f, l => l.fail f

theorem take_ending {l : Listener} (active : l.isRunning = true) (x : Arrival) :
    (l.take x).1.ending = x.ending? := by
  cases x with
  | ok v => exact (hear_active active v).1
  | error f => rfl

theorem take_acks (l : Listener) (x : Arrival) :
    (l.take x).1.acks = l.acks + if x.joins then 1 else 0 := by
  cases x with
  | ok v => exact l.hear_acks v
  | error f => rfl

end Listener

namespace Network

/-- Whether `P` says of every state of a network what arrives on a link, in order: whoever waits for the
next thing gets it, unless the wait ends before, and no more arrives than the network says. -/
structure Feeds (N : Network σ) (link : Nat) (P : List Arrival → σ → Prop) : Prop where
  next : ∀ x xs now deadline s, P (x :: xs) s →
    (∃ t s', N.receive link now deadline s = (.ofExcept x, t, s') ∧ P xs s') ∨
    (deadline ≠ none ∧ ∃ t s', N.receive link now deadline s = (.stalled, t, s') ∧ P (x :: xs) s')
  backlog : ∀ xs s, P xs s → xs.length ≤ N.backlog link s

/-- Whether these things are the next to arrive on a link. -/
def Brings (N : Network σ) (link : Nat) (xs : List Arrival) (s : σ) : Prop :=
  ∃ P, N.Feeds link P ∧ P xs s

theorem feeds_brings (N : Network σ) (link : Nat) : N.Feeds link (N.Brings link) where
  next x xs now deadline s h := by
    obtain ⟨P, hfeeds, hs⟩ := h
    obtain ⟨t, s', hr, hs'⟩ | ⟨hlimit, t, s', hr, hs'⟩ := hfeeds.next x xs now deadline s hs
    · exact .inl ⟨t, s', hr, P, hfeeds, hs'⟩
    · exact .inr ⟨hlimit, t, s', hr, P, hfeeds, hs'⟩
  backlog xs s h := by
    obtain ⟨P, hfeeds, hs⟩ := h
    exact hfeeds.backlog xs s hs

end Network

namespace Rehearsal

/-- What arrives, as a rehearsed link holds it. -/
def Item.ofArrival : Arrival → Item
  | .ok v => .value v
  | .error f => .fault f

/-- What a rehearsed link holds arrives in order. -/
theorem network_brings (xs : List Arrival) {link : Nat} {l : Link} {s : Stage}
    (there : s.links[link]? = some l) (whole : l.broken = false)
    (queue : l.queue = xs.map .ofArrival) : network.Brings link xs s := by
  refine ⟨fun xs s => ∃ l, s.links[link]? = some l ∧ l.broken = false ∧ l.queue = xs.map .ofArrival,
    ⟨?_, ?_⟩, l, there, whole, queue⟩
  · rintro x xs now deadline s ⟨l, hl, hwhole, hqueue⟩
    have hlt := (List.getElem?_eq_some_iff.1 hl).1
    refine .inl ⟨now, s.setLink link { l with queue := xs.map .ofArrival }, ?_,
      { l with queue := xs.map .ofArrival }, List.getElem?_set_self hlt, hwhole, rfl⟩
    cases x <;> simp [network, hl, Link.next, hwhole, hqueue, Item.ofArrival, Outcome.ofExcept]
  · rintro xs s ⟨l, hl, -, hqueue⟩
    have hlength : l.queue.length = xs.length := by simp [hqueue]
    simp only [network, hl, Option.map_some, Option.getD_some, hlength]
    omega

end Rehearsal

/-- The fault that tells of an ending. -/
def Ending.fault : Ending → Fault
  | quiet => .protocol .endedEarly
  | failed f => f

namespace Subscription

variable {s s' : Subscription} {w w' : Wire σ} {limit deadline : Option Nat} {count : Nat} {e : Ending}
  {before : List Arrival} {b : Bool}

/-- A listener takes what arrives next, unless its wait ends before. -/
theorem listen_next {x : Arrival} {xs : List Arrival}
    (hx : N.Brings s.connection.link (x :: xs) w.net) (h : s.listen N limit w = (b, s', w')) :
    (b = true ∧ ∃ w₁, w₁.deadline = w.deadline ∧ N.Brings s.connection.link xs w₁.net ∧
      (s', w') = s.stepped N (s.listener.take x) w₁) ∨
    (b = false ∧ earlier limit w.deadline ≠ none ∧ s' = s ∧ w'.deadline = w.deadline ∧
      N.Brings s.connection.link (x :: xs) w'.net) := by
  unfold listen Wire.receiveBefore at h
  obtain ⟨t, net, hr, hxs⟩ | ⟨hlimit, t, net, hr, hxs⟩ :=
    (N.feeds_brings s.connection.link).next x xs w.clock (earlier limit w.deadline) w.net hx <;>
    simp only [hr] at h
  · cases x <;> cases h <;> exact .inl ⟨rfl, { w with net, clock := t }, rfl, hxs, rfl⟩
  · cases h
    exact .inr ⟨rfl, hlimit, rfl, rfl, hxs⟩

/-- Whether the listener of a subscription has ended so, and nobody was told yet. -/
def Ended (e : Ending) (s : Subscription) : Prop := s.listener.ending = some e ∧ s.told = false

/-- Whether the listener of a subscription runs, and will end with `e` after `before` has arrived, with
fewer than `count` acknowledgements. -/
structure Due (N : Network σ) (count : Nat) (deadline : Option Nat) (e : Ending)
    (before : List Arrival) (x : Subscription × Wire σ) : Prop where
  active : x.1.listener.isRunning = true
  untold : x.1.told = false
  deadline : x.2.deadline = deadline
  arriving : ∃ (last : Arrival) (rest : List Arrival), last.ending? = some e ∧
    N.Brings x.1.connection.link (before ++ last :: rest) x.2.net
  going : ∀ y ∈ before, y.ending? = none
  few : x.1.listener.acks + before.countP (·.joins) < count

theorem Due.listen (h : Due N count deadline e before (s, w))
    (hl : s.listen N limit w = (b, s', w')) :
    (b = true ∧ (s'.Ended e ∨
      ∃ later, later.length < before.length ∧ Due N count deadline e later (s', w'))) ∨
    (b = false ∧ earlier limit deadline ≠ none ∧ Due N count deadline e before (s', w')) := by
  obtain ⟨last, rest, hlast, harriving⟩ := h.arriving
  have hdeadline : w.deadline = deadline := h.deadline
  obtain ⟨x, xs, hnext⟩ : ∃ x xs, before ++ last :: rest = x :: xs :=
    List.exists_cons_of_ne_nil (by simp)
  rw [hnext] at harriving
  obtain ⟨rfl, w₁, hkept, hmore, hstep⟩ | ⟨rfl, hlimit, rfl, hkept, hmore⟩ := listen_next harriving hl
  · refine .inl ⟨rfl, ?_⟩
    cases before with
    | nil =>
      obtain ⟨rfl, -⟩ := List.cons.inj hnext
      have hs' : s' = _ := (congrArg Prod.fst hstep).trans (stepped_fst ..)
      rw [hs']
      exact .inl ⟨(Listener.take_ending h.active last).trans hlast, h.untold⟩
    | cons y ys =>
      obtain ⟨rfl, rfl⟩ := List.cons.inj hnext
      -- The listener goes on after what it took.
      have hgoing : (s.listener.take y).1.ending = none :=
        (Listener.take_ending h.active y).trans (h.going y List.mem_cons_self)
      have hactive : (s.listener.take y).1.isRunning = true := by simp [Listener.isRunning, hgoing]
      have hsame : s.stepped N (s.listener.take y) w₁ = ({ s with
          listener := (s.listener.take y).1, calls := s.calls ++ (s.listener.take y).2 }, w₁) := by
        simp only [stepped, hactive, if_true]
      cases hstep.trans hsame
      have hfew := h.few
      simp only [List.countP_cons] at hfew
      refine .inr ⟨ys, Nat.lt_succ_self _, hactive, h.untold, hkept.trans hdeadline,
        ⟨last, rest, hlast, hmore⟩, fun z hz => h.going z (List.mem_cons_of_mem _ hz), ?_⟩
      simp only [Listener.take_acks]
      omega
  · exact .inr ⟨rfl, hdeadline ▸ hlimit, h.active, h.untold, hkept.trans hdeadline,
      ⟨last, rest, hlast, hnext ▸ hmore⟩, h.going, h.few⟩

theorem drain_ended (hended : s.listener.isRunning = false) (fuel : Nat) (w : Wire σ) :
    s.drain N fuel w = (s, w) := by
  cases fuel <;> simp [drain, hended]

theorem Ended.inactive (h : s.Ended e) : s.listener.isRunning = false :=
  Listener.isRunning_eq_false.2 ⟨e, h.1⟩

theorem Due.drain (h : Due N count deadline e before (s, w)) (fuel : Nat) :
    (s.drain N fuel w).1.Ended e ∨
    ∃ later, later.length ≤ before.length ∧ Due N count deadline e later (s.drain N fuel w) := by
  induction fuel generalizing s w before with
  | zero => exact .inr ⟨before, le_rfl, h⟩
  | succ fuel ih =>
    have hactive : s.listener.isRunning = true := h.active
    unfold Subscription.drain
    rw [if_neg (by simp [hactive])]
    rcases hl : s.listen N (some w.clock) w with ⟨b, s₁, w₁⟩
    obtain ⟨rfl, hended | ⟨later, hlt, hdue⟩⟩ | ⟨rfl, -, hdue⟩ := h.listen hl
    · dsimp only
      rw [drain_ended hended.inactive]
      exact .inl hended
    · obtain hended | ⟨later', hle, hdue'⟩ := ih hdue
      · exact .inl hended
      · exact .inr ⟨later', hle.trans hlt.le, hdue'⟩
    · exact .inr ⟨before, le_rfl, hdue⟩

theorem runUntil_ended {enough : Listener → Bool} {fuel : Nat} (hfuel : 0 < fuel)
    (hended : s.listener.isRunning = false) : s.runUntil N enough fuel w = (true, s, w) := by
  cases fuel with
  | zero => cases hfuel
  | succ fuel => simp [runUntil, drain_ended hended, hended]

/-- A listener that is let run for long comes to its end, unless the wait is given up. Every round takes
at least one thing that arrives. -/
theorem Due.runUntil {enough : Listener → Bool} {fuel : Nat}
    (h : Due N count deadline e before (s, w)) (hfuel : before.length + 2 ≤ fuel)
    (long : ∀ l : Listener, l.acks < count → enough l = false)
    (hr : s.runUntil N enough fuel w = (b, s', w')) :
    (b = true ∧ s'.Ended e) ∨ (b = false ∧ deadline ≠ none) := by
  induction fuel generalizing s w before with
  | zero => cases hfuel
  | succ fuel ih =>
    have hdrain := h.drain (N.backlog s.connection.link w.net)
    unfold Subscription.runUntil at hr
    rcases hs : s.drain N (N.backlog s.connection.link w.net) w with ⟨s₁, w₁⟩
    rw [hs] at hdrain
    simp only [hs] at hr
    obtain hended | ⟨later, hle, hdue⟩ := hdrain
    · rw [if_pos (by simp [hended.inactive])] at hr
      cases hr
      exact .inl ⟨rfl, hended⟩
    · have hactive : s₁.listener.isRunning = true := hdue.active
      have hacks : enough s₁.listener = false :=
        long _ (Nat.lt_of_le_of_lt (Nat.le_add_right ..) hdue.few)
      rw [if_neg (by simp [hactive, hacks])] at hr
      rcases hl : s₁.listen N none w₁ with ⟨b₁, s₂, w₂⟩
      simp only [hl] at hr
      obtain ⟨rfl, hended | ⟨later', hlt, hdue'⟩⟩ | ⟨rfl, hlimit, -⟩ := hdue.listen hl
      · have hmore : 0 < fuel := by omega
        dsimp only at hr
        rw [runUntil_ended hmore hended.inactive] at hr
        cases hr
        exact .inl ⟨rfl, hended⟩
      · exact ih hdue' (by omega) hr
      · cases hr
        exact .inr ⟨rfl, hlimit⟩

theorem Due.run {enough : Listener → Bool} (h : Due N count deadline e before (s, w))
    (long : ∀ l : Listener, l.acks < count → enough l = false)
    (hr : s.run N enough w = (b, s', w')) :
    (b = true ∧ s'.Ended e) ∨ (b = false ∧ deadline ≠ none) := by
  obtain ⟨last, rest, -, harriving⟩ := h.arriving
  have hbacklog : (before ++ last :: rest).length ≤ N.backlog s.connection.link w.net :=
    (N.feeds_brings s.connection.link).backlog _ _ harriving
  rw [List.length_append, List.length_cons] at hbacklog
  exact h.runUntil (by omega) long hr

theorem deadEnd_of_ended (h : s.Ended e) : s.deadEnd = e.fault := by
  obtain ⟨hending, htold⟩ := h
  cases e <;> simp [deadEnd, hending, htold, Ending.fault]

/-- A wait for acknowledgements ends with the fault of the listener. -/
theorem Due.awaitAcks {r : Outcome Unit} (h : Due N count deadline e before (s, w))
    (hcount : count < ackLimit) (hr : s.awaitAcks N count w = (r, s', w')) :
    r = .failed e.fault ∨ r = .stalled ∧ deadline ≠ none := by
  have hacks : s.listener.acks < count := Nat.lt_of_le_of_lt (Nat.le_add_right ..) h.few
  unfold Subscription.awaitAcks at hr
  rw [if_neg (by omega), if_neg (by simp [hacks])] at hr
  rcases hrun : s.run N (count ≤ ·.acks) w with ⟨b, s₁, w₁⟩
  simp only [hrun] at hr
  obtain ⟨rfl, hended⟩ | ⟨rfl, hlimit⟩ := h.run (fun l hl => by simp [hl]) hrun
  · simp only [hended.inactive] at hr
    cases hr
    exact .inl (congrArg _ (deadEnd_of_ended hended))
  · cases hr
    exact .inr ⟨rfl, hlimit⟩

/-! ### Why an attempt fails -/

/-- What makes an attempt to subscribe fail, and with which fault. -/
inductive Thwarted (N : Network σ) (topic : Topic) (names : List String) (p : Pool) (w : Wire σ) :
    Fault → Prop where
  | unconnected {f w'} (connect : w.connect N p.node = (.failed f, w')) : Thwarted N topic names p w f
  | unsent {link w₁ f w₂} (connect : w.connect N p.node = (.ok link, w₁))
      (send : w₁.send N link p.node.id (command topic.joinCommand names) = (.error f, w₂)) :
    Thwarted N topic names p w f
  /-- Something arrives that ends the listener before all names are acknowledged. -/
  | ended {link w₁ w₂ before last rest e} (connect : w.connect N p.node = (.ok link, w₁))
      (send : w₁.send N link p.node.id (command topic.joinCommand names) = (.ok (), w₂))
      (arriving : N.Brings link (before ++ last :: rest) w₂.net)
      (going : ∀ y ∈ before, Arrival.ending? y = none)
      (few : before.countP Arrival.joins < names.length) (ends : last.ending? = some e) :
    Thwarted N topic names p w e.fault

/-- A fault of an attempt to subscribe, and what it is the fault of, where `s?` is the subscription if
its listener was started. -/
inductive Explained (N : Network σ) (topic : Topic) (names : List String) (p : Pool) (w : Wire σ)
    (s? : Option Subscription) : Fault → Prop where
  | unconnected {f w'} (connect : w.connect N p.node = (.failed f, w')) :
    Explained N topic names p w s? f
  | unsent {link w₁ f w₂} (connect : w.connect N p.node = (.ok link, w₁))
      (send : w₁.send N link p.node.id (command topic.joinCommand names) = (.error f, w₂)) :
    Explained N topic names p w s? f
  /-- The listener ended, and those whom it serves were told of the same fault, and of that last. -/
  | ended {sub ending} (there : s? = some sub) (ends : sub.listener.ending = some ending)
      (told : ∃ notices : List Notice, sub.calls = notices.map .notice ++ ending.call?.toList) :
    Explained N topic names p w s? ending.fault

section

variable {topic : Topic} {names : List String} {p p' : Pool} {r : Started} {f : Fault}

/-- What makes an attempt fail fails it, unless it is given up before. -/
theorem outcome_of_thwarted (h : Thwarted N topic names p w f) (named : names ≠ [])
    (few : names.length < ackLimit) (hs : start N topic names p w = (r, p', w')) :
    r.outcome = .failed f ∨ r.outcome = .stalled ∧ w.deadline ≠ none := by
  have hlaunches := start_launches hs
  cases h with
  | unconnected connect =>
    cases hlaunches with
    | unnamed none => exact absurd none named
    | @unconnected f? _ _ connect' =>
      cases f? <;> cases connect.symm.trans connect'
      exact .inl rfl
    | unsent _ connect' | established _ connect' | unanswered _ connect' =>
      cases connect.symm.trans connect'
  | unsent connect send =>
    cases hlaunches with
    | unnamed none => exact absurd none named
    | @unconnected f? _ _ connect' => cases f? <;> cases connect.symm.trans connect'
    | unsent _ connect' send' =>
      cases connect.symm.trans connect'
      cases send.symm.trans send'
      exact .inl rfl
    | established _ connect' send' | unanswered _ connect' send' =>
      cases connect.symm.trans connect'
      cases send.symm.trans send'
  | @ended link w₁ w₂ before last rest e connect send arriving going few' ends =>
    have hdeadline : w₂.deadline = w.deadline :=
      (Wire.send_deadline send).trans (Wire.connect_deadline connect)
    have hdue : Due N names.length w.deadline e before (fresh p link, w₂) :=
      ⟨rfl, rfl, hdeadline, ⟨last, rest, ends, arriving⟩, going, by simpa [fresh] using few'⟩
    cases hlaunches with
    | unnamed none => exact absurd none named
    | @unconnected f? _ _ connect' => cases f? <;> cases connect.symm.trans connect'
    | unsent _ connect' send' =>
      cases connect.symm.trans connect'
      cases send.symm.trans send'
    | established _ connect' send' awaits | unanswered _ connect' send' awaits =>
      cases connect.symm.trans connect'
      cases send.symm.trans send'
      exact hdue.awaitAcks few awaits

/-- An attempt fails with a fault that can be explained. -/
theorem explained_of_failed (named : names ≠ []) (few : names.length < ackLimit)
    (hs : start N topic names p w = (r, p', w')) (hf : r.outcome = .failed f) :
    Explained N topic names p w r.subscription f := by
  cases start_launches hs with
  | unnamed none => exact absurd none named
  | @unconnected f? _ _ connect =>
    cases f? <;> cases hf
    exact .unconnected connect
  | unsent _ connect send =>
    cases hf
    exact .unsent connect send
  | established => cases hf
  | @unanswered link w₁ w₂ o s w₃ _ connect send awaits =>
    have hconducts := conducts_proceeds ((proceeds_awaitAcks awaits).trans (proceeds_drop s w₃))
    have hdropped := conducts_proceeds (proceeds_drop (N := N) s w₃)
    obtain ⟨htoo, -⟩ | ⟨s₁, hadvances, ⟨rfl, -⟩ | ⟨rfl, -⟩ | ⟨rfl, hended, rfl⟩⟩ :=
      awaitAcks_advances awaits
    · omega
    · cases hf
    · cases hf
    · obtain ⟨e, he⟩ := Listener.isRunning_eq_false.1 hended
      have htold : s₁.told = false := (kept_advances hadvances).1
      have hfault : s₁.deadEnd = e.fault := deadEnd_of_ended ⟨he, htold⟩
      cases hf
      rw [hfault]
      obtain ⟨he', -⟩ := hdropped.lasts.ended e he
      obtain ⟨notices, hcalls⟩ := hconducts.tells ⟨[], rfl⟩
      rw [Listener.lastCall, he'] at hcalls
      exact .ended rfl he' ⟨notices, hcalls⟩

end

end Subscription

namespace Subscriptions

/-- Whether nothing is left of an attempt to subscribe: if a link was made it was closed, and once, and
no other link was; and as many listeners run, and as many connections are lent and kept, as before. -/
structure Undone (r : Subscriptions) (p : Pool) (w : Wire σ) (r' : Subscriptions) (p' : Pool)
    (w' : Wire σ) : Prop where
  opened : w'.opened = w.opened ∨ w'.opened = w.opened + 1
  closed : ∃ events, w'.trace = w.trace ++ events ∧ ∀ link, closings link events =
    if w.opened ≤ link ∧ link < w'.opened then 1 else 0
  listeners : r'.active = r.active
  lent : p'.stats.active = p.stats.active
  kept : p'.stats.idle = p.stats.idle

variable {r : Subscriptions} {p : Pool} {w w' : Wire σ}

theorem Undone.of_quiet (h : w.Quiet w') : Undone r p w r p w' where
  opened := .inl h.opened
  closed := by
    refine ⟨[], h.trace.trans (List.append_nil _).symm, fun link => ?_⟩
    rw [h.opened, if_neg (by omega)]
    rfl
  listeners := rfl
  lent := rfl
  kept := rfl

/-- A link is made, some commands are sent on it, and it is closed. If a listener was started it has taken
itself off the counter. -/
theorem Undone.of_closed {node : Node} {link : Nat} {w₁ : Wire σ} {s? : Option Subscription}
    (connect : w.connect N node = (.ok link, w₁)) {events : List WireEvent}
    (hopened : w'.opened = w₁.opened) (htrace : w'.trace = w₁.trace ++ events)
    (hclosings : ∀ other, closings other events = if other = link then 1 else 0)
    (hended : ∀ s, s? = some s → s.departures = 1) :
    Undone r p w (r.add s?) { p with created := p.created + 1 } w' where
  opened := by
    obtain ⟨-, hopened₁, -⟩ := Wire.connect_ok connect
    exact .inr (hopened.trans hopened₁)
  closed := by
    obtain ⟨rfl, hopened₁, htrace₁⟩ := Wire.connect_ok connect
    refine ⟨.opened w.opened node.id :: events, by rw [htrace, htrace₁]; simp, fun other => ?_⟩
    have hopening : closings other (.opened w.opened node.id :: events) = closings other events := by
      simp [closings]
    rw [hopening, hclosings, hopened, hopened₁]
    split <;> split <;> omega
  listeners := by
    cases s? with
    | none => rfl
    | some s => simp [add, hended s rfl]
  lent := rfl
  kept := rfl

/-- An attempt to subscribe that does not succeed leaves nothing. -/
theorem undone_of_start {topic : Topic} {names : List String} {s : Subscription.Started} {p' : Pool}
    (hs : Subscription.start N topic names p w = (s, p', w')) (ho : s.outcome ≠ .ok ()) :
    Undone r p w (r.add s.subscription) p' w' := by
  cases Subscription.start_launches hs with
  | unnamed => exact .of_quiet ⟨rfl, rfl⟩
  | @unconnected f? _ _ connect =>
    cases f? with
    | some f => exact .of_quiet (Wire.connect_failed connect).2
    | none => exact .of_quiet (Wire.connect_stalled connect)
  | @unsent link w₁ f w₂ _ connect send =>
    obtain ⟨hopened, events, htrace, hclosings⟩ := Wire.send_steady send
    have hclosed : (w₂.close N link).trace = w₁.trace ++ (events ++ [.closed link]) := by
      rw [← List.append_assoc, ← htrace]
      rfl
    refine .of_closed connect hopened hclosed (fun other => ?_) nofun
    simp [hclosings, eq_comm]
  | established => exact absurd rfl ho
  | @unanswered link w₁ w₂ o t w₃ _ connect send awaits =>
    obtain ⟨hopened, sent, htrace, hsent⟩ := Wire.send_steady send
    have hconducts := Subscription.conducts_proceeds
      ((Subscription.proceeds_awaitAcks awaits).trans (Subscription.proceeds_drop t w₃))
    have hended := Subscription.isRunning_drop (N := N) t w₃
    obtain ⟨events, hevents, hclosings⟩ := hconducts.closes
    have hendings : Subscription.endings (Subscription.fresh p link) (t.drop N w₃).1 = 1 :=
      if_pos ⟨rfl, hended⟩
    refine .of_closed connect (hconducts.opened.trans hopened)
      (hevents.trans (by rw [htrace, List.append_assoc])) (fun other => ?_) ?_
    · rw [closings_append, hsent, hclosings, hendings, Nat.zero_add]
      rfl
    · rintro _ ⟨⟩
      rw [hconducts.departs, hendings]
      rfl

/-- **Whoever subscribes in vain learns why, and nothing is left of it**: whatever makes an attempt with
some names fail is the fault that it ends with, unless it is given up before; any fault that it ends with
is that of the link, of the command, or of the end of its listener, as those whom it serves were told;
and if it does not succeed its link is closed once, and all is counted as before. -/
theorem failed_attempt_leaves_nothing (N : Network σ) (topic : Topic) (names : List String)
    (named : names ≠ []) (few : names.length < Subscription.ackLimit) (r : Subscriptions) (p : Pool)
    (w : Wire σ) : ∃ o s? p' w',
      r.start N topic names p w = (o, r.add s?, p', w') ∧
      (∀ f, Subscription.Thwarted N topic names p w f →
        o = .failed f ∨ o = .stalled ∧ w.deadline ≠ none) ∧
      (∀ f, o = .failed f → Subscription.Explained N topic names p w s? f) ∧
      (o.isOk = false → Undone r p w (r.add s?) p' w') := by
  rcases hs : Subscription.start N topic names p w with ⟨s, p', w'⟩
  refine ⟨s.outcome.map fun _ => r.started.length, s.subscription, p', w', ?_, fun f hf => ?_,
    fun f hf => ?_, fun ho => ?_⟩
  · simp only [Subscriptions.start, hs]
  · obtain ho | ⟨ho, hdeadline⟩ := Subscription.outcome_of_thwarted hf named few hs
    · exact .inl (by rw [ho]; rfl)
    · exact .inr ⟨by rw [ho]; rfl, hdeadline⟩
  · refine Subscription.explained_of_failed named few hs ?_
    cases ho : s.outcome <;> rw [ho] at hf <;> cases hf
    rfl
  · refine undone_of_start hs fun hok => ?_
    rw [hok] at ho
    cases ho

/-- A server acknowledges the first of two names and rejects the second. -/
theorem rejected_attempt_leaves_nothing :
    let reply := utf8 "*3\r\n$9\r\nsubscribe\r\n$1\r\na\r\n:1\r\n-ERR no\r\n"
    let net : Rehearsal.Stage := { rules := [{ command := some "SUBSCRIBE", action := .reply reply }] }
    let p : Pool := { node := { host := "a", port := 1 } }
    let r : Subscriptions := {}
    let w : Wire Rehearsal.Stage := { net }
    ∃ r' p' w', r.start Rehearsal.network .channels ["a", "b"] p w =
      (.failed (.data "ERR no"), r', p', w') ∧ Undone r p w r' p' w' := by
  intro reply net p r w
  let ack : Resp.Value := .array [.bulk (utf8 "subscribe"), .bulk (utf8 "a"), .integer 1]
  let asked := Subscription.command "SUBSCRIBE" ["a", "b"]
  let w₁ := (w.connect Rehearsal.network p.node).2
  let w₂ := (w₁.send Rehearsal.network 0 p.node.id asked).2
  have hconnect : w.connect Rehearsal.network p.node = (.ok 0, w₁) :=
    Prod.ext (by decide +kernel) rfl
  have hsend : w₁.send Rehearsal.network 0 p.node.id asked = (.ok (), w₂) :=
    Prod.ext (by decide +kernel) rfl
  have hlink : w₂.net.links[0]?.map (fun l => (l.broken, l.queue)) =
      some (false, [.value ack, .value (.error "ERR no")]) := by decide +kernel
  obtain ⟨l, there, hl⟩ := Option.map_eq_some_iff.1 hlink
  obtain ⟨whole, queue⟩ := Prod.mk.injEq .. ▸ hl
  have harriving : Rehearsal.network.Brings 0 ([.ok ack] ++ .ok (.error "ERR no") :: []) w₂.net :=
    Rehearsal.network_brings [.ok ack, .ok (.error "ERR no")] there whole queue
  have hthwarts : Subscription.Thwarted Rehearsal.network .channels ["a", "b"] p w
      (Ending.failed (.data "ERR no")).fault :=
    .ended hconnect hsend harriving (by decide +kernel) (by decide +kernel) (by decide +kernel)
  obtain ⟨o, s?, p', w', hstart, hthwarted, -, hundone⟩ := failed_attempt_leaves_nothing
    Rehearsal.network .channels ["a", "b"] (by simp) (by decide) r p w
  obtain rfl | ⟨-, hdeadline⟩ := hthwarted _ hthwarts
  · exact ⟨_, p', w', hstart, hundone rfl⟩
  · exact absurd rfl hdeadline

end Subscriptions

end ShardFleet
