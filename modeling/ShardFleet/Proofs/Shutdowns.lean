import ShardFleet.Proofs.Interleaving
import ShardFleet.Proofs.Retirement
import ShardFleet.Proofs.SubscriptionRuns
import ShardFleet.Rehearsal.Script

/-!
# How listeners end

Subscriptions are started on links of their own, and then their listeners and their holders take steps
in any order. However a listener comes to its end, it ends once: it says that it is active no more, those
whom it serves are told of a fault last and only then, it takes itself off the counter once and its link
is closed once. So the counter that all of them share is the number of the listeners that still run.
-/

namespace ShardFleet

variable {σ : Type} {N : Network σ}

/-- Links were used at most: none was made or closed. -/
structure Wire.Steady (w w' : Wire σ) : Prop where
  opened : w'.opened = w.opened
  trace : ∃ events, w'.trace = w.trace ++ events ∧ ∀ link, closings link events = 0

theorem Wire.Steady.closings {w w' : Wire σ} (h : w.Steady w') (link : Nat) :
    closings link w'.trace = closings link w.trace := by
  obtain ⟨events, htrace, hclosings⟩ := h.trace
  rw [htrace, closings_append, hclosings, Nat.add_zero]

theorem Wire.Quiet.steady {w w' : Wire σ} (h : w.Quiet w') : w.Steady w' :=
  ⟨h.opened, [], h.trace.trans (List.append_nil _).symm, fun _ => rfl⟩

theorem Wire.send_steady {link : Nat} {node : String} {c : Command} {r : Except Fault Unit}
    {w w' : Wire σ} (h : w.send N link node c = (r, w')) : w.Steady w' := by
  obtain ⟨hopened, htrace | ⟨htrace, -⟩⟩ := Wire.send_trace h
  · exact ⟨hopened, _, htrace, fun _ => by simp [ShardFleet.closings]⟩
  · exact Wire.Quiet.steady ⟨htrace, hopened⟩

theorem Wire.receiveBefore_quiet {limit : Option Nat} {link : Nat} {r : Outcome Resp.Value}
    {w w' : Wire σ} (h : w.receiveBefore N limit link = (r, w')) : w.Quiet w' := by
  cases h
  exact ⟨rfl, rfl⟩

theorem Listener.isRunning_eq_false {l : Listener} : l.isRunning = false ↔ ∃ e, l.ending = some e := by
  simp [isRunning, Option.isSome_iff_exists]

/-- What a frame makes a listener call for is a notice, and then the fault if it ends with one. -/
theorem Listener.hear_calls {l : Listener} (active : l.isRunning = true) (v : Resp.Value) :
    ∃ notices : List Notice, (l.hear v).2 = notices.map .notice ++ (l.hear v).1.lastCall := by
  obtain ⟨-, hcalls⟩ := Listener.hear_active active v
  rw [hcalls]
  unfold Resp.Value.call?
  split
  · exact ⟨[], rfl⟩
  · exact ⟨[], rfl⟩
  · exact ⟨[_], rfl⟩

/-- Whether a listener says that it is active as long as it runs and no longer. -/
def Listener.Truthful (l : Listener) : Prop := l.isActive = l.isRunning

theorem Listener.hear_isActive (l : Listener) (v : Resp.Value) : (l.hear v).1.isActive = l.isActive := by
  unfold hear
  split
  · rename_i n _
    cases n <;> rfl
  · rfl

namespace Subscription

/-! ### One subscription -/

/-- Whether those whom the listener serves were called for notices only, and then for its end if it
has ended with a fault. -/
def Tells (s : Subscription) : Prop :=
  ∃ notices : List Notice, s.calls = notices.map .notice ++ s.listener.lastCall

/-- Whether a subscription is on the same link as before, and if its listener had ended, then as it had,
and without a word since. -/
structure Lasts (s s' : Subscription) : Prop where
  connection : s'.connection = s.connection
  ended : ∀ e, s.listener.ending = some e → s'.listener.ending = some e ∧ s'.calls = s.calls

theorem Lasts.refl (s : Subscription) : s.Lasts s := ⟨rfl, fun _ he => ⟨he, rfl⟩⟩

theorem Lasts.trans {s s' s'' : Subscription} (h : s.Lasts s') (h' : s'.Lasts s'') : s.Lasts s'' where
  connection := h'.connection.trans h.connection
  ended e he := by
    obtain ⟨he', hcalls⟩ := h.ended e he
    obtain ⟨he'', hcalls'⟩ := h'.ended e he'
    exact ⟨he'', hcalls'.trans hcalls⟩

/-- How often a listener ended between two moments. -/
def endings (s s' : Subscription) : Nat :=
  if s.listener.isRunning = true ∧ s'.listener.isRunning = false then 1 else 0

theorem endings_of_same {s s' : Subscription}
    (h : s'.listener.isRunning = s.listener.isRunning) : endings s s' = 0 := by
  simp [endings, h]

/-- A listener that has ended does not run again, so it ends in one of two parts only. -/
theorem endings_add {s s' s'' : Subscription}
    (h : s.listener.isRunning = false → s'.listener.isRunning = false)
    (h' : s'.listener.isRunning = false → s''.listener.isRunning = false) :
    endings s s' + endings s' s'' = endings s s'' := by
  unfold endings
  cases hs : s.listener.isRunning <;> cases hs' : s'.listener.isRunning <;>
    cases hs'' : s''.listener.isRunning <;> simp_all

/-- What a subscription does between two moments: its listener ends at most once and then stays as it
has ended. When it ends it says so and takes itself off the counter, and its link is closed, and no link
is closed or made else. -/
structure Conducts (x y : Subscription × Wire σ) : Prop where
  lasts : x.1.Lasts y.1
  opened : y.2.opened = x.2.opened
  tells : x.1.Tells → y.1.Tells
  truthful : x.1.listener.Truthful → y.1.listener.Truthful
  departs : y.1.departures = x.1.departures + endings x.1 y.1
  closes : ∃ events, y.2.trace = x.2.trace ++ events ∧ ∀ link, closings link events =
    if link = x.1.connection.link then endings x.1 y.1 else 0

namespace Conducts

variable {x y z : Subscription × Wire σ}

theorem ended (h : Conducts x y) (hx : x.1.listener.isRunning = false) :
    y.1.listener.isRunning = false := by
  obtain ⟨e, he⟩ := Listener.isRunning_eq_false.1 hx
  exact Listener.isRunning_eq_false.2 ⟨e, (h.lasts.ended e he).1⟩

theorem departures_le (h : Conducts x y) : x.1.departures ≤ y.1.departures := by
  rw [h.departs]
  exact Nat.le_add_right ..

/-- A step in which the listener goes on as before closes nothing. -/
theorem of_same (hconnection : y.1.connection = x.1.connection)
    (hending : y.1.listener.ending = x.1.listener.ending)
    (hactive : y.1.listener.isActive = x.1.listener.isActive) (hcalls : y.1.calls = x.1.calls)
    (hdepartures : y.1.departures = x.1.departures) (hwire : x.2.Steady y.2) : Conducts x y := by
  have hrunning : y.1.listener.isRunning = x.1.listener.isRunning := by
    rw [Listener.isRunning, Listener.isRunning, hending]
  obtain ⟨hopened, events, htrace, hclosings⟩ := hwire
  refine ⟨⟨hconnection, fun e he => ⟨hending.trans he, hcalls⟩⟩, hopened, fun htells => ?_,
    fun htruthful => ?_, ?_, events, htrace, fun link => ?_⟩
  · rwa [Tells, Listener.lastCall, hcalls, hending]
  · rwa [Listener.Truthful, hactive, hrunning]
  · rw [endings_of_same hrunning, hdepartures, Nat.add_zero]
  · rw [endings_of_same hrunning, hclosings, ite_self]

theorem refl (x : Subscription × Wire σ) : Conducts x x :=
  of_same rfl rfl rfl rfl rfl (Wire.Quiet.steady ⟨rfl, rfl⟩)

theorem trans (h : Conducts x y) (h' : Conducts y z) : Conducts x z where
  lasts := h.lasts.trans h'.lasts
  opened := h'.opened.trans h.opened
  tells := h'.tells ∘ h.tells
  truthful := h'.truthful ∘ h.truthful
  departs := by rw [h'.departs, h.departs, Nat.add_assoc, endings_add h.ended h'.ended]
  closes := by
    obtain ⟨events, htrace, hclosings⟩ := h.closes
    obtain ⟨events', htrace', hclosings'⟩ := h'.closes
    refine ⟨events ++ events', by rw [htrace', htrace, List.append_assoc], fun link => ?_⟩
    rw [closings_append, hclosings, hclosings', h.lasts.connection, ← endings_add h.ended h'.ended]
    split <;> rfl

end Conducts

variable {s s' : Subscription} {w w' : Wire σ}

theorem stepped_trace (r : Listener × List Callback) (s : Subscription) (w : Wire σ) :
    (s.stepped N r w).2.opened = w.opened ∧ (s.stepped N r w).2.trace =
      w.trace ++ if r.1.isRunning then [] else [.closed s.connection.link] := by
  unfold stepped
  split
  · exact ⟨rfl, (List.append_nil _).symm⟩
  · exact ⟨rfl, rfl⟩

theorem endings_stepped {r : Listener × List Callback} (active : s.listener.isRunning = true) :
    endings s (s.stepped N r w).1 = if r.1.isRunning then 0 else 1 := by
  have hrunning : (s.stepped N r w).1.listener.isRunning = r.1.isRunning := by rw [stepped_fst]; rfl
  rw [endings, hrunning, active]
  cases r.1.isRunning <;> rfl

/-- A listener that runs takes a step, in which it may end. The loop itself leaves it to the end to say
that the listener is active no more. -/
theorem conducts_stepped {r : Listener × List Callback} (active : s.listener.isRunning = true)
    (hactive : r.1.isActive = s.listener.isActive)
    (hcalls : ∃ notices : List Notice, r.2 = notices.map .notice ++ r.1.lastCall)
    (hwire : w.Steady w') : Conducts (s, w) (s.stepped N r w') := by
  obtain ⟨hopened, events, htrace, hclosings⟩ := hwire
  obtain ⟨hopened', htrace'⟩ := stepped_trace (N := N) r s w'
  have hfirst := stepped_fst (N := N) r s w'
  have hendings := endings_stepped (N := N) (r := r) (w := w') active
  have hending : s.listener.ending = none := by simpa [Listener.isRunning] using active
  refine ⟨⟨by rw [hfirst], fun e he => ?_⟩, hopened'.trans hopened, fun htells => ?_,
    fun htruthful => ?_, by rw [hendings, hfirst], _, by rw [htrace', htrace, List.append_assoc],
    fun link => ?_⟩
  · rw [hending] at he
    cases he
  · obtain ⟨notices, hnotices⟩ := htells
    obtain ⟨notices', hnotices'⟩ := hcalls
    refine ⟨notices ++ notices', ?_⟩
    rw [hfirst, hnotices, hnotices', Listener.lastCall_of_active active, List.append_nil,
      List.map_append, List.append_assoc]
    rfl
  · have hsays : r.1.isActive = true := hactive.trans (htruthful.trans active)
    rw [hfirst, hsays, Bool.and_true]
    rfl
  · rw [closings_append, hclosings, Nat.zero_add, hendings]
    cases r.1.isRunning
    · simp [eq_comm]
    · simp [closings]

theorem conducts_works {x y : Subscription × Wire σ} (h : Works N x y) : Conducts x y := by
  cases h with
  | stirred stirs =>
    cases stirs with
    | heard active arrived =>
      exact conducts_stepped active (Listener.hear_isActive ..) (Listener.hear_calls active _)
        (Wire.receiveBefore_quiet arrived).steady
    | lost active failed =>
      exact conducts_stepped active rfl ⟨[], rfl⟩ (Wire.receiveBefore_quiet failed).steady
    | waited active nothing =>
      exact .of_same rfl rfl rfl rfl rfl (Wire.receiveBefore_quiet nothing).steady
    | abandoned active => exact conducts_stepped active rfl ⟨[], rfl⟩ (Wire.Quiet.steady ⟨rfl, rfl⟩)
  | @commanded s w active c =>
    unfold send Connection.send
    rcases hs : w.send N s.connection.link s.connection.node c with ⟨f | _, w₁⟩
    · exact conducts_stepped active rfl ⟨[], rfl⟩ (Wire.send_steady hs)
    · exact .of_same rfl rfl rfl rfl rfl (Wire.send_steady hs)
  | collected | learned | released =>
    exact .of_same rfl rfl rfl rfl rfl (Wire.Quiet.steady ⟨rfl, rfl⟩)

theorem conducts_proceeds {x y : Subscription × Wire σ} (h : Proceeds N x y) : Conducts x y := by
  induction h with
  | refl => exact .refl x
  | tail _ hstep ih => exact ih.trans (conducts_works hstep)

/-- How a subscription stands whose listener ends once. As long as it runs it says so, it is counted, its
link is open, and it has told of no fault. Once it has ended it says so, it has taken itself off the counter
once, its link was closed once, and it has told of the fault that it ended with, if there is one, once and
last. -/
structure EndsOnce (w : Wire σ) (s : Subscription) : Prop where
  running : s.listener.isRunning = true → s.listener.isActive = true ∧ s.departures = 0 ∧
    closings s.connection.link w.trace = 0 ∧ ∀ f, .failed f ∉ s.calls
  ended : ∀ e, s.listener.ending = some e → s.listener.isActive = false ∧ s.departures = 1 ∧
    closings s.connection.link w.trace = 1 ∧
    ∃ notices : List Notice, s.calls = notices.map .notice ++ e.call?.toList

/-- What holds of every subscription whenever subscriptions take steps. -/
structure Regular (w : Wire σ) (s : Subscription) : Prop where
  tells : s.Tells
  truthful : s.listener.Truthful
  departed : s.departures = if s.listener.isRunning then 0 else 1
  closed : closings s.connection.link w.trace = if s.listener.isRunning then 0 else 1

namespace Regular

theorem fresh {node : Node} {c : Connection} (h : closings c.link w.trace = 0) :
    Regular w { node, connection := c } :=
  ⟨⟨[], rfl⟩, rfl, rfl, h⟩

/-- What happens on other links does not matter. -/
theorem elsewhere (h : s.Regular w)
    (hsame : closings s.connection.link w'.trace = closings s.connection.link w.trace) : s.Regular w' :=
  ⟨h.tells, h.truthful, h.departed, hsame.trans h.closed⟩

theorem conducts (h : s.Regular w) (hc : Conducts (s, w) (s', w')) : s'.Regular w' := by
  obtain ⟨events, htrace, hclosings⟩ := hc.closes
  have hended : s.listener.isRunning = false → s'.listener.isRunning = false := hc.ended
  have hsum : (if s.listener.isRunning then 0 else 1) + endings s s' =
      if s'.listener.isRunning then 0 else 1 := by
    unfold endings
    cases hs : s.listener.isRunning <;> cases hs' : s'.listener.isRunning <;> simp_all
  refine ⟨hc.tells h.tells, hc.truthful h.truthful, hc.departs.trans ?_, ?_⟩
  · rw [h.departed, hsum]
  · rw [show w'.trace = w.trace ++ events from htrace, closings_append, hclosings,
      show s'.connection = s.connection from hc.lasts.connection, if_pos rfl, h.closed, hsum]

theorem endsOnce (h : s.Regular w) : s.EndsOnce w := by
  obtain ⟨⟨notices, hcalls⟩, truthful, departed, closed⟩ := h
  constructor
  · intro active
    rw [if_pos active] at closed departed
    rw [Listener.lastCall_of_active active, List.append_nil] at hcalls
    exact ⟨truthful.trans active, departed, closed, by simp [hcalls]⟩
  · intro e he
    have hended := Listener.isRunning_eq_false.2 ⟨e, he⟩
    rw [hended] at closed departed
    rw [Listener.lastCall, he] at hcalls
    exact ⟨truthful.trans hended, departed, closed, notices, hcalls⟩

end Regular

end Subscription

namespace Subscriptions

/-! ### All subscriptions -/

/-- The listeners that run. -/
def running (r : Subscriptions) : Nat := r.started.countP (·.listener.isRunning)

variable {r r' : Subscriptions} {w w' : Wire σ} {i : Nat} {s s' : Subscription}

/-- A subscription among the others, and what has become of it in its place. -/
theorem put_between (here : r.started[i]? = some s) (s' : Subscription) : ∃ before after,
    r.started = before ++ s :: after ∧ (r.put i s s').started = before ++ s' :: after := by
  obtain ⟨hlt, rfl⟩ := List.getElem?_eq_some_iff.1 here
  obtain ⟨before, after, hr, -, hset⟩ := @List.exists_of_set _ i s' r.started hlt
  exact ⟨before, after, hr, hset⟩

/-- All subscriptions and the wire that they work on. -/
structure Census (σ : Type) where
  registry : Subscriptions := {}
  wire : Wire σ
  /-- The dedicated connections on which no listener was started yet. -/
  opening : List Connection := []

namespace Census

/-- One step of somebody who subscribes, or of a subscription. -/
inductive Steps (N : Network σ) : Census σ → Census σ → Prop where
  /-- The network and the time change by themselves. -/
  | elsewhere {r w w' opening} (quiet : w.Quiet w') : Steps N ⟨r, w, opening⟩ ⟨r, w', opening⟩
  | connected {r w opening node c w'} (connect : w.connect N node = (.ok c.link, w')) :
    Steps N ⟨r, w, opening⟩ ⟨r, w', opening ++ [c]⟩
  /-- The names cannot be asked for. -/
  | unsent {r w before c after command f w'} (send : c.send N command w = (.error f, w')) :
    Steps N ⟨r, w, before ++ c :: after⟩ ⟨r, c.close N w', before ++ after⟩
  /-- A listener is started. -/
  | begun {r w before c after command node w'} (send : c.send N command w = (.ok (), w')) :
    Steps N ⟨r, w, before ++ c :: after⟩
      ⟨r.add (some { node, connection := c }), w', before ++ after⟩
  /-- A subscription takes a step, in which its listener may end. -/
  | works {r w opening i s s' w'} (here : r.started[i]? = some s)
      (works : Subscription.Works N (s, w) (s', w')) :
    Steps N ⟨r, w, opening⟩ ⟨r.put i s s', w', opening⟩

/-- Any number of steps. -/
abbrev Leads (N : Network σ) : Census σ → Census σ → Prop := Relation.ReflTransGen (Steps N)

/-- A network on which nothing has happened yet. -/
def start (net : σ) : Census σ := { wire := { net } }

/-- The links of the dedicated connections. -/
def links (x : Census σ) : List Nat :=
  x.registry.started.map (·.connection.link) ++ x.opening.map (·.link)

/-- What holds whenever subscriptions take steps. -/
structure Sound (x : Census σ) : Prop where
  made : ∀ link ∈ x.links, link < x.wire.opened
  apart : x.links.Nodup
  fresh : ∀ link, x.wire.opened ≤ link → closings link x.wire.trace = 0
  unclosed : ∀ c ∈ x.opening, closings c.link x.wire.trace = 0
  regular : ∀ s ∈ x.registry.started, s.Regular x.wire
  counted : x.registry.active = x.registry.running

theorem sound_start (net : σ) : (start net).Sound where
  made := nofun
  apart := List.nodup_nil
  fresh _ _ := rfl
  unclosed := nofun
  regular := nofun
  counted := rfl

/-- A connection on which no listener was started has a link of its own. -/
theorem links_opening (r : Subscriptions) (w : Wire σ) (before after : List Connection)
    (c : Connection) : (Census.mk r w (before ++ c :: after)).links.Perm
      (c.link :: (Census.mk r w (before ++ after)).links) := by
  simp only [links, List.map_append, List.map_cons, ← List.append_assoc]
  exact List.perm_middle

/-- So does a subscription. -/
theorem links_started {before after : List Subscription} (w : Wire σ) (opening : List Connection)
    (hr : r.started = before ++ s :: after) : (Census.mk r w opening).links.Perm
      (s.connection.link :: ((before ++ after).map (·.connection.link) ++ opening.map (·.link))) := by
  simp only [links, hr, List.map_append, List.map_cons, List.append_assoc, List.cons_append]
  exact List.perm_middle

namespace Sound

variable {opening before after : List Connection} {c : Connection}

/-- Where no link is made or closed, all stays sound. -/
theorem steady (h : Sound ⟨r, w, opening⟩) (hwire : w.Steady w') : Sound ⟨r, w', opening⟩ where
  made link hlink := hwire.opened.symm ▸ h.made link hlink
  apart := h.apart
  fresh link hlink := (hwire.closings link).trans (h.fresh link (hwire.opened ▸ hlink))
  unclosed d hd := (hwire.closings _).trans (h.unclosed d hd)
  regular t ht := (h.regular t ht).elsewhere (hwire.closings _)
  counted := h.counted

theorem connected {node : Node} (h : Sound ⟨r, w, opening⟩)
    (hconnect : w.connect N node = (.ok c.link, w')) : Sound ⟨r, w', opening ++ [c]⟩ := by
  obtain ⟨hlink, hopened, htrace⟩ := Wire.connect_ok hconnect
  have hsame (link : Nat) : closings link w'.trace = closings link w.trace := by
    rw [htrace, closings_append]
    simp [closings]
  have hperm := links_opening r w opening [] c
  rw [List.append_nil] at hperm
  refine ⟨fun link hl => ?_, ?_, fun link hl => ?_, fun d hd => ?_,
    fun t ht => (h.regular t ht).elsewhere (hsame _), h.counted⟩
  · obtain rfl | hl := List.mem_cons.1 (hperm.mem_iff.1 hl)
    · exact hlink ▸ hopened ▸ Nat.lt_succ_self _
    · exact hopened ▸ Nat.lt_succ_of_lt (h.made link hl)
  · refine hperm.nodup_iff.2 (List.nodup_cons.2 ⟨fun hmem => ?_, h.apart⟩)
    exact absurd (h.made _ hmem) (by simp [hlink])
  · have hl : w'.opened ≤ link := hl
    rw [hopened] at hl
    exact (hsame link).trans (h.fresh link (Nat.le_of_succ_le hl))
  · rw [hsame]
    obtain hd | hd := List.mem_append.1 hd
    · exact h.unclosed d hd
    · rw [List.mem_singleton.1 hd, hlink]
      exact h.fresh _ le_rfl

/-- A connection on which no listener was started is closed. -/
theorem unsent (h : Sound ⟨r, w, before ++ c :: after⟩) : Sound ⟨r, c.close N w, before ++ after⟩ := by
  obtain ⟨hapart, hnodup⟩ := List.nodup_cons.1 ((links_opening ..).nodup_iff.1 h.apart)
  have hclosings (link : Nat) (hne : c.link ≠ link) :
      closings link (c.close N w).trace = closings link w.trace := by
    have htrace : (c.close N w).trace = w.trace ++ [.closed c.link] := rfl
    rw [htrace, closings_append, closings_closed, if_neg hne, Nat.add_zero]
  have hothers {link : Nat} (hl : link ∈ (Census.mk r w (before ++ after)).links) : c.link ≠ link :=
    fun hsame => hapart (hsame ▸ hl)
  have hmade := h.made c.link ((links_opening ..).mem_iff.2 List.mem_cons_self)
  refine ⟨fun link hl => h.made link ((links_opening ..).mem_iff.2 (List.mem_cons_of_mem _ hl)), hnodup,
    fun link hl => ?_, fun d hd => ?_, fun t ht => ?_, h.counted⟩
  · change w.opened ≤ link at hl
    change c.link < w.opened at hmade
    exact (hclosings link (by omega)).trans (h.fresh link hl)
  · have hlink := hothers (List.mem_append_right _ (List.mem_map_of_mem hd))
    refine (hclosings _ hlink).trans (h.unclosed d ?_)
    simp only [List.mem_append, List.mem_cons] at hd ⊢
    exact hd.imp_right .inr
  · have hlink := hothers (List.mem_append_left _ (List.mem_map_of_mem ht))
    exact (h.regular t ht).elsewhere (hclosings _ hlink)

/-- A listener is started. -/
theorem begun {node : Node} (h : Sound ⟨r, w, before ++ c :: after⟩) :
    Sound ⟨r.add (some { node, connection := c }), w, before ++ after⟩ := by
  have hstarted : (r.add (some { node, connection := c })).started =
      r.started ++ { node, connection := c } :: [] := started_add ..
  have hperm := links_started w (before ++ after) hstarted
  rw [List.append_nil] at hperm
  have hperm := hperm.trans (links_opening r w before after c).symm
  refine ⟨fun link hl => h.made link (hperm.mem_iff.1 hl), hperm.nodup_iff.2 h.apart, h.fresh,
    fun d hd => h.unclosed d ?_, fun t ht => ?_, ?_⟩
  · simp only [List.mem_append, List.mem_cons] at hd ⊢
    exact hd.imp_right .inr
  · simp only [hstarted, List.mem_append, List.mem_singleton] at ht
    obtain ht | rfl := ht
    · exact h.regular t ht
    · exact .fresh (h.unclosed c (by simp))
  · have hcounted := h.counted
    simp only [running, hstarted, List.countP_append] at hcounted ⊢
    rw [← hcounted]
    rfl

/-- A subscription goes on or ends. -/
theorem conducts (h : Sound ⟨r, w, opening⟩) (here : r.started[i]? = some s)
    (hc : Subscription.Conducts (s, w) (s', w')) : Sound ⟨r.put i s s', w', opening⟩ := by
  obtain ⟨done, later, hr, hput⟩ := put_between here s'
  obtain ⟨events, htrace, hclosings⟩ := hc.closes
  have hperm := links_started w opening hr
  obtain ⟨hapart, -⟩ := List.nodup_cons.1 (hperm.nodup_iff.1 h.apart)
  have hlink : s'.connection = s.connection := hc.lasts.connection
  have hlinks : (Census.mk (r.put i s s') w' opening).links = (Census.mk r w opening).links := by
    simp [links, hr, hput, hlink, - started_put]
  -- What it does on its own link the others do not notice.
  have hothers (link : Nat) (hne : link ≠ s.connection.link) :
      closings link w'.trace = closings link w.trace := by
    rw [show w'.trace = w.trace ++ events from htrace, closings_append, hclosings, if_neg hne,
      Nat.add_zero]
  have hopened : w'.opened = w.opened := hc.opened
  have hmade : s.connection.link < w.opened := h.made _ (hperm.mem_iff.2 List.mem_cons_self)
  refine ⟨?_, hlinks ▸ h.apart, fun link hl => ?_, fun d hd => ?_, fun t ht => ?_, ?_⟩
  · rw [hlinks]
    exact fun link hl => hopened ▸ h.made link hl
  · change w'.opened ≤ link at hl
    exact (hothers link (by omega)).trans (h.fresh link (hopened ▸ hl))
  · refine (hothers _ fun hsame => hapart ?_).trans (h.unclosed d hd)
    exact hsame ▸ List.mem_append_right _ (List.mem_map_of_mem hd)
  · have ht : t ∈ done ++ s' :: later := hput ▸ ht
    obtain rfl | ht := List.mem_cons.1 (List.perm_middle.mem_iff.1 ht)
    · exact (h.regular s (List.mem_of_getElem? here)).conducts hc
    · have hold : t ∈ r.started := hr ▸ List.perm_middle.mem_iff.2 (List.mem_cons_of_mem _ ht)
      refine (h.regular t hold).elsewhere (hothers _ fun hsame => hapart ?_)
      exact hsame ▸ List.mem_append_left _ (List.mem_map_of_mem ht)
  · -- The counter goes down by what the listener has noted, and it notes nothing but its end.
    have hended : s.listener.isRunning = false → s'.listener.isRunning = false := hc.ended
    have hdeparts : s'.departures - s.departures = Subscription.endings s s' := by
      rw [show s'.departures = _ from hc.departs, Nat.add_sub_cancel_left]
    have hcounted : r.active = r.running := h.counted
    have hactive : (r.put i s s').active = r.active - Subscription.endings s s' := by
      rw [← hdeparts]
      rfl
    change (r.put i s s').active = (r.put i s s').running
    rw [hactive, hcounted]
    simp only [running, hput, hr, List.countP_append, List.countP_cons, Subscription.endings]
    cases hs : s.listener.isRunning <;> cases hs' : s'.listener.isRunning <;> simp_all

end Sound

/-- **One step** keeps all of it. -/
theorem Sound.steps {x y : Census σ} (h : x.Sound) (hsteps : Steps N x y) : y.Sound := by
  cases hsteps with
  | elsewhere quiet => exact h.steady quiet.steady
  | connected connect => exact h.connected connect
  | unsent send => exact (h.steady (Wire.send_steady send)).unsent
  | begun send => exact (h.steady (Wire.send_steady send)).begun
  | works here works => exact h.conducts here (Subscription.conducts_works works)

theorem Sound.leads {x y : Census σ} (h : x.Sound) (hleads : Leads N x y) : y.Sound := by
  induction hleads with
  | refl => exact h
  | tail _ hstep ih => exact ih.steps hstep

/-! ### What has ended stays so -/

theorem lasts_steps {x y : Census σ} (h : Steps N x y) {j : Nat} {t : Subscription}
    (ht : x.registry.find? j = some t) : ∃ t', y.registry.find? j = some t' ∧ t.Lasts t' := by
  cases h with
  | elsewhere | connected | unsent => exact ⟨t, ht, .refl t⟩
  | begun => exact ⟨t, (List.getElem?_append_left (List.getElem?_eq_some_iff.1 ht).1).trans ht, .refl t⟩
  | works here works => exact exists_put .refl here (Subscription.conducts_works works).lasts ht

theorem lasts_leads {x y : Census σ} (h : Leads N x y) {j : Nat} {t : Subscription}
    (ht : x.registry.find? j = some t) : ∃ t', y.registry.find? j = some t' ∧ t.Lasts t' := by
  induction h with
  | refl => exact ⟨t, ht, .refl t⟩
  | tail _ hstep ih =>
    obtain ⟨t', ht', hlasts⟩ := ih
    obtain ⟨t'', ht'', hlasts'⟩ := lasts_steps hstep ht'
    exact ⟨t'', ht'', hlasts.trans hlasts'⟩

/-! ### Calls as steps -/

theorem leads_proceeds (here : r.started[i]? = some s)
    (h : Subscription.Proceeds N (s, w) (s', w')) : Leads N ⟨r, w, []⟩ ⟨r.put i s s', w', []⟩ := by
  generalize hlast : (s', w') = last at h
  induction h generalizing s' w' with
  | refl =>
    cases hlast
    rw [put_self here]
  | @tail mid _ hfirst hstep ih =>
    subst hlast
    have hstep' : Steps N ⟨r.put i s mid.1, mid.2, []⟩ _ := .works (getElem?_put_self here) hstep
    rw [put_put (Subscription.conducts_proceeds hfirst).departures_le
      (Subscription.conducts_works hstep).departures_le] at hstep'
    exact (ih rfl).tail hstep'

theorem leads_advances (h : Advances N (r, w) (r', w')) : Leads N ⟨r, w, []⟩ ⟨r', w', []⟩ := by
  generalize hlast : (r', w') = last at h
  induction h generalizing r' w' with
  | refl =>
    cases hlast
    exact .refl
  | tail _ hstep ih =>
    cases hstep with
    | one here stirs =>
      cases hlast
      exact (ih rfl).tail (.works here (.stirred stirs))

theorem leads_settle (r : Subscriptions) (w : Wire σ) :
    Leads N ⟨r, w, []⟩ ⟨(r.settle N w).1, (r.settle N w).2, []⟩ :=
  leads_advances (settle_advances r w)

theorem leads_act {request : Subscription.Request} {o : Option (Outcome Unit)}
    (h : r.act N (request.run N) i w = (o, r', w')) : Leads N ⟨r, w, []⟩ ⟨r', w', []⟩ := by
  unfold act at h
  split at h
  · cases h
    exact .refl
  · rename_i s here
    rcases hr : request.run N s w with ⟨o', s', w₁⟩
    simp only [hr] at h
    cases h
    exact (leads_proceeds here (Subscription.proceeds_request request hr)).trans (leads_settle ..)

theorem leads_start {topic : Topic} {names : List String} {p p' : Pool} {o : Outcome Nat}
    (h : r.start N topic names p w = (o, r', p', w')) : Leads N ⟨r, w, []⟩ ⟨r', w', []⟩ := by
  unfold Subscriptions.start at h
  rcases hs : Subscription.start N topic names p w with ⟨⟨o', sub⟩, p₁, w₁⟩
  simp only [hs] at h
  cases h
  -- The listener is started on a link of its own, and then it proceeds.
  have hbegun {link : Nat} {w₁ w₂ w₃ : Wire σ} {s : Subscription}
      (hconnect : w.connect N p.node = (.ok link, w₁))
      (hsend : w₁.send N link p.node.id (Subscription.command topic.joinCommand names) = (.ok (), w₂))
      (hproceeds : Subscription.Proceeds N (Subscription.fresh p link, w₂) (s, w₃)) :
      Leads N ⟨r, w, []⟩ ⟨r.add (some s), w₃, []⟩ := by
    have hconnected : Steps N ⟨r, w, []⟩ ⟨r, w₁, [] ++ p.dedicated link :: []⟩ := .connected hconnect
    have hstarted : Steps N ⟨r, w₁, [] ++ p.dedicated link :: []⟩
        ⟨r.add (some (Subscription.fresh p link)), w₂, [] ++ []⟩ := .begun hsend
    have here : (r.add (some (Subscription.fresh p link))).started[r.started.length]? =
        some (Subscription.fresh p link) := by simp
    have hleads := leads_proceeds here hproceeds
    rw [put_add rfl] at hleads
    exact .head hconnected (.head hstarted hleads)
  cases Subscription.start_launches hs with
  | unnamed => exact .refl
  | @unconnected f? _ _ hconnect =>
    have hquiet : w.Quiet w' := by
      cases f? with
      | some f => exact (Wire.connect_failed hconnect).2
      | none => exact Wire.connect_stalled hconnect
    exact .single (.elsewhere hquiet)
  | @unsent link _ f w₃ _ hconnect hsend =>
    have hconnected : Steps N ⟨r, w, []⟩ ⟨r, _, [] ++ p.dedicated link :: []⟩ := .connected hconnect
    have hclosed : Steps N ⟨r, _, [] ++ p.dedicated link :: []⟩
        ⟨r, (p.dedicated link).close N w₃, [] ++ []⟩ := .unsent hsend
    exact .head hconnected (.single hclosed)
  | established _ hconnect hsend hawaits =>
    exact hbegun hconnect hsend (Subscription.proceeds_awaitAcks hawaits)
  | @unanswered _ _ _ _ s w₃ _ hconnect hsend hawaits =>
    exact hbegun hconnect hsend
      ((Subscription.proceeds_awaitAcks hawaits).trans (Subscription.proceeds_drop s w₃))

/-- What calls do on a network that is overheard. -/
theorem leads_run (N : Network σ) (net : σ) (moves : List (Move σ)) :
    Leads N.overheard (start { net }) ⟨((Scene.start net).run N moves).registry,
      ((Scene.start net).run N moves).wire, []⟩ := by
  induction moves using List.reverseRecOn with
  | nil => exact .refl
  | append_singleton moves m ih =>
    rw [Scene.run_concat]
    generalize (Scene.start net).run N moves = s at ih ⊢
    refine ih.trans ?_
    cases m with
    | listen => exact leads_settle s.registry s.wire
    | meanwhile => exact .single (.elsewhere ⟨rfl, rfl⟩)
    | call c =>
      cases c with
      | start topic names pool => exact leads_start rfl
      | ask number request => exact leads_act rfl

/-- **Listeners end once**: however subscriptions are started, and whatever their listeners and their
holders do in whatever order, a listener that runs says that it is active, has an open link and has told of
no fault; one that has ended says so, told of its fault once and last, if it had one, took itself off the
counter once, and its link was closed once, and so it stays; and the counter that all of them share is
always the number of the listeners that run. Calls are such steps. -/
theorem listeners_end_once (N : Network σ) (net : σ) :
    (∀ x, Leads N (start net) x →
      (∀ s ∈ x.registry.started, s.EndsOnce x.wire) ∧
      x.registry.active = x.registry.started.countP (·.listener.ending.isNone) ∧
      ∀ y, Leads N x y → ∀ i s, x.registry.find? i = some s →
        ∃ s', y.registry.find? i = some s' ∧ s.Lasts s') ∧
    ∀ moves : List (Move σ), Leads N.overheard (start { net })
      ⟨((Scene.start net).run N moves).registry, ((Scene.start net).run N moves).wire, []⟩ := by
  refine ⟨fun x hx => ?_, leads_run N net⟩
  have hsound := (sound_start net).leads hx
  exact ⟨fun s hs => (hsound.regular s hs).endsOnce, hsound.counted,
    fun y hy i s hs => lasts_leads hy hs⟩

/-- Two listeners are started, and one of them is sent a rejection. -/
theorem one_of_two_ends :
    let later : Rehearsal.Stage := { links := [
      { node := "a:1/0", channels := [utf8 "a"], queue := [.value (.error "ERR no")] },
      { node := "a:1/0", channels := [utf8 "b"] }] }
    let pool : Pool := { node := { host := "a", port := 1 } }
    let moves : List (Move Rehearsal.Stage) := [.call (.start .channels ["a"] pool),
      .call (.start .channels ["b"] pool), .meanwhile later 0 none, .listen]
    let s := (Scene.start {}).run Rehearsal.network moves
    s.registry.started.map (·.listener.ending) = [some (.failed (.data "ERR no")), none] ∧
      s.registry.active = 1 ∧ ∀ t ∈ s.registry.started, t.EndsOnce s.wire := by
  intro later pool moves s
  have hending : s.registry.started.map (·.listener.ending) =
      [some (.failed (.data "ERR no")), none] := by decide +kernel
  have hleads : Leads Rehearsal.network.overheard (start { net := {} }) ⟨s.registry, s.wire, []⟩ :=
    (listeners_end_once Rehearsal.network {}).2 moves
  obtain ⟨hends, hactive, -⟩ := (listeners_end_once Rehearsal.network.overheard { net := {} }).1 _ hleads
  dsimp only at hends hactive
  refine ⟨hending, ?_, hends⟩
  have hrunning : (s.registry.started.map (·.listener.ending)).countP (·.isNone) = 1 := by
    rw [hending]
    rfl
  rw [List.countP_map] at hrunning
  exact hactive.trans hrunning

end Census

end Subscriptions

end ShardFleet
