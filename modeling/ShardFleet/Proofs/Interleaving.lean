import ShardFleet.Proofs.Pieces
import ShardFleet.Proofs.Requests
import ShardFleet.Proofs.Talks
import ShardFleet.Rehearsal.Servers

/-!
# Frames and commands in any order

A listener waits for the next frame and for the next command at the same time. Which of them comes
first is left to chance, and whenever a command comes first the wait for a frame is given up. Whatever
the order, those whom the listener serves are called for the frames that were heard, one by one, the
commands go out as they were given, and the count is the one that was reported last. On a network of
streams the frames that are heard are those that arrived, however many waits were given up in the
middle of one.
-/

namespace ShardFleet

/-! ### What a frame does to a listener -/

/-- What a frame makes a listener call for: a frame that is a notice for this notice, unless it is a
pong. -/
def Resp.Value.call? (v : Resp.Value) : Option Callback :=
  match Notice.ofFrame v with
  | .ok .pong | .error _ => none
  | .ok n => some (.notice n)

/-- How a frame ends a listener, if it does. -/
def Resp.Value.ending? (v : Resp.Value) : Option Ending :=
  match Notice.ofFrame v with
  | .ok (.left _ _ 0) => some .quiet
  | .ok _ => none
  | .error f => some (.failed f)

/-- The call that a listener makes for its end. -/
def Ending.call? : Ending → Option Callback
  | quiet => none
  | failed f => some (.failed f)

/-- The call that a listener has made for its end, if it has ended with a fault. -/
def Listener.lastCall (l : Listener) : List Callback := (l.ending.bind (·.call?)).toList

theorem Listener.lastCall_of_active {l : Listener} (active : l.isRunning = true) : l.lastCall = [] := by
  have hending : l.ending = none := by simpa [isRunning] using active
  rw [lastCall, hending]
  rfl

/-- A listener that runs does with a frame what the frame says. -/
theorem Listener.hear_active {l : Listener} (active : l.isRunning = true) (v : Resp.Value) :
    (l.hear v).1.ending = v.ending? ∧ (l.hear v).2 = v.call?.toList ++ (l.hear v).1.lastCall := by
  have hending : l.ending = none := by simpa [isRunning] using active
  unfold hear Resp.Value.ending? Resp.Value.call? lastCall
  cases Notice.ofFrame v with
  | error f => exact ⟨rfl, rfl⟩
  | ok n =>
    cases n with
    | left topic name count => cases count <;> simp [note, hending, Ending.call?]
    | _ => simp [note, hending]

namespace Subscription

variable {σ : Type} {N : Network σ}

/-! ### Turns -/

/-- Something that happens to a subscription. -/
inductive Turn (σ : Type) where
  /-- A command is given to the listener, which does not take it yet. -/
  | give (c : Command)
  /-- The listener waits for a frame. If none comes until a moment the wait is given up. -/
  | read (limit : Option Nat)
  /-- The listener takes the command that was given first. If there is none and nobody holds the
  subscription, the listener ends. -/
  | take
  /-- Somebody who waited for acknowledgements takes them. -/
  | collect (count : Nat)
  /-- Somebody is told how the listener ended. -/
  | learn
  /-- The holder lets go of the subscription. -/
  | release
  /-- The network and the time change by themselves, and so does the moment at which the next wait
  will be given up. -/
  | meanwhile (change : σ → σ) (clock : Nat) (deadline : Option Nat)

/-- The commands that are given in some turns. -/
def Turn.given (turns : List (Turn σ)) : List Command :=
  turns.filterMap fun
    | give c => some c
    | _ => none

/-- A subscription, the wire that it works on, and the commands that its listener was given and has not
taken yet. -/
structure Loop (σ : Type) where
  sub : Subscription
  wire : Wire (Overheard σ)
  waiting : List Command := []

namespace Loop

/-- The talk on the link of the subscription. -/
def talk (l : Loop σ) : Talk := Subscription.talk (l.sub, l.wire)

/-- A subscription whose listener has just been started. -/
def start (node : Node) (connection : Connection) (wire : Wire (Overheard σ)) : Loop σ :=
  ⟨{ node, connection }, wire, []⟩

/-- The subscription and the wire after something that was done with them. -/
def next (l : Loop σ) (x : Subscription × Wire (Overheard σ)) : Loop σ :=
  { l with sub := x.1, wire := x.2 }

section

variable (N : Network σ)

/-- The loop after its listener took a command, or found that there is none. -/
def take (l : Loop σ) : Loop σ :=
  match l.waiting with
  | c :: waiting => { l.next (l.sub.send N.overheard c l.wire) with waiting }
  | [] =>
    if l.sub.held then l
    else l.next (l.sub.stepped N.overheard (l.sub.listener.abandon, []) l.wire)

/-- The loop after a turn. A listener that has ended has no more turns. -/
def after (l : Loop σ) : Turn σ → Loop σ
  | .give c => { l with waiting := l.waiting ++ [c] }
  | .read limit =>
    if l.sub.listener.isRunning then l.next (l.sub.listen N.overheard limit l.wire).2 else l
  | .take => if l.sub.listener.isRunning then l.take N else l
  | .collect count =>
    let acks := l.sub.listener.acks - count
    { l with sub := { l.sub with listener := { l.sub.listener with acks } } }
  | .learn => { l with sub := { l.sub with told := true } }
  | .release => { l with sub := { l.sub with held := false } }
  | .meanwhile change clock deadline =>
    let net := { l.wire.net with net := change l.wire.net.net }
    { l with wire := { l.wire with net, clock, deadline } }

/-- The loop after some turns. -/
def run (l : Loop σ) (turns : List (Turn σ)) : Loop σ := turns.foldl (after N) l

end

theorem run_concat (l : Loop σ) (turns : List (Turn σ)) (t : Turn σ) :
    l.run N (turns ++ [t]) = (l.run N turns).after N t := by
  simp [run, List.foldl_append]

theorem run_append (l : Loop σ) (turns more : List (Turn σ)) :
    l.run N (turns ++ more) = (l.run N turns).run N more := by
  simp [run, List.foldl_append]

end Loop

/-! ### What a listener makes of its turns -/

/-- Whether a listener has done what it should with the commands that it was given, of which some are
still waiting, and with what was said and heard on its link since it was started. -/
structure Faithful (given waiting : List Command) (t : Talk) (s : Subscription) : Prop where
  /-- It called for every frame in turn, and then for its end. -/
  calls : s.calls = t.heard.filterMap (·.call?) ++ s.listener.lastCall
  /-- A frame that ends a listener is the last that it heard, and it ended as this frame says. -/
  last : ∀ before v after e, t.heard = before ++ v :: after → v.ending? = some e →
    after = [] ∧ s.listener.ending = some e
  /-- Commands went out as they were given. -/
  said : t.said <+: given
  /-- As long as it runs no command is lost. -/
  kept : s.listener.isRunning = true → given = t.said ++ waiting
  informed : s.Informed t
  /-- It ends quietly for a frame only, or when nobody holds the subscription. -/
  quiet : s.listener.ending = some .quiet →
    (∃ v, t.heard.getLast? = some v ∧ v.ending? = some .quiet) ∨ s.held = false

namespace Faithful

variable {given waiting : List Command} {t : Talk} {s s' : Subscription}

theorem fresh (node : Node) (connection : Connection) : Faithful [] [] [] { node, connection } where
  calls := rfl
  last before v after e h := by simp [Talk.heard] at h
  said := List.prefix_rfl
  kept _ := rfl
  informed := rfl
  quiet := nofun

/-- What the holder does changes nothing. -/
theorem same (h : Faithful given waiting t s) (hcalls : s'.calls = s.calls)
    (hending : s'.listener.ending = s.listener.ending)
    (hsubscribed : s'.listener.subscribed = s.listener.subscribed)
    (hheld : s.held = false → s'.held = false) : Faithful given waiting t s' where
  calls := by rw [hcalls, h.calls, Listener.lastCall, Listener.lastCall, hending]
  last := by
    rw [hending]
    exact h.last
  said := h.said
  kept hactive := h.kept (by rwa [Listener.isRunning, ← hending])
  informed := by
    rw [Informed, hsubscribed]
    exact h.informed
  quiet hquiet := (h.quiet (hending ▸ hquiet)).imp_right hheld

theorem give (h : Faithful given waiting t s) (c : Command) :
    Faithful (given ++ [c]) (waiting ++ [c]) t s where
  calls := h.calls
  last := h.last
  said := h.said.trans (List.prefix_append ..)
  kept hactive := by rw [h.kept hactive, List.append_assoc]
  informed := h.informed
  quiet := h.quiet

/-- As long as a listener runs it has heard nothing that would end it. -/
theorem unended (h : Faithful given waiting t s) (active : s.listener.isRunning = true) :
    ∀ v ∈ t.heard, v.ending? = none := by
  intro v hv
  obtain ⟨before, after, hsplit⟩ := List.append_of_mem hv
  cases he : v.ending? with
  | none => rfl
  | some e =>
    obtain ⟨-, hended⟩ := h.last before v after e hsplit he
    simp [Listener.isRunning, hended] at active

/-- A frame is heard. -/
theorem hear (h : Faithful given waiting t s) (active : s.listener.isRunning = true) (v : Resp.Value)
    (hends : s'.listener.ending = (s.listener.hear v).1.ending)
    (hsubscribed : s'.listener.subscribed = (s.listener.hear v).1.subscribed)
    (hcalls : s'.calls = s.calls ++ (s.listener.hear v).2) :
    Faithful given waiting (t ++ [.heard v]) s' := by
  obtain ⟨hending, hcalled⟩ := Listener.hear_active active v
  refine ⟨?_, fun before v' after e hsplit he => ?_, by simpa using h.said, fun hactive => ?_, ?_,
    fun hquiet => .inl ⟨v, ?_, ?_⟩⟩
  · rw [hcalls, h.calls, Listener.lastCall_of_active active, hcalled, Listener.lastCall, Listener.lastCall,
      hends, Talk.heard_append, List.filterMap_append, List.append_nil, List.append_assoc]
    cases hv : v.call? <;> simp [hv]
  · rw [Talk.heard_append, Talk.heard_heard] at hsplit
    obtain rfl | ⟨after', x, rfl⟩ := List.eq_nil_or_concat' after
    · obtain ⟨-, hv⟩ := List.append_inj' hsplit rfl
      obtain rfl : v = v' := by simpa using hv
      exact ⟨rfl, by rw [hends, hending, he]⟩
    · -- The frame was heard before, and the listener still ran.
      rw [← List.cons_append, ← List.append_assoc] at hsplit
      obtain ⟨hbefore, -⟩ := List.append_inj' hsplit rfl
      have hnone := h.unended active v' (by simp [hbefore])
      rw [he] at hnone
      cases hnone
  · rw [Talk.said_append, Talk.said_heard, List.append_nil]
    exact h.kept active
  · exact h.informed.heard (by rw [hsubscribed, Listener.hear_subscribed])
  · simp
  · rw [← hending, ← hends, hquiet]

/-- A command goes out. -/
theorem say {c : Command} (h : Faithful given (c :: waiting) t s)
    (active : s.listener.isRunning = true) : Faithful given waiting (t ++ [.said c]) s := by
  have hgiven : given = Talk.said (t ++ [.said c]) ++ waiting := by
    rw [h.kept active]
    simp
  refine ⟨?_, ?_, ?_, fun _ => hgiven, h.informed.said c, ?_⟩
  · simpa using h.calls
  · simpa using h.last
  · rw [hgiven]
    exact List.prefix_append ..
  · simpa using h.quiet

/-- The listener ends, and not for a frame. -/
theorem finish (h : Faithful given waiting t s) (active : s.listener.isRunning = true) (e : Ending)
    (hending : s'.listener.ending = some e) (hsubscribed : s'.listener.subscribed = s.listener.subscribed)
    (hcalls : s'.calls = s.calls ++ e.call?.toList) (hheld : e = .quiet → s'.held = false)
    (left : List Command) : Faithful given left t s' := by
  refine ⟨?_, fun before v after e' hsplit he => ?_, h.said, fun hactive => ?_, ?_,
    fun hquiet => .inr (hheld ?_)⟩
  · rw [hcalls, h.calls, Listener.lastCall_of_active active, Listener.lastCall, hending, List.append_nil]
    rfl
  · have hnone := h.unended active v (by simp [hsplit])
    rw [he] at hnone
    cases hnone
  · simp [Listener.isRunning, hending] at hactive
  · rw [Informed, hsubscribed]
    exact h.informed
  · rw [hending] at hquiet
    exact Option.some.inj hquiet

end Faithful

namespace Loop

variable {given : List Command} {t : Talk} {l : Loop σ}

/-- Whether a loop goes on from another with something more said or heard on its link, and its listener
has been faithful to all of it. -/
def Continues (given : List Command) (t : Talk) (l l' : Loop σ) : Prop :=
  ∃ u : Talk, l'.talk = l.talk ++ u ∧ Faithful given l'.waiting (t ++ u) l'.sub

theorem Continues.silent {l' : Loop σ} (htalk : l'.talk = l.talk)
    (h : Faithful given l'.waiting t l'.sub) : Continues given t l l' :=
  ⟨[], by rw [htalk, List.append_nil], by rwa [List.append_nil]⟩

theorem continues_read (h : Faithful given l.waiting t l.sub) (active : l.sub.listener.isRunning = true)
    (limit : Option Nat) :
    Continues given t l (l.next (l.sub.listen N.overheard limit l.wire).2) := by
  unfold listen
  rcases hr : l.wire.receiveBefore N.overheard limit l.sub.connection.link with ⟨v | f | _, w⟩ <;>
    dsimp only
  · obtain ⟨-, htalks⟩ := talks_of_heard hr
    have hfirst := stepped_fst (N := N.overheard) (l.sub.listener.hear v) l.sub w
    refine ⟨[.heard v], ?_, h.hear active v (by rw [next, hfirst]) (by rw [next, hfirst])
      (by rw [next, hfirst])⟩
    exact (talk_stepped ..).trans (by rw [htalks, Function.update_self]; rfl)
  · obtain ⟨-, htalks⟩ := talks_of_unheard hr fun _ => nofun
    have hfirst := stepped_fst (N := N.overheard) (l.sub.listener.fail f) l.sub w
    refine .silent ((talk_stepped ..).trans (by rw [htalks]; rfl)) ?_
    exact h.finish active (.failed f) (by rw [next, hfirst]; rfl) (by rw [next, hfirst]; rfl)
      (by rw [next, hfirst]; rfl) nofun _
  · obtain ⟨-, htalks⟩ := talks_of_unheard hr fun _ => nofun
    exact .silent (congrFun htalks _) (h.same rfl rfl rfl id)

theorem continues_take (h : Faithful given l.waiting t l.sub) (active : l.sub.listener.isRunning = true) :
    Continues given t l (l.take N) := by
  unfold take
  split
  · rename_i c waiting hwaiting
    rw [hwaiting] at h
    obtain ⟨hsame, htalk⟩ | ⟨f, hfailed, htalk⟩ := send_cases (N := N) c l.sub l.wire
    · refine ⟨[.said c], htalk, ?_⟩
      simpa only [next, hsame] using h.say active
    · obtain htalk | htalk := htalk
      · exact ⟨[.said c], htalk, (h.say active).finish active (.failed f) (by rw [next, hfailed]; rfl)
          (by rw [next, hfailed]; rfl) (by rw [next, hfailed]; rfl) nofun _⟩
      · exact .silent htalk (h.finish active (.failed f) (by rw [next, hfailed]; rfl)
          (by rw [next, hfailed]; rfl) (by rw [next, hfailed]; rfl) nofun _)
  · split
    · exact .silent rfl h
    · rename_i unheld
      have hfirst := stepped_fst (N := N.overheard) (l.sub.listener.abandon, []) l.sub l.wire
      refine .silent (talk_stepped ..) (h.finish active .quiet (by rw [next, hfirst]; rfl)
        (by rw [next, hfirst]; rfl) (by rw [next, hfirst]; rfl) (fun _ => ?_) _)
      rw [next, hfirst]
      simpa using unheld

/-- One turn keeps a listener faithful. -/
theorem continues_after (h : Faithful given l.waiting t l.sub) (turn : Turn σ) :
    Continues (given ++ Turn.given [turn]) t l (l.after N turn) := by
  cases turn with
  | give c => exact .silent rfl (h.give c)
  | read limit =>
    simp only [after, Turn.given, List.filterMap_cons, List.filterMap_nil, List.append_nil]
    split
    · exact continues_read h ‹_› limit
    · exact .silent rfl h
  | take =>
    simp only [after, Turn.given, List.filterMap_cons, List.filterMap_nil, List.append_nil]
    split
    · exact continues_take h ‹_›
    · exact .silent rfl h
  | collect | learn | meanwhile =>
    simp only [Turn.given, List.filterMap_cons, List.filterMap_nil, List.append_nil]
    exact .silent rfl (h.same rfl rfl rfl id)
  | release =>
    simp only [Turn.given, List.filterMap_cons, List.filterMap_nil, List.append_nil]
    exact .silent rfl (h.same rfl rfl rfl fun _ => rfl)

theorem continues_run (node : Node) (connection : Connection) (w : Wire (Overheard σ))
    (turns : List (Turn σ)) :
    Continues (Turn.given turns) [] (start node connection w) ((start node connection w).run N turns) := by
  induction turns using List.reverseRecOn with
  | nil => exact .silent rfl (.fresh node connection)
  | append_singleton turns turn ih =>
    obtain ⟨u, htalk, hfaithful⟩ := ih
    obtain ⟨u', htalk', hfaithful'⟩ := continues_after (N := N) hfaithful turn
    rw [run_concat]
    refine ⟨u ++ u', by rw [htalk', htalk, List.append_assoc], ?_⟩
    rwa [Turn.given, List.filterMap_append, ← List.append_assoc]

end Loop

end Subscription

namespace Subscription

/-! ### Requests as turns -/

variable {s s' : Subscription} {w w' : Wire (Overheard σ)}

/-- Whether turns lead from one moment to another, at both of which no command is waiting. -/
def Comes (N : Network σ) (x y : Subscription × Wire (Overheard σ)) : Prop :=
  ∃ turns, (Loop.mk x.1 x.2 []).run N turns = ⟨y.1, y.2, []⟩

theorem Comes.refl (x : Subscription × Wire (Overheard σ)) : Comes N x x := ⟨[], rfl⟩

theorem Comes.trans {x y z : Subscription × Wire (Overheard σ)} (h : Comes N x y) (h' : Comes N y z) :
    Comes N x z := by
  obtain ⟨turns, hturns⟩ := h
  obtain ⟨more, hmore⟩ := h'
  exact ⟨turns ++ more, by rw [Loop.run_append, hturns, hmore]⟩

theorem comes_stirs {x y : Subscription × Wire (Overheard σ)} (h : Stirs N.overheard x y) :
    Comes N x y := by
  cases h with
  | @heard s w limit v w' active arrived =>
    exact ⟨[.read limit], by simp [Loop.run, Loop.after, Loop.next, active, listen, arrived]⟩
  | @lost s w limit f w' active failed =>
    exact ⟨[.read limit], by simp [Loop.run, Loop.after, Loop.next, active, listen, failed]⟩
  | @waited s w limit w' active nothing =>
    exact ⟨[.read limit], by simp [Loop.run, Loop.after, Loop.next, active, listen, nothing]⟩
  | abandoned active unheld =>
    exact ⟨[.take], by simp [Loop.run, Loop.after, Loop.take, Loop.next, active, unheld]⟩

theorem comes_works {x y : Subscription × Wire (Overheard σ)} (h : Works N.overheard x y) :
    Comes N x y := by
  cases h with
  | stirred stirs => exact comes_stirs stirs
  | commanded active c =>
    -- The command is given to the listener, and taken at once.
    exact ⟨[.give c, .take], by simp [Loop.run, Loop.after, Loop.take, Loop.next, active]⟩
  | collected count => exact ⟨[.collect count], rfl⟩
  | learned => exact ⟨[.learn], rfl⟩
  | released => exact ⟨[.release], rfl⟩

theorem comes_proceeds {x y : Subscription × Wire (Overheard σ)} (h : Proceeds N.overheard x y) :
    Comes N x y := by
  induction h with
  | refl => exact .refl x
  | tail _ hstep ih => exact ih.trans (comes_works hstep)

/-- **Requests are turns**: what is asked of a subscription is done in turns of its loop, so all that
holds whatever the turns are holds of it. -/
theorem request_comes (request : Request) {r : Outcome Unit}
    (h : request.run N.overheard s w = (r, s', w')) : Comes N (s, w) (s', w') :=
  comes_proceeds (proceeds_request request h)

/-- A subscription that was started has come there from a listener that had heard nothing. -/
theorem start_comes {topic : Topic} {names : List String} {p p' : Pool} {r : Started}
    (h : start N.overheard topic names p w = (r, p', w')) (hs : r.subscription = some s) :
    ∃ node connection w₁, Comes N ({ node, connection }, w₁) (s, w') := by
  cases start_launches h with
  | unnamed | unconnected | unsent => cases hs
  | @established link _ w₁ _ _ _ _ _ awaits =>
    cases hs
    exact ⟨p.node, p.dedicated link, w₁, comes_proceeds (proceeds_awaitAcks awaits)⟩
  | @unanswered link _ w₁ _ s₁ w₂ _ _ _ awaits =>
    cases hs
    exact ⟨p.node, p.dedicated link, w₁,
      comes_proceeds ((proceeds_awaitAcks awaits).trans (proceeds_drop s₁ w₂))⟩

end Subscription

/-! ### On streams -/

theorem Resp.Takes.trans {b rest rest' : Bytes} {vs us : List Value} (h : Takes b vs rest)
    (h' : Takes rest us rest') : Takes b (vs ++ us) rest' := by
  induction h with
  | nil => exact h'
  | cons frame _ ih => exact .cons frame (ih h')

namespace Stream

variable {σ : Type} {B : ByteNetwork σ} {patience : Option Nat} {link : Nat}

/-- Whether some values are, in order, the frames at the front of what a link had kept and of what has
arrived on it since, and all that follows them is kept. -/
def Yields (link : Nat) (vs : List Resp.Value) (s s' : State (Logged σ)) : Prop :=
  ∀ l, s.links.find? link = some l → ∃ l' chunk, s'.links.find? link = some l' ∧
    (s'.net.script link).arrived = (s.net.script link).arrived ++ chunk ∧
    Resp.Takes (l.buffer ++ chunk) vs l'.buffer

theorem Yields.silence {s s' : State (Logged σ)} (hlinks : s'.links.find? link = s.links.find? link)
    (harrived : (s'.net.script link).arrived = (s.net.script link).arrived) : Yields link [] s s' :=
  fun l hl => ⟨l, [], hlinks.trans hl, by simpa using harrived, by simpa using .nil _⟩

theorem Yields.trans {s₁ s₂ s₃ : State (Logged σ)} {vs us : List Resp.Value}
    (h : Yields link vs s₁ s₂) (h' : Yields link us s₂ s₃) : Yields link (vs ++ us) s₁ s₃ := by
  intro l hl
  obtain ⟨l', chunk, hl', harrived, htakes⟩ := h l hl
  obtain ⟨l'', chunk', hl'', harrived', htakes'⟩ := h' l' hl'
  refine ⟨l'', chunk ++ chunk', hl'', by rw [harrived', harrived, List.append_assoc], ?_⟩
  rw [← List.append_assoc]
  exact (htakes.append chunk').trans htakes'

/-- Waiting for a frame yields the frame, and if the wait is given up nothing that arrived is lost. -/
theorem yields_receive {now t : Nat} {deadline : Option Nat} {s s' : State (Logged σ)}
    {r : Outcome Resp.Value}
    (h : (network B.logged patience).receive link now deadline s = (r, t, s')) :
    Yields link r.value?.toList s s' := by
  intro l hl
  simp only [network, bare, hl] at h
  rcases hf : frame B.logged (B.logged.pending link s.net + 1) link l now deadline s.net with
    ⟨r₁, l', t₁, net⟩
  obtain ⟨chunk, hhears, htaking⟩ := frame_taking hf
  rw [hf] at h
  cases h
  refine ⟨l', chunk, Table.find?_insert_self .., by rw [hhears.arrived], ?_⟩
  cases r₁ with
  | ok v => exact .cons (htaking.found v rfl) (.nil _)
  | failed | stalled =>
    rw [(htaking.unfound rfl).1]
    exact .nil _

theorem yields_send {c : Command} {now : Nat} {s s' : State (Logged σ)} {r : Sending}
    (h : (network B.logged patience).send link c now s = (r, s')) : Yields link [] s s' := by
  intro l hl
  simp only [network, bare, hl, ByteNetwork.logged] at h
  have hsilent (net : σ) : Yields link [] s ⟨s.net.record net [.wrote link c.encode], s.links⟩ :=
    .silence rfl (by simp [Transcript.add])
  rcases hw : B.write link c.encode now s.net.net with ⟨reason | _, net⟩ <;> simp only [hw] at h <;>
    cases h <;> exact hsilent net l hl

theorem yields_close (B : ByteNetwork σ) (patience : Option Nat) (now : Nat) (s : State (Logged σ)) :
    Yields link [] s ((network B.logged patience).close link now s) := by
  have hsame := close_same B patience link now s
  exact .silence (by rw [hsame.links]) (by rw [hsame.script])

end Stream

namespace Subscription

variable {σ : Type} {N : Network σ}

/-- What is heard on an overheard network is what the network answers. -/
theorem overheard_receive {limit : Option Nat} {link : Nat} {w w' : Wire (Overheard σ)}
    {r : Outcome Resp.Value} (h : w.receiveBefore N.overheard limit link = (r, w')) :
    (∃ t, N.receive link w.clock (earlier limit w.deadline) w.net.net = (r, t, w'.net.net)) ∧
      w'.net.talks link = w.net.talks link ++ r.value?.toList.map .heard := by
  simp only [Wire.receiveBefore, Network.overheard] at h
  rcases hr : N.receive link w.clock (earlier limit w.deadline) w.net.net with ⟨v | f | _, t, net⟩ <;>
    simp only [hr] at h <;> cases h
  · exact ⟨⟨t, rfl⟩, Function.update_self ..⟩
  all_goals exact ⟨⟨t, rfl⟩, (List.append_nil _).symm⟩

/-- Nothing is heard while a command is sent. -/
theorem overheard_send {link : Nat} {node : String} {c : Command} {w w' : Wire (Overheard σ)}
    {r : Except Fault Unit} (h : w.send N.overheard link node c = (r, w')) :
    (∃ r', N.send link c w.clock w.net.net = (r', w'.net.net)) ∧
      ∃ u : Talk, w'.net.talks link = w.net.talks link ++ u ∧ u.heard = [] := by
  have htalks := (talks_of_send h).2
  constructor
  · simp only [Wire.send, Network.overheard] at h
    rcases hs : N.send link c w.clock w.net.net with ⟨_ | f | f, net⟩ <;> simp only [hs] at h <;>
      cases h <;> exact ⟨_, rfl⟩
  · obtain htalks | ⟨htalks, -⟩ := htalks <;> rw [htalks]
    · exact ⟨[.said c], Function.update_self .., rfl⟩
    · exact ⟨[], (List.append_nil _).symm, rfl⟩

variable {B : ByteNetwork σ} {patience : Option Nat}

/-- Whether a turn leaves a link and what passed over it alone, unless the subscription does something
there. -/
def Turn.Spares (link : Nat) : Turn (Stream.State (Logged σ)) → Prop
  | meanwhile change .. => ∀ s,
      (change s).links.find? link = s.links.find? link ∧ (change s).net.script link = s.net.script link
  | _ => True

namespace Loop

variable {l : Loop (Stream.State (Logged σ))}

/-- Whether a loop goes on from another, and what was heard on its link is what arrived there. -/
structure Delivers (l l' : Loop (Stream.State (Logged σ))) : Prop where
  connection : l'.sub.connection = l.sub.connection
  yields : ∃ u : Talk, l'.talk = l.talk ++ u ∧
    Stream.Yields l.sub.connection.link u.heard l.wire.net.net l'.wire.net.net

theorem Delivers.refl (l : Loop (Stream.State (Logged σ))) : Delivers l l :=
  ⟨rfl, [], (List.append_nil _).symm, .silence rfl rfl⟩

theorem Delivers.trans {l' l'' : Loop (Stream.State (Logged σ))} (h : Delivers l l')
    (h' : Delivers l' l'') : Delivers l l'' := by
  obtain ⟨hconnection, u, htalk, hyields⟩ := h
  obtain ⟨hconnection', u', htalk', hyields'⟩ := h'
  rw [hconnection] at hyields'
  refine ⟨hconnection'.trans hconnection, u ++ u', by rw [htalk', htalk, List.append_assoc], ?_⟩
  rw [Talk.heard_append]
  exact hyields.trans hyields'

/-- A step of a listener may close its link, on which nothing is heard then. -/
theorem delivers_stepped (r : Listener × List Callback) {w : Wire (Overheard (Stream.State (Logged σ)))}
    {u : Talk} (htalk : w.net.talks l.sub.connection.link = l.talk ++ u)
    (hyields : Stream.Yields l.sub.connection.link u.heard l.wire.net.net w.net.net) :
    Delivers l (l.next (l.sub.stepped (Stream.network B.logged patience).overheard r w)) := by
  refine ⟨by rw [next, stepped_fst], u, (talk_stepped ..).trans htalk, ?_⟩
  unfold stepped next
  dsimp only
  split
  · exact hyields
  · have hclosed := hyields.trans (Stream.yields_close B patience w.clock w.net.net)
    rwa [List.append_nil] at hclosed

theorem delivers_read (limit : Option Nat) : Delivers l
    (l.next (l.sub.listen (Stream.network B.logged patience).overheard limit l.wire).2) := by
  unfold listen
  rcases hr : l.wire.receiveBefore (Stream.network B.logged patience).overheard limit
    l.sub.connection.link with ⟨v | f | _, w⟩ <;> obtain ⟨⟨t, hreceive⟩, htalk⟩ := overheard_receive hr <;>
    have hyields := Stream.yields_receive hreceive <;> dsimp only
  · exact delivers_stepped _ htalk hyields
  · exact delivers_stepped _ htalk hyields
  · exact ⟨rfl, _, htalk, hyields⟩

theorem delivers_take : Delivers l (l.take (Stream.network B.logged patience)) := by
  unfold take
  split
  · rename_i c waiting hwaiting
    unfold send Connection.send
    rcases hs : l.wire.send (Stream.network B.logged patience).overheard l.sub.connection.link
      l.sub.connection.node c with ⟨f | _, w⟩ <;>
      obtain ⟨⟨r, hsend⟩, u, htalk, hheard⟩ := overheard_send hs <;>
      have hyields := Stream.yields_send hsend <;> rw [← hheard] at hyields <;> dsimp only
    · have hdelivers : Delivers l (l.next (l.sub.stepped (Stream.network B.logged patience).overheard
          (l.sub.listener.fail f) w)) := delivers_stepped _ htalk hyields
      exact ⟨hdelivers.connection, hdelivers.yields⟩
    · exact ⟨rfl, u, htalk, hyields⟩
  · split
    · exact .refl l
    · exact delivers_stepped (u := []) _ (List.append_nil _).symm (.silence rfl rfl)

theorem delivers_after {turn : Turn (Stream.State (Logged σ))}
    (spares : turn.Spares l.sub.connection.link) :
    Delivers l (l.after (Stream.network B.logged patience) turn) := by
  cases turn with
  | read limit =>
    simp only [after]
    split
    · exact delivers_read limit
    · exact .refl l
  | take =>
    simp only [after]
    split
    · exact delivers_take
    · exact .refl l
  | meanwhile change clock deadline =>
    obtain ⟨hlinks, hscript⟩ := spares l.wire.net.net
    exact ⟨rfl, [], (List.append_nil _).symm, .silence hlinks (congrArg Transcript.arrived hscript)⟩
  | give | collect | learn | release => exact ⟨rfl, [], (List.append_nil _).symm, .silence rfl rfl⟩

theorem delivers_run {turns : List (Turn (Stream.State (Logged σ)))}
    (spares : ∀ turn ∈ turns, turn.Spares l.sub.connection.link) :
    Delivers l (l.run (Stream.network B.logged patience) turns) := by
  induction turns using List.reverseRecOn with
  | nil => exact .refl l
  | append_singleton turns turn ih =>
    have hbefore := ih fun turn hturn => spares turn (List.mem_append_left _ hturn)
    rw [run_concat]
    refine hbefore.trans (delivers_after ?_)
    rw [hbefore.connection]
    exact spares turn (by simp)

/-- **A listener loses, repeats and reorders nothing**, whatever its turns are. It calls for the frames
that it hears, one by one up to one that ends it, and then at most once, for its end; commands go out on
its link as they were given; and it knows the count that was reported last. Where links are streams, the
frames that it hears are those that arrive, in order, and what makes no frame yet when a wait is given up
is kept. -/
theorem turns_lose_nothing :
    (∀ {σ : Type} (N : Network σ) (node : Node) (connection : Connection) (w : Wire (Overheard σ))
      (turns : List (Turn σ)),
      ∃ t : Talk,
        ((start node connection w).run N turns).talk = (start node connection w).talk ++ t ∧
        Faithful (Turn.given turns) ((start node connection w).run N turns).waiting t
          ((start node connection w).run N turns).sub) ∧
    ∀ {σ : Type} (B : ByteNetwork σ) (patience : Option Nat) (node : Node) (connection : Connection)
      (w : Wire (Overheard (Stream.State (Logged σ)))) (turns : List (Turn (Stream.State (Logged σ)))),
      (∀ turn ∈ turns, turn.Spares connection.link) → ∀ t : Talk,
        ((start node connection w).run (Stream.network B.logged patience) turns).talk =
          (start node connection w).talk ++ t →
        Stream.Yields connection.link t.heard w.net.net
          ((start node connection w).run (Stream.network B.logged patience) turns).wire.net.net := by
  refine ⟨fun N node connection w turns => continues_run node connection w turns,
    fun B patience node connection w turns spares t htalk => ?_⟩
  have hdelivers : Delivers (start node connection w)
      ((start node connection w).run (Stream.network B.logged patience) turns) := delivers_run spares
  obtain ⟨u, htalk', hyields⟩ := hdelivers.yields
  rwa [List.append_cancel_left (htalk.symm.trans htalk')]

/-- A wait is given up in the middle of a message, and a command comes first. -/
theorem message_heard_after_command : ∃ (w : Wire (Overheard (Stream.State (Logged Rehearsal.Servers))))
    (connection : Connection) (turns : List (Turn (Stream.State (Logged Rehearsal.Servers)))) (t : Talk),
    (∀ turn ∈ turns, turn.Spares connection.link) ∧
    ((start { host := "a", port := 1 } connection w).run
      (Stream.network Rehearsal.streams.logged none) turns).talk =
        (start { host := "a", port := 1 } connection w).talk ++ t ∧
    t = [.said (.of "UNSUBSCRIBE" [utf8 "c"]),
      .heard (.array [.bulk (utf8 "message"), .bulk (utf8 "c"), .bulk (utf8 "d")])] ∧
    Stream.Yields connection.link t.heard w.net.net
      ((start { host := "a", port := 1 } connection w).run
        (Stream.network Rehearsal.streams.logged none) turns).wire.net.net := by
  let peer : Rehearsal.Peer := {
    server := 0
    arrivals := [(0, some (utf8 "*3\r\n$7\r\nmess")), (5, some (utf8 "age\r\n$1\r\nc\r\n$1\r\nd\r\n"))] }
  let w : Wire (Overheard (Stream.State (Logged Rehearsal.Servers))) := {
    net := { net := {
      net := { net := { servers := [], peers := (∅ : Table Nat Rehearsal.Peer).insert 0 peer } }
      links := (∅ : Table Nat Stream.Link).insert 0 { node := "a:1/0" } } }
    opened := 1 }
  let connection : Connection := { id := 0, node := "a:1/0", link := 0, dedicated := true }
  let turns : List (Turn (Stream.State (Logged Rehearsal.Servers))) :=
    [.read (some 2), .give (.of "UNSUBSCRIBE" [utf8 "c"]), .take, .read none]
  have hspares : ∀ turn ∈ turns, turn.Spares connection.link := by simp [turns, Turn.Spares]
  let t : Talk := [.said (.of "UNSUBSCRIBE" [utf8 "c"]),
    .heard (.array [.bulk (utf8 "message"), .bulk (utf8 "c"), .bulk (utf8 "d")])]
  have htalk : ((start { host := "a", port := 1 } connection w).run
      (Stream.network Rehearsal.streams.logged none) turns).talk =
        (start { host := "a", port := 1 } connection w).talk ++ t := by
    decide +kernel
  exact ⟨w, connection, turns, t, hspares, htalk, rfl,
    turns_lose_nothing.2 Rehearsal.streams none _ connection w turns hspares t htalk⟩

end Loop

end Subscription

end ShardFleet
