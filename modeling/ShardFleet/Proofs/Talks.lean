import ShardFleet.Proofs.ClientCalls
import ShardFleet.Proofs.Listening

/-!
# What is said and heard on a link

A network can be overheard: what is said and heard on each of its links is written down, and nothing
else changes. A subscription then says on its own link only what it is asked for, and its listener
knows what was heard there: the count that was reported last, and how many acknowledgements nobody has
waited for yet. As long as the listener runs, these are the acknowledgements that were heard less the
names that were asked for.
-/

namespace ShardFleet

variable {σ : Type} {N : Network σ}

/-! ### Talks -/

/-- Something that is said or heard on a link. -/
inductive Utterance where
  | said (c : Command)
  | heard (v : Resp.Value)
deriving DecidableEq, Repr

/-- What is said and heard on a link, in order. -/
abbrev Talk := List Utterance

/-- A network and the talks on its links. -/
structure Overheard (σ : Type) where
  net : σ
  talks : Nat → Talk := fun _ => []

/-- The network after something more is said or heard on a link. -/
def Overheard.add (link : Nat) (u : Utterance) (s : Overheard σ) : Overheard σ :=
  { s with talks := Function.update s.talks link (s.talks link ++ [u]) }

/-- A network that is overheard. A command that went out is said, even if the link broke under it. -/
def Network.overheard (N : Network σ) : Network (Overheard σ) where
  connect link node now deadline s :=
    match N.connect link node now deadline s.net with
    | (r, t, net) => (r, t, { s with net })
  send link c now s :=
    match N.send link c now s.net with
    | (.refused f, net) => (.refused f, { s with net })
    | (r, net) => (r, { s with net }.add link (.said c))
  receive link now deadline s :=
    match N.receive link now deadline s.net with
    | (.ok v, t, net) => (.ok v, t, { s with net }.add link (.heard v))
    | (r, t, net) => (r, t, { s with net })
  close link now s := { s with net := N.close link now s.net }
  patience := N.patience
  backlog link s := N.backlog link s.net

/-- The topic that a command joins. -/
def Command.joins? (c : Command) : Option Topic :=
  [Topic.channels, .patterns].find? (·.joinCommand = c.name)

theorem Topic.toUpper_joinCommand (t : Topic) : t.joinCommand.map Char.toUpper = t.joinCommand := by
  cases t <;> decide +kernel

theorem Topic.toUpper_leaveCommand (t : Topic) : t.leaveCommand.map Char.toUpper = t.leaveCommand := by
  cases t <;> decide +kernel

/-- How many names a command asks to join. -/
def Command.asks (c : Command) : Nat := if c.joins?.isSome then c.args.length else 0

/-- Whether a frame acknowledges that a name was joined. -/
def Resp.Value.joins (v : Resp.Value) : Bool :=
  match Notice.ofFrame v with
  | .ok (.joined ..) => true
  | _ => false

/-- The count that a frame reports. -/
def Resp.Value.count? (v : Resp.Value) : Option Nat :=
  match Notice.ofFrame v with
  | .ok (.joined _ _ count) | .ok (.left _ _ count) => some count
  | _ => none

namespace Talk

/-- What was said. -/
def said (t : Talk) : List Command :=
  t.filterMap fun
    | .said c => some c
    | .heard _ => none

/-- What was heard. -/
def heard (t : Talk) : List Resp.Value :=
  t.filterMap fun
    | .said _ => none
    | .heard v => some v

/-- How many names were asked for. -/
def asked (t : Talk) : Nat := (t.said.map (·.asks)).sum

/-- How many joined names were acknowledged. -/
def joined (t : Talk) : Nat := t.heard.countP (·.joins)

/-- The count that was reported last. -/
def reported (t : Talk) : Nat := (t.heard.filterMap (·.count?)).getLast?.getD 0

section

variable (t : Talk) (c : Command) (v : Resp.Value)

@[simp] theorem said_append (u : Talk) : (t ++ u).said = t.said ++ u.said := List.filterMap_append

@[simp] theorem heard_append (u : Talk) : (t ++ u).heard = t.heard ++ u.heard := List.filterMap_append

@[simp] theorem said_said : said [.said c] = [c] := rfl

@[simp] theorem said_heard : said [.heard v] = [] := rfl

@[simp] theorem heard_said : heard [.said c] = [] := rfl

@[simp] theorem heard_heard : heard [.heard v] = [v] := rfl

end

end Talk

/-! ### What a subscription knows of its link -/

namespace Subscription

/-- Whether so many names that were asked for are still to be acknowledged, besides those whose
acknowledgements nobody has waited for yet. -/
def Awaits (s : Subscription) (t : Talk) (count : Int) : Prop :=
  (s.listener.acks + t.asked : Int) = t.joined + count

/-- Whether the listener knows the count that was reported last. -/
def Informed (s : Subscription) (t : Talk) : Prop := s.listener.subscribed = t.reported

end Subscription

theorem Listener.hear_acks (l : Listener) (v : Resp.Value) :
    (l.hear v).1.acks = l.acks + if v.joins then 1 else 0 := by
  unfold hear Resp.Value.joins
  cases Notice.ofFrame v with
  | error => rfl
  | ok n => cases n <;> rfl

theorem Listener.hear_subscribed (l : Listener) (v : Resp.Value) :
    (l.hear v).1.subscribed = v.count?.getD l.subscribed := by
  unfold hear Resp.Value.count?
  cases Notice.ofFrame v with
  | error => rfl
  | ok n => cases n <;> rfl

namespace Subscription

variable {s s' : Subscription} {t : Talk} {k : Int}

theorem Awaits.heard (h : s.Awaits t k) {v : Resp.Value}
    (hacks : s'.listener.acks = s.listener.acks + if v.joins then 1 else 0) :
    s'.Awaits (t ++ [.heard v]) k := by
  have hjoined : Talk.joined (t ++ [.heard v]) = t.joined + if v.joins then 1 else 0 := by
    simp [Talk.joined]
  have hasked : Talk.asked (t ++ [.heard v]) = t.asked := by simp [Talk.asked]
  simp only [Awaits, hjoined, hasked, hacks] at h ⊢
  omega

theorem Awaits.said (h : s.Awaits t k) (c : Command) : s.Awaits (t ++ [.said c]) (k + c.asks) := by
  have hjoined : Talk.joined (t ++ [.said c]) = t.joined := by simp [Talk.joined]
  have hasked : Talk.asked (t ++ [.said c]) = t.asked + c.asks := by simp [Talk.asked]
  simp only [Awaits, hjoined, hasked] at h ⊢
  omega

theorem Informed.heard (h : s.Informed t) {v : Resp.Value}
    (hcount : s'.listener.subscribed = v.count?.getD s.listener.subscribed) :
    s'.Informed (t ++ [.heard v]) := by
  simp only [Informed, Talk.reported] at h ⊢
  rw [hcount, h, Talk.heard_append, Talk.heard_heard, List.filterMap_append, List.getLast?_append]
  cases hv : v.count? <;> simp [hv]

theorem Informed.said (h : s.Informed t) (c : Command) : s.Informed (t ++ [.said c]) := by
  simpa only [Informed, Talk.reported, Talk.heard_append, Talk.heard_said, List.append_nil] using h

/-! ### On one's own link -/

/-- The talk on the link of a subscription. -/
def talk (x : Subscription × Wire (Overheard σ)) : Talk := x.2.net.talks x.1.connection.link

/-- Whether nothing was said or heard between two moments but on the link of a subscription, and no link
was made. -/
structure OwnLink (x y : Subscription × Wire (Overheard σ)) : Prop where
  connection : y.1.connection = x.1.connection
  opened : y.2.opened = x.2.opened
  others : ∀ link ≠ x.1.connection.link, y.2.net.talks link = x.2.net.talks link
  grows : talk x <+: talk y

/-- Whether a subscription only listened between two moments, and took note of all that it heard. -/
structure Hears (x y : Subscription × Wire (Overheard σ)) : Prop where
  connection : y.1.connection = x.1.connection
  heard : ∃ vs : List Resp.Value, talk y = talk x ++ vs.map .heard
  awaits : ∀ k, x.1.Awaits (talk x) k → y.1.Awaits (talk y) k
  informed : x.1.Informed (talk x) → y.1.Informed (talk y)
  active : y.1.listener.isRunning = true → x.1.listener.isRunning = true

section

variable {x y z : Subscription × Wire (Overheard σ)}

theorem OwnLink.refl (x : Subscription × Wire (Overheard σ)) : OwnLink x x :=
  ⟨rfl, rfl, fun _ _ => rfl, List.prefix_rfl⟩

theorem OwnLink.trans (h : OwnLink x y) (h' : OwnLink y z) : OwnLink x z where
  connection := h'.connection.trans h.connection
  opened := h'.opened.trans h.opened
  others link hlink := (h'.others link (h.connection ▸ hlink)).trans (h.others link hlink)
  grows := h.grows.trans h'.grows

theorem Hears.refl (x : Subscription × Wire (Overheard σ)) : Hears x x :=
  ⟨rfl, ⟨[], by simp⟩, fun _ => id, id, id⟩

theorem Hears.trans (h : Hears x y) (h' : Hears y z) : Hears x z where
  connection := h'.connection.trans h.connection
  heard := by
    obtain ⟨vs, hvs⟩ := h.heard
    obtain ⟨vs', hvs'⟩ := h'.heard
    exact ⟨vs ++ vs', by rw [hvs', hvs, List.map_append, List.append_assoc]⟩
  awaits k := h'.awaits k ∘ h.awaits k
  informed := h'.informed ∘ h.informed
  active := h.active ∘ h'.active

/-- Where the talk stays the same, so do the counts, and the listener stays ended if it has. -/
theorem Hears.of_same (hconnection : y.1.connection = x.1.connection) (htalk : talk y = talk x)
    (hacks : y.1.listener.acks = x.1.listener.acks)
    (hsubscribed : y.1.listener.subscribed = x.1.listener.subscribed)
    (hactive : y.1.listener.isRunning = true → x.1.listener.isRunning = true) : Hears x y where
  connection := hconnection
  heard := ⟨[], by simpa using htalk⟩
  awaits k h := by simpa only [Awaits, htalk, hacks] using h
  informed h := by simpa only [Informed, htalk, hsubscribed] using h
  active := hactive

end

section

variable {w w' : Wire (Overheard σ)} {s s' : Subscription}

theorem talks_of_heard {limit : Option Nat} {link : Nat} {v : Resp.Value}
    (h : w.receiveBefore N.overheard limit link = (.ok v, w')) : w'.opened = w.opened ∧
      w'.net.talks = Function.update w.net.talks link (w.net.talks link ++ [.heard v]) := by
  simp only [Wire.receiveBefore, Network.overheard] at h
  rcases hr : N.receive link w.clock (earlier limit w.deadline) w.net.net with ⟨v | f | _, t, net⟩ <;>
    simp only [hr] at h <;> cases h
  exact ⟨rfl, rfl⟩

theorem talks_of_unheard {limit : Option Nat} {link : Nat} {r : Outcome Resp.Value}
    (h : w.receiveBefore N.overheard limit link = (r, w')) (hr : ∀ v, r ≠ .ok v) :
    w'.opened = w.opened ∧ w'.net.talks = w.net.talks := by
  simp only [Wire.receiveBefore, Network.overheard] at h
  rcases hn : N.receive link w.clock (earlier limit w.deadline) w.net.net with ⟨v | f | _, t, net⟩ <;>
    simp only [hn] at h <;> cases h
  · exact absurd rfl (hr v)
  · exact ⟨rfl, rfl⟩
  · exact ⟨rfl, rfl⟩

theorem talks_of_send {link : Nat} {node : String} {c : Command} {r : Except Fault Unit}
    (h : w.send N.overheard link node c = (r, w')) : w'.opened = w.opened ∧
      (w'.net.talks = Function.update w.net.talks link (w.net.talks link ++ [.said c]) ∨
        w'.net.talks = w.net.talks ∧ r ≠ .ok ()) := by
  simp only [Wire.send, Network.overheard] at h
  rcases hs : N.send link c w.clock w.net.net with ⟨_ | f | f, net⟩ <;> simp only [hs] at h <;> cases h
  · exact ⟨rfl, .inl rfl⟩
  · exact ⟨rfl, .inl rfl⟩
  · exact ⟨rfl, .inr ⟨rfl, nofun⟩⟩

theorem stepped_wire (r : Listener × List Callback) (s : Subscription) (w : Wire (Overheard σ)) :
    (s.stepped N.overheard r w).2.opened = w.opened ∧
      (s.stepped N.overheard r w).2.net.talks = w.net.talks := by
  unfold stepped
  split <;> exact ⟨rfl, rfl⟩

/-- A step in which nothing is heard changes no count. -/
theorem ownLink_stepped {r : Listener × List Callback} (hacks : r.1.acks = s.listener.acks)
    (hsubscribed : r.1.subscribed = s.listener.subscribed)
    (hactive : r.1.isRunning = true → s.listener.isRunning = true) (hopened : w'.opened = w.opened)
    (htalks : w'.net.talks = w.net.talks) :
    OwnLink (s, w) (s.stepped N.overheard r w') ∧ Hears (s, w) (s.stepped N.overheard r w') := by
  obtain ⟨hopened', htalks'⟩ := stepped_wire (N := N) r s w'
  have hfirst := stepped_fst (N := N.overheard) r s w'
  have hconnection : (s.stepped N.overheard r w').1.connection = s.connection := by rw [hfirst]
  have htalk : talk (s.stepped N.overheard r w') = talk (s, w) := by
    rw [talk, htalks', hconnection, htalks]
    rfl
  refine ⟨⟨hconnection, hopened'.trans hopened, fun link _ => by rw [htalks', htalks],
    htalk ▸ List.prefix_rfl⟩, .of_same hconnection htalk ?_ ?_ ?_⟩
  all_goals rw [hfirst]
  · exact hacks
  · exact hsubscribed
  · exact hactive

theorem ownLink_stirs (h : Stirs N.overheard (s, w) (s', w')) :
    OwnLink (s, w) (s', w') ∧ Hears (s, w) (s', w') := by
  generalize hstart : (s, w) = start, hlast : (s', w') = last at h ⊢
  cases h with
  | @heard s w _ v w₁ active arrived =>
    obtain ⟨hopened, htalks⟩ := talks_of_heard arrived
    obtain ⟨hopened', htalks'⟩ := stepped_wire (N := N) (s.listener.hear v) s w₁
    have hfirst := stepped_fst (N := N.overheard) (s.listener.hear v) s w₁
    have hconnection : (s.stepped N.overheard (s.listener.hear v) w₁).1.connection = s.connection := by
      rw [hfirst]
    have htalk : talk (s.stepped N.overheard (s.listener.hear v) w₁) = talk (s, w) ++ [.heard v] := by
      rw [talk, htalks', hconnection, htalks]
      exact Function.update_self ..
    refine ⟨⟨hconnection, hopened'.trans hopened, fun link hlink => ?_, htalk ▸ List.prefix_append ..⟩,
      ⟨hconnection, ⟨[v], htalk⟩, fun k hk => ?_, fun hinformed => ?_, fun _ => active⟩⟩
    · rw [htalks', htalks]
      exact Function.update_of_ne hlink ..
    · rw [htalk, hfirst]
      exact hk.heard (s.listener.hear_acks v)
    · rw [htalk, hfirst]
      exact hinformed.heard (s.listener.hear_subscribed v)
  | lost active failed =>
    obtain ⟨hopened, htalks⟩ := talks_of_unheard failed fun _ => nofun
    exact ownLink_stepped rfl rfl (fun _ => active) hopened htalks
  | @waited s w _ w₁ active nothing =>
    obtain ⟨hopened, htalks⟩ := talks_of_unheard nothing fun _ => nofun
    have htalk : talk (s, w₁) = talk (s, w) := congrFun htalks s.connection.link
    exact ⟨⟨rfl, hopened, fun link _ => by rw [htalks], htalk ▸ List.prefix_rfl⟩,
      .of_same rfl htalk rfl rfl id⟩
  | abandoned active => exact ownLink_stepped rfl rfl (fun _ => active) rfl rfl

/-- However long a listener is let run, it hears what comes on its own link. -/
theorem ownLink_advances {x y : Subscription × Wire (Overheard σ)} (h : Advances N.overheard x y) :
    OwnLink x y ∧ Hears x y := by
  induction h with
  | refl => exact ⟨.refl x, .refl x⟩
  | tail _ hstep ih =>
    obtain ⟨hown, hhears⟩ := ownLink_stirs hstep
    exact ⟨ih.1.trans hown, ih.2.trans hhears⟩

/-- A step of a listener changes nothing of the talk. -/
theorem talk_stepped (r : Listener × List Callback) (s : Subscription) (w : Wire (Overheard σ)) :
    talk (s.stepped N.overheard r w) = w.net.talks s.connection.link := by
  rw [talk, (stepped_wire r s w).2, stepped_fst]

/-- What becomes of a command that is sent on the link of a subscription. -/
theorem send_cases (c : Command) (s : Subscription) (w : Wire (Overheard σ)) :
    (s.send N.overheard c w).1 = s ∧ talk (s.send N.overheard c w) = talk (s, w) ++ [.said c] ∨
    ∃ f, (s.send N.overheard c w).1 =
        { s with
          listener := { (s.listener.fail f).1 with isActive := false }
          calls := s.calls ++ [.failed f]
          departures := s.departures + 1 } ∧
      (talk (s.send N.overheard c w) = talk (s, w) ++ [.said c] ∨
        talk (s.send N.overheard c w) = talk (s, w)) := by
  unfold send Connection.send
  rcases hs : w.send N.overheard s.connection.link s.connection.node c with ⟨f | _, w₁⟩ <;>
    obtain ⟨-, htalks⟩ := talks_of_send hs <;> dsimp only
  · refine .inr ⟨f, stepped_fst .., ?_⟩
    rw [talk_stepped]
    obtain htalks | ⟨htalks, -⟩ := htalks
    · exact .inl (by rw [htalks, Function.update_self, talk])
    · exact .inr (by rw [htalks, talk])
  · have htalk : w₁.net.talks = _ := htalks.resolve_right fun h => h.2 rfl
    exact .inl ⟨rfl, by rw [talk, htalk, Function.update_self, talk]⟩

/-- A command that is sent is said on no other link. -/
theorem send_others (c : Command) (s : Subscription) (w : Wire (Overheard σ)) :
    (s.send N.overheard c w).2.opened = w.opened ∧ ∀ link, link ≠ s.connection.link →
      (s.send N.overheard c w).2.net.talks link = w.net.talks link := by
  unfold send Connection.send
  rcases hs : w.send N.overheard s.connection.link s.connection.node c with ⟨f | _, w₁⟩ <;>
    obtain ⟨hopened, htalks⟩ := talks_of_send hs <;> dsimp only
  · obtain ⟨hopened', htalks'⟩ := stepped_wire (N := N) (s.listener.fail f) s w₁
    refine ⟨hopened'.trans hopened, fun link hlink => ?_⟩
    rw [htalks']
    obtain htalks | ⟨htalks, -⟩ := htalks <;> rw [htalks]
    exact Function.update_of_ne hlink ..
  · have htalk : w₁.net.talks = _ := htalks.resolve_right fun h => h.2 rfl
    refine ⟨hopened, fun link hlink => ?_⟩
    rw [htalk]
    exact Function.update_of_ne hlink ..

/-- A command is said on the subscription's own link, or else the listener ends. -/
theorem ownLink_send {c : Command} (h : s.send N.overheard c w = (s', w')) :
    OwnLink (s, w) (s', w') ∧ (s.Informed (talk (s, w)) → s'.Informed (talk (s', w'))) ∧
      (s'.listener.isRunning = true → s' = s ∧ talk (s', w') = talk (s, w) ++ [.said c]) := by
  have hcases := send_cases (N := N) c s w
  obtain ⟨hopened, hothers⟩ := send_others (N := N) c s w
  rw [h] at hcases hopened hothers
  obtain ⟨rfl, htalk⟩ | ⟨f, rfl, htalk⟩ := hcases
  · refine ⟨⟨rfl, hopened, hothers, htalk ▸ List.prefix_append ..⟩, fun hinformed => ?_,
      fun _ => ⟨rfl, htalk⟩⟩
    rw [htalk]
    exact hinformed.said c
  · refine ⟨⟨rfl, hopened, hothers, ?_⟩, fun hinformed => ?_, nofun⟩
    · obtain htalk | htalk := htalk <;> rw [htalk]
      exact List.prefix_append ..
    · obtain htalk | htalk := htalk <;> rw [htalk]
      · exact hinformed.said c
      · exact hinformed

/-! ### Requests -/

/-- Between two moments a subscription waited for so many acknowledgements, with this outcome. -/
structure Takes (count : Nat) (r : Outcome Unit) (x y : Subscription × Wire (Overheard σ)) : Prop
    extends OwnLink x y where
  heard : ∃ vs : List Resp.Value, talk y = talk x ++ vs.map .heard
  informed : x.1.Informed (talk x) → y.1.Informed (talk y)
  taken : r = .ok () → x.1.listener.isRunning = true ∧
    ∀ k, x.1.Awaits (talk x) k → y.1.Awaits (talk y) (k - count)
  active : count < ackLimit → r ≠ .stalled → y.1.listener.isRunning = true → r = .ok ()

theorem awaitAcks_takes {count : Nat} {r : Outcome Unit}
    (h : s.awaitAcks N.overheard count w = (r, s', w')) : Takes count r (s, w) (s', w') := by
  obtain ⟨htoo, rfl, rfl, rfl⟩ | ⟨s₁, hadvances, hends⟩ := awaitAcks_advances h
  · exact ⟨.refl _, ⟨[], by simp⟩, id, nofun, fun hlimit => by omega⟩
  · obtain ⟨hown, hhears⟩ := ownLink_advances hadvances
    obtain ⟨rfl, hactive, hacks, rfl⟩ | ⟨rfl, rfl⟩ | ⟨rfl, hended, rfl⟩ := hends
    · refine ⟨⟨hown.connection, hown.opened, hown.others, hown.grows⟩, hhears.heard, hhears.informed,
        fun _ => ⟨hhears.active hactive, fun k hk => ?_⟩, fun _ _ _ => rfl⟩
      have hk' : s₁.Awaits (talk (s₁, w')) k := hhears.awaits k hk
      simp only [Awaits, talk] at hk' ⊢
      omega
    · exact ⟨hown, hhears.heard, hhears.informed, nofun, fun _ hr => absurd rfl hr⟩
    · refine ⟨⟨hown.connection, hown.opened, hown.others, hown.grows⟩, hhears.heard,
        hhears.informed, nofun, ?_⟩
      intro _ _ hactive
      cases hended.symm.trans hactive

/-- What holds between calls: the listener knows what was reported, and while it runs, everything that
calls have waited for has come. -/
structure Balanced (x : Subscription × Wire (Overheard σ)) : Prop where
  informed : x.1.Informed (talk x)
  awaits : x.1.listener.isRunning = true → x.1.Awaits (talk x) 0

theorem Hears.balanced {x y : Subscription × Wire (Overheard σ)} (h : Hears x y) (hx : Balanced x) :
    Balanced y where
  informed := h.informed hx.informed
  awaits hactive := h.awaits 0 (hx.awaits (h.active hactive))

theorem joins?_join (topic : Topic) (names : List String) :
    (command topic.joinCommand names).joins? = some topic := by
  rw [Command.joins?, command, Command.of, topic.toUpper_joinCommand]
  cases topic <;> rfl

theorem joins?_leave (topic : Topic) (names : List String) :
    (command topic.leaveCommand names).joins? = none := by
  rw [Command.joins?, command, Command.of, topic.toUpper_leaveCommand]
  cases topic <;> rfl

theorem asks_join (topic : Topic) (names : List String) :
    (command topic.joinCommand names).asks = names.length := by
  rw [Command.asks, joins?_join, command, Command.of]
  exact List.length_map ..

theorem asks_leave (topic : Topic) (names : List String) :
    (command topic.leaveCommand names).asks = 0 := by
  rw [Command.asks, joins?_leave]
  rfl

/-- Adding names leaves a subscription balanced. If it ends well for some names, the listener was
running, and if they were not all acknowledged before, then their command was said and all that was
awaited has come. -/
theorem extend_balanced {topic : Topic} {names : List String} {r : Outcome Unit}
    (h : s.extend N.overheard topic names w = (r, s', w'))
    (hends : r = .ok () ∨ names.length < ackLimit ∧ r ≠ .stalled) (hs : Balanced (s, w)) :
    OwnLink (s, w) (s', w') ∧ Balanced (s', w') ∧
      (r = .ok () → names ≠ [] → s.listener.isRunning = true ∧ (s.listener.acks < names.length →
        s'.Awaits (talk (s', w')) 0 ∧ ∃ vs : List Resp.Value, talk (s', w') =
          talk (s, w) ++ .said (command topic.joinCommand names) :: vs.map .heard)) := by
  have hok {x y : Subscription × Wire (Overheard σ)} (htakes : Takes names.length r x y)
      (hactive : y.1.listener.isRunning = true) : r = .ok () :=
    hends.elim id fun hlimit => htakes.active hlimit.1 hlimit.2 hactive
  unfold extend at h
  split at h
  · rename_i hempty
    cases h
    exact ⟨.refl _, hs, fun _ hne => absurd (List.isEmpty_iff.1 hempty) hne⟩
  split at h
  · cases h
    exact ⟨.refl _, hs, nofun⟩
  rename_i hgoing
  have hrunning : s.listener.isRunning = true := by simpa using hgoing
  split at h
  · rename_i hacks
    rcases ha : s.awaitAcks N.overheard names.length w with ⟨r₁, s₁, w₁⟩
    rcases hsend : s₁.send N.overheard (command topic.joinCommand names) w₁ with ⟨s₂, w₂⟩
    simp only [ha, hsend] at h
    cases h
    have htakes := awaitAcks_takes ha
    obtain ⟨hown, hinformed, hsaid⟩ := ownLink_send hsend
    refine ⟨htakes.toOwnLink.trans hown, ⟨hinformed (htakes.informed hs.informed), fun hactive => ?_⟩,
      fun _ _ => ⟨hrunning, fun hfew => absurd hacks (by omega)⟩⟩
    obtain ⟨rfl, htalk⟩ := hsaid hactive
    obtain ⟨-, htaken⟩ := htakes.taken (hok htakes hactive)
    rw [htalk]
    simpa [asks_join] using (htaken 0 (hs.awaits hrunning)).said (command topic.joinCommand names)
  · rcases hsend : s.send N.overheard (command topic.joinCommand names) w with ⟨s₁, w₁⟩
    simp only [hsend] at h
    have htakes := awaitAcks_takes h
    obtain ⟨hown, hinformed, hsaid⟩ := ownLink_send hsend
    have hdone : r = .ok () → s'.Awaits (talk (s', w')) 0 ∧ ∃ vs : List Resp.Value, talk (s', w') =
        talk (s, w) ++ .said (command topic.joinCommand names) :: vs.map .heard := by
      intro hr
      obtain ⟨hactive, htaken⟩ := htakes.taken hr
      obtain ⟨rfl, htalk⟩ := hsaid hactive
      obtain ⟨vs, hvs⟩ := htakes.heard
      have hawaits := (hs.awaits hactive).said (command topic.joinCommand names)
      rw [← htalk] at hawaits
      refine ⟨by simpa [asks_join] using htaken _ hawaits, vs, ?_⟩
      rw [hvs, htalk, List.append_assoc, List.singleton_append]
    exact ⟨hown.trans htakes.toOwnLink, ⟨htakes.informed (hinformed hs.informed),
      fun hactive => (hdone (hok htakes hactive)).1⟩, fun hr _ => ⟨hrunning, fun _ => hdone hr⟩⟩

theorem leave_balanced {topic : Topic} {names : List String} {r : Except Fault Unit}
    (h : s.leave N.overheard topic names w = (r, s', w')) (hs : Balanced (s, w)) :
    OwnLink (s, w) (s', w') ∧ Balanced (s', w') := by
  unfold leave control at h
  split at h
  · rcases hsend : s.send N.overheard (command topic.leaveCommand names) w with ⟨s₁, w₁⟩
    simp only [hsend] at h
    cases h
    obtain ⟨hown, hinformed, hsaid⟩ := ownLink_send hsend
    refine ⟨hown, hinformed hs.informed, fun hactive => ?_⟩
    obtain ⟨rfl, htalk⟩ := hsaid hactive
    rw [htalk]
    simpa [asks_leave] using (hs.awaits hactive).said (command topic.leaveCommand names)
  · cases h
    exact ⟨.refl _, hs⟩

theorem drop_hears (s : Subscription) (w : Wire (Overheard σ)) :
    OwnLink (s, w) (s.drop N.overheard w) ∧ Hears (s, w) (s.drop N.overheard w) := by
  have hfree : Hears (s, w) ({ s with held := false }, w) := .of_same rfl rfl rfl rfl id
  obtain ⟨hown, hhears⟩ := ownLink_advances
    (settle_advances (N := N.overheard) { s with held := false } w)
  exact ⟨⟨hown.connection, hown.opened, hown.others, hown.grows⟩, hfree.trans hhears⟩

theorem join_hears {r : Outcome Unit} (h : s.join N.overheard w = (r, s', w')) :
    OwnLink (s, w) (s', w') ∧ Hears (s, w) (s', w') := by
  have hdropped := drop_hears (N := N) s w
  unfold join at h
  split at h
  · cases h
    exact hdropped
  · rcases hrun : s.run N.overheard (fun _ => false) w with ⟨_ | _, s₁, w₁⟩ <;> simp only [hrun] at h
    all_goals obtain ⟨hown, hhears⟩ := ownLink_advances (runUntil_advances hrun).1
    · cases h
      obtain ⟨hown', hhears'⟩ := drop_hears (N := N) s₁ w₁
      exact ⟨hown.trans hown', hhears.trans hhears'⟩
    · have hover : Hears (s₁, w₁) ({ s₁ with held := false, told := true }, w₁) :=
        .of_same rfl rfl rfl rfl id
      split at h <;> cases h <;>
        exact ⟨⟨hown.connection, hown.opened, hown.others, hown.grows⟩, hhears.trans hover⟩

/-- Whether a request that ended so was not given up while it waited, nor had too many names. -/
def Request.Ends (request : Request) (r : Outcome Unit) : Prop :=
  ∀ topic names, request = .extend topic names → names.length < ackLimit ∧ r ≠ .stalled

theorem request_balanced {request : Request} {r : Outcome Unit}
    (h : request.run N.overheard s w = (r, s', w')) (hends : request.Ends r) (hs : Balanced (s, w)) :
    OwnLink (s, w) (s', w') ∧ Balanced (s', w') := by
  cases request with
  | extend topic names =>
    obtain ⟨hown, hbalanced, -⟩ := extend_balanced h (.inr (hends topic names rfl)) hs
    exact ⟨hown, hbalanced⟩
  | leave topic names =>
    simp only [Request.run] at h
    cases h
    exact leave_balanced rfl hs
  | join =>
    obtain ⟨hown, hhears⟩ := join_hears h
    exact ⟨hown, hhears.balanced hs⟩
  | drop =>
    cases h
    obtain ⟨hown, hhears⟩ := drop_hears (N := N) s w
    exact ⟨hown, hhears.balanced hs⟩

/-! ### New subscriptions -/

/-- What becomes of an attempt to subscribe: at most one link is made, nothing is said or heard on any
other, and a subscription on it is balanced. -/
structure Starts (topic : Topic) (names : List String) (w : Wire (Overheard σ)) (r : Started)
    (w' : Wire (Overheard σ)) : Prop where
  opened : w'.opened = w.opened ∧ w'.net.talks = w.net.talks ∨ w'.opened = w.opened + 1
  others : ∀ link ≠ w.opened, w'.net.talks link = w.net.talks link
  new : ∀ s, r.subscription = some s →
    w'.opened = w.opened + 1 ∧ s.connection.link = w.opened ∧ Balanced (s, w')
  done : r.outcome = .ok () → ∃ s, r.subscription = some s ∧ s.Awaits (talk (s, w')) 0 ∧
    ∃ vs : List Resp.Value, talk (s, w') =
      .said (command topic.joinCommand names) :: vs.map .heard

/-- A subscription whose command was said on a new link waits for all its names. If that ends otherwise
than well, nobody holds it. -/
theorem Takes.starts {topic : Topic} {names : List String} {w₁ w₂ : Wire (Overheard σ)}
    {s₁ : Subscription} {r : Outcome Unit} (h : Takes names.length r (s, w₁) (s₁, w₂))
    (hnew : s.listener = {}) (hlink : s.connection.link = w.opened) (hopened : w₁.opened = w.opened + 1)
    (htalks : w₁.net.talks =
      Function.update w.net.talks w.opened [.said (command topic.joinCommand names)]) :
    (r = .ok () → Starts topic names w ⟨.ok (), some s₁⟩ w₂) ∧
      (r ≠ .ok () → Starts topic names w ⟨r, some (s₁.drop N.overheard w₂).1⟩
        (s₁.drop N.overheard w₂).2) := by
  have htalk : talk (s, w₁) = [.said (command topic.joinCommand names)] := by
    rw [talk, htalks, hlink]
    exact Function.update_self ..
  have hinformed : s₁.Informed (talk (s₁, w₂)) :=
    h.informed (by simp only [Informed, htalk, hnew]; rfl)
  have hopened₂ : w₂.opened = w.opened + 1 := h.opened.trans hopened
  have hlink₁ : s₁.connection.link = w.opened := by rw [h.connection, hlink]
  have hothers : ∀ link ≠ w.opened, w₂.net.talks link = w.net.talks link := by
    intro link hne
    rw [h.others link (hlink ▸ hne), htalks]
    exact Function.update_of_ne hne ..
  constructor
  · intro hok
    obtain ⟨vs, hvs⟩ := h.heard
    have hawaits : s.Awaits (talk (s, w₁)) names.length := by
      rw [htalk]
      simp [Awaits, Talk.asked, Talk.joined, Talk.said, Talk.heard, asks_join, hnew]
    have hdone : s₁.Awaits (talk (s₁, w₂)) 0 := by simpa using (h.taken hok).2 _ hawaits
    refine ⟨.inr hopened₂, hothers, ?_, fun _ => ⟨s₁, rfl, hdone, vs, by rw [hvs, htalk]; rfl⟩⟩
    rintro s ⟨⟩
    exact ⟨hopened₂, hlink₁, hinformed, fun _ => hdone⟩
  · intro hr
    obtain ⟨hown, hhears⟩ := drop_hears (N := N) s₁ w₂
    refine ⟨.inr (hown.opened.trans hopened₂), fun link hne => ?_, ?_, fun hok => absurd hok hr⟩
    · rw [hown.others link (hlink₁ ▸ hne), hothers link hne]
    · rintro s ⟨⟩
      refine ⟨hown.opened.trans hopened₂, by rw [hown.connection, hlink₁],
        hhears.informed hinformed, fun hactive => ?_⟩
      cases (isRunning_drop s₁ w₂).symm.trans hactive

theorem openDedicated_talks {p p' : Pool} {r : Outcome Connection}
    (h : p.openDedicated N.overheard w = (r, p', w')) : w'.net.talks = w.net.talks ∧
      match r with
      | .ok c => c.link = w.opened ∧ w'.opened = w.opened + 1
      | _ => w'.opened = w.opened := by
  unfold Pool.openDedicated Pool.connect Wire.connect at h
  simp only [Network.overheard] at h
  rcases hc : N.connect w.opened p.node w.clock w.deadline w.net.net with ⟨_ | f | _, t, net⟩ <;>
    simp only [hc] at h <;> cases h <;> simp [Wire.record]

theorem start_starts {topic : Topic} {names : List String} {p p' : Pool} {r : Started}
    (h : start N.overheard topic names p w = (r, p', w')) (hfresh : w.net.talks w.opened = []) :
    Starts topic names w r w' := by
  unfold start at h
  split at h
  · cases h
    exact ⟨.inl ⟨rfl, rfl⟩, fun _ _ => rfl, nofun, nofun⟩
  rcases ho : p.openDedicated N.overheard w with ⟨c | f | _, p₁, w₁⟩ <;> simp only [ho] at h <;>
    obtain ⟨htalks₁, hopened₁⟩ := openDedicated_talks ho
  · obtain ⟨hlink, hopened₁⟩ := hopened₁
    rcases hs : c.send N.overheard (command topic.joinCommand names) w₁ with ⟨f | _, w₂⟩ <;>
      simp only [hs] at h <;> obtain ⟨hopened₂, htalks₂⟩ := talks_of_send hs <;>
      rw [htalks₁, hlink, hfresh] at htalks₂
    · cases h
      refine ⟨.inr (hopened₂.trans hopened₁), fun link hne => ?_, nofun, nofun⟩
      change w₂.net.talks link = w.net.talks link
      rcases htalks₂ with htalks₂ | ⟨htalks₂, -⟩ <;> rw [htalks₂]
      exact Function.update_of_ne hne ..
    · have htalks : w₂.net.talks = _ := htalks₂.resolve_right fun h => h.2 rfl
      rcases ha : awaitAcks N.overheard names.length { node := p₁.node, connection := c } w₂ with
        ⟨r₁, s₁, w₃⟩
      obtain ⟨hdone, hmissed⟩ := (awaitAcks_takes ha).starts (N := N) rfl hlink
        (hopened₂.trans hopened₁) htalks
      simp only [ha] at h
      rcases r₁ with _ | f | _ <;> cases h
      · exact hdone rfl
      · exact hmissed nofun
      · exact hmissed nofun
  · cases h
    exact ⟨.inl ⟨hopened₁, htalks₁⟩, fun _ _ => by rw [htalks₁], nofun, nofun⟩
  · cases h
    exact ⟨.inl ⟨hopened₁, htalks₁⟩, fun _ _ => by rw [htalks₁], nofun, nofun⟩

end

end Subscription

end ShardFleet
