import ShardFleet.Proofs.SubscriptionRuns
import ShardFleet.Proofs.Texts
import ShardFleet.Rehearsal.Script

/-!
# Acknowledgements

A server that holds names for a connection carries out the commands of the connection in order. Every
name is acknowledged by a frame of its own, which reports how many names are held then, and messages
come whenever they please. The frames are counted only, and yet a call that adds names to a subscription
ends well exactly when all that the server owes has come.
-/

namespace ShardFleet

/-! ### What a server holds -/

/-- The names that a server holds for a connection. -/
abbrev Holdings := Topic → Finset Bytes

/-- How many names there are. -/
def Holdings.total (h : Holdings) : Nat := (h .channels).card + (h .patterns).card

/-- A change of what is held, by one name. -/
inductive Change where
  | join (topic : Topic) (name : Bytes)
  | leave (topic : Topic) (name : Bytes)
  /-- No name was there to be left. -/
  | nothing (topic : Topic)
deriving DecidableEq, Repr

namespace Change

/-- What is held after a change. -/
def apply : Change → Holdings → Holdings
  | join topic name, h => Function.update h topic (insert name (h topic))
  | leave topic name, h => Function.update h topic ((h topic).erase name)
  | nothing _, h => h

/-- The word for a change. -/
def kind : Change → String
  | join .channels _ => "subscribe"
  | join .patterns _ => "psubscribe"
  | leave .channels _ | nothing .channels => "unsubscribe"
  | leave .patterns _ | nothing .patterns => "punsubscribe"

/-- The name in the acknowledgement of a change. -/
def name : Change → Resp.Value
  | join _ name | leave _ name => .bulk name
  | nothing _ => .nullBulk

/-- The acknowledgement of a change, with the number of names that are held then. -/
def frame (c : Change) (total : Int64) : Resp.Value :=
  .array [.bulk (utf8 c.kind), c.name, .integer total]

/-- Whether a change joins a name. -/
def joins : Change → Bool
  | join .. => true
  | _ => false

end Change

/-- The topic that a command leaves. -/
def Command.leaves? (c : Command) : Option Topic :=
  [Topic.channels, .patterns].find? (·.leaveCommand = c.name)

/-- Whether a command makes some changes, one after the other. To leave without names is to leave all
that are held, in any order. -/
inductive Carries (h : Holdings) (c : Command) : List Change → Prop where
  | joins {topic} (asked : c.joins? = some topic) : Carries h c (c.args.map (.join topic))
  | leaves {topic} (asked : c.leaves? = some topic) (named : c.args ≠ []) :
    Carries h c (c.args.map (.leave topic))
  | leavesAll {topic names} (asked : c.leaves? = some topic) (unnamed : c.args = [])
      (once : names.Nodup) (all : names.toFinset = h topic) (some : names ≠ []) :
    Carries h c (names.map (.leave topic))
  | leavesNothing {topic} (asked : c.leaves? = some topic) (unnamed : c.args = [])
      (none : h topic = ∅) : Carries h c [.nothing topic]

/-- Whether some frames acknowledge some changes of what is held, each with the number of names that are
held after it. -/
inductive Acknowledges : Holdings → List Change → List Resp.Value → Holdings → Prop where
  | nil {h} : Acknowledges h [] [] h
  | cons {h c cs n vs h'} (counts : n.toInt = (c.apply h).total)
      (rest : Acknowledges (c.apply h) cs vs h') : Acknowledges h (c :: cs) (c.frame n :: vs) h'

/-- Whether a frame is a message. -/
def Resp.Value.isMessage : Resp.Value → Bool
  | .array (.bulk kind :: _) => kind = utf8 "message" || kind = utf8 "pmessage"
  | _ => false

/-- The frames of a talk that are no messages. -/
def Talk.acks (t : Talk) : List Resp.Value := t.heard.filter (!·.isMessage)

/-- The end of one connection at the server. -/
structure ServerEnd where
  held : Holdings := fun _ => ∅
  /-- Commands that have not reached it yet. -/
  coming : List Command := []
  /-- Acknowledgements that have not been heard yet. -/
  due : List Resp.Value := []

/-- Whether a talk with a server can have led to this point. -/
inductive Serves : Talk → ServerEnd → Prop where
  | fresh : Serves [] {}
  | said {t : Talk} {s : ServerEnd} {c} (before : Serves t s) :
    Serves (t ++ [.said c]) { s with coming := s.coming ++ [c] }
  /-- The server carries out the next command. -/
  | carried {t : Talk} {s : ServerEnd} {c rest changes vs held}
      (before : Serves t { s with coming := c :: rest }) (carries : Carries s.held c changes)
      (acknowledges : Acknowledges s.held changes vs held) :
    Serves t { held, coming := rest, due := s.due ++ vs }
  | heard {t : Talk} {s : ServerEnd} {v rest} (before : Serves t { s with due := v :: rest }) :
    Serves (t ++ [.heard v]) { s with due := rest }
  | message {t : Talk} {s : ServerEnd} {v : Resp.Value} (before : Serves t s) (isMessage : v.isMessage) :
    Serves (t ++ [.heard v]) s

/-! ### Frames -/

theorem Notice.textAt_bulk (s : String) (rest : List Resp.Value) :
    textAt (.bulk (utf8 s) :: rest) 0 = s := by
  simp [textAt, Resp.Value.asText?, Utf8.decode?, Utf8.decode_utf8, Except.toOption]

theorem Change.toLower_kind (c : Change) : c.kind.map Char.toLower = c.kind := by
  rcases c with ⟨_ | _, _⟩ | ⟨_ | _, _⟩ | ⟨_ | _⟩ <;> simp only [kind] <;> decide +kernel

/-- An acknowledgement is read as what it acknowledges. -/
theorem Change.ofFrame_frame (c : Change) (n : Int64) : ∃ text, Notice.ofFrame (c.frame n) = .ok
    (match c with
      | join topic _ => .joined topic text n.toInt.toNat
      | leave topic _ | nothing topic => .left topic text n.toInt.toNat) := by
  refine ⟨Notice.textAt [.bulk (utf8 c.kind), c.name, .integer n] 1, ?_⟩
  simp only [frame, Notice.ofFrame, Notice.ofItems, Notice.textAt_bulk, toLower_kind]
  rcases c with ⟨_ | _, _⟩ | ⟨_ | _, _⟩ | ⟨_ | _⟩ <;> simp [kind] <;> rfl

theorem Change.joins_frame (c : Change) (n : Int64) : (c.frame n).joins = c.joins := by
  obtain ⟨text, h⟩ := c.ofFrame_frame n
  rw [Resp.Value.joins, h]
  cases c <;> rfl

theorem Change.count?_frame (c : Change) (n : Int64) : (c.frame n).count? = some n.toInt.toNat := by
  obtain ⟨text, h⟩ := c.ofFrame_frame n
  rw [Resp.Value.count?, h]
  cases c <;> rfl

theorem Change.isMessage_frame (c : Change) (n : Int64) : (c.frame n).isMessage = false := by
  rcases c with ⟨_ | _, _⟩ | ⟨_ | _, _⟩ | ⟨_ | _⟩ <;>
    simp only [frame, Resp.Value.isMessage, kind] <;> decide +kernel

/-- A message acknowledges nothing. -/
theorem Resp.Value.of_isMessage {v : Resp.Value} (h : v.isMessage) :
    v.joins = false ∧ v.count? = none := by
  have hread : (∃ channel payload, Notice.ofFrame v = .ok (.message channel payload)) ∨
      ∃ pattern channel payload, Notice.ofFrame v = .ok (.patternMessage pattern channel payload) := by
    unfold isMessage at h
    split at h
    · have hlower : ("message".map Char.toLower = "message") ∧
          ("pmessage".map Char.toLower = "pmessage") := by decide +kernel
      rename_i kind rest
      obtain rfl | rfl : kind = utf8 "message" ∨ kind = utf8 "pmessage" := by simpa using h
      all_goals simp [Notice.ofFrame, Notice.ofItems, Notice.textAt_bulk, hlower]
    · cases h
  obtain ⟨_, _, h⟩ | ⟨_, _, _, h⟩ := hread <;> simp [joins, count?, h]

/-! ### What is acknowledged -/

namespace Acknowledges

variable {h h' : Holdings} {cs : List Change} {vs : List Resp.Value}

theorem joined (ha : Acknowledges h cs vs h') : vs.countP (·.joins) = cs.countP (·.joins) := by
  induction ha with
  | nil => rfl
  | cons _ _ ih => simp only [List.countP_cons, Change.joins_frame, ih]

theorem isMessage (ha : Acknowledges h cs vs h') : ∀ v ∈ vs, v.isMessage = false := by
  induction ha with
  | nil => simp
  | cons _ _ ih => exact List.forall_mem_cons.2 ⟨Change.isMessage_frame .., ih⟩

/-- The last of some acknowledgements reports what is held after them. -/
theorem reported (ha : Acknowledges h cs vs h') :
    (vs.filterMap (·.count?)).getLast?.getD h.total = h'.total := by
  induction ha with
  | nil => rfl
  | @cons h c cs n vs h' counts rest ih =>
    have hcount : n.toInt.toNat = (c.apply h).total := by omega
    rw [List.filterMap_cons_some (Change.count?_frame c n), List.getLast?_cons, hcount]
    exact ih

/-- Names that are joined are held from then on, and are acknowledged one by one. -/
theorem names {topic : Topic} {args : List Bytes} (ha : Acknowledges h (args.map (.join topic)) vs h') :
    List.Forall₂ (fun name v => ∃ n, v = (Change.join topic name).frame n) args vs ∧
      h topic ⊆ h' topic ∧ ∀ name ∈ args, name ∈ h' topic := by
  induction args generalizing h vs with
  | nil =>
    cases ha
    exact ⟨.nil, subset_rfl, by simp⟩
  | cons name args ih =>
    cases ha with
    | cons _ rest =>
      obtain ⟨hframes, hkept, hnames⟩ := ih rest
      have hjoined : (Change.join topic name).apply h topic = insert name (h topic) :=
        Function.update_self ..
      rw [hjoined] at hkept
      exact ⟨.cons ⟨_, rfl⟩ hframes, (Finset.subset_insert ..).trans hkept,
        List.forall_mem_cons.2 ⟨hkept (Finset.mem_insert_self ..), hnames⟩⟩

end Acknowledges

theorem Command.joins?_of_leaves? {c : Command} {topic : Topic} (h : c.leaves? = some topic) :
    c.joins? = none := by
  have hname : topic.leaveCommand = c.name := by simpa using List.find?_some h
  rw [joins?, ← hname]
  cases topic <;> rfl

theorem Carries.joined {h : Holdings} {c : Command} {cs : List Change} (hc : Carries h c cs) :
    cs.countP (·.joins) = c.asks := by
  have hnone {topic : Topic} {names : List Bytes} (asked : c.leaves? = some topic) :
      (names.map (Change.leave topic)).countP (·.joins) = c.asks := by
    rw [Command.asks, Command.joins?_of_leaves? asked]
    simp [List.countP_map, Function.comp_def, Change.joins]
  cases hc with
  | joins asked =>
    rw [Command.asks, asked]
    simp [List.countP_map, Function.comp_def, Change.joins]
  | leaves asked => exact hnone asked
  | leavesAll asked => exact hnone asked
  | leavesNothing asked =>
    rw [Command.asks, Command.joins?_of_leaves? asked]
    rfl

/-- A command that joins names makes no other changes. -/
theorem Carries.eq_joins {h : Holdings} {c : Command} {cs : List Change} {topic : Topic}
    (hc : Carries h c cs) (asked : c.joins? = some topic) : cs = c.args.map (.join topic) := by
  cases hc with
  | joins asked' =>
    cases asked.symm.trans asked'
    rfl
  | leaves left | leavesAll left | leavesNothing left =>
    cases asked.symm.trans (Command.joins?_of_leaves? left)

/-- Whether some frames acknowledge some commands, one after the other, and what is held after them. -/
inductive Answered : List Command → List Resp.Value → Holdings → Prop where
  | nil : Answered [] [] fun _ => ∅
  | concat {cs vs h c changes ws h'} (before : Answered cs vs h) (carries : Carries h c changes)
      (acknowledges : Acknowledges h changes ws h') : Answered (cs ++ [c]) (vs ++ ws) h'

namespace Answered

variable {cs : List Command} {vs : List Resp.Value} {h : Holdings}

theorem joined (ha : Answered cs vs h) : vs.countP (·.joins) = (cs.map (·.asks)).sum := by
  induction ha with
  | nil => rfl
  | concat _ carries acknowledges ih =>
    simp [ih, acknowledges.joined, carries.joined]

theorem isMessage (ha : Answered cs vs h) : ∀ v ∈ vs, v.isMessage = false := by
  induction ha with
  | nil => simp
  | concat _ _ acknowledges ih => exact List.forall_mem_append.2 ⟨ih, acknowledges.isMessage⟩

theorem reported (ha : Answered cs vs h) : (vs.filterMap (·.count?)).getLast?.getD 0 = h.total := by
  induction ha with
  | nil => rfl
  | @concat _ vs h _ _ ws _ _ _ acknowledges ih =>
    have hlast := acknowledges.reported
    rw [List.filterMap_append, List.getLast?_append]
    cases hws : (ws.filterMap (·.count?)).getLast? with
    | some count => simpa [hws] using hlast
    | none =>
      rw [hws] at hlast
      exact ih.trans hlast

theorem last {c : Command} (ha : Answered (cs ++ [c]) vs h) : ∃ us ws g changes, vs = us ++ ws ∧
    Answered cs us g ∧ Carries g c changes ∧ Acknowledges g changes ws h := by
  generalize hcs : cs ++ [c] = all at ha
  cases ha with
  | nil => simp at hcs
  | @concat _ us g _ changes ws _ before carries acknowledges =>
    obtain ⟨rfl, hc⟩ := List.append_inj' hcs rfl
    cases hc
    exact ⟨us, ws, g, changes, rfl, before, carries, acknowledges⟩

end Answered

/-! ### Talks with a server -/

namespace Talk

variable (t : Talk)

theorem acks_append (u : Talk) : (t ++ u).acks = t.acks ++ u.acks := by
  simp [acks]

theorem joined_eq_acks : t.joined = t.acks.countP (·.joins) := by
  rw [joined, acks, List.countP_filter]
  refine List.countP_congr fun v _ => ?_
  cases hv : v.isMessage
  · simp
  · simp [(Resp.Value.of_isMessage hv).1]

theorem reported_eq_acks : t.reported = (t.acks.filterMap (·.count?)).getLast?.getD 0 := by
  rw [reported, acks, List.filterMap_filter]
  congr 2
  refine List.filterMap_congr fun v _ => ?_
  cases hv : v.isMessage
  · simp
  · simp [(Resp.Value.of_isMessage hv).2]

end Talk

namespace Serves

variable {t : Talk} {s : ServerEnd}

/-- What was heard and what is due acknowledge the commands that have reached the server. -/
theorem answered (h : Serves t s) :
    ∃ done, t.said = done ++ s.coming ∧ Answered done (t.acks ++ s.due) s.held := by
  induction h with
  | fresh => exact ⟨[], rfl, .nil⟩
  | @said t s c _ ih =>
    obtain ⟨done, hsaid, hanswered⟩ := ih
    refine ⟨done, by simp [hsaid], ?_⟩
    simpa [Talk.acks] using hanswered
  | @carried t s c rest changes vs held _ carries acknowledges ih =>
    obtain ⟨done, hsaid, hanswered⟩ := ih
    refine ⟨done ++ [c], by simp [hsaid], ?_⟩
    rw [← List.append_assoc]
    exact hanswered.concat carries acknowledges
  | @heard t s v rest _ ih =>
    obtain ⟨done, hsaid, hanswered⟩ := ih
    have hv : v.isMessage = false := hanswered.isMessage v (by simp)
    refine ⟨done, by simpa using hsaid, ?_⟩
    simpa [Talk.acks, hv] using hanswered
  | @message t s v _ hv ih =>
    obtain ⟨done, hsaid, hanswered⟩ := ih
    refine ⟨done, by simpa using hsaid, ?_⟩
    simpa [Talk.acks, hv] using hanswered

/-- Every name that was asked for is acknowledged, is about to be, or is in a command on its way. -/
theorem joined (h : Serves t s) :
    t.joined + s.due.countP (·.joins) + (s.coming.map (·.asks)).sum = t.asked := by
  obtain ⟨done, hsaid, hanswered⟩ := h.answered
  have hjoined := hanswered.joined
  rw [List.countP_append, ← t.joined_eq_acks] at hjoined
  simp [Talk.asked, hsaid, hjoined]

theorem of_prefix {t₀ : Talk} (h : Serves t s) (hpre : t₀ <+: t) : ∃ s₀, Serves t₀ s₀ := by
  induction h with
  | fresh => exact ⟨{}, List.prefix_nil.1 hpre ▸ .fresh⟩
  | said before ih =>
    obtain rfl | hpre := List.prefix_concat_iff.1 hpre
    · exact ⟨_, before.said⟩
    · exact ih hpre
  | carried _ _ _ ih => exact ih hpre
  | heard before ih =>
    obtain rfl | hpre := List.prefix_concat_iff.1 hpre
    · exact ⟨_, before.heard⟩
    · exact ih hpre
  | message before hv ih =>
    obtain rfl | hpre := List.prefix_concat_iff.1 hpre
    · exact ⟨_, before.message hv⟩
    · exact ih hpre

variable {cs : List Command} {c : Command}

/-- When as many names were acknowledged as were asked for, a last command that asked for some has
reached the server, and with it all that came before. -/
theorem arrived (h : Serves t s) (hall : t.asked ≤ t.joined) (hsaid : t.said = cs ++ [c])
    (hasks : 0 < c.asks) : s.coming = [] := by
  have hjoined := h.joined
  obtain ⟨done, hdone, -⟩ := h.answered
  rcases List.eq_nil_or_concat s.coming with hnil | ⟨init, last, hlast⟩
  · exact hnil
  · rw [hlast, List.concat_eq_append, ← List.append_assoc, hsaid] at hdone
    cases (List.append_inj' hdone rfl).2
    rw [hlast, List.concat_eq_append, List.map_append, List.sum_append_nat] at hjoined
    simp only [List.map_cons, List.map_nil, List.sum_cons, List.sum_nil] at hjoined
    omega

/-- Then nothing is due either: the frames that come last acknowledge names of that command, and none
such is missing. -/
theorem idle {topic : Topic} (h : Serves t s) (hall : t.asked ≤ t.joined) (hsaid : t.said = cs ++ [c])
    (asked : c.joins? = some topic) (named : c.args ≠ []) : s.coming = [] ∧ s.due = [] ∧
      ∃ us ws g, t.acks = us ++ ws ∧ Answered cs us g ∧
        Acknowledges g (c.args.map (.join topic)) ws s.held ∧ ∀ v ∈ ws, v.joins := by
  have hasks : c.asks = c.args.length := by
    rw [Command.asks, asked]
    rfl
  have hcoming := h.arrived hall hsaid (hasks ▸ List.length_pos_iff.2 named)
  obtain ⟨done, hdone, hanswered⟩ := h.answered
  rw [hcoming, List.append_nil] at hdone
  rw [← hdone, hsaid] at hanswered
  obtain ⟨us, ws, g, changes, hframes, hbefore, hcarries, hacknowledges⟩ := hanswered.last
  have hcount : ws.countP (·.joins) = c.args.length := by
    rw [hacknowledges.joined, hcarries.joined, hasks]
  rw [hcarries.eq_joins asked] at hacknowledges
  have hlength : ws.length = c.args.length := hacknowledges.names.1.length_eq.symm
  have hjoins : ∀ v ∈ ws, v.joins := List.countP_eq_length.1 (hcount.trans hlength.symm)
  have hdue : s.due = [] := by
    have hjoined := h.joined
    rcases List.eq_nil_or_concat s.due with hnil | ⟨init, v, hv⟩
    · exact hnil
    · rcases List.eq_nil_or_concat ws with rfl | ⟨ws', v', rfl⟩
      · exact absurd (List.length_eq_zero_iff.1 hlength.symm) named
      · rw [hv, List.concat_eq_append, List.concat_eq_append, ← List.append_assoc,
          ← List.append_assoc] at hframes
        cases (List.append_inj' hframes rfl).2
        have hnone : s.due.countP (·.joins) = 0 := by omega
        exact absurd (hjoins v (by simp)) (List.countP_eq_zero.1 hnone v (by simp [hv]))
  rw [hdue, List.append_nil] at hframes
  exact ⟨hcoming, hdue, us, ws, g, hframes, hbefore, hacknowledges, hjoins⟩

end Serves

/-- What a server and a subscription have come to when names have been added, where `t₀` is the talk
before that and `t` the talk since. -/
structure Established (server : ServerEnd) (t₀ t : Talk) (sub : Subscription) (topic : Topic)
    (names : List String) : Prop where
  /-- Every name has its own acknowledgement, in order, and all of them came since. -/
  own : ∃ earlier acks, t.acks = earlier ++ acks ∧ t₀.acks <+: earlier ∧
    List.Forall₂ (fun name v => ∃ n, v = (Change.join topic (utf8 name)).frame n) names acks
  holds : ∀ name ∈ names, utf8 name ∈ server.held topic
  counts : sub.listener.subscribed = server.held.total
  /-- No acknowledgement is left over. -/
  spent : sub.listener.acks = 0
  /-- None is still to come. -/
  idle : server.coming = [] ∧ server.due = []

/-- The frames that were heard before a command was said come before those that acknowledge it. -/
theorem acks_before {t₀ t : Talk} {us ws : List Resp.Value} {s₀ : ServerEnd} (h₀ : Serves t₀ s₀)
    (hpre : t₀ <+: t) (hacks : t.acks = us ++ ws) (hus : us.countP (·.joins) = t₀.asked)
    (hws : ∀ v ∈ ws, v.joins) : t₀.acks <+: us := by
  have hgrown : t₀.acks <+: us ++ ws := by
    obtain ⟨rest, rfl⟩ := hpre
    rw [← hacks, Talk.acks_append]
    exact List.prefix_append ..
  rcases Nat.lt_or_ge us.length t₀.acks.length with hlong | hshort
  · -- A frame of the command would have been heard too early: there are not so many to be heard.
    exfalso
    obtain ⟨ms, hms⟩ := List.prefix_of_prefix_length_le (List.prefix_append us ws) hgrown hlong.le
    rw [← hms, List.prefix_append_right_inj] at hgrown
    have hjoins : ms.countP (·.joins) = ms.length :=
      List.countP_eq_length.2 fun v hv => hws v (hgrown.subset hv)
    have hjoined := h₀.joined
    rw [t₀.joined_eq_acks, ← hms, List.countP_append, hjoins, hus] at hjoined
    rw [← hms, List.length_append] at hlong
    omega
  · exact List.prefix_of_prefix_length_le hgrown (List.prefix_append us ws) hshort

/-- When nothing is awaited any more and the last command asked for some names, everything has been
acknowledged. -/
theorem Serves.established {t₀ t : Talk} {server : ServerEnd} {sub : Subscription} {topic : Topic}
    {names : List String} {vs : List Resp.Value} (h : Serves t server)
    (hsaid : t = t₀ ++ .said (Subscription.command topic.joinCommand names) :: vs.map .heard)
    (hne : names ≠ []) (hawaits : sub.Awaits t 0) (hinformed : sub.Informed t) :
    Established server t₀ t sub topic names := by
  simp only [Subscription.Awaits] at hawaits
  have hcommands : t.said = t₀.said ++ [Subscription.command topic.joinCommand names] := by
    have hheard : Talk.said (vs.map .heard) = [] := by simp [Talk.said, List.filterMap_map]
    rw [hsaid, ← List.singleton_append, Talk.said_append, Talk.said_append, Talk.said_said, hheard,
      List.append_nil]
  have hpre : t₀ <+: t := hsaid ▸ List.prefix_append ..
  obtain ⟨hcoming, hdue, us, ws, g, hframes, hbefore, hacknowledges, hjoins⟩ :=
    h.idle (by omega) hcommands (Subscription.joins?_join topic names)
      (by simpa [Subscription.command, Command.of] using hne)
  have hargs : (Subscription.command topic.joinCommand names).args = names.map utf8 := rfl
  rw [hargs] at hacknowledges
  obtain ⟨hnames, -, hheld⟩ := hacknowledges.names
  obtain ⟨s₀, h₀⟩ := h.of_prefix hpre
  obtain ⟨done, -, hanswered⟩ := h.answered
  rw [hdue, List.append_nil] at hanswered
  have hjoined := h.joined
  exact {
    own := ⟨us, ws, hframes, acks_before h₀ hpre hframes hbefore.joined hjoins,
      List.forall₂_map_left_iff.1 hnames⟩
    holds := fun name hname => hheld _ (List.mem_map_of_mem hname)
    counts := by rw [hinformed, t.reported_eq_acks, hanswered.reported]
    spent := by omega
    idle := ⟨hcoming, hdue⟩ }

/-! ### Calls that add names -/

namespace Subscriptions.Scene

variable {σ : Type} {N : Network σ}

/-- Where no names are added, the listeners take what has arrived, and that is all. -/
theorem after_no_names {s : Scene σ} {c : Call} {topic : Topic} {number : Nat}
    (hadds : c.adds? = some (topic, [])) (hok : s.outcome N c = some (.ok number)) :
    s.after N (.call c) = s.after N .listen := by
  cases c with
  | start topic' names pool =>
    cases hadds
    cases hok
  | ask number' request =>
    cases request with
    | extend topic' names =>
      cases hadds
      cases hi : s.registry.started[number']? with
      | none =>
        simp only [outcome, make, Subscriptions.act, hi] at hok
        cases hok
      | some sub =>
        simp only [after, make, Subscriptions.act, hi, Subscription.Request.run,
          Subscription.extend, List.isEmpty_nil, if_true, put_self hi]
    | leave | join | drop => cases hadds

/-- **Names that were added are held**: in a run in which no call is given up while it waits, a call that
adds names ends well only when the server holds all of them and has acknowledged each by itself, and
everything before. A call without names waits for nothing. -/
theorem adding_names_settled {net : σ} {moves : List (Move σ)} {c : Call} {topic : Topic}
    {names : List String} {number : Nat} (h : (start net).Orderly N moves)
    (hadds : c.adds? = some (topic, names))
    (hok : ((start net).run N moves).outcome N c = some (.ok number)) :
    let before := (start net).run N moves
    let after := (start net).run N (moves ++ [.call c])
    (names = [] → after = (start net).run N (moves ++ [.listen])) ∧
      (names ≠ [] → ∃ sub, after.registry.find? number = some sub ∧
        ∀ server, Serves (after.talk sub) server →
          Established server (before.talk sub) (after.talk sub) sub topic names) := by
  intro before after
  simp only [before, after, run_concat]
  constructor
  · rintro rfl
    exact after_no_names hadds hok
  · intro hne
    obtain ⟨sub, hsub, hpre, hadded⟩ := (kept_run h).added hadds hok hne
    refine ⟨sub, hsub, fun server hserves => ?_⟩
    obtain ⟨s₀, h₀⟩ := hserves.of_prefix hpre
    have hpos : 0 < names.length := List.length_pos_iff.2 hne
    have hjoined := h₀.joined
    obtain ⟨⟨vs, hvs⟩, hawaits, hinformed⟩ := hadded (by omega)
    exact hserves.established hvs hne hawaits hinformed

/-- What is held when one of two names was left. -/
def leftOne : Holdings :=
  (Change.leave .channels (utf8 "a")).apply
    ((Change.join .channels (utf8 "b")).apply ((Change.join .channels (utf8 "a")).apply fun _ => ∅))

/-- A server can have left a name of which nobody has heard yet. -/
theorem serves_left_one : Serves
    [.said (.of "SUBSCRIBE" [utf8 "a", utf8 "b"]),
      .heard ((Change.join .channels (utf8 "a")).frame 1),
      .heard ((Change.join .channels (utf8 "b")).frame 2), .said (.of "UNSUBSCRIBE" [utf8 "a"])]
    { held := leftOne, due := [(Change.leave .channels (utf8 "a")).frame 1] } := by
  have hjoined : Serves _ { held := _, due := [_, _] } :=
    (Serves.fresh.said (c := .of "SUBSCRIBE" [utf8 "a", utf8 "b"])).carried (s := {})
      (.joins (show _ = some Topic.channels by decide +kernel))
      (.cons (n := 1) (by decide +kernel) (.cons (n := 2) (by decide +kernel) .nil))
  have hheard := (hjoined.heard (s := { held := _ })).heard (s := { held := _ })
  exact (hheard.said (c := .of "UNSUBSCRIBE" [utf8 "a"])).carried (s := { held := _ })
    (.leaves (show _ = some Topic.channels by decide +kernel) (by decide +kernel))
    (.cons (n := 1) (by decide +kernel) .nil)

/-- The acknowledgement of a name that was left, and a message, may come while names are added, of which
one is given twice. -/
theorem added_names_settled_after_late_leave :
    ∃ (net : Rehearsal.Stage) (moves : List (Move Rehearsal.Stage)) (sub : Subscription)
      (server : ServerEnd),
      let last : Call := .ask 0 (.extend .channels ["b", "c", "b"])
      let before := (start net).run Rehearsal.network moves
      let after := (start net).run Rehearsal.network (moves ++ [.call last])
      (start net).Orderly Rehearsal.network moves ∧
      before.outcome Rehearsal.network last = some (.ok 0) ∧ after.registry.find? 0 = some sub ∧
      Established server (before.talk sub) (after.talk sub) sub .channels ["b", "c", "b"] := by
  let net : Rehearsal.Stage := { rules := [{ command := some "UNSUBSCRIBE", action := .silent }] }
  let left := Change.leave .channels (utf8 "a")
  let message : Resp.Value := .array [.bulk (utf8 "message"), .bulk (utf8 "b"), .bulk (utf8 "hello")]
  let later : Rehearsal.Stage := { links := [{
    node := "a:1/0", channels := [utf8 "b"], queue := [.value (left.frame 1), .value message] }] }
  let moves : List (Move Rehearsal.Stage) := [
    .call (.start .channels ["a", "b"] { node := { host := "a", port := 1 } }),
    .call (.ask 0 (.leave .channels ["a"])), .meanwhile later 0 none]
  let last : Call := .ask 0 (.extend .channels ["b", "c", "b"])
  have horderly : (start net).Orderly Rehearsal.network moves := by
    rintro before c hpre number topic names rfl
    simpa [moves] using hpre.subset (List.mem_append_right before List.mem_cons_self)
  have hok : ((start net).run Rehearsal.network moves).outcome Rehearsal.network last = some (.ok 0) := by
    decide +kernel
  have htalk : (((start net).run Rehearsal.network (moves ++ [.call last])).registry.find? 0).map
      ((start net).run Rehearsal.network (moves ++ [.call last])).talk =
      some [.said (.of "SUBSCRIBE" [utf8 "a", utf8 "b"]),
        .heard ((Change.join .channels (utf8 "a")).frame 1),
        .heard ((Change.join .channels (utf8 "b")).frame 2),
        .said (.of "UNSUBSCRIBE" [utf8 "a"]),
        .said (.of "SUBSCRIBE" [utf8 "b", utf8 "c", utf8 "b"]),
        .heard (left.frame 1), .heard message,
        .heard ((Change.join .channels (utf8 "b")).frame 1),
        .heard ((Change.join .channels (utf8 "c")).frame 2),
        .heard ((Change.join .channels (utf8 "b")).frame 2)] := by decide +kernel
  obtain ⟨sub, hsub, htalk⟩ := Option.map_eq_some_iff.1 htalk
  let joining : Command := .of "SUBSCRIBE" [utf8 "b", utf8 "c", utf8 "b"]
  have hasked := ((serves_left_one.said (c := joining)).heard
    (s := { held := leftOne, coming := [joining] })).message (v := message) (by decide +kernel)
  have hcarried : Serves _ { held := _, due := [_, _, _] } :=
    hasked.carried (s := { held := leftOne }) (.joins (show _ = some Topic.channels by decide +kernel))
      (.cons (n := 1) (by decide +kernel) (.cons (n := 2) (by decide +kernel)
        (.cons (n := 2) (by decide +kernel) .nil)))
  have hheard := ((hcarried.heard (s := { held := _ })).heard (s := { held := _ })).heard
    (s := { held := _ })
  obtain ⟨sub', hsub', hestablished⟩ := (adding_names_settled horderly (c := last) rfl hok).2 (by simp)
  cases hsub.symm.trans hsub'
  exact ⟨net, moves, sub, _, horderly, hok, hsub, hestablished _ (by rw [htalk]; exact hheard)⟩

/-- A call without names ends well while the last thing that was left is still to be acknowledged, and
then the number that was reported last is not the number of names that are held. -/
theorem count_behind_without_names :
    ¬ ∀ (net : Rehearsal.Stage) (moves : List (Move Rehearsal.Stage)) (c : Call) (topic : Topic)
      (names : List String) (number : Nat) (sub : Subscription) (server : ServerEnd),
      (start net).Orderly Rehearsal.network moves → c.adds? = some (topic, names) →
      ((start net).run Rehearsal.network moves).outcome Rehearsal.network c = some (.ok number) →
      ((start net).run Rehearsal.network (moves ++ [.call c])).registry.find? number = some sub →
      Serves (((start net).run Rehearsal.network (moves ++ [.call c])).talk sub) server →
      sub.listener.subscribed = server.held.total := by
  intro hall
  let net : Rehearsal.Stage := { rules := [{ command := some "UNSUBSCRIBE", action := .silent }] }
  let moves : List (Move Rehearsal.Stage) := [
    .call (.start .channels ["a", "b"] { node := { host := "a", port := 1 } }),
    .call (.ask 0 (.leave .channels ["a"]))]
  let last : Call := .ask 0 (.extend .channels [])
  have horderly : (start net).Orderly Rehearsal.network moves := by
    rintro before c hpre number topic names rfl
    simpa [moves] using hpre.subset (List.mem_append_right before List.mem_cons_self)
  have hok : ((start net).run Rehearsal.network moves).outcome Rehearsal.network last = some (.ok 0) := by
    decide +kernel
  obtain ⟨sub, hsub, hfacts⟩ := Option.map_eq_some_iff.1 (show
    (((start net).run Rehearsal.network (moves ++ [.call last])).registry.find? 0).map
      (fun sub => (sub.listener.subscribed,
        ((start net).run Rehearsal.network (moves ++ [.call last])).talk sub)) =
      some (2, [.said (.of "SUBSCRIBE" [utf8 "a", utf8 "b"]),
        .heard ((Change.join .channels (utf8 "a")).frame 1),
        .heard ((Change.join .channels (utf8 "b")).frame 2),
        .said (.of "UNSUBSCRIBE" [utf8 "a"])]) by decide +kernel)
  obtain ⟨hcount, htalk⟩ := Prod.mk.inj hfacts
  have hcounts := hall net moves last .channels [] 0 sub _ horderly rfl hok hsub
    (by rw [htalk]; exact serves_left_one)
  rw [hcount] at hcounts
  revert hcounts
  decide +kernel

end Subscriptions.Scene

end ShardFleet
