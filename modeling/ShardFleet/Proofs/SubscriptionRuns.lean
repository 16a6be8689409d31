import ShardFleet.Proofs.Talks

/-!
# Runs of subscriptions

Subscriptions are started, asked and listened to in any order on one overheard network. No two have the
same link, and in every run in which no call is given up while it waits, every one of them is balanced
between the calls.
-/

namespace ShardFleet

variable {σ : Type} {N : Network σ}

namespace Subscriptions

open Subscription (Balanced Hears OwnLink Starts)

/-! ### Calls and moves -/

/-- A call that starts a subscription, or asks something of one. -/
inductive Call where
  | start (topic : Topic) (names : List String) (pool : Pool)
  | ask (number : Nat) (request : Subscription.Request)
deriving DecidableEq, Repr

/-- What happens next. -/
inductive Move (σ : Type) where
  | call (c : Call)
  /-- Every listener takes what has arrived for it. -/
  | listen
  /-- The network and the time change by themselves, and so does the moment at which the next call
  will be given up. -/
  | meanwhile (net : σ) (clock : Nat) (deadline : Option Nat)

/-- All subscriptions and the wire that they work on. -/
structure Scene (σ : Type) where
  registry : Subscriptions
  wire : Wire (Overheard σ)

/-- The topic and the names that a call adds. -/
def Call.adds? : Call → Option (Topic × List String)
  | start topic names _ | ask _ (.extend topic names) => some (topic, names)
  | _ => none

/-- Whether a call that ended so was not given up while it waited, nor had too many names. Of new
subscriptions this is not asked. -/
def Call.Ends (c : Call) (r : Option (Outcome Nat)) : Prop :=
  ∀ number topic names, c = .ask number (.extend topic names) →
    names.length < Subscription.ackLimit ∧ r ≠ some .stalled

namespace Scene

/-- A network on which nothing was said or heard yet. -/
def start (net : σ) : Scene σ := ⟨{}, { net := { net } }⟩

/-- The talk on the link of a subscription. -/
def talk (s : Scene σ) (sub : Subscription) : Talk := Subscription.talk (sub, s.wire)

section

variable (N : Network σ)

/-- Makes a call, which answers the number of its subscription. Nothing is answered where there is
none. -/
def make (s : Scene σ) : Call → Option (Outcome Nat) × Scene σ
  | .start topic names pool =>
    let (r, registry, _, wire) := s.registry.start N.overheard topic names pool s.wire
    (some r, ⟨registry, wire⟩)
  | .ask number request =>
    let (r, registry, wire) := s.registry.act N.overheard (request.run N.overheard) number s.wire
    (r.map (·.map fun _ => number), ⟨registry, wire⟩)

/-- How a call ends that is made now. -/
def outcome (s : Scene σ) (c : Call) : Option (Outcome Nat) := (s.make N c).1

/-- The scene after a move. -/
def after (s : Scene σ) : Move σ → Scene σ
  | .call c => (s.make N c).2
  | .listen =>
    let (registry, wire) := s.registry.settle N.overheard s.wire
    ⟨registry, wire⟩
  | .meanwhile net clock deadline =>
    { s with wire := { s.wire with net := { s.wire.net with net }, clock, deadline } }

/-- The scene after some moves. -/
def run (s : Scene σ) (moves : List (Move σ)) : Scene σ := moves.foldl (after N) s

/-- Whether no call among some moves is given up while it waits for acknowledgements, nor has too many
names. -/
def Orderly (s : Scene σ) (moves : List (Move σ)) : Prop :=
  ∀ before c, before ++ [.call c] <+: moves → c.Ends ((s.run N before).outcome N c)

end

theorem run_concat (s : Scene σ) (moves : List (Move σ)) (m : Move σ) :
    s.run N (moves ++ [m]) = (s.run N moves).after N m := by
  simp [run, List.foldl_append]

/-! ### Links of their own -/

/-- Whether the subscriptions have links of their own, and nothing was said or heard on links that are
still to be made. -/
structure Parted (s : Scene σ) : Prop where
  links : ∀ sub ∈ s.registry.started, sub.connection.link < s.wire.opened
  apart : (s.registry.started.map (·.connection.link)).Nodup
  fresh : ∀ link, s.wire.opened ≤ link → s.wire.net.talks link = []

variable {r r' : Subscriptions} {w w' : Wire (Overheard σ)} {i : Nat} {sub sub' : Subscription}

theorem Parted.link_ne (h : Parted ⟨r, w⟩) {j : Nat} {other : Subscription}
    (hi : r.started[i]? = some sub) (hj : r.started[j]? = some other) (hne : i ≠ j) :
    other.connection.link ≠ sub.connection.link := by
  intro hsame
  have hlt : i < (r.started.map (·.connection.link)).length := by
    simpa using (List.getElem?_eq_some_iff.1 hi).1
  exact hne ((List.getElem?_inj hlt h.apart).1 (by simp [hi, hj, hsame]))

theorem hears_of_talk (h : w'.net.talks sub.connection.link = w.net.talks sub.connection.link) :
    Hears (sub, w) (sub, w') :=
  .of_same rfl h rfl rfl id

/-- What one subscription does on its own link keeps the links apart. -/
theorem Parted.set (h : Parted ⟨r, w⟩) (hi : r.started[i]? = some sub)
    (hown : OwnLink (sub, w) (sub', w')) : Parted ⟨r.put i sub sub', w'⟩ where
  links s hs := by
    rw [show w'.opened = w.opened from hown.opened]
    rcases List.mem_or_eq_of_mem_set hs with hs | rfl
    · exact h.links s hs
    · rw [show s.connection = sub.connection from hown.connection]
      exact h.links sub (List.mem_of_getElem? hi)
  apart := by
    obtain ⟨hlt, rfl⟩ := List.getElem?_eq_some_iff.1 hi
    have hlink : sub'.connection.link =
        (r.started.map (·.connection.link)).get ⟨i, by simpa using hlt⟩ := by
      rw [List.get_eq_getElem, List.getElem_map]
      exact congrArg Connection.link hown.connection
    change ((r.started.set i sub').map (·.connection.link)).Nodup
    rw [List.map_set, hlink, List.get_eq_getElem, List.set_getElem_self]
    exact h.apart
  fresh link hlink := by
    rw [show w'.opened = w.opened from hown.opened] at hlink
    have hne : link ≠ sub.connection.link := by
      have hlt : sub.connection.link < w.opened := h.links sub (List.mem_of_getElem? hi)
      omega
    exact (hown.others link hne).trans (h.fresh link hlink)

/-- What one subscription does on its own link the others do not notice. -/
theorem Parted.others (h : Parted ⟨r, w⟩) (hi : r.started[i]? = some sub)
    (hown : OwnLink (sub, w) (sub', w')) {j : Nat} {other : Subscription}
    (hj : r.started[j]? = some other) (hne : i ≠ j) :
    (r.started.set i sub')[j]? = some other ∧ Hears (other, w) (other, w') :=
  ⟨(List.getElem?_set_ne hne).trans hj, hears_of_talk (hown.others _ (h.link_ne hi hj hne))⟩

/-- Whether all subscriptions only listened between two moments. -/
def Listens (x y : Subscriptions × Wire (Overheard σ)) : Prop :=
  ∀ (i : Nat) (sub : Subscription), x.1.started[i]? = some sub →
    ∃ sub', y.1.started[i]? = some sub' ∧ Hears (sub, x.2) (sub', y.2)

theorem Parted.stirs (h : Parted ⟨r, w⟩) (hstirs : Stirs N.overheard (r, w) (r', w')) :
    Parted ⟨r', w'⟩ ∧ Listens (r, w) (r', w') := by
  cases hstirs with
  | @one _ _ _ i sub sub' here stirs =>
    obtain ⟨hown, hhears⟩ := Subscription.ownLink_stirs stirs
    refine ⟨h.set here hown, fun j other hj => ?_⟩
    by_cases hij : i = j
    · subst hij
      cases here.symm.trans hj
      exact ⟨sub', getElem?_put_self here, hhears⟩
    · exact ⟨other, h.others here hown hj hij⟩

theorem Parted.advances {x y : Subscriptions × Wire (Overheard σ)} (h : Parted ⟨x.1, x.2⟩)
    (hadvances : Advances N.overheard x y) : Parted ⟨y.1, y.2⟩ ∧ Listens x y := by
  induction hadvances with
  | refl => exact ⟨h, fun i sub hi => ⟨sub, hi, .refl _⟩⟩
  | tail _ hstep ih =>
    obtain ⟨hparted, hlistens⟩ := ih
    obtain ⟨hparted', hlistens'⟩ := hparted.stirs hstep
    refine ⟨hparted', fun i sub hi => ?_⟩
    obtain ⟨sub', hi', hhears⟩ := hlistens i sub hi
    obtain ⟨sub'', hi'', hhears'⟩ := hlistens' i sub' hi'
    exact ⟨sub'', hi'', hhears.trans hhears'⟩

theorem length_advances {x y : Subscriptions × Wire (Overheard σ)} (h : Advances N.overheard x y) :
    y.1.started.length = x.1.started.length := by
  induction h with
  | refl => rfl
  | tail _ hstep ih =>
    cases hstep
    exact List.length_set.trans ih

/-- However long listeners are let run, every subscription is one that was there. -/
theorem Parted.listened {x y : Subscriptions × Wire (Overheard σ)} (h : Parted ⟨x.1, x.2⟩)
    (hadvances : Advances N.overheard x y) (hi : y.1.started[i]? = some sub') :
    ∃ sub, x.1.started[i]? = some sub ∧ Hears (sub, x.2) (sub', y.2) := by
  have hlt : i < x.1.started.length :=
    length_advances hadvances ▸ (List.getElem?_eq_some_iff.1 hi).1
  have here := List.getElem?_eq_getElem hlt
  obtain ⟨sub, hsub, hhears⟩ := (h.advances hadvances).2 i _ here
  cases hi.symm.trans hsub
  exact ⟨_, here, hhears⟩

theorem Parted.started {topic : Topic} {names : List String} {s : Subscription.Started}
    (h : Parted ⟨r, w⟩) (hstarts : Starts topic names w s w') :
    Parted ⟨r.add s.subscription, w'⟩ := by
  have hle : w.opened ≤ w'.opened := by
    obtain ⟨hsame, -⟩ | hmore := hstarts.opened <;> omega
  constructor
  · intro sub hsub
    simp only [started_add] at hsub
    rcases List.mem_append.1 hsub with hsub | hsub
    · exact (h.links sub hsub).trans_le hle
    · obtain ⟨hopened, hlink, -⟩ := hstarts.new sub (Option.mem_toList.1 hsub)
      change sub.connection.link < w'.opened
      omega
  · simp only [started_add]
    rw [List.map_append, List.nodup_append]
    refine ⟨h.apart, ?_, ?_⟩
    · cases s.subscription <;> simp
    · intro link hlink link' hlink'
      obtain ⟨sub, hsub, rfl⟩ := List.mem_map.1 hlink
      obtain ⟨sub', hsub', rfl⟩ := List.mem_map.1 hlink'
      have hlt : sub.connection.link < w.opened := h.links sub hsub
      obtain ⟨-, hnew, -⟩ := hstarts.new sub' (Option.mem_toList.1 hsub')
      omega
  · intro link hlink
    change w'.opened ≤ link at hlink
    change w'.net.talks link = []
    obtain ⟨-, hsame⟩ | hmore := hstarts.opened
    · rw [hsame]
      exact h.fresh link (hle.trans hlink)
    · rw [hstarts.others link (by omega)]
      exact h.fresh link (hle.trans hlink)

/-- On links that were there before nothing is said or heard while a subscription is started. -/
theorem Parted.untouched {topic : Topic} {names : List String} {s : Subscription.Started}
    (h : Parted ⟨r, w⟩) (hstarts : Starts topic names w s w') :
    ∀ sub ∈ r.started, w'.net.talks sub.connection.link = w.net.talks sub.connection.link := by
  intro sub hsub
  have hlt : sub.connection.link < w.opened := h.links sub hsub
  exact hstarts.others _ (by omega)

/-! ### What holds between calls -/

/-- What holds between calls: the subscriptions have links of their own, on which alone was spoken, and
are balanced. -/
structure Kept (s : Scene σ) : Prop where
  links : ∀ sub ∈ s.registry.started, sub.connection.link < s.wire.opened
  apart : (s.registry.started.map (·.connection.link)).Nodup
  fresh : ∀ link, s.wire.opened ≤ link → s.wire.net.talks link = []
  balanced : ∀ sub ∈ s.registry.started, Balanced (sub, s.wire)

theorem Kept.parted {s : Scene σ} (h : s.Kept) : s.Parted := ⟨h.links, h.apart, h.fresh⟩

theorem Parted.kept {s : Scene σ} (h : s.Parted)
    (hbalanced : ∀ sub ∈ s.registry.started, Balanced (sub, s.wire)) : s.Kept :=
  ⟨h.links, h.apart, h.fresh, hbalanced⟩

/-- What one subscription does on its own link keeps all of them. -/
theorem Kept.set (h : Kept ⟨r, w⟩) (hi : r.started[i]? = some sub) (hown : OwnLink (sub, w) (sub', w'))
    (hbalanced : Balanced (sub', w')) : Kept ⟨r.put i sub sub', w'⟩ := by
  refine (h.parted.set hi hown).kept fun s hs => ?_
  obtain ⟨j, hj⟩ := List.mem_iff_getElem?.1 hs
  by_cases hij : i = j
  · subst hij
    have hlt := (List.getElem?_eq_some_iff.1 hi).1
    cases (List.getElem?_set_self hlt).symm.trans hj
    exact hbalanced
  · have hj' : r.started[j]? = some s := (List.getElem?_set_ne hij).symm.trans hj
    exact (h.parted.others hi hown hj' hij).2.balanced (h.balanced s (List.mem_of_getElem? hj'))

theorem Kept.advances {x y : Subscriptions × Wire (Overheard σ)} (h : Kept ⟨x.1, x.2⟩)
    (hadvances : Advances N.overheard x y) : Kept ⟨y.1, y.2⟩ ∧ Listens x y := by
  obtain ⟨hparted, hlistens⟩ := h.parted.advances hadvances
  refine ⟨hparted.kept fun sub' hsub' => ?_, hlistens⟩
  obtain ⟨j, hj⟩ := List.mem_iff_getElem?.1 hsub'
  obtain ⟨sub, hsub, hhears⟩ := h.parted.listened hadvances hj
  exact hhears.balanced (h.balanced sub (List.mem_of_getElem? hsub))

/-- What a subscription is asked, and the listening that follows, keeps all of them. -/
theorem Kept.act {α : Type}
    {f : Subscription → Wire (Overheard σ) → α × Subscription × Wire (Overheard σ)} {a : α}
    (h : Kept ⟨r, w⟩) (hi : r.started[i]? = some sub) (hf : f sub w = (a, sub', w'))
    (hown : OwnLink (sub, w) (sub', w')) (hbalanced : Balanced (sub', w')) :
    ∃ r'' w'', r.act N.overheard f i w = (some a, r'', w'') ∧ Kept ⟨r'', w''⟩ ∧
      ∃ sub'', r''.started[i]? = some sub'' ∧ Hears (sub', w') (sub'', w'') := by
  have hkept := h.set hi hown hbalanced
  obtain ⟨hkept', hlistens⟩ := hkept.advances
    (settle_advances (N := N.overheard) (r.put i sub sub') w')
  have hact : r.act N.overheard f i w = (some a, settle N.overheard (r.put i sub sub') w') := by
    simp only [Subscriptions.act, hi, hf]
  exact ⟨_, _, hact, hkept', hlistens i sub' (getElem?_put_self hi)⟩

theorem Kept.started {topic : Topic} {names : List String} {s : Subscription.Started}
    (h : Kept ⟨r, w⟩) (hstarts : Starts topic names w s w') :
    Kept ⟨r.add s.subscription, w'⟩ := by
  refine (h.parted.started hstarts).kept fun sub hsub => ?_
  simp only [started_add] at hsub
  rcases List.mem_append.1 hsub with hsub | hsub
  · exact (hears_of_talk (h.parted.untouched hstarts sub hsub)).balanced (h.balanced sub hsub)
  · exact (hstarts.new sub (Option.mem_toList.1 hsub)).2.2

/-! ### Runs -/

theorem kept_start (net : σ) : (start net).Kept :=
  ⟨by simp [start], by simp [start], fun _ _ => rfl, by simp [start]⟩

theorem Kept.after {s : Scene σ} (h : s.Kept) {m : Move σ}
    (hends : ∀ c, m = .call c → c.Ends (s.outcome N c)) : (s.after N m).Kept := by
  cases m with
  | listen => exact (Kept.advances (x := (s.registry, s.wire)) h (settle_advances ..)).1
  | meanwhile net clock deadline =>
    refine ⟨h.links, h.apart, h.fresh, fun sub hsub => ?_⟩
    have hsame : Hears (sub, s.wire) (sub, (s.after N (.meanwhile net clock deadline)).wire) :=
      hears_of_talk rfl
    exact hsame.balanced (h.balanced sub hsub)
  | call c =>
    cases c with
    | start topic names pool =>
      rcases hr : Subscription.start N.overheard topic names pool s.wire with ⟨r, p, w⟩
      have hkept := h.started (Subscription.start_starts hr (h.fresh _ le_rfl))
      simpa only [Scene.after, make, Subscriptions.start, hr] using hkept
    | ask number request =>
      have hends := hends _ rfl
      cases hi : s.registry.started[number]? with
      | none => simpa only [Scene.after, make, Subscriptions.act, hi] using h
      | some sub =>
        rcases hr : request.run N.overheard sub s.wire with ⟨r, sub', w⟩
        have hrequest : request.Ends r := by
          rintro topic names rfl
          obtain ⟨hlimit, hstalled⟩ := hends number topic names rfl
          refine ⟨hlimit, ?_⟩
          rintro rfl
          simp only [outcome, make, Subscriptions.act, hi, hr] at hstalled
          exact hstalled rfl
        obtain ⟨hown, hbalanced⟩ := Subscription.request_balanced hr hrequest
          (h.balanced sub (List.mem_of_getElem? hi))
        obtain ⟨r', w', hact, hkept, -⟩ :=
          h.act (N := N) (f := request.run N.overheard) hi hr hown hbalanced
        simpa only [Scene.after, make, hact] using hkept

/-- What a call has done that added names: since then its command was said on the link of its
subscription, and all that was awaited there has come. -/
structure Added (s s' : Scene σ) (topic : Topic) (names : List String) (sub : Subscription) : Prop where
  said : ∃ vs : List Resp.Value, s'.talk sub =
    s.talk sub ++ .said (Subscription.command topic.joinCommand names) :: vs.map .heard
  awaits : sub.Awaits (s'.talk sub) 0
  informed : sub.Informed (s'.talk sub)

theorem Kept.added_start {s : Scene σ} (h : s.Kept) {topic : Topic} {names : List String} {pool : Pool}
    {number : Nat} (hok : s.outcome N (.start topic names pool) = some (.ok number)) :
    ∃ sub, (s.after N (.call (.start topic names pool))).registry.find? number = some sub ∧
      s.talk sub = [] ∧ Added s (s.after N (.call (.start topic names pool))) topic names sub := by
  rcases hr : Subscription.start N.overheard topic names pool s.wire with ⟨r, p, w⟩
  have hstarts := Subscription.start_starts hr (h.fresh _ le_rfl)
  simp only [outcome, make, Subscriptions.start, hr] at hok
  have hdone : r.outcome = .ok () := by
    rcases ho : r.outcome with _ | _ | _ <;> simp only [ho] at hok
    · rfl
    all_goals cases hok
  have hnumber : number = s.registry.started.length := by
    simpa [hdone, Outcome.map] using hok.symm
  obtain ⟨sub, hsub, hawaits, vs, hvs⟩ := hstarts.done hdone
  obtain ⟨-, hlink, hbalanced⟩ := hstarts.new sub hsub
  have hnew : s.talk sub = [] := by
    rw [talk, Subscription.talk, hlink]
    exact h.fresh _ le_rfl
  have hafter : s.after N (.call (.start topic names pool)) = ⟨s.registry.add (some sub), w⟩ := by
    simp only [Scene.after, make, Subscriptions.start, hr, hsub]
  rw [hafter]
  refine ⟨sub, by simp [Subscriptions.find?, hnumber], hnew, ⟨vs, ?_⟩, hawaits, hbalanced.informed⟩
  rw [hnew]
  exact hvs

theorem Kept.added_extend {s : Scene σ} (h : s.Kept) {topic : Topic} {names : List String}
    {asked number : Nat} (hne : names ≠ [])
    (hok : s.outcome N (.ask asked (.extend topic names)) = some (.ok number)) :
    ∃ sub, (s.after N (.call (.ask asked (.extend topic names)))).registry.find? number = some sub ∧
      s.talk sub <+: (s.after N (.call (.ask asked (.extend topic names)))).talk sub ∧
      ((s.talk sub).joined < (s.talk sub).asked + names.length →
        Added s (s.after N (.call (.ask asked (.extend topic names)))) topic names sub) := by
  cases hi : s.registry.started[asked]? with
  | none =>
    simp only [outcome, make, Subscriptions.act, hi] at hok
    cases hok
  | some sub =>
    rcases hr : sub.extend N.overheard topic names s.wire with ⟨r, sub', w⟩
    have hbalanced := h.balanced sub (List.mem_of_getElem? hi)
    obtain ⟨rfl, rfl⟩ : r = .ok () ∧ number = asked := by
      simp only [outcome, make, Subscriptions.act, hi, Subscription.Request.run, hr] at hok
      rcases r with _ | _ | _ <;> cases hok
      exact ⟨rfl, rfl⟩
    obtain ⟨hown, hbalanced', hextended⟩ := Subscription.extend_balanced hr (.inl rfl) hbalanced
    obtain ⟨hactive, hextended⟩ := hextended rfl hne
    obtain ⟨r', w', hact, -, sub'', hi', hhears⟩ :=
      h.act (N := N) (f := (Subscription.Request.extend topic names).run N.overheard) hi hr hown
        hbalanced'
    have hafter : s.after N (.call (.ask number (.extend topic names))) = ⟨r', w'⟩ := by
      simp only [Scene.after, make, hact]
    have hbefore : s.talk sub'' = Subscription.talk (sub, s.wire) := by
      rw [talk, Subscription.talk, hhears.connection.trans hown.connection]
      rfl
    obtain ⟨vs, hvs⟩ := hhears.heard
    rw [hafter]
    refine ⟨sub'', hi', ?_, fun hfew => ?_⟩
    · rw [hbefore, talk, hvs]
      exact hown.grows.trans (List.prefix_append ..)
    · rw [hbefore] at hfew
      have hacks := hbalanced.awaits hactive
      simp only [Subscription.Awaits] at hacks
      obtain ⟨hawaits, us, hus⟩ := hextended (by omega)
      refine ⟨⟨us ++ vs, ?_⟩, hhears.awaits 0 hawaits, hhears.informed hbalanced'.informed⟩
      rw [hbefore, talk, hvs, hus, List.map_append, List.append_assoc, List.cons_append]

/-- A call that adds names and ends well adds them to a subscription, unless as many names had been
acknowledged there already before they were asked for. -/
theorem Kept.added {s : Scene σ} (h : s.Kept) {c : Call} {topic : Topic} {names : List String}
    {number : Nat} (hadds : c.adds? = some (topic, names)) (hok : s.outcome N c = some (.ok number))
    (hne : names ≠ []) : ∃ sub, (s.after N (.call c)).registry.find? number = some sub ∧
      s.talk sub <+: (s.after N (.call c)).talk sub ∧
      ((s.talk sub).joined < (s.talk sub).asked + names.length →
        Added s (s.after N (.call c)) topic names sub) := by
  cases c with
  | start =>
    cases hadds
    obtain ⟨sub, hsub, hnew, hadded⟩ := h.added_start hok
    exact ⟨sub, hsub, hnew ▸ List.nil_prefix, fun _ => hadded⟩
  | ask asked request =>
    cases request with
    | extend =>
      cases hadds
      exact h.added_extend hne hok
    | leave | join | drop => cases hadds

theorem kept_run {net : σ} {moves : List (Move σ)} (h : (start net).Orderly N moves) :
    ((start net).run N moves).Kept := by
  induction moves using List.reverseRecOn with
  | nil => exact kept_start net
  | append_singleton moves m ih =>
    rw [run_concat]
    refine (ih fun before c hpre => h before c (hpre.trans (List.prefix_append ..))).after ?_
    rintro c rfl
    exact h moves c List.prefix_rfl

end Scene

end Subscriptions

end ShardFleet
