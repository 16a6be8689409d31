import ShardFleet.Proofs.Deeds

/-!
# Who holds which connection

Each connection has one holder: the pool that keeps it, the session that it is pinned to, or the call
that has it in hand; and a pool counts as lent what sessions and the call hold of it (`Accounted`).

However a call goes, it handles connections in a few kinds of steps: it borrows one or takes the one of
its session, makes a request over it, and pins it or gives it back. `Handles` lists these steps, and
`Deed.induction` says that what each of them keeps is kept by every call.
-/

namespace ShardFleet

/-! ### Sums over tables -/

namespace Table

variable {κ α : Type} [DecidableEq κ]

/-- The sum of a number for each value. -/
def sum (f : α → Nat) (t : Table κ α) : Nat := (t.entries.map fun e => f e.2).sum

theorem sum_insert (f : α → Nat) (t : Table κ α) (key : κ) (a : α) :
    (t.insert key a).sum f = f a + (t.erase key).sum f := by
  simp [sum, entries_insert]

theorem sum_of_find? {f : α → Nat} {t : Table κ α} {key : κ} {a : α} (h : t.find? key = some a) :
    t.sum f = f a + (t.erase key).sum f := by
  obtain ⟨l, hl⟩ := t
  rw [find?_eq_some_iff] at h
  simp only [sum, erase] at h ⊢
  induction l with
  | nil => simp at h
  | cons x l ih =>
    obtain ⟨hn, hl⟩ := List.nodup_cons.1 hl
    rcases List.mem_cons.1 h with rfl | h
    · have hrest : l.filter (fun y => !decide (y.1 = key)) = l := by
        refine List.filter_eq_self.2 fun y hy => ?_
        have hne : y.1 ≠ key := fun he => hn (List.mem_map.2 ⟨y, hy, he⟩)
        simpa using hne
      simp [hrest]
    · have hne : x.1 ≠ key := fun he => hn (List.mem_map.2 ⟨_, h, he.symm⟩)
      have := ih hl h
      simp only [List.map_cons, List.sum_cons, List.filter_cons, hne, ne_eq, not_false_eq_true,
        decide_true, if_true] at this ⊢
      omega

end Table

/-! ### Who holds a connection -/

/-- How many of some connections are the link with a number. -/
def linkCount (link : Nat) (cs : List Connection) : Nat := cs.countP (·.link = link)

@[simp] theorem linkCount_nil (link : Nat) : linkCount link [] = 0 := rfl

@[simp] theorem linkCount_cons (link : Nat) (c : Connection) (cs : List Connection) :
    linkCount link (c :: cs) = linkCount link cs + if c.link = link then 1 else 0 := by
  simp [linkCount, List.countP_cons]

@[simp] theorem linkCount_append (link : Nat) (cs ds : List Connection) :
    linkCount link (cs ++ ds) = linkCount link cs + linkCount link ds := List.countP_append ..

theorem linkCount_pos {link : Nat} {cs : List Connection} :
    0 < linkCount link cs ↔ ∃ c ∈ cs, c.link = link := by
  simp [linkCount, List.countP_pos_iff]

namespace Executor

/-- How often a link is kept by a pool or pinned to a session. -/
def holders (e : Executor) (link : Nat) : Nat :=
  e.pools.sum (fun p => linkCount link p.idle) +
    e.sessions.sum fun s => linkCount link s.connection.toList

/-- The number of contexts whose session is on a node. -/
def sessionsOn (e : Executor) (id : String) : Nat :=
  e.sessions.entries.countP fun x => x.2.node.id = id

/-- Whether a connection is pinned to a context. -/
def Pins (e : Executor) (context : Nat) (c : Connection) : Prop :=
  ∃ s, e.session? context = some s ∧ s.connection = some c

end Executor

variable {σ : Type} {N : Network σ}

/-- Whether a connection was made to its node, for all borrowers to share. -/
structure Connection.Shared (w : Wire σ) (c : Connection) : Prop where
  undedicated : c.dedicated = false
  opened : .opened c.link c.node ∈ w.trace

/-- Whether a connection takes up capacity of a pool. -/
structure Executor.Lent (e : Executor) (w : Wire σ) (c : Connection) : Prop where
  shared : c.Shared w
  lent : c.lent = true
  pool : ∃ p, e.pools.find? c.node = some p

/-- Every connection is accounted for, where a call has `hand` in use. -/
structure Executor.Accounted (e : Executor) (w : Wire σ) (hand : Option Connection) : Prop where
  named : ∀ id p, e.pools.find? id = some p → p.node.id = id
  kept : ∀ id p, e.pools.find? id = some p → ∀ c ∈ p.idle, c.node = id ∧ c.Shared w
  pinned : ∀ context s, e.session? context = some s →
    ∃ c, s.connection = some c ∧ c.node = s.node.id ∧ e.Lent w c
  handed : ∀ c ∈ hand, e.Lent w c
  /-- Only links that were made are held, and each only once. -/
  once : ∀ link, e.holders link + linkCount link hand.toList ≤ if link < w.opened then 1 else 0
  active : ∀ id p, e.pools.find? id = some p →
    p.active = e.sessionsOn id + hand.toList.countP (·.node = id)

namespace Executor

theorem holders_setPool {e : Executor} {id : String} {p : Pool} (hp : e.pools.find? id = some p)
    (q : Pool) (link : Nat) :
    (e.setPool id q).holders link + linkCount link p.idle =
      e.holders link + linkCount link q.idle := by
  have hs := Table.sum_of_find? (f := fun p : Pool => linkCount link p.idle) hp
  simp only [holders, setPool, Table.sum_insert] at hs ⊢
  omega

theorem holders_setPool_same {e : Executor} {id : String} {p q : Pool}
    (hp : e.pools.find? id = some p) (hq : q.idle = p.idle) (link : Nat) :
    (e.setPool id q).holders link = e.holders link := by
  have := holders_setPool hp q link
  rw [hq] at this
  omega

theorem holders_setPool_tail {e : Executor} {id : String} {p q : Pool} {c : Connection}
    (hp : e.pools.find? id = some p) (hi : p.idle = c :: q.idle) (link : Nat) :
    (e.setPool id q).holders link + (if c.link = link then 1 else 0) = e.holders link := by
  have := holders_setPool hp q link
  rw [hi, linkCount_cons] at this
  omega

theorem holders_setPool_cons {e : Executor} {id : String} {p q : Pool} {c : Connection}
    (hp : e.pools.find? id = some p) (hq : q.idle = c :: p.idle) (link : Nat) :
    (e.setPool id q).holders link = e.holders link + if c.link = link then 1 else 0 := by
  have := holders_setPool hp q link
  rw [hq, linkCount_cons] at this
  omega

theorem holders_setSession {e : Executor} {context : Nat} (free : e.session? context = none)
    (s : Session) (link : Nat) :
    (e.setSession context s).holders link =
      e.holders link + linkCount link s.connection.toList := by
  simp only [holders, setSession, Table.sum_insert, Table.erase_of_find?_eq_none free]
  omega

theorem holders_eraseSession {e : Executor} {context : Nat} {s : Session}
    (hs : e.session? context = some s) (link : Nat) :
    (e.eraseSession context).holders link + linkCount link s.connection.toList =
      e.holders link := by
  have := Table.sum_of_find? (f := fun s : Session => linkCount link s.connection.toList) hs
  simp only [holders, eraseSession] at this ⊢
  omega

theorem holders_unpin {e : Executor} {context : Nat} {s : Session} {c : Connection}
    (hs : e.session? context = some s) (hc : s.connection = some c) (link : Nat) :
    (e.eraseSession context).holders link + (if c.link = link then 1 else 0) = e.holders link := by
  have := holders_eraseSession hs link
  rw [hc, Option.toList_some, linkCount_cons, linkCount_nil] at this
  omega

theorem holders_pin {e : Executor} {context : Nat} {s : Session} {c : Connection}
    (free : e.session? context = none) (hc : s.connection = some c) (link : Nat) :
    (e.setSession context s).holders link = e.holders link + if c.link = link then 1 else 0 := by
  rw [holders_setSession free, hc, Option.toList_some, linkCount_cons, linkCount_nil, Nat.zero_add]

theorem sessionsOn_eq_sum (e : Executor) (id : String) :
    e.sessionsOn id = e.sessions.sum fun s => if s.node.id = id then 1 else 0 := by
  simp only [sessionsOn, Table.sum]
  induction e.sessions.entries with
  | nil => rfl
  | cons x l ih =>
    simp only [List.countP_cons, List.map_cons, List.sum_cons, ih, decide_eq_true_eq]
    omega

theorem sessionsOn_setSession {e : Executor} {context : Nat} (free : e.session? context = none)
    (s : Session) (id : String) :
    (e.setSession context s).sessionsOn id =
      e.sessionsOn id + if s.node.id = id then 1 else 0 := by
  simp only [sessionsOn_eq_sum, setSession, Table.sum_insert, Table.erase_of_find?_eq_none free]
  omega

theorem sessionsOn_eraseSession {e : Executor} {context : Nat} {s : Session}
    (hs : e.session? context = some s) (id : String) :
    (e.eraseSession context).sessionsOn id + (if s.node.id = id then 1 else 0) =
      e.sessionsOn id := by
  have := Table.sum_of_find? (f := fun s : Session => if s.node.id = id then 1 else 0) hs
  simp only [sessionsOn_eq_sum, eraseSession] at this ⊢
  omega

@[simp] theorem sessionsOn_setPool (e : Executor) (id other : String) (p : Pool) :
    (e.setPool id p).sessionsOn other = e.sessionsOn other := rfl

end Executor

/-! ### The trace only grows -/

theorem Connection.Shared.mono {w w' : Wire σ} {c : Connection} (h : c.Shared w)
    (ht : w.trace <+: w'.trace) : c.Shared w' :=
  ⟨h.undedicated, ht.subset h.opened⟩

namespace Executor

variable {e : Executor} {w w' : Wire σ} {hand : Option Connection}

theorem Lent.mono {c : Connection} (h : e.Lent w c) (ht : w.trace <+: w'.trace) : e.Lent w' c :=
  ⟨h.shared.mono ht, h.lent, h.pool⟩

theorem Lent.setPool {c : Connection} (h : e.Lent w c) (id : String) (q : Pool) :
    (e.setPool id q).Lent w c := by
  obtain ⟨p, hp⟩ := h.pool
  refine ⟨h.shared, h.lent, ?_⟩
  rw [find?_setPool]
  split
  · exact ⟨q, rfl⟩
  · exact ⟨p, hp⟩

theorem Accounted.mono (h : e.Accounted w hand) (ho : w.opened ≤ w'.opened)
    (ht : w.trace <+: w'.trace) : e.Accounted w' hand where
  named := h.named
  kept id p hp c hc := ⟨(h.kept id p hp c hc).1, (h.kept id p hp c hc).2.mono ht⟩
  pinned context s hs := by
    obtain ⟨c, hc, hn, hl⟩ := h.pinned context s hs
    exact ⟨c, hc, hn, hl.mono ht⟩
  handed c hc := (h.handed c hc).mono ht
  once link := by
    have := h.once link
    split at this <;> split <;> omega
  active := h.active

theorem Accounted.housed (h : e.Accounted w hand) : e.Housed where
  named := h.named
  kept id p hp c hc := (h.kept id p hp c hc).1
  pinned context s hs := by
    obtain ⟨c, hc, -, hl⟩ := h.pinned context s hs
    obtain ⟨p, hp⟩ := hl.pool
    exact ⟨c, p, hc, hp⟩

/-! ### Every pool keeps connections to its own node -/

section

variable {e' : Executor}

theorem Housed.setPool {id : String} {p q : Pool} (h : e.Housed) (hp : e.pools.find? id = some p)
    (hnode : q.node = p.node) (hkept : ∀ c ∈ q.idle, c.node = id) : (e.setPool id q).Housed where
  named other r hr := by
    rw [find?_setPool] at hr
    split at hr
    · cases hr
      rw [hnode, h.named id p hp, ‹other = id›]
    · exact h.named other r hr
  kept other r hr c hc := by
    rw [find?_setPool] at hr
    split at hr
    · cases hr
      rw [‹other = id›]
      exact hkept c hc
    · exact h.kept other r hr c hc
  pinned context s hs := by
    obtain ⟨c, r, hc, hr⟩ := h.pinned context s hs
    refine ⟨c, if c.node = id then q else r, hc, ?_⟩
    rw [find?_setPool]
    split
    · rfl
    · exact hr

/-- A pool may change everything but its node and the connections that it keeps. -/
theorem Housed.setPool_same {id : String} {p q : Pool} (h : e.Housed)
    (hp : e.pools.find? id = some p) (hnode : q.node = p.node) (hidle : q.idle = p.idle) :
    (e.setPool id q).Housed :=
  h.setPool hp hnode (hidle ▸ h.kept id p hp)

theorem Housed.setSession {context : Nat} {s : Session} {c : Connection} {p : Pool} (h : e.Housed)
    (hc : s.connection = some c) (hp : e.pools.find? c.node = some p) :
    (e.setSession context s).Housed where
  named := h.named
  kept := h.kept
  pinned other t ht := by
    rw [session?_setSession] at ht
    split at ht
    · cases ht
      exact ⟨c, p, hc, hp⟩
    · exact h.pinned other t ht

theorem Housed.eraseSession (h : e.Housed) (context : Nat) : (e.eraseSession context).Housed where
  named := h.named
  kept := h.kept
  pinned other t ht := by
    rw [session?_eraseSession] at ht
    split at ht
    · cases ht
    · exact h.pinned other t ht

theorem Housed.unlent {id : String} {f? : Option Fault} (h : e.Housed)
    (hu : Unlent N id e w f? e' w') : e'.Housed := by
  obtain ⟨p, hp, rfl, -⟩ := hu.quiet
  exact h.setPool_same hp rfl rfl

theorem Housed.lend {id : String} {c : Connection} (h : e.Housed) (hl : Lends N id e w c e' w') :
    e'.Housed := by
  cases hl with
  | @kept p c rest hp _ hi =>
    exact h.setPool hp rfl fun d hd => h.kept id p hp d (by simp [hi, hd])
  | made hp => exact h.setPool_same hp rfl rfl

theorem Housed.settle {c : Connection} {v : Verdict} (h : e.Housed)
    (hs : Settles N c e w v e' w') : e'.Housed := by
  cases hs with
  | @kept p hp =>
    refine h.setPool hp (by simp) fun d hd => ?_
    rcases List.mem_cons.1 hd with rfl | hd
    · rfl
    · exact h.kept c.node p hp d hd
  | surplus hp | evicted hp | lost hp => exact h.setPool_same hp (by simp) (by simp)

/-- A session is opened with a connection to its node, for which there is a pool. -/
theorem Housed.opened {id : String} {context : Nat} {s : Session} {c : Connection} (h : e.Housed)
    (hl : Lends N id e w c e' w') (hc : s.connection = some c) : (e'.setSession context s).Housed := by
  obtain ⟨hn, -, p, rfl⟩ := hl.pool h
  exact (h.lend hl).setSession hc (by rw [hn, find?_setPool_self])

theorem Housed.ready {call : Call} {context : Nat} {fresh : Bool} {s : Session} {c : Connection}
    (h : e.Housed) (hr : Readies N call context e w fresh e' w' s c) :
    e'.Housed ∧ e'.session? context = some s := by
  cases hr with
  | bound hs => exact ⟨h, hs⟩
  | opened _ _ _ _ hl => exact ⟨h.opened hl rfl, by simp⟩

/-- No way of a call brings a connection to the pool of another node. -/
theorem Housed.deed {call : Call} {r : Outcome Answer} (h : e.Housed) (hd : Deed N call e w r e' w') :
    e'.Housed := by
  cases hd with
  | refused | absent => exact h
  | unlent _ hu => exact h.unlent hu
  | pooled _ hl _ hs => exact (h.lend hl).settle hs
  | begun _ _ hl => exact h.opened hl rfl
  | @stayed context _ _ _ s _ _ _ _ _ hr =>
    obtain ⟨h', hs⟩ := h.ready hr
    obtain ⟨c, p, hc, hp⟩ := h'.pinned context s hs
    cases hr.connection.symm.trans hc
    exact h'.setSession rfl hp
  | parted _ hr _ _ _ hs => exact ((h.ready hr).1.eraseSession _).settle hs
  | left _ _ _ _ hs | cleaned _ _ _ _ _ hs => exact (h.eraseSession _).settle hs

end

/-! ### Connections change hands -/

/-- A change of one pool and of what the call has in hand. -/
theorem Accounted.setPool {hand' : Option Connection} {id : String} {p q : Pool}
    (h : e.Accounted w hand) (hp : e.pools.find? id = some p) (hnode : q.node = p.node)
    (hkept : ∀ c ∈ q.idle, c.node = id ∧ c.Shared w)
    (hhand : ∀ c ∈ hand', (e.setPool id q).Lent w c)
    (honce : ∀ link, (e.setPool id q).holders link + linkCount link hand'.toList ≤
      if link < w.opened then 1 else 0)
    (hactive : q.active + hand.toList.countP (·.node = id) =
      p.active + hand'.toList.countP (·.node = id))
    (hothers : ∀ other ≠ id,
      hand'.toList.countP (·.node = other) = hand.toList.countP (·.node = other)) :
    (e.setPool id q).Accounted w hand' where
  named other r hr := by
    rw [find?_setPool] at hr
    split at hr
    · cases hr
      rw [hnode, h.named id p hp, ‹other = id›]
    · exact h.named other r hr
  kept other r hr c hc := by
    rw [find?_setPool] at hr
    split at hr
    · cases hr
      rw [‹other = id›]
      exact hkept c hc
    · exact h.kept other r hr c hc
  pinned context s hs := by
    obtain ⟨c, hc, hn, hl⟩ := h.pinned context s hs
    exact ⟨c, hc, hn, hl.setPool id q⟩
  handed := hhand
  once := honce
  active other r hr := by
    rw [sessionsOn_setPool]
    rw [find?_setPool] at hr
    split at hr
    · cases hr
      have := h.active id p hp
      rw [‹other = id›]
      omega
    · rw [h.active other r hr, hothers other ‹_›]

theorem Accounted.lend {id : String} {c : Connection} {e₁ : Executor} {w₁ : Wire σ}
    (h : e.Accounted w none) (hl : Lends N id e w c e₁ w₁) : e₁.Accounted w₁ (some c) := by
  cases hl with
  | @kept p c rest hp _ hi =>
    obtain ⟨hn, hc⟩ := h.kept id p hp c (by simp [hi])
    refine h.setPool hp rfl (fun d hd => h.kept id p hp d (by simp [hi, hd])) ?_ ?_ ?_ ?_
    · rintro d ⟨rfl⟩
      exact ⟨⟨hc.undedicated, hc.opened⟩, rfl, by simp [hn]⟩
    · intro link
      have h₁ := holders_setPool_tail (q := { p.claim with idle := rest }) hp hi link
      have h₂ := h.once link
      simp only [linkCount_cons, Option.toList_none, Option.toList_some, linkCount_nil] at h₁ h₂ ⊢
      omega
    · simp [Pool.claim, hn]
    · intro other hne
      simp [hn, Ne.symm hne]
  | @made p link w₁ hp _ hi hw =>
    obtain ⟨rfl, ho, ht⟩ := Wire.connect_ok hw
    have hn := h.named id p hp
    have h' : e.Accounted w₁ none := h.mono (by omega) ⟨_, ht.symm⟩
    refine h'.setPool hp rfl (by simp [Pool.claim, hi]) ?_ ?_ ?_ ?_
    · rintro d ⟨rfl⟩
      exact ⟨⟨rfl, by simp [ht]⟩, rfl, by simp [hn]⟩
    · intro link
      have h₂ := h.once link
      rw [holders_setPool_same hp (by rfl)]
      simp only [linkCount_cons, Option.toList_none, Option.toList_some, linkCount_nil] at h₂ ⊢
      split at h₂ <;> split <;> split <;> omega
    · simp [Pool.claim, hn]
    · intro other hne
      simp [hn, Ne.symm hne]

theorem Accounted.settle {c : Connection} {v : Verdict} {e' : Executor}
    (h : e.Accounted w (some c)) (hs : Settles N c e w v e' w') : e'.Accounted w' none := by
  have hc := h.handed c rfl
  -- In all cases the capacity of one connection is given back, and at most `c` itself is kept.
  have key : ∀ p q, e.pools.find? c.node = some p → q.node = p.node → q.active = p.active - 1 →
      (q.idle = p.idle ∨ q.idle = { c with lent := false } :: p.idle) →
      (e.setPool c.node q).Accounted w none := by
    intro p q hp hnode hactive hidle
    have hcount := h.active c.node p hp
    simp only [Option.toList_some, List.countP_cons, List.countP_nil, decide_true, if_true] at hcount
    refine h.setPool hp hnode ?_ (by simp) ?_ ?_ ?_
    · intro d hd
      obtain hq | hq := hidle <;> rw [hq] at hd
      · exact h.kept _ p hp d hd
      · rcases List.mem_cons.1 hd with rfl | hd
        · exact ⟨rfl, hc.shared.undedicated, hc.shared.opened⟩
        · exact h.kept _ p hp d hd
    · intro link
      have h₂ := h.once link
      simp only [Option.toList_none, Option.toList_some, linkCount_cons, linkCount_nil] at h₂ ⊢
      obtain hq | hq := hidle
      · have h₁ := holders_setPool_same hp hq link
        omega
      · have h₁ := holders_setPool_cons hp hq link
        simp only at h₁
        omega
    · simp only [Option.toList_some, List.countP_cons, List.countP_nil, decide_true, if_true,
        Option.toList_none]
      omega
    · intro other hne
      simp [Ne.symm hne]
  have hforget (p : Pool) : (p.forget c).active = p.active - 1 := by
    simp [Pool.forget, hc.lent, Pool.unclaim]
  have hclose (e : Executor) (he : e.Accounted w none) : e.Accounted (c.close N w) none :=
    he.mono (Nat.le_refl _) ⟨[.closed c.link], rfl⟩
  cases hs with
  | kept hp => exact key _ _ hp (by simp) (hforget _) (.inr rfl)
  | surplus hp => exact hclose _ (key _ _ hp (by simp) (hforget _) (.inl (by simp)))
  | evicted hp => exact hclose _ (key _ _ hp (by simp) (hforget _) (.inl (by simp)))
  | lost hp => exact key _ _ hp (by simp) (hforget _) (.inl (by simp))

theorem Accounted.request {c : Connection} {command : Command} {r : Outcome Resp.Value}
    (h : e.Accounted w (some c)) (hr : c.request N command w = (r, w')) :
    e.Accounted w' (some c.counted) := by
  obtain ⟨ho, events, -, ht⟩ := Connection.request_trace hr
  have h' : e.Accounted w' (some c) := h.mono (by omega) ⟨events, ht.symm⟩
  exact { h' with
    handed := by
      rintro d ⟨rfl⟩
      obtain ⟨hs, hl, hp⟩ := h'.handed c rfl
      exact ⟨⟨hs.undedicated, hs.opened⟩, hl, hp⟩ }

theorem Accounted.pin {context : Nat} {s : Session} {c : Connection} (h : e.Accounted w (some c))
    (free : e.session? context = none) (hs : s.connection = some c) (hn : c.node = s.node.id) :
    (e.setSession context s).Accounted w none where
  named := h.named
  kept := h.kept
  pinned other t ht := by
    rw [session?_setSession] at ht
    split at ht
    · cases ht
      obtain ⟨hc, hl, hp⟩ := h.handed c rfl
      exact ⟨c, hs, hn, hc, hl, hp⟩
    · obtain ⟨d, hd, hn, hc, hl, hp⟩ := h.pinned other t ht
      exact ⟨d, hd, hn, hc, hl, hp⟩
  handed := by simp
  once link := by
    have := h.once link
    rw [holders_pin free hs]
    simpa using this
  active id p hp := by
    have := h.active id p hp
    rw [sessionsOn_setSession free]
    simpa [hn, List.countP_cons] using this

theorem Accounted.unpin {context : Nat} {s : Session} {c : Connection} (h : e.Accounted w none)
    (hs : e.session? context = some s) (hc : s.connection = some c) :
    (e.eraseSession context).Accounted w (some c) := by
  obtain ⟨d, hd, hn, hl⟩ := h.pinned context s hs
  cases hc.symm.trans hd
  refine ⟨h.named, h.kept, ?_, ?_, ?_, ?_⟩
  · intro other t ht
    rw [session?_eraseSession] at ht
    split at ht
    · cases ht
    · obtain ⟨d, hd, hn, hc, hl, hp⟩ := h.pinned other t ht
      exact ⟨d, hd, hn, hc, hl, hp⟩
  · rintro d ⟨rfl⟩
    exact ⟨hl.shared, hl.lent, hl.pool⟩
  · intro link
    have h₁ := holders_unpin hs hc link
    have h₂ := h.once link
    simp only [Option.toList_some, Option.toList_none, linkCount_cons, linkCount_nil] at h₂ ⊢
    omega
  · intro id p hp
    have h₁ := sessionsOn_eraseSession hs id
    have h₂ := h.active id p hp
    simp only [Option.toList_some, Option.toList_none, List.countP_cons, List.countP_nil, hn,
      decide_eq_true_eq] at h₂ ⊢
    omega

theorem Accounted.unlent {id : String} {f? : Option Fault} {e' : Executor}
    (h : e.Accounted w none) (hu : Unlent N id e w f? e' w') : e'.Accounted w' none := by
  obtain ⟨p, hp, rfl, hq⟩ := hu.quiet
  have h' : e.Accounted w' none := h.mono (Nat.le_of_eq hq.opened.symm) ⟨[], by simp [hq.trace]⟩
  refine h'.setPool hp rfl (h'.kept id p hp) (by simp) (fun link => ?_) rfl (fun _ _ => rfl)
  rw [holders_setPool_same hp rfl]
  exact h'.once link

theorem Accounted.ready {call : Call} {context : Nat} {fresh : Bool} {e₁ : Executor} {s : Session}
    {c : Connection} (h : e.Accounted w none) (hr : Readies N call context e w fresh e₁ w' s c) :
    e₁.Accounted w' none ∧ e₁.session? context = some s := by
  cases hr with
  | bound hs => exact ⟨h, hs⟩
  | @opened node _ _ _ e₁ _ _ _ _ free hl =>
    obtain ⟨hn, -, p, rfl⟩ := hl.pool h.housed
    exact ⟨(h.lend hl).pin free rfl hn, by simp⟩

/-! ### One holder for each link -/

theorem link_ne_of_holders_eq_zero {link : Nat} (h : e.holders link = 0) :
    (∀ id p, e.pools.find? id = some p → ∀ d ∈ p.idle, d.link ≠ link) ∧
    ∀ context d, e.Pins context d → d.link ≠ link := by
  unfold holders at h
  refine ⟨?_, ?_⟩
  · intro id p hp d hd hlink
    have hs := Table.sum_of_find? (f := fun p : Pool => linkCount link p.idle) hp
    have hpos : 0 < linkCount link p.idle := linkCount_pos.2 ⟨d, hd, hlink⟩
    omega
  · rintro context d ⟨s, hs, hd⟩ hlink
    have hs := Table.sum_of_find? (f := fun s : Session => linkCount link s.connection.toList) hs
    simp only [hd, Option.toList_some, linkCount_cons, hlink, if_true] at hs
    omega

theorem Accounted.holders_hand {c : Connection} (h : e.Accounted w (some c)) :
    e.holders c.link = 0 := by
  have honce := h.once c.link
  simp only [Option.toList_some, linkCount_cons, linkCount_nil, if_true] at honce
  split at honce <;> omega

theorem Accounted.unmade (h : e.Accounted w hand) : e.holders w.opened = 0 := by
  have honce := h.once w.opened
  rw [if_neg (Nat.lt_irrefl _)] at honce
  omega

theorem Accounted.pinned_shared {context : Nat} {c : Connection} (h : e.Accounted w none)
    (hc : e.Pins context c) : c.Shared w := by
  obtain ⟨s, hs, hc⟩ := hc
  exact ((h.unpin hs hc).handed c rfl).shared

/-- What is pinned to a context is neither kept by a pool nor pinned to another context. -/
theorem Accounted.pinned_once {context : Nat} {c : Connection} (h : e.Accounted w none)
    (hc : e.Pins context c) :
    (∀ id p, e.pools.find? id = some p → ∀ d ∈ p.idle, d.link ≠ c.link) ∧
    ∀ other d, e.Pins other d → d.link = c.link → other = context := by
  obtain ⟨s, hs, hc⟩ := hc
  obtain ⟨hpools, hpins⟩ := link_ne_of_holders_eq_zero (h.unpin hs hc).holders_hand
  refine ⟨hpools, fun other d hd hlink => ?_⟩
  by_contra hne
  obtain ⟨t, ht, hd⟩ := hd
  exact hpins other d ⟨t, by rw [session?_eraseSession, if_neg hne, ht], hd⟩ hlink

end Executor

/-! ### Steps of calls -/

/-- A step of a call. A call has one connection in hand at most, with the verdict on it since it was
taken. Only a call that is `cut` short gives a request up. -/
inductive Handles (N : Network σ) (cut : Prop) :
    Executor → Wire σ → Option (Connection × Verdict) →
    Executor → Wire σ → Option (Connection × Verdict) → Prop where
  | unlent {id f? e w e' w'} (unlent : Unlent N id e w f? e' w') :
    Handles N cut e w none e' w' none
  | lend {id c e w e' w'} (lends : Lends N id e w c e' w') :
    Handles N cut e w none e' w' (some (c, .sound))
  | unpin {context s c e w} (session : e.session? context = some s)
      (connection : s.connection = some c) :
    Handles N cut e w none (e.eraseSession context) w (some (c, .sound))
  | request {c command r e w w'} (request : c.request N command w = (r, w'))
      (ended : r = .stalled → cut) :
    Handles N cut e w (some (c, .sound)) e w' (some (c.counted, r.verdict))
  | pin {context s c v e w} (free : e.session? context = none) (connection : s.connection = some c)
      (node : c.node = s.node.id) (usable : v ≠ .broken) :
    Handles N cut e w (some (c, v)) (e.setSession context s) w none
  | settle {c v e w e' w'} (settles : Settles N c e w v e' w') :
    Handles N cut e w (some (c, v)) e' w' none

namespace Executor

variable {e e' : Executor} {w w' : Wire σ} {hand hand' : Option (Connection × Verdict)} {cut : Prop}

theorem Accounted.handles (ha : e.Accounted w (hand.map (·.1)))
    (h : Handles N cut e w hand e' w' hand') : e'.Accounted w' (hand'.map (·.1)) := by
  cases h with
  | unlent hu => exact ha.unlent hu
  | lend hl => exact ha.lend hl
  | unpin hs hc => exact ha.unpin hs hc
  | request hr => exact ha.request hr
  | pin free hc hn => exact ha.pin free hc hn
  | settle hs => exact ha.settle hs

end Executor

/-- What every step keeps is kept by a call, however it goes. -/
theorem Deed.induction {P : Executor → Wire σ → Option (Connection × Verdict) → Prop} {call : Call}
    {r : Outcome Answer} {e e' : Executor} {w w' : Wire σ} (hd : Deed N call e w r e' w')
    (ha : e.Accounted w none)
    (step : ∀ {e w hand e' w' hand'}, Handles N (r = .stalled) e w hand e' w' hand' →
      P e w hand → P e' w' hand')
    (h : P e w none) : P e' w' none := by
  have hmap {r : Outcome Resp.Value} (hr : r = .stalled) : r.map Answer.reply = .stalled := by
    rw [hr]
    rfl
  -- A call that uses a session takes the connection of the session in hand.
  have hready {context fresh e₁ w₁ s c} (hr : Readies N call context e w fresh e₁ w₁ s c) :
      P (e₁.eraseSession context) w₁ (some (c, .sound)) := by
    cases hr with
    | bound hs hc => exact step (.unpin hs hc) h
    | @opened node _ _ _ e₁ w₁ _ _ _ free hl =>
      obtain ⟨hn, -, p, rfl⟩ := hl.pool ha.housed
      have hpin : P ((e.setPool node.id p).setSession context { node, connection := some c }) w₁ none :=
        step (.pin free rfl hn (by simp)) (step (.lend hl) h)
      exact step (.unpin (Executor.session?_setSession_self ..) rfl) hpin
  cases hd with
  | refused => exact h
  | absent => exact h
  | unlent _ hu => exact step (.unlent hu) h
  | pooled _ hl hr hs => exact step (.settle hs) (step (.request hr hmap) (step (.lend hl) h))
  | begun _ free hl =>
    obtain ⟨hn, -, p, rfl⟩ := hl.pool ha.housed
    exact step (.pin free rfl hn (by simp)) (step (.lend hl) h)
  | @stayed context fresh e₁ w₁ s c o r w₂ _ hready' _ hr keeps =>
    obtain ⟨h₁, hs⟩ := ha.ready hready'
    obtain ⟨d, hd, hn, -⟩ := h₁.pinned context s hs
    cases hready'.connection.symm.trans hd
    have hv : r.verdict ≠ .broken := by
      intro hv
      simp [Order.keeps, hv] at keeps
    have hpin := step (.pin (s := s.served c o r) (e₁.session?_eraseSession_self context) rfl hn hv)
      (step (.request hr hmap) (hready hready'))
    rwa [Executor.setSession_eraseSession] at hpin
  | parted _ hready' _ hr _ hs => exact step (.settle hs) (step (.request hr hmap) (hready hready'))
  | left _ hs hc _ hsettle => exact step (.settle hsettle) (step (.unpin hs hc) h)
  | cleaned _ hs hc _ hr hsettle =>
    exact step (.settle hsettle) (step (.request hr (fun hst => if_pos hst)) (step (.unpin hs hc) h))

/-- No way of a call loses or gains a connection. -/
theorem Executor.Accounted.deed {call : Call} {r : Outcome Answer} {e e' : Executor}
    {w w' : Wire σ} (ha : e.Accounted w none) (hd : Deed N call e w r e' w') :
    e'.Accounted w' none :=
  hd.induction (P := fun e w hand => e.Accounted w (hand.map (·.1))) ha
    (fun hs h => h.handles hs) ha

end ShardFleet
