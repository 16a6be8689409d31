import ShardFleet.Proofs.Retirement
import ShardFleet.Rehearsal.Script

/-!
# One pool and its callers

Callers borrow connections from a pool, have it open dedicated ones, use what they hold, and part with
it in one way or another. Every link that the pool ever made is in one place, and what is borrowed and
kept together stays within the bound of the pool: a connection is only made where none is kept.
-/

namespace ShardFleet

/-- How a caller parts with a connection. -/
inductive Parting where
  /-- The connection is healthy. -/
  | release
  | evict
  | close
  /-- The connection is forgotten, and nobody closes it. -/
  | drop
deriving DecidableEq, Repr

/-- What passed between a pool and its callers. -/
inductive Deal where
  /-- A caller got a connection: one for itself alone if `dedicated`, else a borrowed one. -/
  | given (dedicated : Bool) (c : Connection)
  | parted (c : Connection) (how : Parting)
deriving DecidableEq, Repr

/-- The connection that was dropped in a deal. -/
def Deal.dropped? : Deal → Option Connection
  | parted c .drop => some c
  | _ => none

/-- The link that was released in a deal. -/
def Deal.released? : Deal → Option Nat
  | parted c .release => some c.link
  | _ => none

/-- The connection that a deal is about. -/
def Deal.connection : Deal → Connection
  | given _ c => c
  | parted c _ => c

/-- What a caller or the network does next. -/
inductive Dealing (σ : Type) where
  | borrow
  | openDedicated
  /-- The caller with the connection at a place among those that are held parts with it. -/
  | part (place : Nat) (how : Parting)
  | request (place : Nat) (command : Command)
  /-- The network and the time change by themselves, and so does the moment at which the next call
  will be given up. -/
  | meanwhile (net : σ) (clock : Nat) (deadline : Option Nat)

/-- A pool in use. -/
structure Lending (σ : Type) where
  pool : Pool
  wire : Wire σ
  /-- The connections that callers have. -/
  held : List Connection := []
  /-- All that passed between the pool and its callers, in order. -/
  deals : List Deal := []

/-- Whether an event is the making of a link. -/
def WireEvent.isOpening : WireEvent → Bool
  | .opened .. => true
  | _ => false

variable {σ : Type} (N : Network σ)

/-- What the pool makes of a connection that is parted with. -/
def Parting.settle (how : Parting) (c : Connection) (p : Pool) (w : Wire σ) : Pool × Wire σ :=
  match how with
  | release => p.release N c w
  | evict => p.evict N c w
  | close => p.closeLent N c w
  | drop => (p.forget c, w)

/-- A pool with capacity lends a connection or fails to make one; one without lends nothing. -/
theorem Pool.borrow_ways {N : Network σ} {p p' : Pool} {w w' : Wire σ} {r : Outcome Connection}
    (h : p.borrow N w = (r, p', w')) :
    (p.isExhausted = false ∧ ∃ c rest, p.idle = c :: rest ∧ r = .ok { c with lent := true } ∧
      p' = { p.claim with idle := rest } ∧ w' = w) ∨
    (p.isExhausted = false ∧ p.idle = [] ∧ ∃ link,
      r = .ok { id := p.created + 1, node := p.node.id, link, dedicated := false, lent := true } ∧
      w.connect N p.node = (.ok link, w') ∧ p' = { p.claim with created := p.created + 1 }) ∨
    (r.isOk = false ∧ p' = p ∧ w.Quiet w') := by
  unfold Pool.borrow Pool.borrowWithin at h
  split at h
  · unfold Pool.starve at h
    rcases hw : w.wait p.node.limits.maxWait with ⟨_ | _, w₁⟩ <;> simp only [hw] at h <;> cases h
    · exact .inr (.inr ⟨rfl, rfl, Wire.wait_quiet hw⟩)
    · exact .inr (.inr ⟨rfl, rfl, Wire.wait_quiet hw⟩)
  · rename_i hf
    have hf : p.isExhausted = false := by simpa using hf
    rcases hl : p.lend N w with ⟨r₁, p₁, w₁⟩
    obtain ⟨c, rest, hi, rfl, rfl, rfl⟩ |
      ⟨hi, ⟨link, rfl, hw, rfl⟩ | ⟨f, rfl, hw, rfl⟩ | ⟨rfl, hw, rfl⟩⟩ := Pool.lend_ways hl <;>
      simp only [hl] at h <;> cases h
    · exact .inl ⟨hf, c, rest, hi, rfl, rfl, rfl⟩
    · exact .inr (.inl ⟨hf, hi, link, rfl, hw, rfl⟩)
    · exact .inr (.inr ⟨rfl, rfl, (Wire.connect_failed hw).2⟩)
    · exact .inr (.inr ⟨rfl, rfl, Wire.connect_stalled hw⟩)

namespace Lending

/-- A pool that was never used, over a network. -/
def start (node : Node) (net : σ) : Lending σ := { pool := { node }, wire := { net } }

/-- The pool in use after a call with which a caller wanted a connection. -/
def gain (s : Lending σ) (dedicated : Bool) : Outcome Connection × Pool × Wire σ → Lending σ
  | (.ok c, pool, wire) =>
    { pool, wire, held := c :: s.held, deals := s.deals ++ [.given dedicated c] }
  | (_, pool, wire) => { s with pool, wire }

def after (s : Lending σ) : Dealing σ → Lending σ
  | .borrow => s.gain false (s.pool.borrow N s.wire)
  | .openDedicated => s.gain true (s.pool.openDedicated N s.wire)
  | .part place how =>
    match s.held[place]? with
    | none => s
    | some c =>
      let (pool, wire) := how.settle N c s.pool s.wire
      { pool, wire, held := s.held.eraseIdx place, deals := s.deals ++ [.parted c how] }
  | .request place command =>
    match s.held[place]? with
    | none => s
    | some c =>
      { s with wire := (c.request N command s.wire).2, held := s.held.set place c.counted }
  | .meanwhile net clock deadline => { s with wire := { s.wire with net, clock, deadline } }

def run (s : Lending σ) (dealings : List (Dealing σ)) : Lending σ := dealings.foldl (after N) s

/-! ### What a dealing can do -/

variable {N}

/-- The ways in which a dealing changes a pool in use. -/
inductive Passes (N : Network σ) (s : Lending σ) : Lending σ → Prop where
  /-- Nothing changes hands. -/
  | quiet {w'} (quiet : s.wire.Quiet w') : Passes N s { s with wire := w' }
  | lent {c rest} (free : s.pool.isExhausted = false) (idle : s.pool.idle = c :: rest) :
    Passes N s { s with
      pool := { s.pool.claim with idle := rest },
      held := { c with lent := true } :: s.held,
      deals := s.deals ++ [.given false { c with lent := true }] }
  /-- A connection is made, and a borrowed one only where none is kept and there is capacity. -/
  | made {dedicated q c link w'}
      (free : dedicated = false → s.pool.isExhausted = false ∧ s.pool.idle = [])
      (claimed : q = if dedicated then s.pool else s.pool.claim)
      (connection : c = ⟨s.pool.created + 1, s.pool.node.id, link, dedicated, !dedicated, 0⟩)
      (connect : s.wire.connect N s.pool.node = (.ok link, w')) :
    Passes N s {
      pool := { q with created := s.pool.created + 1 }, wire := w', held := c :: s.held,
      deals := s.deals ++ [.given dedicated c] }
  | used {before c later command r w'} (held : s.held = before ++ c :: later)
      (request : c.request N command s.wire = (r, w')) :
    Passes N s { s with wire := w', held := before ++ c.counted :: later }
  | kept {before c later} (held : s.held = before ++ c :: later) (shared : c.dedicated = false)
      (room : s.pool.idle.length < s.pool.node.limits.maxIdle) :
    Passes N s { s with
      pool := { s.pool.forget c with idle := { c with lent := false } :: s.pool.idle },
      held := before ++ later, deals := s.deals ++ [.parted c .release] }
  | closed {before c later how} (held : s.held = before ++ c :: later) (parted : how ≠ .drop)
      (surplus : how = .release →
        c.dedicated = true ∨ s.pool.node.limits.maxIdle ≤ s.pool.idle.length) :
    Passes N s {
      pool := { s.pool.forget c with evicted := s.pool.evicted + if how = .evict then 1 else 0 },
      wire := c.close N s.wire, held := before ++ later, deals := s.deals ++ [.parted c how] }
  | dropped {before c later} (held : s.held = before ++ c :: later) :
    Passes N s { s with
      pool := s.pool.forget c, held := before ++ later, deals := s.deals ++ [.parted c .drop] }

theorem gain_passes {s : Lending σ} {dedicated : Bool} {r : Outcome Connection} {w : Wire σ}
    (hr : r.isOk = false) (hw : s.wire.Quiet w) : Passes N s (s.gain dedicated (r, s.pool, w)) := by
  cases r with
  | ok c => cases hr
  | _ => exact .quiet hw

theorem borrow_passes (s : Lending σ) : Passes N s (s.after N .borrow) := by
  rcases hb : s.pool.borrow N s.wire with ⟨r, p, w⟩
  simp only [after, hb]
  obtain ⟨hf, c, rest, hi, rfl, rfl, rfl⟩ | ⟨hf, hi, link, rfl, hw, rfl⟩ | ⟨hr, rfl, hw⟩ :=
    Pool.borrow_ways hb
  · exact .lent hf hi
  · exact .made (fun _ => ⟨hf, hi⟩) rfl rfl hw
  · exact gain_passes hr hw

theorem openDedicated_passes (s : Lending σ) : Passes N s (s.after N .openDedicated) := by
  simp only [after, Pool.openDedicated, Pool.connect]
  rcases hw : s.wire.connect N s.pool.node with ⟨link | f | _, w⟩
  · exact .made (by simp) rfl rfl hw
  · exact .quiet (Wire.connect_failed hw).2
  · exact .quiet (Wire.connect_stalled hw)

theorem part_passes {s : Lending σ} {before later : List Connection} {c : Connection}
    (hs : s.held = before ++ c :: later) (how : Parting) :
    Passes N s ⟨(how.settle N c s.pool s.wire).1, (how.settle N c s.pool s.wire).2,
      before ++ later, s.deals ++ [.parted c how]⟩ := by
  have hclosed {how : Parting} (hhow : how ≠ .drop) (hn : how ≠ .evict)
      (surplus : how = .release →
        c.dedicated = true ∨ s.pool.node.limits.maxIdle ≤ s.pool.idle.length) :
      Passes N s ⟨s.pool.forget c, c.close N s.wire, before ++ later, s.deals ++ [.parted c how]⟩ := by
    have h := Passes.closed (N := N) hs hhow surplus
    rwa [if_neg hn, Nat.add_zero, ← s.pool.forget_evicted c] at h
  cases how with
  | release =>
    simp only [Parting.settle, Pool.release, Pool.forget_idle]
    split
    · rename_i h
      simp only [Pool.forget_node, Bool.and_eq_true, Bool.not_eq_true', decide_eq_true_eq] at h
      exact .kept hs h.1 h.2
    · rename_i h
      simp only [Pool.forget_node, Bool.and_eq_true, Bool.not_eq_true', decide_eq_true_eq,
        not_and_or, Bool.not_eq_false, Nat.not_lt] at h
      exact hclosed (by simp) (by simp) (fun _ => h)
  | evict => exact Passes.closed hs (Parting.noConfusion : Parting.evict ≠ .drop) (by simp)
  | close => exact hclosed (by simp) (by simp) (by simp)
  | drop => exact .dropped hs

theorem held_split {held : List Connection} {place : Nat} {c : Connection}
    (h : held[place]? = some c) :
    ∃ before later, held = before ++ c :: later ∧ held.eraseIdx place = before ++ later ∧
      ∀ d, held.set place d = before ++ d :: later := by
  obtain ⟨hlt, hc⟩ := List.getElem?_eq_some_iff.1 h
  refine ⟨held.take place, held.drop (place + 1), ?_, List.eraseIdx_eq_take_drop_succ ..,
    fun d => List.set_eq_take_append_cons_drop .. ▸ if_pos hlt⟩
  rw [← hc, List.getElem_cons_drop, List.take_append_drop]

/-- A dealing does nothing else. -/
theorem after_passes (s : Lending σ) (d : Dealing σ) : Passes N s (s.after N d) := by
  cases d with
  | borrow => exact s.borrow_passes
  | openDedicated => exact s.openDedicated_passes
  | part place how =>
    simp only [after]
    cases hc : s.held[place]? with
    | none => exact .quiet ⟨rfl, rfl⟩
    | some c =>
      obtain ⟨before, later, hs, herase, -⟩ := held_split hc
      rw [herase]
      exact part_passes hs how
  | request place command =>
    simp only [after]
    cases hc : s.held[place]? with
    | none => exact .quiet ⟨rfl, rfl⟩
    | some c =>
      obtain ⟨before, later, hs, -, hset⟩ := held_split hc
      show Passes N s { s with
        wire := (c.request N command s.wire).2, held := s.held.set place c.counted }
      rw [hset]
      exact .used hs rfl
  | meanwhile net clock deadline => exact .quiet ⟨rfl, rfl⟩

/-! ### Where connections are -/

/-- The connections that callers borrowed and did not give back yet. -/
def borrowed (s : Lending σ) : List Connection := s.held.filter (!·.dedicated)

/-- The dedicated connections that callers still have. -/
def dedicated (s : Lending σ) : List Connection := s.held.filter (·.dedicated)

/-- The connections that callers dropped. -/
def dropped (s : Lending σ) : List Connection := s.deals.filterMap Deal.dropped?

theorem dropped_concat {s : Lending σ} {p : Pool} {w : Wire σ} {held : List Connection} {d : Deal} :
    ({ pool := p, wire := w, held, deals := s.deals ++ [d] } : Lending σ).dropped =
      s.dropped ++ d.dropped?.toList := by
  cases hd : d.dropped? <;> simp [dropped, hd]

/-- How many links were made. -/
def connects (s : Lending σ) : Nat := s.wire.trace.countP (·.isOpening)

/-- What holds of a pool in use at all times. -/
structure Sound (node : Node) (s : Lending σ) : Prop where
  same : s.pool.node = node
  /-- What is borrowed takes up capacity, and what is dedicated takes none. -/
  tagged : ∀ c ∈ s.held, c.lent = !c.dedicated
  shared : ∀ c ∈ s.pool.idle, c.dedicated = false
  active : s.pool.active = s.held.countP (·.lent)
  room : s.pool.idle.length ≤ node.limits.maxIdle
  bound : s.pool.active + s.pool.idle.length ≤ node.limits.maxTotal
  created : s.pool.created = s.wire.opened
  connects : s.connects = s.wire.opened
  /-- Every link that was made is in one place. -/
  once : ∀ link, linkCount link s.held + linkCount link s.pool.idle + linkCount link s.dropped +
    closings link s.wire.trace = if link < s.wire.opened then 1 else 0

theorem sound_start (node : Node) (net : σ) : (start node net).Sound node where
  same := rfl
  tagged := by simp [start]
  shared := by simp [start]
  active := rfl
  room := Nat.zero_le _
  bound := Nat.zero_le _
  created := rfl
  connects := rfl
  once link := by simp [start, dropped, closings]

namespace Sound

variable {node : Node} {s s' : Lending σ}

/-- A connection in the hands of a caller gives back the capacity that it takes. -/
theorem active_forget {before later : List Connection} {c : Connection} (h : s.Sound node)
    (hs : s.held = before ++ c :: later) :
    (s.pool.forget c).active = (before ++ later).countP (·.lent) ∧
      (s.pool.forget c).active + (if c.lent then 1 else 0) = s.pool.active := by
  have hactive := h.active
  rw [hs, List.countP_append, List.countP_cons] at hactive
  rw [List.countP_append]
  by_cases hc : c.lent = true
  · rw [if_pos hc] at hactive ⊢
    simp only [Pool.forget, if_pos hc, Pool.unclaim]
    omega
  · rw [if_neg hc] at hactive ⊢
    simp only [Pool.forget, if_neg hc]
    omega

theorem of_trace {w : Wire σ} {events : List WireEvent} (h : s.Sound node)
    (ho : w.opened = s.wire.opened) (ht : w.trace = s.wire.trace ++ events)
    (hopening : events.countP (·.isOpening) = 0) (hclosing : ∀ link, closings link events = 0) :
    ({ s with wire := w } : Lending σ).Sound node := by
  refine ⟨h.same, h.tagged, h.shared, h.active, h.room, h.bound, h.created.trans ho.symm, ?_, ?_⟩
  · have := h.connects
    simp only [Lending.connects] at this ⊢
    rw [ht, List.countP_append, hopening, ho, this, Nat.add_zero]
  · intro link
    have := h.once link
    simp only [Lending.dropped] at this ⊢
    rw [ht, closings_append, hclosing, ho, Nat.add_zero, this]

theorem quiet {w : Wire σ} (h : s.Sound node) (hq : s.wire.Quiet w) :
    ({ s with wire := w } : Lending σ).Sound node :=
  h.of_trace hq.opened (hq.trace.trans (List.append_nil _).symm) rfl (fun _ => rfl)

theorem used {before later : List Connection} {c : Connection} {command : Command}
    {r : Outcome Resp.Value} {w : Wire σ} (h : s.Sound node) (hs : s.held = before ++ c :: later)
    (hr : c.request N command s.wire = (r, w)) :
    ({ s with wire := w, held := before ++ c.counted :: later } : Lending σ).Sound node := by
  obtain ⟨ho, events, hasks, ht⟩ := Connection.request_trace hr
  have hopening : events.countP (·.isOpening) = 0 := by cases hasks <;> rfl
  have hclosing (link : Nat) : closings link events = 0 := by cases hasks <;> simp [closings]
  have h' := h.of_trace ho ht hopening hclosing
  refine ⟨h.same, ?_, h.shared, ?_, h.room, h.bound, h'.created, h'.connects, ?_⟩
  · intro d hd
    rcases List.mem_append.1 hd with hd | hd
    · exact h.tagged d (by simp [hs, hd])
    · rcases List.mem_cons.1 hd with rfl | hd
      · exact h.tagged c (by simp [hs])
      · exact h.tagged d (by simp [hs, hd])
  · have := h.active
    simpa [hs, List.countP_append, List.countP_cons, Connection.counted] using this
  · intro link
    have := h'.once link
    simp only [hs, Lending.dropped, linkCount_append, linkCount_cons,
      Connection.counted_link] at this ⊢
    exact this

theorem lent {c : Connection} {rest : List Connection} (h : s.Sound node)
    (hi : s.pool.idle = c :: rest) :
    ({ s with
      pool := { s.pool.claim with idle := rest }, held := { c with lent := true } :: s.held,
      deals := s.deals ++ [.given false { c with lent := true }] } : Lending σ).Sound node := by
  have hroom := h.room
  have hbound := h.bound
  have hc : c.dedicated = false := h.shared c (by simp [hi])
  rw [hi, List.length_cons] at hroom hbound
  refine ⟨h.same, ?_, ?_, ?_, by simp only; omega, by simp only [Pool.claim]; omega, h.created,
    h.connects, ?_⟩
  · intro d hd
    rcases List.mem_cons.1 hd with rfl | hd
    · simp [hc]
    · exact h.tagged d hd
  · exact fun d hd => h.shared d (by simp only [hi]; exact List.mem_cons_of_mem _ hd)
  · simp [Pool.claim, h.active]
  · intro link
    have := h.once link
    rw [dropped_concat]
    simp only [hi, linkCount_cons, Deal.dropped?, Option.toList_none, List.append_nil] at this ⊢
    omega

theorem made {dedicated : Bool} {q : Pool} {c : Connection} {link : Nat} {w : Wire σ}
    (h : s.Sound node)
    (hfree : dedicated = false → s.pool.isExhausted = false ∧ s.pool.idle = [])
    (hq : q = if dedicated then s.pool else s.pool.claim)
    (hc : c = ⟨s.pool.created + 1, s.pool.node.id, link, dedicated, !dedicated, 0⟩)
    (hw : s.wire.connect N s.pool.node = (.ok link, w)) :
    ({ pool := { q with created := s.pool.created + 1 }, wire := w, held := c :: s.held,
       deals := s.deals ++ [.given dedicated c] } : Lending σ).Sound node := by
  obtain ⟨rfl, ho, ht⟩ := Wire.connect_ok hw
  have hsame : q.idle = s.pool.idle ∧ q.node = s.pool.node := by
    rw [hq]
    split <;> exact ⟨rfl, rfl⟩
  have hactive : q.active = s.pool.active + if dedicated then 0 else 1 := by
    rw [hq]
    split <;> rfl
  constructor
  · exact hsame.2.trans h.same
  · intro d hd
    rcases List.mem_cons.1 hd with rfl | hd
    · rw [hc]
    · exact h.tagged d hd
  · exact fun d hd => h.shared d (hsame.1 ▸ hd)
  · show q.active = _
    rw [hactive, h.active, List.countP_cons, hc]
    cases dedicated <;> rfl
  · show q.idle.length ≤ _
    rw [hsame.1]
    exact h.room
  · show q.active + q.idle.length ≤ _
    have hbound := h.bound
    rw [hactive, hsame.1]
    cases dedicated with
    | true => simpa using hbound
    | false =>
      obtain ⟨hf, hi⟩ := hfree rfl
      have hf : ¬ node.limits.maxTotal ≤ s.pool.active := by
        simpa [Pool.isExhausted, h.same] using hf
      simp only [hi, List.length_nil, Bool.false_eq_true, if_false]
      omega
  · show s.pool.created + 1 = w.opened
    rw [ho, h.created]
  · have := h.connects
    simp only [Lending.connects] at this ⊢
    rw [ht, List.countP_append, this, ho]
    rfl
  · intro link
    have honce := h.once link
    have hclosings : closings link [.opened s.wire.opened s.pool.node.id] = 0 := rfl
    rw [dropped_concat]
    simp only [linkCount_cons, Deal.dropped?, Option.toList_none, List.append_nil, hsame.1, ht,
      closings_append, hclosings, ho, hc] at honce ⊢
    split at honce <;> split <;> split <;> omega

/-- A connection leaves the hands of a caller, and is kept, closed or dropped. -/
theorem parted {before later : List Connection} {c : Connection} {how : Parting} {q : Pool}
    {w : Wire σ} (h : s.Sound node) (hs : s.held = before ++ c :: later)
    (hnode : q.node = s.pool.node) (hactive : q.active = (s.pool.forget c).active)
    (hcreated : q.created = s.pool.created)
    (hidle : q.idle = s.pool.idle ∨
      q.idle = { c with lent := false } :: s.pool.idle ∧ c.dedicated = false ∧
        s.pool.idle.length < s.pool.node.limits.maxIdle)
    (ho : w.opened = s.wire.opened)
    (hopening : w.trace.countP (·.isOpening) = s.wire.trace.countP (·.isOpening))
    (hplace : ∀ link, linkCount link q.idle + linkCount link (Deal.dropped? (.parted c how)).toList +
      closings link w.trace = linkCount link s.pool.idle + closings link s.wire.trace +
        if c.link = link then 1 else 0) :
    ({ pool := q, wire := w, held := before ++ later,
       deals := s.deals ++ [.parted c how] } : Lending σ).Sound node := by
  obtain ⟨hcount, hforget⟩ := h.active_forget hs
  have hroom := h.room
  have hbound := h.bound
  constructor
  · exact hnode.trans h.same
  · intro d hd
    refine h.tagged d ?_
    rw [hs]
    rcases List.mem_append.1 hd with hd | hd <;> simp [hd]
  · intro d hd
    rcases hidle with hidle | ⟨hidle, hc, -⟩ <;> rw [hidle] at hd
    · exact h.shared d hd
    · rcases List.mem_cons.1 hd with rfl | hd
      · exact hc
      · exact h.shared d hd
  · exact hactive.trans hcount
  · show q.idle.length ≤ _
    rcases hidle with hidle | ⟨hidle, -, hlt⟩ <;> rw [hidle]
    · exact hroom
    · rwa [h.same] at hlt
  · show q.active + q.idle.length ≤ _
    rw [hactive]
    rcases hidle with hidle | ⟨hidle, hc, -⟩ <;> rw [hidle]
    · split at hforget <;> omega
    · have hlent := h.tagged c (by simp [hs])
      rw [hc] at hlent
      rw [hlent] at hforget
      simp only [Bool.not_false, if_true] at hforget
      rw [List.length_cons]
      omega
  · exact hcreated.trans (h.created.trans ho.symm)
  · exact hopening.trans (h.connects.trans ho.symm)
  · intro link
    have honce := h.once link
    have hplace := hplace link
    rw [dropped_concat]
    simp only [hs, linkCount_append, linkCount_cons, ho] at honce ⊢
    omega

theorem passes (h : s.Sound node) (hp : Passes N s s') : s'.Sound node := by
  cases hp with
  | quiet hq => exact h.quiet hq
  | lent _ hi => exact h.lent hi
  | made hfree hq hc hw => exact h.made hfree hq hc hw
  | used hs hr => exact h.used hs hr
  | kept hs hc hroom =>
    refine h.parted hs (by simp) rfl (by simp) (.inr ⟨rfl, hc, hroom⟩) rfl rfl fun link => ?_
    simp only [Deal.dropped?, linkCount_cons, Option.toList_none, linkCount_nil]
    omega
  | @closed before c later how hs hhow hsurplus =>
    have ht : (c.close N s.wire).trace = s.wire.trace ++ [.closed c.link] := rfl
    have hnone : Deal.dropped? (.parted c how) = none := by
      cases how <;> first | rfl | exact absurd rfl hhow
    refine h.parted hs (by simp) rfl (by simp) (.inl (by simp)) rfl ?_ fun link => ?_
    · rw [ht, List.countP_append]
      rfl
    · simp only [hnone, Option.toList_none, linkCount_nil, Pool.forget_idle, ht, closings_append,
        closings_closed]
      omega
  | dropped hs =>
    refine h.parted hs (by simp) rfl (by simp) (.inl (by simp)) rfl rfl fun link => ?_
    simp only [Deal.dropped?, Option.toList_some, linkCount_cons, linkCount_nil, Pool.forget_idle]
    omega

theorem not_idle {c : Connection} (h : s.Sound node) (hc : c ∈ s.held) :
    c.link ∉ s.pool.idle.map (·.link) := by
  intro hmem
  obtain ⟨d, hd, hlink⟩ := List.mem_map.1 hmem
  have honce := h.once c.link
  have hheld := linkCount_pos.2 ⟨c, hc, rfl⟩
  have hidle := linkCount_pos.2 ⟨d, hd, hlink⟩
  split at honce <;> omega

end Sound

/-! ### What became of every connection -/

/-- What tells a connection from others, and does not change while it is used. -/
def identity (c : Connection) : Nat × Nat × Bool := (c.id, c.link, c.dedicated)

/-- All connections that passed between the pool and its callers. -/
def known (s : Lending σ) : List Connection := s.held ++ s.pool.idle ++ s.deals.map Deal.connection

theorem mem_known {s : Lending σ} {c : Connection} :
    c ∈ s.known ↔ c ∈ s.held ∨ c ∈ s.pool.idle ∨ c ∈ s.deals.map Deal.connection := by
  simp only [known, List.mem_append, or_assoc]

theorem mem_known_of_deal {s : Lending σ} {d : Deal} (hd : d ∈ s.deals) : d.connection ∈ s.known :=
  mem_known.2 (.inr (.inr (List.mem_map_of_mem hd)))

theorem mem_known_concat {s : Lending σ} {p : Pool} {w : Wire σ} {held : List Connection} {d : Deal}
    {c : Connection} :
    c ∈ ({ pool := p, wire := w, held, deals := s.deals ++ [d] } : Lending σ).known ↔
      c ∈ held ∨ c ∈ p.idle ∨ c ∈ s.deals.map Deal.connection ∨ c = d.connection := by
  simp only [mem_known, List.map_append, List.map_singleton, List.mem_append, List.mem_singleton]

/-- Whether a link was made for a caller that wanted a dedicated connection. -/
def Outside (s : Lending σ) (link : Nat) : Prop := ∃ c, .given true c ∈ s.deals ∧ c.link = link

/-- The links that were released, in order. -/
def releases (s : Lending σ) : List Nat := s.deals.filterMap Deal.released?

theorem known_parted {s : Lending σ} {before later : List Connection} {c c' : Connection}
    {how : Parting} {q : Pool} {w : Wire σ} (hs : s.held = before ++ c :: later)
    (hsame : identity c' = identity c) (hidle : ∀ d ∈ q.idle, d = c' ∨ d ∈ s.pool.idle) :
    ∀ d ∈ ({ pool := q, wire := w, held := before ++ later,
              deals := s.deals ++ [.parted c how] } : Lending σ).known,
      ∃ d' ∈ s.known, identity d = identity d' := by
  have hc : c ∈ s.known := mem_known.2 (.inl (by simp [hs]))
  intro d hd
  rcases mem_known_concat.1 hd with hd | hd | hd | hd
  · refine ⟨d, mem_known.2 (.inl ?_), rfl⟩
    rw [hs]
    rcases List.mem_append.1 hd with hd | hd <;> simp [hd]
  · rcases hidle d hd with rfl | hd
    · exact ⟨c, hc, hsame⟩
    · exact ⟨d, mem_known.2 (.inr (.inl hd)), rfl⟩
  · exact ⟨d, mem_known.2 (.inr (.inr hd)), rfl⟩
  · rw [hd]
    exact ⟨c, hc, rfl⟩

/-- A dealing brings up connections that are known, or makes a single one with a number of its own. -/
theorem Passes.known_cases {s s' : Lending σ} (h : Passes N s s') :
    (s'.wire.opened = s.wire.opened ∧ (∀ link, s'.Outside link ↔ s.Outside link) ∧
      ∀ c ∈ s'.known, ∃ d ∈ s.known, identity c = identity d) ∨
    (s'.wire.opened = s.wire.opened + 1 ∧ ∃ c,
      c.id = s.pool.created + 1 ∧ c.link = s.wire.opened ∧
      (∀ link, s'.Outside link ↔ s.Outside link ∨ c.dedicated = true ∧ link = c.link) ∧
      ∀ d ∈ s'.known, d = c ∨ d ∈ s.known) := by
  cases h with
  | quiet hq => exact .inl ⟨hq.opened, fun _ => .rfl, fun c hc => ⟨c, hc, rfl⟩⟩
  | @lent c rest _ hi =>
    have hc : c ∈ s.known := mem_known.2 (.inr (.inl (by simp [hi])))
    refine .inl ⟨rfl, fun link => by simp [Outside], fun d hd => ?_⟩
    have hd : d = { c with lent := true } ∨ d ∈ s.known := by
      rw [mem_known_concat] at hd
      simp only [mem_known, hi, List.mem_cons, Deal.connection] at hd ⊢
      tauto
    rcases hd with rfl | hd
    · exact ⟨c, hc, rfl⟩
    · exact ⟨d, hd, rfl⟩
  | @made dedicated q c link w' hfree hq hc hw =>
    obtain ⟨rfl, ho, -⟩ := Wire.connect_ok hw
    have hidle : q.idle = s.pool.idle := by
      rw [hq]
      split <;> rfl
    refine .inr ⟨ho, c, by rw [hc], by rw [hc], fun link => ?_, fun d hd => ?_⟩
    · simp only [Outside, List.mem_append, List.mem_singleton, Deal.given.injEq]
      grind
    · rw [mem_known_concat] at hd
      simp only [mem_known, hidle, List.mem_cons, Deal.connection] at hd ⊢
      tauto
  | @used before c later _ _ _ hs hr =>
    have hc : c ∈ s.known := mem_known.2 (.inl (by simp [hs]))
    refine .inl ⟨(Connection.request_trace hr).1, fun _ => .rfl, fun d hd => ?_⟩
    have hd : d = c.counted ∨ d ∈ s.known := by
      simp only [mem_known, hs, List.mem_append, List.mem_cons] at hd ⊢
      tauto
    rcases hd with rfl | hd
    · exact ⟨c, hc, rfl⟩
    · exact ⟨d, hd, rfl⟩
  | @kept before c later hs =>
    have hsame : identity { c with lent := false } = identity c := rfl
    exact .inl ⟨rfl, fun link => by simp [Outside], known_parted hs hsame fun d => List.mem_cons.1⟩
  | closed hs =>
    refine .inl ⟨rfl, fun link => by simp [Outside], known_parted hs rfl fun d hd => .inr ?_⟩
    simpa using hd
  | dropped hs =>
    refine .inl ⟨rfl, fun link => by simp [Outside], known_parted hs rfl fun d hd => .inr ?_⟩
    simpa using hd

theorem releases_concat {s : Lending σ} {p : Pool} {w : Wire σ} {held : List Connection} {d : Deal} :
    ({ pool := p, wire := w, held, deals := s.deals ++ [d] } : Lending σ).releases =
      s.releases ++ d.released?.toList := by
  cases hd : d.released? <;> simp [releases, hd]

/-- Whether every link of some was released, and none of those after it since. The first one is then
the one that was released last. -/
def Recent (releases : List Nat) : List Nat → Prop
  | [] => True
  | link :: rest =>
    (∃ before since, releases = before ++ link :: since ∧ ∀ other ∈ link :: rest, other ∉ since) ∧
      Recent releases rest

theorem Recent.concat {releases links : List Nat} {link : Nat} (h : Recent releases links)
    (hlink : link ∉ links) : Recent (releases ++ [link]) links := by
  induction links with
  | nil => trivial
  | cons first rest ih =>
    obtain ⟨⟨before, since, hsplit, hsince⟩, hrest⟩ := h
    refine ⟨⟨before, since ++ [link], by simp [hsplit], fun other hother => ?_⟩,
      ih hrest (List.not_mem_of_not_mem_cons hlink)⟩
    have hne : other ≠ link := fun h => hlink (h ▸ hother)
    simp [hsince other hother, hne]

/-- What is recorded of a pool in use. -/
structure Recorded (s : Lending σ) : Prop where
  /-- Connections are numbered as their links are, and those made for one caller remain so. -/
  numbered : ∀ c ∈ s.known, c.id = c.link + 1 ∧ c.link < s.wire.opened ∧
    (c.dedicated = true ↔ s.Outside c.link)
  /-- What a caller evicted or closed is closed. -/
  gone : ∀ c how, .parted c how ∈ s.deals → how = .evict ∨ how = .close →
    .closed c.link ∈ s.wire.trace
  opened : ∀ link name, .opened link name ∈ s.wire.trace → link < s.wire.opened
  recent : Recent s.releases (s.pool.idle.map (·.link))

theorem recorded_start (node : Node) (net : σ) : (start node net).Recorded where
  numbered := by simp [start, known]
  gone := by simp [start]
  opened := by simp [start]
  recent := trivial

namespace Recorded

variable {node : Node} {s s' : Lending σ}

theorem numbered_passes (h : s.Recorded) (hsound : s.Sound node) (hp : Passes N s s') :
    ∀ c ∈ s'.known, c.id = c.link + 1 ∧ c.link < s'.wire.opened ∧
      (c.dedicated = true ↔ s'.Outside c.link) := by
  intro c hc
  rcases hp.known_cases with ⟨ho, hout, hold⟩ | ⟨ho, new, hid, hlink, hout, hold⟩
  · obtain ⟨d, hd, hsame⟩ := hold c hc
    obtain ⟨hid, hlink, hded⟩ := h.numbered d hd
    simp only [identity, Prod.mk.injEq] at hsame
    rw [hsame.1, hsame.2.1, hsame.2.2, ho, hout]
    exact ⟨hid, hlink, hded⟩
  · -- The new link is not that of a connection made before.
    have hnew : ¬ s.Outside new.link := by
      rintro ⟨d, hd, hsame⟩
      have hlt : d.link < s.wire.opened := (h.numbered d (mem_known_of_deal hd)).2.1
      omega
    rcases hold c hc with rfl | hc
    · refine ⟨by rw [hid, hlink, hsound.created], by omega, ?_⟩
      rw [hout]
      tauto
    · obtain ⟨hid', hlink', hded⟩ := h.numbered c hc
      refine ⟨hid', by omega, ?_⟩
      rw [hout, hded]
      have hne : c.link ≠ new.link := by omega
      tauto

theorem gone_passes (h : s.Recorded) (hp : Passes N s s') {c : Connection} {how : Parting}
    (hc : .parted c how ∈ s'.deals) (hhow : how = .evict ∨ how = .close) :
    .closed c.link ∈ s'.wire.trace := by
  have hold (hc : .parted c how ∈ s.deals) := h.gone c how hc hhow
  cases hp with
  | quiet hq =>
    rw [hq.trace]
    exact hold hc
  | lent => exact hold (by simpa using hc)
  | made _ _ _ hw =>
    rw [(Wire.connect_ok hw).2.2]
    exact List.mem_append_left _ (hold (by simpa using hc))
  | used _ hr =>
    obtain ⟨-, events, -, ht⟩ := Connection.request_trace hr
    rw [ht]
    exact List.mem_append_left _ (hold hc)
  | kept =>
    rcases List.mem_append.1 hc with hc | hc
    · exact hold hc
    · cases List.mem_singleton.1 hc
      simp at hhow
  | closed =>
    rcases List.mem_append.1 hc with hc | hc
    · exact List.mem_append_left _ (hold hc)
    · cases List.mem_singleton.1 hc
      exact List.mem_append_right _ (List.mem_singleton_self _)
  | dropped =>
    rcases List.mem_append.1 hc with hc | hc
    · exact hold hc
    · cases List.mem_singleton.1 hc
      simp at hhow

theorem opened_passes (h : s.Recorded) (hp : Passes N s s') {link : Nat} {name : String}
    (hmem : .opened link name ∈ s'.wire.trace) : link < s'.wire.opened := by
  have hold := h.opened link name
  cases hp with
  | quiet hq =>
    rw [hq.trace] at hmem
    rw [hq.opened]
    exact hold hmem
  | made _ _ _ hw =>
    obtain ⟨rfl, ho, ht⟩ := Wire.connect_ok hw
    rw [ht] at hmem
    rw [ho]
    rcases List.mem_append.1 hmem with hmem | hmem
    · exact Nat.lt_succ_of_lt (hold hmem)
    · cases List.mem_singleton.1 hmem
      exact Nat.lt_succ_self _
  | used _ hr =>
    obtain ⟨ho, events, hasks, ht⟩ := Connection.request_trace hr
    rw [ht] at hmem
    rw [ho]
    rcases List.mem_append.1 hmem with hmem | hmem
    · exact hold hmem
    · cases hasks <;> simp at hmem
  | closed =>
    rcases List.mem_append.1 hmem with hmem | hmem
    · exact hold hmem
    · cases List.mem_singleton.1 hmem
  | lent | kept | dropped => exact hold hmem

theorem recent_passes (h : s.Recorded) (hsound : s.Sound node) (hp : Passes N s s') :
    Recent s'.releases (s'.pool.idle.map (·.link)) := by
  have hrecent := h.recent
  cases hp with
  | quiet => exact hrecent
  | lent _ hi =>
    rw [hi] at hrecent
    rw [releases_concat]
    simpa [Deal.released?] using hrecent.2
  | @made dedicated q _ _ _ _ hq =>
    have hidle : q.idle = s.pool.idle := by
      rw [hq]
      split <;> rfl
    rw [releases_concat]
    simpa [Deal.released?, hidle] using hrecent
  | used => exact hrecent
  | @kept before c later hs =>
    have hnot := hsound.not_idle (c := c) (by simp [hs])
    rw [releases_concat]
    exact ⟨⟨s.releases, [], rfl, by simp⟩, hrecent.concat hnot⟩
  | @closed before c later how hs =>
    have hnot := hsound.not_idle (c := c) (by simp [hs])
    rw [releases_concat]
    simp only [Pool.forget_idle]
    cases how with
    | release => exact hrecent.concat hnot
    | _ => simpa [Deal.released?] using hrecent
  | dropped =>
    rw [releases_concat]
    simpa [Deal.released?] using hrecent

theorem passes (h : s.Recorded) (hsound : s.Sound node) (hp : Passes N s s') : s'.Recorded :=
  ⟨h.numbered_passes hsound hp, fun _ _ => h.gone_passes hp, fun _ _ => h.opened_passes hp,
    h.recent_passes hsound hp⟩

end Recorded

/-! ### Every run -/

theorem run_concat (s : Lending σ) (dealings : List (Dealing σ)) (d : Dealing σ) :
    s.run N (dealings ++ [d]) = (s.run N dealings).after N d := by
  simp [run, List.foldl_append]

theorem sound_run (node : Node) (net : σ) (dealings : List (Dealing σ)) :
    ((start node net).run N dealings).Sound node ∧ ((start node net).run N dealings).Recorded := by
  induction dealings using List.reverseRecOn with
  | nil => exact ⟨sound_start node net, recorded_start node net⟩
  | append_singleton dealings d ih =>
    obtain ⟨hsound, hrecorded⟩ := ih
    have hp := after_passes (N := N) ((start node net).run N dealings) d
    rw [run_concat]
    exact ⟨hsound.passes hp, hrecorded.passes hsound hp⟩

/-- Where a link can be. -/
inductive Place where
  | borrowed
  | idle
  /-- A caller has it for itself. -/
  | dedicated
  | closed
  | dropped
deriving DecidableEq, Repr

/-- Whether a link is in a place. -/
def At (s : Lending σ) (link : Nat) : Place → Prop
  | .borrowed => ∃ c ∈ s.borrowed, c.link = link
  | .idle => ∃ c ∈ s.pool.idle, c.link = link
  | .dedicated => ∃ c ∈ s.dedicated, c.link = link
  | .closed => .closed link ∈ s.wire.trace
  | .dropped => ∃ c ∈ s.dropped, c.link = link

/-- How often a link is in a place. -/
def tally (s : Lending σ) (link : Nat) : Place → Nat
  | .borrowed => linkCount link s.borrowed
  | .idle => linkCount link s.pool.idle
  | .dedicated => linkCount link s.dedicated
  | .closed => closings link s.wire.trace
  | .dropped => linkCount link s.dropped

theorem tally_pos {s : Lending σ} {link : Nat} {place : Place} :
    0 < s.tally link place ↔ s.At link place := by
  cases place with
  | closed => exact List.count_pos_iff
  | _ => exact linkCount_pos

namespace Sound

variable {node : Node} {s : Lending σ}

/-- A link that was made is once in all places together, and one that was not is nowhere. -/
theorem tally_sum (h : s.Sound node) (link : Nat) :
    s.tally link .borrowed + s.tally link .idle + s.tally link .dedicated +
      s.tally link .closed + s.tally link .dropped = if link < s.wire.opened then 1 else 0 := by
  have honce := h.once link
  have hheld : linkCount link s.held = linkCount link s.borrowed + linkCount link s.dedicated := by
    have hperm := List.filter_append_perm (fun c : Connection => c.dedicated) s.held
    rw [linkCount, ← hperm.countP_eq, List.countP_append, Nat.add_comm]
    rfl
  simp only [tally]
  omega

theorem tally_le_one (h : s.Sound node) (link : Nat) (place : Place) : s.tally link place ≤ 1 := by
  have := h.tally_sum link
  have : (if link < s.wire.opened then 1 else 0) ≤ 1 := by split <;> omega
  cases place <;> omega

theorem placed (h : s.Sound node) {link : Nat} (hlink : link < s.wire.opened) :
    ∃! place, s.At link place := by
  have hsum := h.tally_sum link
  rw [if_pos hlink] at hsum
  have hsome : ∃ place, 0 < s.tally link place := by
    by_contra hnone
    have hzero (place : Place) : s.tally link place = 0 :=
      Nat.eq_zero_of_not_pos fun hpos => hnone ⟨place, hpos⟩
    simp only [hzero] at hsum
    omega
  have hone : ∀ place other, 0 < s.tally link place → 0 < s.tally link other → other = place := by
    intro place other
    cases place <;> cases other <;> intro hplace hother <;> first | rfl | omega
  obtain ⟨place, hplace⟩ := hsome
  exact ⟨place, tally_pos.1 hplace, fun other hother => hone place other hplace (tally_pos.2 hother)⟩

theorem borrowed_length (h : s.Sound node) : s.pool.active = s.borrowed.length := by
  rw [h.active, borrowed, ← List.countP_eq_length_filter]
  exact List.countP_congr fun c hc => by rw [h.tagged c hc]

end Sound

/-- Whether a pool keeps to its bounds and loses nothing. -/
structure Conserved (node : Node) (s : Lending σ) : Prop where
  /-- What counts as lent are the connections that were borrowed and not given back yet, so that no
  more capacity is given back than was taken. -/
  active : s.pool.stats.active = s.borrowed.length
  capacity : s.pool.stats.active ≤ node.limits.maxTotal
  idle : s.pool.stats.idle ≤ node.limits.maxIdle
  total : s.pool.stats.active + s.pool.stats.idle ≤ node.limits.maxTotal
  created : s.pool.stats.created = s.connects
  /-- Every link that was made is in one place. -/
  placed : ∀ link name, .opened link name ∈ s.wire.trace → ∃! place, s.At link place
  /-- In its place it is only once. -/
  single : ∀ link place, s.tally link place ≤ 1

/-- **A pool keeps to its bounds, and every connection stays accounted for**, however its callers
treat it and the network treats them. -/
theorem pool_conserved (N : Network σ) (node : Node) (net : σ) (dealings : List (Dealing σ)) :
    ((start node net).run N dealings).Conserved node := by
  obtain ⟨h, hrecorded⟩ := sound_run (N := N) node net dealings
  have hactive := h.borrowed_length
  have hbound := h.bound
  exact ⟨hactive, by simp only [Pool.stats]; omega, h.room, hbound,
    h.created.trans h.connects.symm, fun link name hmem => h.placed (hrecorded.opened link name hmem),
    h.tally_le_one⟩

/-- Whether a connection is nobody's, is open, was parted with by releases only, and was not made for
one caller alone. -/
structure Lendable (s : Lending σ) (c : Connection) : Prop where
  free : ∀ d ∈ s.held, d.link ≠ c.link ∧ d.id ≠ c.id
  unclosed : .closed c.link ∉ s.wire.trace
  released : ∀ d how, .parted d how ∈ s.deals → d.link = c.link → how = .release
  shared : ¬ s.Outside c.link

/-- A connection that is neither held nor dropped nor closed can be lent. -/
theorem Recorded.lendable {s : Lending σ} {c : Connection} (h : s.Recorded) (hid : c.id = c.link + 1)
    (hheld : linkCount c.link s.held = 0) (hdropped : linkCount c.link s.dropped = 0)
    (hclosed : closings c.link s.wire.trace = 0) (hshared : ¬ s.Outside c.link) : s.Lendable c where
  free d hd := by
    have hne : d.link ≠ c.link := by
      intro hlink
      have := linkCount_pos.2 ⟨d, hd, hlink⟩
      omega
    have hnum := (h.numbered d (mem_known.2 (.inl hd))).1
    exact ⟨hne, by omega⟩
  unclosed := List.count_eq_zero.1 hclosed
  released d how hd hlink := by
    have hunclosed := List.count_eq_zero.1 hclosed
    cases how with
    | release => rfl
    | evict => exact absurd (h.gone d _ hd (.inl rfl)) (hlink ▸ hunclosed)
    | close => exact absurd (h.gone d _ hd (.inr rfl)) (hlink ▸ hunclosed)
    | drop =>
      have hmem : d ∈ s.dropped := List.mem_filterMap.2 ⟨_, hd, rfl⟩
      have := linkCount_pos.2 ⟨d, hmem, hlink⟩
      omega
  shared := hshared

theorem Recorded.lendable_of_idle {node : Node} {s : Lending σ} {c : Connection} (h : s.Recorded)
    (hsound : s.Sound node) (hc : c ∈ s.pool.idle) : s.Lendable c := by
  obtain ⟨hid, -, hded⟩ := h.numbered c (mem_known.2 (.inr (.inl hc)))
  have honce := hsound.once c.link
  have hidle := linkCount_pos.2 ⟨c, hc, rfl⟩
  have hone : (if c.link < s.wire.opened then 1 else 0) ≤ 1 := by split <;> omega
  refine h.lendable hid (by omega) (by omega) (by omega) ?_
  rw [← hded, hsound.shared c hc]
  exact Bool.false_ne_true

theorem Recorded.lendable_of_new {node : Node} {s : Lending σ} {c : Connection} (h : s.Recorded)
    (hsound : s.Sound node) (hid : c.id = s.pool.created + 1) (hlink : c.link = s.wire.opened) :
    s.Lendable c := by
  have honce := hsound.once c.link
  rw [if_neg (by omega)] at honce
  refine h.lendable (by rw [hid, hlink, hsound.created]) (by omega) (by omega) (by omega) ?_
  rintro ⟨d, hd, hsame⟩
  have hlt : d.link < s.wire.opened := (h.numbered d (mem_known_of_deal hd)).2.1
  omega

/-- Whether a pool lends what it should. -/
structure Prudent (N : Network σ) (s : Lending σ) : Prop where
  lends : ∀ c p w, s.pool.borrow N s.wire = (.ok c, p, w) → s.Lendable c
  /-- Connections have the same number only if they are the same. -/
  numbered : ∀ c ∈ s.known, ∀ d ∈ s.known, c.id = d.id ↔ c.link = d.link
  closed : ∀ link, closings link s.wire.trace ≤ 1
  /-- Where connections are kept, the one released last is lent at once, and nothing happens on the
  links. -/
  reuses : ∀ c rest, s.pool.idle = c :: rest →
    s.pool.borrow N s.wire =
      (.ok { c with lent := true }, { s.pool.claim with idle := rest }, s.wire) ∧
    ∃ before since, s.releases = before ++ c.link :: since ∧
      ∀ d ∈ s.pool.idle, d.link ∉ since

/-- **A pool lends no connection that is in use or was done away with**, and lends what was released
last before it makes a new one. -/
theorem pool_prudent (N : Network σ) (node : Node) (net : σ) (dealings : List (Dealing σ)) :
    ((start node net).run N dealings).Prudent N := by
  obtain ⟨h, hrecorded⟩ := sound_run (N := N) node net dealings
  generalize (start node net).run N dealings = s at h hrecorded
  refine ⟨?_, ?_, fun link => h.tally_le_one link .closed, ?_⟩
  · intro c p w hb
    obtain ⟨-, d, rest, hi, hc, -⟩ | ⟨-, -, link, hc, hw, -⟩ | ⟨hr, -⟩ := Pool.borrow_ways hb
    · cases hc
      have hd := hrecorded.lendable_of_idle h (c := d) (by simp [hi])
      exact ⟨hd.free, hd.unclosed, hd.released, hd.shared⟩
    · cases hc
      exact hrecorded.lendable_of_new h rfl (Wire.connect_ok hw).1
    · cases hr
  · intro c hc d hd
    have := (hrecorded.numbered c hc).1
    have := (hrecorded.numbered d hd).1
    omega
  · intro c rest hi
    have hbound := h.bound
    have hrecent := hrecorded.recent
    rw [hi] at hbound hrecent
    -- Where a connection is kept there is capacity to lend it.
    have hfree : s.pool.isExhausted = false := by
      rw [List.length_cons] at hbound
      simp only [Pool.isExhausted, h.same, decide_eq_false_iff_not]
      omega
    constructor
    · simp [Pool.borrow, Pool.borrowWithin, hfree, Pool.lend, Pool.claim, hi]
    · obtain ⟨⟨before, since, hsplit, hsince⟩, -⟩ := hrecent
      refine ⟨before, since, hsplit, fun d hd => hsince _ ?_⟩
      rw [hi] at hd
      exact List.mem_map_of_mem hd

/-- A connection is borrowed, released and borrowed again: no second link is made. -/
theorem released_lent_again :
    let node : Node := { host := "a", port := 1 }
    let s := (start node ({} : Rehearsal.Stage)).run Rehearsal.network [.borrow, .part 0 .release]
    ∃ c, s.releases = [c.link] ∧ s.pool.idle = [c] ∧ s.Lendable { c with lent := true } ∧
      s.pool.borrow Rehearsal.network s.wire =
        (.ok { c with lent := true }, { s.pool.claim with idle := [] }, s.wire) := by
  intro node s
  have hprudent : s.Prudent Rehearsal.network :=
    pool_prudent Rehearsal.network node {} [.borrow, .part 0 .release]
  let c : Connection := { id := 1, node := "a:1/0", link := 0, dedicated := false }
  have hidle : s.pool.idle = [c] := by decide +kernel
  obtain ⟨hborrow, -⟩ := hprudent.reuses c [] hidle
  exact ⟨c, by decide +kernel, hidle, hprudent.lends _ _ _ hborrow, hborrow⟩

end Lending

end ShardFleet
