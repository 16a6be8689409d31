import Mathlib.Order.Bounds.Basic
import Mathlib.Data.List.Induction
import Mathlib.Data.List.Sort
import ShardFleet.Ring

/-!
# The nearest point

The points of a ring are what is left when its labels are put on it one after the other, shard by shard,
and each overwrites what was on its position. Looking up the first point at or after a key, and the lowest
point past the top, is looking for the label nearest to the key clockwise. Of the shards that have a label
there, the one with the greatest index owns the key.
-/

namespace ShardFleet.Ring

/-! ### The points of a ring -/

theorem Point.le_iff {p q : Point} :
    p.le q ↔ p.hash < q.hash ∨ p.hash = q.hash ∧ p.shard ≤ q.shard := by
  simp [Point.le]

theorem Point.le_trans (p q s : Point) (hpq : p.le q) (hqs : q.le s) : p.le s := by
  rw [Point.le_iff] at *
  grind

theorem Point.le_total (p q : Point) : p.le q || q.le p := by
  rw [Bool.or_eq_true, Point.le_iff, Point.le_iff]
  grind

/-- Whether points stand for labelled ones: in the order of their positions, and on every labelled
position the one with the greatest shard. -/
structure Charts (points labels : List Point) : Prop where
  increasing : points.Pairwise (·.hash < ·.hash)
  labelled : ∀ p ∈ points, p ∈ labels
  covered : ∀ p ∈ labels, ∃ q ∈ points, q.hash = p.hash ∧ p.shard ≤ q.shard

theorem charts_lastOfRuns {l : List Point} (h : l.Pairwise (·.le ·)) : Charts (lastOfRuns l) l := by
  fun_induction lastOfRuns l with
  | case1 => exact ⟨.nil, by simp, by simp⟩
  | case2 p => exact ⟨List.pairwise_singleton .., by simp, by simp⟩
  | case3 p q rest hpq ih =>
    obtain ⟨hp, hrest⟩ := List.pairwise_cons.1 h
    obtain ⟨increasing, labelled, covered⟩ := ih hrest
    refine ⟨increasing, fun x hx => List.mem_cons_of_mem _ (labelled x hx), ?_⟩
    refine List.forall_mem_cons.2 ⟨?_, covered⟩
    -- The next point lies where `p` does, and its shard is at least as great.
    obtain ⟨x, hx, hhash, hshard⟩ := covered q List.mem_cons_self
    have hle := Point.le_iff.1 (hp q List.mem_cons_self)
    exact ⟨x, hx, by rw [hhash, hpq], by grind⟩
  | case4 p q rest hpq ih =>
    obtain ⟨hp, hrest⟩ := List.pairwise_cons.1 h
    obtain ⟨increasing, labelled, covered⟩ := ih hrest
    refine ⟨List.pairwise_cons.2 ⟨fun x hx => ?_, increasing⟩, ?_, ?_⟩
    · have hpq' := Point.le_iff.1 (hp q List.mem_cons_self)
      have hqx : q.hash ≤ x.hash := by
        rcases List.mem_cons.1 (labelled x hx) with rfl | hx
        · exact UInt64.le_refl _
        · have := Point.le_iff.1 ((List.pairwise_cons.1 hrest).1 x hx)
          grind
      grind
    · exact List.forall_mem_cons.2
        ⟨List.mem_cons_self, fun x hx => List.mem_cons_of_mem _ (labelled x hx)⟩
    · refine List.forall_mem_cons.2 ⟨⟨p, List.mem_cons_self, rfl, Nat.le_refl _⟩, fun x hx => ?_⟩
      obtain ⟨y, hy, hxy⟩ := covered x hx
      exact ⟨y, List.mem_cons_of_mem _ hy, hxy⟩

theorem charts_place (hashing : Hashing) (n v : Nat) :
    Charts (place hashing n v) (labelled hashing n v) := by
  have hsorted := List.pairwise_mergeSort Point.le_trans Point.le_total (labelled hashing n v)
  obtain ⟨increasing, hlabelled, covered⟩ := charts_lastOfRuns hsorted
  exact ⟨increasing, fun p hp => List.mem_mergeSort.1 (hlabelled p hp),
    fun p hp => covered p (List.mem_mergeSort.2 hp)⟩

/-- A point has the greatest shard of the labels on its position. -/
theorem Charts.shard_le {points labels : List Point} (h : Charts points labels) {p q : Point}
    (hp : p ∈ points) (hq : q ∈ labels) (hhash : q.hash = p.hash) : q.shard ≤ p.shard := by
  obtain ⟨x, hx, hxq, hle⟩ := h.covered q hq
  have hnodup : (points.map (·.hash)).Nodup :=
    List.pairwise_map.2 (h.increasing.imp fun hlt => UInt64.ne_of_lt hlt)
  rwa [← List.inj_on_of_nodup_map hnodup hx hp (hxq.trans hhash)]

/-! ### A ring as a map -/

/-- The points of a ring with one more, which takes the place of the one on its position. -/
def overwrite (p : Point) : List Point → List Point
  | [] => [p]
  | q :: rest =>
    if p.hash < q.hash then p :: q :: rest
    else if p.hash = q.hash then p :: rest
    else q :: overwrite p rest

theorem mem_overwrite {p q : Point} {points : List Point} (h : points.Pairwise (·.hash < ·.hash)) :
    q ∈ overwrite p points ↔ q = p ∨ q ∈ points ∧ q.hash ≠ p.hash := by
  induction points with
  | nil => simp [overwrite]
  | cons x rest ih =>
    obtain ⟨hx, hrest⟩ := List.pairwise_cons.1 h
    unfold overwrite
    split
    · rename_i hlt
      have hne : ∀ y ∈ x :: rest, y.hash ≠ p.hash := by
        refine List.forall_mem_cons.2 ⟨(UInt64.ne_of_lt hlt).symm, fun y hy => ?_⟩
        exact (UInt64.ne_of_lt (UInt64.lt_trans hlt (hx y hy))).symm
      rw [List.mem_cons]
      exact or_congr_right ⟨fun hq => ⟨hq, hne q hq⟩, And.left⟩
    · split
      · rename_i hsame
        have hne : ∀ y ∈ rest, y.hash ≠ p.hash := fun y hy =>
          hsame ▸ (UInt64.ne_of_lt (hx y hy)).symm
        rw [List.mem_cons, List.mem_cons]
        grind
      · rename_i hne
        rw [List.mem_cons, ih hrest, List.mem_cons]
        grind

theorem pairwise_overwrite {points : List Point} (p : Point) (h : points.Pairwise (·.hash < ·.hash)) :
    (overwrite p points).Pairwise (·.hash < ·.hash) := by
  induction points with
  | nil => exact List.pairwise_singleton ..
  | cons x rest ih =>
    obtain ⟨hx, hrest⟩ := List.pairwise_cons.1 h
    unfold overwrite
    split
    · rename_i hlt
      refine List.pairwise_cons.2 ⟨List.forall_mem_cons.2 ⟨hlt, fun y hy => ?_⟩, h⟩
      exact UInt64.lt_trans hlt (hx y hy)
    · split
      · rename_i hsame
        exact List.pairwise_cons.2 ⟨hsame ▸ hx, hrest⟩
      · refine List.pairwise_cons.2 ⟨fun y hy => ?_, ih hrest⟩
        obtain rfl | ⟨hy, -⟩ := (mem_overwrite hrest).1 hy
        · grind
        · exact hx y hy

/-- A label whose shard is no lesser than those before overwrites what was on its position. -/
theorem charts_overwrite {points labels : List Point} {p : Point} (h : Charts points labels)
    (hlast : ∀ q ∈ labels, q.shard ≤ p.shard) : Charts (overwrite p points) (labels ++ [p]) where
  increasing := pairwise_overwrite p h.increasing
  labelled q hq := by
    obtain rfl | ⟨hq, -⟩ := (mem_overwrite h.increasing).1 hq
    · simp
    · exact List.mem_append_left _ (h.labelled q hq)
  covered q hq := by
    by_cases hhash : q.hash = p.hash
    · refine ⟨p, (mem_overwrite h.increasing).2 (.inl rfl), hhash.symm, ?_⟩
      obtain hq | hq := List.mem_append.1 hq
      · exact hlast q hq
      · rw [List.mem_singleton.1 hq]
    · obtain hq | hq := List.mem_append.1 hq
      · obtain ⟨x, hx, hxq, hle⟩ := h.covered q hq
        exact ⟨x, (mem_overwrite h.increasing).2 (.inr ⟨hx, hxq ▸ hhash⟩), hxq, hle⟩
      · exact absurd (congrArg Point.hash (List.mem_singleton.1 hq)) hhash

theorem charts_foldl {labels : List Point} (h : labels.Pairwise (·.shard ≤ ·.shard)) :
    Charts (labels.foldl (fun points p => overwrite p points) []) labels := by
  induction labels using List.reverseRecOn with
  | nil => exact ⟨.nil, by simp, by simp⟩
  | append_singleton labels p ih =>
    obtain ⟨hlabels, -, hlast⟩ := List.pairwise_append.1 h
    rw [List.foldl_concat]
    exact charts_overwrite (ih hlabels) fun q hq => hlast q hq p (List.mem_singleton_self p)

theorem Charts.subset {points points' labels : List Point} (h : Charts points labels)
    (h' : Charts points' labels) : ∀ p ∈ points, p ∈ points' := by
  intro p hp
  obtain ⟨q, hq, hhash, hle⟩ := h'.covered p (h.labelled p hp)
  have hshard : q.shard = p.shard := le_antisymm (h.shard_le hp (h'.labelled q hq) hhash) hle
  cases p
  cases q
  cases hhash
  cases hshard
  exact hq

/-- Labels are charted in one way only. -/
theorem Charts.unique {points points' labels : List Point} (h : Charts points labels)
    (h' : Charts points' labels) : points = points' := by
  have hperm : points.Perm points' := (List.perm_ext_iff_of_nodup
    (h.increasing.imp fun hlt heq => by simp [heq] at hlt)
    (h'.increasing.imp fun hlt heq => by simp [heq] at hlt)).2 fun p =>
      ⟨h.subset h' p, h'.subset h p⟩
  exact hperm.eq_of_pairwise (fun p q _ _ hpq hqp => absurd hpq (UInt64.lt_asymm hqp))
    h.increasing h'.increasing

theorem pairwise_labelled (hashing : Hashing) (n v : Nat) :
    (labelled hashing n v).Pairwise (·.shard ≤ ·.shard) := by
  refine List.pairwise_flatMap.2 ⟨fun i _ => ?_, ?_⟩
  · exact List.pairwise_map.2 (List.pairwise_of_forall fun _ _ => le_rfl)
  · refine List.pairwise_lt_range.imp fun hlt p hp q hq => ?_
    obtain ⟨_, -, rfl⟩ := List.mem_map.1 hp
    obtain ⟨_, -, rfl⟩ := List.mem_map.1 hq
    exact hlt.le

/-- A ring has the points that are left when its labels are put on it one after the other, and each
overwrites what was on its position. -/
theorem place_eq_foldl (hashing : Hashing) (n v : Nat) : place hashing n v =
    (labelled hashing n v).foldl (fun points p => overwrite p points) [] :=
  (charts_place hashing n v).unique (charts_foldl (pairwise_labelled hashing n v))

/-! ### Going round -/

/-- How far it is clockwise from one position to another. -/
def distance (a b : UInt64) : Int := ((b.toNat : Int) - a.toNat) % UInt64.size

theorem distance_le_of_le {a b c : UInt64} (hab : a ≤ b) (hbc : b ≤ c) :
    distance a b ≤ distance a c := by
  have hc := c.toNat_lt
  rw [UInt64.le_iff_toNat_le] at hab hbc
  unfold distance UInt64.size
  omega

/-- What lies behind a position is farther than all that lies at it or ahead. -/
theorem distance_le_of_passed {a b c : UInt64} (hab : a ≤ b) (hca : c < a) :
    distance a b ≤ distance a c := by
  have hb := b.toNat_lt
  rw [UInt64.le_iff_toNat_le] at hab
  rw [UInt64.lt_iff_toNat_lt] at hca
  unfold distance UInt64.size
  omega

theorem distance_le_of_lt {a b c : UInt64} (hbc : b ≤ c) (hca : c < a) :
    distance a b ≤ distance a c := by
  have ha := a.toNat_lt
  rw [UInt64.le_iff_toNat_le] at hbc
  rw [UInt64.lt_iff_toNat_lt] at hca
  unfold distance UInt64.size
  omega

theorem distance_inj {a b c : UInt64} (h : distance a b = distance a c) : b = c := by
  have hb := b.toNat_lt
  have hc := c.toNat_lt
  unfold distance UInt64.size at h
  rw [← UInt64.toNat_inj]
  omega

/-- The first point at or after a position, or else the lowest, is the nearest one clockwise. -/
theorem distance_successor_le {points : List Point} (h : points.Pairwise (·.hash < ·.hash))
    {position : UInt64} {p : Point}
    (hp : (points.find? (position ≤ ·.hash)).or points.head? = some p) :
    ∀ q ∈ points, distance position p.hash ≤ distance position q.hash := by
  intro q hq
  cases hfind : points.find? (position ≤ ·.hash) with
  | some s =>
    rw [hfind, Option.some_or, Option.some.injEq] at hp
    subst hp
    obtain ⟨hs, before, after, rfl, hbefore⟩ := List.find?_eq_some_iff_append.1 hfind
    have hs : position ≤ s.hash := by simpa using hs
    rcases List.mem_append.1 hq with hq | hq
    · exact distance_le_of_passed hs (by simpa using hbefore q hq)
    · refine distance_le_of_le hs ?_
      rcases List.mem_cons.1 hq with rfl | hq
      · exact UInt64.le_refl _
      · have hafter := (List.pairwise_append.1 h).2.1
        exact UInt64.le_of_lt ((List.pairwise_cons.1 hafter).1 q hq)
  | none =>
    rw [hfind, Option.none_or, List.head?_eq_some_iff] at hp
    obtain ⟨rest, rfl⟩ := hp
    have hpassed : q.hash < position := by simpa using List.find?_eq_none.1 hfind q hq
    refine distance_le_of_lt ?_ hpassed
    rcases List.mem_cons.1 hq with rfl | hq
    · exact UInt64.le_refl _
    · exact UInt64.le_of_lt ((List.pairwise_cons.1 h).1 q hq)

/-! ### Routing -/

/-- The shards that have a label nearest to a key clockwise, among all labels. -/
def nearest (hashing : Hashing) (shards virtualNodes : Nat) (key : Bytes) : Set Nat :=
  {i | i < shards ∧ ∃ v < virtualNodes, ∀ j < shards, ∀ w < virtualNodes,
    distance (hashing.hash key) (hashing.hash (utf8 (label i v))) ≤
      distance (hashing.hash key) (hashing.hash (utf8 (label j w)))}

variable {α : Type}

theorem charts_points (r : Ring α) :
    Charts r.points (labelled r.hashing r.shards.length r.virtualNodes) :=
  r.points_eq ▸ charts_place ..

theorem mem_labelled_label (hashing : Hashing) {n v i w : Nat} (hi : i < n) (hw : w < v) :
    ⟨hashing.hash (utf8 (label i w)), i⟩ ∈ labelled hashing n v :=
  mem_labelled.2 ⟨i, hi, w, hw, rfl⟩

/-- A ring has points, so that every position has a successor. -/
theorem exists_successor (r : Ring α) (position : UInt64) :
    ∃ p, r.successor? position = some p := by
  have hlabel := mem_labelled_label r.hashing (List.length_pos_iff.2 r.shards_ne_nil)
    r.virtualNodes_pos
  obtain ⟨q, hq, -⟩ := r.charts_points.covered _ hlabel
  obtain ⟨first, others, hpoints⟩ := List.exists_cons_of_ne_nil (List.ne_nil_of_mem hq)
  rw [successor?, hpoints]
  cases (first :: others).find? (position ≤ ·.hash) with
  | none => exact ⟨first, rfl⟩
  | some s => exact ⟨s, rfl⟩

/-- The successor of a position is nearest to it of all labels. -/
theorem distance_successor_le_label {r : Ring α} {position : UInt64} {p : Point}
    (hp : r.successor? position = some p) {j w : Nat} (hj : j < r.shards.length)
    (hw : w < r.virtualNodes) :
    distance position p.hash ≤ distance position (r.hashing.hash (utf8 (label j w))) := by
  obtain ⟨q, hq, hhash, -⟩ := r.charts_points.covered _ (mem_labelled_label r.hashing hj hw)
  have hle := distance_successor_le r.charts_points.increasing hp q hq
  rwa [hhash] at hle

theorem shard_successor_isGreatest {r : Ring α} {key : Bytes} {p : Point}
    (hp : r.successor? (r.hash key) = some p) :
    IsGreatest (nearest r.hashing r.shards.length r.virtualNodes key) p.shard := by
  have hmem := mem_of_successor? hp
  obtain ⟨i, hi, v, hv, hpoint⟩ := mem_labelled.1 (r.charts_points.labelled p hmem)
  have hshard : p.shard = i := by rw [hpoint]
  have hhash : p.hash = r.hashing.hash (utf8 (label i v)) := by rw [hpoint]
  constructor
  · refine ⟨hshard ▸ hi, v, hv, fun j hj w hw => ?_⟩
    rw [hshard, ← hhash]
    exact distance_successor_le_label hp hj hw
  · rintro j ⟨hj, w, hw, hle⟩
    -- A label that is as near lies on the same position.
    have hsame : r.hashing.hash (utf8 (label j w)) = p.hash := by
      refine distance_inj (le_antisymm ?_ (distance_successor_le_label hp hj hw))
      rw [hhash]
      exact hle i hi v hv
    exact r.charts_points.shard_le hmem (mem_labelled_label r.hashing hj hw) hsame

theorem build_ok {shards : List α} {virtualNodes : Nat} (hashing : Hashing) (hshards : shards ≠ [])
    (hvirtual : 0 < virtualNodes) :
    ∃ r, build shards virtualNodes hashing = .ok r ∧ r.shards = shards ∧
      r.virtualNodes = virtualNodes ∧ r.hashing = hashing := by
  rw [build, dif_neg hshards, dif_neg (Nat.ne_of_gt hvirtual)]
  exact ⟨_, rfl, rfl, rfl, rfl⟩

/-- **A key belongs to the shard with the nearest label clockwise**, of several such shards to the
one with the greatest index. There always is one, so that no index is made up. -/
theorem routes_nearest (shards : List α) (virtualNodes : Nat) (hashing : Hashing)
    (hshards : shards ≠ []) (hvirtual : 0 < virtualNodes) :
    ∃ r, build shards virtualNodes hashing = .ok r ∧ ∀ key,
      IsGreatest (nearest hashing shards.length virtualNodes key) (r.routeIndex key) ∧
      (∃ p, r.successor? (r.hash key) = some p ∧ r.routeIndex key = p.shard) ∧
      shards[r.routeIndex key]? = some (r.route key) := by
  obtain ⟨r, hbuild, rfl, rfl, rfl⟩ := build_ok hashing hshards hvirtual
  refine ⟨r, hbuild, fun key => ?_⟩
  obtain ⟨p, hp⟩ := r.exists_successor (r.hash key)
  have hindex : r.routeIndex key = p.shard := by
    rw [routeIndex, hp]
    rfl
  refine ⟨?_, ⟨p, hp, hindex⟩, ?_⟩
  · rw [hindex]
    exact shard_successor_isGreatest hp
  · exact List.getElem?_eq_getElem (r.routeIndex_lt key)

/-- Two shards with one label each. -/
theorem routes_nearest_of_two :
    ∃ r, build ["a", "b"] 1 .md5 = .ok r ∧ ∀ key,
      IsGreatest (nearest .md5 2 1 key) (r.routeIndex key) ∧
      (∃ p, r.successor? (r.hash key) = some p ∧ r.routeIndex key = p.shard) ∧
      ["a", "b"][r.routeIndex key]? = some (r.route key) :=
  routes_nearest ["a", "b"] 1 .md5 (by decide) (by decide)

end ShardFleet.Ring
