import ShardFleet.Hashing

/-!
# The consistent hash ring

Every shard has a number of labelled points on a ring of 64-bit positions, and a key belongs to the
shard of the first point at or after its own position, going round to the lowest point past the
top. Where two labels meet on one position, the shard with the greater index owns it.

Main statement: `Ring.routeIndex_lt`, the index that routing answers is one of a shard.
-/

namespace ShardFleet

namespace Ring

/-- A position on the ring and the index of the shard that owns it. -/
structure Point where
  hash : UInt64
  shard : Nat
deriving DecidableEq, Repr

/-- The order of points: by position, and by shard where positions meet. -/
def Point.le (p q : Point) : Bool :=
  p.hash < q.hash || (p.hash == q.hash && p.shard ≤ q.shard)

/-- The label whose hash places one point. -/
def label (shard virtual : Nat) : String := s!"SHARD-{shard}-NODE-{virtual}"

/-- The points of all labels, shard by shard. -/
def labelled (hashing : Hashing) (shards virtualNodes : Nat) : List Point :=
  (List.range shards).flatMap fun i =>
    (List.range virtualNodes).map fun v => ⟨hashing.hash (utf8 (label i v)), i⟩

/-- One point per position: of neighbours on the same position the last stays. -/
def lastOfRuns : List Point → List Point
  | [] => []
  | [p] => [p]
  | p :: q :: rest =>
    if p.hash = q.hash then lastOfRuns (q :: rest) else p :: lastOfRuns (q :: rest)

/-- The points of a ring, in increasing order of position. -/
def place (hashing : Hashing) (shards virtualNodes : Nat) : List Point :=
  lastOfRuns ((labelled hashing shards virtualNodes).mergeSort Point.le)

theorem mem_labelled {hashing : Hashing} {n v : Nat} {p : Point} :
    p ∈ labelled hashing n v ↔
      ∃ i < n, ∃ j < v, p = ⟨hashing.hash (utf8 (label i j)), i⟩ := by
  simp [labelled, eq_comm]

theorem mem_of_mem_lastOfRuns {p : Point} {l : List Point} (h : p ∈ lastOfRuns l) : p ∈ l := by
  fun_induction lastOfRuns l with
  | case1 => exact h
  | case2 => exact h
  | case3 p q rest _ ih => exact List.mem_cons_of_mem _ (ih h)
  | case4 p q rest _ ih =>
    rcases List.mem_cons.1 h with rfl | h
    · exact List.mem_cons_self
    · exact List.mem_cons_of_mem _ (ih h)

theorem shard_lt_of_mem_place {hashing : Hashing} {n v : Nat} {p : Point}
    (h : p ∈ place hashing n v) : p.shard < n := by
  have := List.mem_mergeSort.1 (mem_of_mem_lastOfRuns h)
  obtain ⟨i, hi, j, _, rfl⟩ := mem_labelled.1 this
  exact hi

end Ring

/-- Shards on a hash ring. -/
structure Ring (α : Type) where
  /-- The shards, in the order of their indices. -/
  shards : List α
  /-- How many labels every shard has. -/
  virtualNodes : Nat
  hashing : Hashing
  /-- The points, in increasing order of position. -/
  points : List Ring.Point := Ring.place hashing shards.length virtualNodes
  points_eq : points = Ring.place hashing shards.length virtualNodes := by rfl
  shards_ne_nil : shards ≠ []
  virtualNodes_pos : 0 < virtualNodes

namespace Ring

/-- Why a ring cannot be built. -/
inductive Refusal where
  | noShards
  | noVirtualNodes
deriving DecidableEq, Repr

/-- The wording of a refusal. -/
def Refusal.message : Refusal → String
  | noShards => "cannot build a hash ring without shards"
  | noVirtualNodes => "virtual_nodes must be at least 1"

variable {α : Type}

/-- The ring over `shards`, each with `virtualNodes` labels. -/
def build (shards : List α) (virtualNodes : Nat) (hashing : Hashing) : Except Refusal (Ring α) :=
  if hs : shards = [] then .error .noShards
  else if hv : virtualNodes = 0 then .error .noVirtualNodes
  else .ok {
    shards, virtualNodes, hashing
    shards_ne_nil := hs
    virtualNodes_pos := Nat.pos_of_ne_zero hv }

/-- The position of a key. -/
def hash (r : Ring α) (key : Bytes) : UInt64 := r.hashing.hash key

/-- The first point at or after a position, going round to the lowest. -/
def successor? (r : Ring α) (position : UInt64) : Option Point :=
  (r.points.find? (position ≤ ·.hash)).or r.points.head?

/-- The index of the shard that owns `key`. -/
def routeIndex (r : Ring α) (key : Bytes) : Nat :=
  ((r.successor? (r.hash key)).map (·.shard)).getD 0

theorem mem_of_successor? {r : Ring α} {h : UInt64} {p : Point} (e : r.successor? h = some p) :
    p ∈ r.points := by
  unfold successor? at e
  cases hf : r.points.find? (h ≤ ·.hash) with
  | none => simp only [hf, Option.none_or] at e; exact List.mem_of_mem_head? e
  | some q => simp only [hf, Option.some_or, Option.some.injEq] at e
              exact e ▸ List.mem_of_find?_eq_some hf

theorem routeIndex_lt (r : Ring α) (key : Bytes) : r.routeIndex key < r.shards.length := by
  unfold routeIndex
  cases e : r.successor? (r.hash key) with
  | none => exact List.length_pos_iff.2 r.shards_ne_nil
  | some p => exact shard_lt_of_mem_place (r.points_eq ▸ mem_of_successor? e)

/-- The shard that owns `key`. -/
def route (r : Ring α) (key : Bytes) : α := r.shards.get ⟨r.routeIndex key, r.routeIndex_lt key⟩

end Ring

end ShardFleet
