import ShardFleet.Proofs.NearestLabel

/-!
# Rings that grow

A ring with more shards, or with more labels for each of them, has all labels of the smaller ring. A
key whose nearest label was there before keeps its shard, so that every key that moves has moved to a
label that was added.
-/

namespace ShardFleet.Ring

/-- A shard whose label is the nearest of a larger ring owns the key in the smaller ring as well, if
that has the label. -/
theorem isGreatest_nearest_of_kept {hashing : Hashing} {n n' v v' : Nat} {key : Bytes} {j w : Nat}
    (hshards : n ≤ n') (hvirtual : v ≤ v') (hj : j < n) (hw : w < v)
    (hnearest : ∀ i < n', ∀ u < v', distance (hashing.hash key) (hashing.hash (utf8 (label j w))) ≤
      distance (hashing.hash key) (hashing.hash (utf8 (label i u))))
    (hgreatest : j ∈ upperBounds (nearest hashing n' v' key)) :
    IsGreatest (nearest hashing n v key) j := by
  constructor
  · exact ⟨hj, w, hw, fun i hi u hu =>
      hnearest i (hi.trans_le hshards) u (hu.trans_le hvirtual)⟩
  · rintro i ⟨hi, u, hu, hle⟩
    -- The label of `i` is as near as that of `j`, and so the nearest of the larger ring too.
    refine hgreatest ⟨hi.trans_le hshards, u, hu.trans_le hvirtual, fun k hk x hx => ?_⟩
    exact (hle j hj w hw).trans (hnearest k hk x hx)

variable {α : Type}

/-- Whether the point that a key reaches stands for a label that a ring of `shards` shards with
`virtualNodes` labels each does not have. -/
def ReachesAdded (r : Ring α) (shards virtualNodes : Nat) (key : Bytes) : Prop :=
  ∃ p, r.successor? (r.hash key) = some p ∧ ∃ w < r.virtualNodes,
    p.hash = r.hashing.hash (utf8 (label (r.routeIndex key) w)) ∧
      (shards ≤ r.routeIndex key ∨ virtualNodes ≤ w)

/-- A key of a larger ring keeps its shard, or reaches a label that was added. -/
theorem routeIndex_eq_or_reachesAdded {r r' : Ring α} (hhashing : r'.hashing = r.hashing)
    (hshards : r.shards.length ≤ r'.shards.length) (hvirtual : r.virtualNodes ≤ r'.virtualNodes)
    (key : Bytes) : r'.routeIndex key = r.routeIndex key ∨
      r'.ReachesAdded r.shards.length r.virtualNodes key := by
  obtain ⟨p, hp⟩ := r.exists_successor (r.hash key)
  obtain ⟨q, hq⟩ := r'.exists_successor (r'.hash key)
  have hindex : r.routeIndex key = p.shard := by rw [routeIndex, hp]; rfl
  have hindex' : r'.routeIndex key = q.shard := by rw [routeIndex, hq]; rfl
  obtain ⟨j, hj, w, hw, rfl⟩ := mem_labelled.1 (r'.charts_points.labelled q (mem_of_successor? hq))
  rw [ReachesAdded, hindex, hindex']
  by_cases hadded : r.shards.length ≤ j ∨ r.virtualNodes ≤ w
  · exact .inr ⟨_, hq, w, hw, rfl, hadded⟩
  · rw [not_or, not_le, not_le] at hadded
    obtain ⟨hj', hw'⟩ := hadded
    have hgreatest := shard_successor_isGreatest hp
    have hgreatest' := shard_successor_isGreatest hq
    have hnearest := fun i (hi : i < r'.shards.length) u (hu : u < r'.virtualNodes) =>
      distance_successor_le_label hq hi hu
    rw [hash, hhashing] at hnearest
    rw [hhashing] at hgreatest'
    have hkept := isGreatest_nearest_of_kept hshards hvirtual hj' hw' hnearest hgreatest'.2
    exact .inl (hkept.unique hgreatest)

/-- **Keys move to what is added only**: in a ring with more shards, or more labels for each, every key
keeps its shard or reaches a label that is new. If there are only more shards, it keeps its shard or
moves to one of the new ones. -/
theorem growth_moves_to_added (shards shards' : List α) (virtualNodes virtualNodes' : Nat)
    (hashing : Hashing) (hne : shards ≠ []) (hpos : 0 < virtualNodes)
    (hshards : shards.length ≤ shards'.length) (hvirtual : virtualNodes ≤ virtualNodes') :
    ∃ r r', build shards virtualNodes hashing = .ok r ∧
      build shards' virtualNodes' hashing = .ok r' ∧ ∀ key,
        (r'.routeIndex key = r.routeIndex key ∨ r'.ReachesAdded shards.length virtualNodes key) ∧
        (virtualNodes' = virtualNodes →
          r'.routeIndex key = r.routeIndex key ∨ shards.length ≤ r'.routeIndex key) ∧
        (virtualNodes' = virtualNodes → shards <+: shards' →
          r'.route key = r.route key ∨ r'.route key ∈ shards'.drop shards.length) := by
  have hne' : shards' ≠ [] := by
    rw [← List.length_pos_iff] at hne ⊢
    exact hne.trans_le hshards
  obtain ⟨r, hr, rfl, rfl, rfl⟩ := build_ok hashing hne hpos
  obtain ⟨r', hr', rfl, rfl, hhashing⟩ := build_ok r.hashing hne' (hpos.trans_le hvirtual)
  refine ⟨r, r', hr, hr', fun key => ?_⟩
  have hmoves := routeIndex_eq_or_reachesAdded hhashing hshards hvirtual key
  have happended (hsame : r'.virtualNodes = r.virtualNodes) :
      r'.routeIndex key = r.routeIndex key ∨ r.shards.length ≤ r'.routeIndex key := by
    obtain hkept | ⟨p, -, w, hw, -, hadded | hadded⟩ := hmoves
    · exact .inl hkept
    · exact .inr hadded
    · omega
  refine ⟨hmoves, happended, fun hsame hprefix => ?_⟩
  obtain ⟨added, hadded⟩ := hprefix
  obtain hkept | hnew := happended hsame
  · left
    have hlt := r.routeIndex_lt key
    simp only [route, List.get_eq_getElem, ← hadded, hkept, List.getElem_append_left hlt]
  · right
    rw [List.mem_drop_iff_getElem]
    refine ⟨r'.routeIndex key - r.shards.length, ?_, ?_⟩
    · have := r'.routeIndex_lt key
      omega
    · simp only [route, List.get_eq_getElem, Nat.add_sub_cancel' hnew]

/-- A third shard for two. -/
theorem growth_moves_to_added_of_two :
    ∃ r r', build ["a", "b"] 1 .md5 = .ok r ∧ build ["a", "b", "c"] 1 .md5 = .ok r' ∧ ∀ key,
      (r'.routeIndex key = r.routeIndex key ∨ r'.ReachesAdded 2 1 key) ∧
      (r'.routeIndex key = r.routeIndex key ∨ 2 ≤ r'.routeIndex key) ∧
      (r'.route key = r.route key ∨ r'.route key ∈ ["c"]) := by
  obtain ⟨r, r', hr, hr', hmoves⟩ := growth_moves_to_added ["a", "b"] ["a", "b", "c"] 1 1 .md5
    (by decide) (by decide) (by decide) (by decide)
  refine ⟨r, r', hr, hr', fun key => ?_⟩
  obtain ⟨hadded, hindex, hshard⟩ := hmoves key
  exact ⟨hadded, hindex rfl, hshard rfl ⟨["c"], rfl⟩⟩

end ShardFleet.Ring
