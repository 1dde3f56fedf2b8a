import ImageReader.E01WorkerSafety
import ImageReader.Recency

/-!
# The cache of decoded chunks over whole histories

The queue and the map are updated one after the other.  In every history of
lookups and insertions the queue lists the keys of the map in the order of
their last use, and these are the keys which a map of this capacity holds.
-/

namespace ImageReader
namespace E01
namespace DecodedChunkCache

open MapOp (held HeldSince)

variable {capacity : ℕ} {chunks : AList fun _ : ℕ => Bytes} {lru : List ℕ}
  {ops : List (MapOp ℕ Bytes)} {cache : DecodedChunkCache}

/-! ## The branches of the eviction loop -/

/-- How a turn of the eviction loop ends. -/
inductive EvictBranch where
  /-- There was nothing to pop. -/
  | emptyQueue
  /-- What was popped is not in the map. -/
  | notHeld
  | dropped
  deriving DecidableEq, Repr

/-- `chunks.remove(&evicted)` finds its key, or does not. -/
def removal (chunks : AList fun _ : ℕ => Bytes) (evicted : ℕ) : EvictBranch :=
  if (chunks.lookup evicted).isSome then .dropped else .notHeld

/-- The loop of `evict` with the branches it takes. -/
def evictTraced (capacity : ℕ) (chunks : AList fun _ : ℕ => Bytes) :
    List ℕ → List EvictBranch × AList (fun _ : ℕ => Bytes) × List ℕ
  | [] =>
      (if capacity < chunks.keys.length then [.emptyQueue] else [], chunks, [])
  | evicted :: lru =>
      if capacity < chunks.keys.length then
        let rest := evictTraced capacity (chunks.erase evicted) lru
        (removal chunks evicted :: rest.1, rest.2)
      else ([], chunks, evicted :: lru)

theorem evictTraced_snd (capacity : ℕ) (chunks : AList fun _ : ℕ => Bytes)
    (lru : List ℕ) :
    (evictTraced capacity chunks lru).2 = evict capacity chunks lru := by
  induction lru generalizing chunks with
  | nil => rfl
  | cons evicted lru ih =>
      unfold evictTraced evict
      split_ifs
      · exact ih _
      · rfl

/-- The map and the queue list the same keys, each of them once. -/
structure Listed (chunks : AList fun _ : ℕ => Bytes) (lru : List ℕ) :
    Prop where
  nodup : lru.Nodup
  perm : lru.Perm chunks.keys

theorem Listed.mem_iff (h : Listed chunks lru) (j : ℕ) :
    j ∈ lru ↔ j ∈ chunks := by
  rw [h.perm.mem_iff, AList.mem_keys]

theorem Listed.tail {evicted : ℕ} (h : Listed chunks (evicted :: lru)) :
    Listed (chunks.erase evicted) lru where
  nodup := (List.nodup_cons.mp h.nodup).2
  perm := by
    rw [AList.keys_erase]
    simpa using h.perm.erase evicted

/-- What the eviction loop leaves of a listed map. -/
structure Evicted (capacity : ℕ) (chunks : AList fun _ : ℕ => Bytes)
    (lru : List ℕ) (after : AList (fun _ : ℕ => Bytes) × List ℕ) : Prop where
  lru_eq : after.2 = lru.rtake capacity
  listed : Listed after.1 after.2
  lookup_eq : ∀ j, after.1.lookup j =
    if j ∈ after.2 then chunks.lookup j else none

theorem Listed.evicted (h : Listed chunks lru) (capacity : ℕ) :
    Evicted capacity chunks lru (evict capacity chunks lru) := by
  induction lru generalizing chunks with
  | nil =>
      have hkeys : chunks.keys = [] := List.nil_perm.mp h.perm
      refine ⟨(List.rtake_nil capacity).symm, h, ?_⟩
      intro j
      have habsent : j ∉ chunks := by
        rw [AList.mem_keys, hkeys]
        exact List.not_mem_nil
      exact AList.lookup_eq_none.mpr habsent
  | cons evicted lru ih =>
      have hlength : chunks.keys.length = lru.length + 1 :=
        h.perm.length_eq.symm
      unfold evict
      split_ifs with hover
      · have hafter := ih h.tail
        refine ⟨?_, hafter.listed, ?_⟩
        · rw [hafter.lru_eq, rtake_cons_of_le evicted (by omega)]
        · intro j
          rw [hafter.lookup_eq]
          split_ifs with hj
          · have hne : j ≠ evicted := by
              rintro rfl
              rw [hafter.lru_eq] at hj
              exact (List.nodup_cons.mp h.nodup).1 ((rtake_suffix _ _).subset hj)
            rw [AList.lookup_erase_ne hne]
          · rfl
      · refine ⟨(rtake_of_length_le ?_).symm, h, ?_⟩
        · simpa using (by omega : lru.length + 1 ≤ capacity)
        · intro j
          split_ifs with hj
          · rfl
          · exact AList.lookup_eq_none.mpr fun hin => hj ((h.mem_iff j).mpr hin)

/-- Every key that is popped is in the map, and the queue is not empty before
the map is small enough. -/
theorem Listed.branches_dropped (h : Listed chunks lru) {branch : EvictBranch}
    (hbranch : branch ∈ (evictTraced capacity chunks lru).1) :
    branch = .dropped := by
  induction lru generalizing chunks with
  | nil =>
      have hkeys : chunks.keys = [] := List.nil_perm.mp h.perm
      simp [evictTraced, hkeys] at hbranch
  | cons evicted lru ih =>
      unfold evictTraced at hbranch
      split_ifs at hbranch with hover
      · rcases List.mem_cons.mp hbranch with rfl | hlater
        · have hheld : evicted ∈ chunks :=
            (h.mem_iff evicted).mp List.mem_cons_self
          exact if_pos (AList.lookup_isSome.mpr hheld)
        · exact ih h.tail hlater
      · exact absurd hbranch List.not_mem_nil

/-! ## Histories of the cache -/

def perform (cache : DecodedChunkCache) : MapOp ℕ Bytes → DecodedChunkCache
  | .get i => (cache.get i).2
  | .insert i chunk => cache.insert i chunk

/-- A new cache after the operations. -/
def run (capacity : ℕ) (ops : List (MapOp ℕ Bytes)) : DecodedChunkCache :=
  ops.foldl perform (new capacity)

/-- The map and the queue that an insertion hands to the eviction loop. -/
def inserted (cache : DecodedChunkCache) (i : ℕ) (chunk : Bytes) :
    AList (fun _ : ℕ => Bytes) × List ℕ :=
  (cache.chunks.insert i chunk,
    (if (cache.chunks.lookup i).isSome then cache.lru.filter (· ≠ i)
      else cache.lru) ++ [i])

/-- The branches the eviction loop of an insertion takes. -/
def insertBranches (cache : DecodedChunkCache) (i : ℕ) (chunk : Bytes) :
    List EvictBranch :=
  if cache.capacity = 0 then []
  else
    (evictTraced cache.capacity (cache.inserted i chunk).1
      (cache.inserted i chunk).2).1

theorem run_concat (ops : List (MapOp ℕ Bytes)) (op : MapOp ℕ Bytes) :
    run capacity (ops ++ [op]) = (run capacity ops).perform op := by
  simp [run]

theorem insert_eq (hcapacity : cache.capacity ≠ 0) (i : ℕ) (chunk : Bytes) :
    cache.insert i chunk =
      { cache with
        chunks := (evict cache.capacity (cache.inserted i chunk).1
          (cache.inserted i chunk).2).1
        lru := (evict cache.capacity (cache.inserted i chunk).1
          (cache.inserted i chunk).2).2 } :=
  if_neg hcapacity

/-- The cache after a history: the queue is in the order of use, and the map
has what went in last under the keys that are held. -/
structure Exact (capacity : ℕ) (ops : List (MapOp ℕ Bytes))
    (cache : DecodedChunkCache) : Prop where
  capacity_eq : cache.capacity = capacity
  lru_eq : cache.lru = held capacity ops
  perm : cache.lru.Perm cache.chunks.keys
  lookup_iff : ∀ i chunk, cache.chunks.lookup i = some chunk ↔
    HeldSince capacity ops i chunk

theorem Exact.listed (h : Exact capacity ops cache) :
    Listed cache.chunks cache.lru := by
  refine ⟨?_, h.perm⟩
  rw [h.lru_eq]
  exact nodup_recent _ _

theorem Exact.mem_held_iff (h : Exact capacity ops cache) (i : ℕ) :
    i ∈ held capacity ops ↔ i ∈ cache.chunks := by
  rw [← h.lru_eq, h.listed.mem_iff]

theorem exact_new (capacity : ℕ) : Exact capacity [] (new capacity) where
  capacity_eq := rfl
  lru_eq := recent_nil.symm
  perm := .nil
  lookup_iff := by
    intro i chunk
    simp [new, MapOp.not_heldSince_nil]

theorem Exact.get (h : Exact capacity ops cache) (i : ℕ) :
    Exact capacity (ops ++ [.get i]) (cache.get i).2 := by
  have hlookup : ∀ j chunk, cache.chunks.lookup j = some chunk ↔
      HeldSince capacity (ops ++ [.get i]) j chunk := by
    intro j chunk
    rw [MapOp.heldSince_concat_iff (by simp), ← h.lookup_iff,
      MapOp.mem_held_concat_get, h.mem_held_iff]
    constructor
    · intro hj
      exact ⟨hj, AList.lookup_isSome.mp (by rw [hj]; rfl)⟩
    · exact And.left
  unfold DecodedChunkCache.get
  cases hi : cache.chunks.lookup i with
  | none =>
      have hnot : i ∉ held capacity ops := by
        rw [h.mem_held_iff]
        exact AList.lookup_eq_none.mp hi
      refine ⟨h.capacity_eq, ?_, h.perm, hlookup⟩
      rw [MapOp.held_concat_get, if_neg hnot]
      exact h.lru_eq
  | some chunk =>
      have hin : i ∈ held capacity ops := by
        rw [h.mem_held_iff]
        exact AList.lookup_isSome.mp (by rw [hi]; rfl)
      refine ⟨h.capacity_eq, ?_, ?_, hlookup⟩
      · rw [MapOp.held_concat_get, if_pos hin, ← h.lru_eq]
        rfl
      · have hlru : i ∈ cache.lru := by
          rw [h.lru_eq]
          exact hin
        have htouch : (touch cache.lru i).Perm cache.lru := by
          unfold touch
          rw [filter_ne_eq_erase h.listed.nodup]
          exact (List.perm_append_singleton i _).trans
            (List.perm_cons_erase hlru).symm
        exact htouch.trans h.perm

/-- The queue of an insertion is the old one with its key moved to the end. -/
theorem Exact.inserted_snd (h : Exact capacity ops cache) (i : ℕ)
    (chunk : Bytes) :
    (cache.inserted i chunk).2 = cache.lru.filter (· ≠ i) ++ [i] := by
  unfold inserted
  cases hi : cache.chunks.lookup i with
  | some old => rfl
  | none =>
      have hnot : i ∉ cache.lru := fun hin =>
        AList.lookup_eq_none.mp hi ((h.listed.mem_iff i).mp hin)
      have hkeep : cache.lru.filter (· ≠ i) = cache.lru := by
        rw [filter_ne_eq_erase h.listed.nodup, List.erase_of_not_mem hnot]
      rw [hkeep]
      rfl

theorem Exact.inserted (h : Exact capacity ops cache) (i : ℕ)
    (chunk : Bytes) :
    Listed (cache.inserted i chunk).1 (cache.inserted i chunk).2 := by
  rw [h.inserted_snd, filter_ne_eq_erase h.listed.nodup]
  refine ⟨?_, ?_⟩
  · refine (List.perm_append_singleton i _).nodup_iff.mpr ?_
    exact List.nodup_cons.mpr
      ⟨h.listed.nodup.not_mem_erase, h.listed.nodup.erase i⟩
  · have hkeys : (cache.inserted i chunk).1.keys =
        i :: cache.chunks.keys.erase i := AList.keys_insert _
    rw [hkeys]
    exact (List.perm_append_singleton i _).trans ((h.perm.erase i).cons i)

theorem Exact.insert_of_zero (h : Exact 0 ops cache) (i : ℕ) (chunk : Bytes) :
    Exact 0 (ops ++ [.insert i chunk]) (cache.insert i chunk) := by
  have hsame : cache.insert i chunk = cache := if_pos h.capacity_eq
  have hnone : ∀ {ops : List (MapOp ℕ Bytes)} {j payload},
      ¬ HeldSince 0 ops j payload := by
    intro ops j payload hheld
    have hmem := hheld.mem_held
    rw [held, recent_zero] at hmem
    exact List.not_mem_nil hmem
  rw [hsame]
  refine ⟨h.capacity_eq, ?_, h.perm, ?_⟩
  · rw [h.lru_eq, held, held, recent_zero, recent_zero]
  · intro j payload
    simp only [h.lookup_iff, hnone]

theorem Exact.insert_of_pos (h : Exact capacity ops cache)
    (hcapacity : capacity ≠ 0) (i : ℕ) (chunk : Bytes) :
    Exact capacity (ops ++ [.insert i chunk]) (cache.insert i chunk) := by
  have hevicted := (h.inserted i chunk).evicted cache.capacity
  rw [insert_eq (h.capacity_eq ▸ hcapacity)]
  have hlru : (evict cache.capacity (cache.inserted i chunk).1
        (cache.inserted i chunk).2).2 =
      held capacity (ops ++ [.insert i chunk]) := by
    rw [hevicted.lru_eq, h.inserted_snd, MapOp.held_concat_insert, h.lru_eq,
      h.capacity_eq]
  refine ⟨h.capacity_eq, hlru, hevicted.listed.perm, ?_⟩
  intro j payload
  simp only
  rw [hevicted.lookup_eq, hlru]
  by_cases hj : j = i
  · subst hj
    have hnew : (cache.inserted j chunk).1.lookup j = some chunk :=
      AList.lookup_insert _
    rw [MapOp.heldSince_concat_insert_iff, hnew]
    split_ifs with hheld
    · simp [hheld]
    · simp [hheld]
  · have hold : (cache.inserted i chunk).1.lookup j = cache.chunks.lookup j :=
      AList.lookup_insert_ne hj
    have hother : ∀ value : Bytes,
        MapOp.insert i chunk ≠ MapOp.insert j value := by
      intro value heq
      exact hj (MapOp.insert.inj heq).1.symm
    rw [MapOp.heldSince_concat_iff hother, ← h.lookup_iff, hold]
    split_ifs with hheld
    · simp [hheld]
    · simp [hheld]

theorem Exact.perform (h : Exact capacity ops cache) (op : MapOp ℕ Bytes) :
    Exact capacity (ops ++ [op]) (cache.perform op) := by
  cases op with
  | get i => exact h.get i
  | insert i chunk =>
      by_cases hcapacity : capacity = 0
      · subst hcapacity
        exact h.insert_of_zero i chunk
      · exact h.insert_of_pos hcapacity i chunk

theorem exact_run (capacity : ℕ) (ops : List (MapOp ℕ Bytes)) :
    Exact capacity ops (run capacity ops) := by
  induction ops using List.reverseRecOn with
  | nil => exact exact_new capacity
  | append_singleton ops op ih =>
      rw [run_concat]
      exact ih.perform op

theorem run_zero (ops : List (MapOp ℕ Bytes)) : run 0 ops = new 0 := by
  induction ops using List.reverseRecOn with
  | nil => rfl
  | append_singleton ops op ih =>
      rw [run_concat, ih]
      cases op <;> rfl

/-- After every history the queue lists the keys of the map in the order of
their last use, at most `capacity` of them, and a lookup returns what went in
last under its key if the key has been among the recent ones ever since. -/
theorem cache_is_exact_lru (capacity : ℕ) (ops : List (MapOp ℕ Bytes)) :
    let cache := run capacity ops
    cache.lru = held capacity ops ∧ cache.lru.Nodup ∧
      cache.lru.Perm cache.chunks.keys ∧
      cache.chunks.keys.length ≤ capacity ∧
      (∀ i chunk, (cache.get i).1 = some chunk ↔
        HeldSince capacity ops i chunk) ∧
      (∀ i, (cache.get i).2.chunks = cache.chunks) ∧
      (∀ i chunk, ∀ branch ∈ cache.insertBranches i chunk,
        branch = .dropped) ∧
      (capacity = 0 → cache = new 0) := by
  intro cache
  have h : Exact capacity ops cache := exact_run capacity ops
  refine ⟨h.lru_eq, h.listed.nodup, h.perm, ?_, ?_, get_chunks cache, ?_, ?_⟩
  · rw [← h.perm.length_eq, h.lru_eq]
    exact length_recent_le _ _
  · intro i chunk
    rw [get_fst]
    exact h.lookup_iff i chunk
  · intro i chunk branch hbranch
    unfold insertBranches at hbranch
    split_ifs at hbranch
    · exact absurd hbranch List.not_mem_nil
    · exact (h.inserted i chunk).branches_dropped hbranch
  · rintro rfl
    exact run_zero ops

end DecodedChunkCache
end E01
end ImageReader
