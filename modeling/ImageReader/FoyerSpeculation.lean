import ImageReader.FoyerTransparency

/-!
# Speculation and the metadata tier

An entry of the metadata tier is of a block which was routed in the metadata
phase.  Siblings of a fetched block are not routed, so they stay in the content
tier; but a prefetch is routed like a demanded block, and in the metadata phase
its block goes to the metadata tier, although no read has asked for it.
-/

namespace ImageReader
namespace Foyer
namespace FoyerCache

variable {cache : FoyerCache} {build : Build} {regularPhase : Bool}
  {pool : Pool ReadCall CacheState (Outcome CacheError (Bytes × Bool))}

/-- The block was demanded in the metadata phase, by a read of its range. -/
def Demanded (cache : FoyerCache)
    (pool : Pool ReadCall CacheState (Outcome CacheError (Bytes × Bool)))
    (key : Key) : Prop :=
  (∃ r ∈ pool.state.routed, r.key = key ∧ r.prefetch = false ∧ r.regular = false) ∧
    ∃ call, CalledIn pool call ∧ cache.Covers call key

/-- No prefetch has been routed in the metadata phase. -/
def QuietPrefetches (s : CacheState) : Prop :=
  ∀ r ∈ s.routed, r.prefetch = true → r.regular = true

/-- Without prefetches in the metadata phase its tier holds what was demanded. -/
theorem metadata_demanded (h : cache.Runs build regularPhase pool)
    (hquiet : QuietPrefetches pool.state) :
    ∀ key entry, pool.state.stored .metadata key = some entry →
      cache.Demanded pool key := by
  intro key entry hentry
  obtain ⟨r, hr, rfl, hregular⟩ := h.sound.inv.metadata key entry hentry
  have hprefetch : r.prefetch = false := by
    by_contra hprefetch
    have hphase := hquiet r hr (by simpa using hprefetch)
    rw [hregular] at hphase
    simp at hphase
  exact ⟨⟨r, hr, rfl, hprefetch, hregular⟩, h.sound.inv.routed r hr hprefetch⟩

/-! ## A read in the metadata phase -/

def twoBytes : Source := steadySource [7, 8] (by decide)

/-- Blocks of one byte. -/
def byteCache (readahead : ℕ) : FoyerCache :=
  .new 1 1 readahead true (fun _ => some twoBytes) one_lt_wordLimit one_lt_wordLimit

def firstByte : ReadCall where
  idx := 0
  off := 0
  buf := [0]
  off_lt := by decide
  length_lt := lastByte.length_lt

theorem first_byte_run : ∃ pool, (byteCache 0).Runs .release false pool ∧
    pool.state.stored .metadata (0, 0) = some [7] ∧
    pool.state.routed = [⟨(0, 0), false, false⟩] := by
  refine ⟨?pool, ?run, ?_, ?_⟩
  case run =>
    refine .head (.call firstByte) ?_
    -- the phase and three lookups, then the read of the source
    refine .head (.run (i := 0) rfl .atomic) ?_
    refine .head (.run (i := 0) rfl .atomic) ?_
    refine .head (.run (i := 0) rfl .atomic) ?_
    refine .head (.run (i := 0) rfl .atomic) ?_
    refine .head (.run (i := 0) rfl (.choose 0)) ?_
    refine .head (.run (i := 0) rfl .atomic) ?_
    refine .head (.run (i := 0) rfl .atomic) ?_
    exact .refl
  · rfl
  · rfl

theorem metadata_demanded_first : ∃ pool, (byteCache 0).Runs .release false pool ∧
    pool.state.stored .metadata (0, 0) = some [7] ∧
    (byteCache 0).Demanded pool (0, 0) := by
  obtain ⟨pool, hruns, hentry, hrouted⟩ := first_byte_run
  have hquiet : QuietPrefetches pool.state := by
    intro r hr hprefetch
    rw [hrouted, List.mem_singleton] at hr
    rw [hr] at hprefetch
    simp at hprefetch
  exact ⟨pool, hruns, hentry, metadata_demanded hruns hquiet (0, 0) [7] hentry⟩

/-- With a block of readahead the same read leaves a prefetch behind. -/
theorem prefetch_run : ∃ pool, (byteCache 1).Runs .release false pool ∧
    pool.state.stored .metadata (0, 1) = some [8] ∧
    pool.calls.map Prod.fst = [firstByte] := by
  refine ⟨?pool, ?run, ?_, ?_⟩
  case run =>
    refine .head (.call firstByte) ?_
    refine .head (.run (i := 0) rfl .atomic) ?_
    refine .head (.run (i := 0) rfl .atomic) ?_
    refine .head (.run (i := 0) rfl .atomic) ?_
    refine .head (.run (i := 0) rfl .atomic) ?_
    refine .head (.run (i := 0) rfl (.choose 0)) ?_
    refine .head (.run (i := 0) rfl .atomic) ?_
    refine .head (.run (i := 0) rfl .atomic) ?_
    -- neither tier has the next block, and there is a permit
    refine .head (.run (i := 0) rfl .atomic) ?_
    refine .head (.run (i := 0) rfl .atomic) ?_
    refine .head (.run (i := 0) rfl (.choose 1)) ?_
    refine .head (.run (i := 0) rfl (.join trivial)) ?_
    -- the prefetch, like the read before it
    refine .head (.background (i := 0) rfl .atomic) ?_
    refine .head (.background (i := 0) rfl .atomic) ?_
    refine .head (.background (i := 0) rfl .atomic) ?_
    refine .head (.background (i := 0) rfl .atomic) ?_
    refine .head (.background (i := 0) rfl (.choose 0)) ?_
    refine .head (.background (i := 0) rfl .atomic) ?_
    refine .head (.background (i := 0) rfl .atomic) ?_
    exact .refl
  · rfl
  · rfl

/-- A block which no read has asked for is in the metadata tier. -/
theorem speculation_enters_metadata :
    ∃ pool, (byteCache 1).Runs .release false pool ∧
      pool.state.stored .metadata (0, 1) = some [8] ∧
      ∀ call, CalledIn pool call → ¬ (byteCache 1).Covers call (0, 1) := by
  obtain ⟨pool, hruns, hentry, hcalls⟩ := prefetch_run
  refine ⟨pool, hruns, hentry, ?_⟩
  rintro call ⟨t, hmem⟩ ⟨-, hblock⟩
  have hfirst : call = firstByte := by
    have hfst := List.mem_map_of_mem (f := Prod.fst) hmem
    rwa [hcalls, List.mem_singleton] at hfst
  subst hfirst
  revert hblock
  decide

end FoyerCache

end Foyer
end ImageReader
