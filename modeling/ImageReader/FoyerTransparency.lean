import ImageReader.FoyerReads

/-!
# Transparency of the block cache

In every run of reads, prefetches, flips of the phase and evictions the entries
of both tiers are blocks of their sources, and a read that returns has returned
the bytes of the source.  Where the source has not been short, a read within it
returns exactly when its arithmetic stays within the words.
-/

namespace ImageReader
namespace Foyer
namespace FoyerCache

variable {cache : FoyerCache} {build : Build} {K : ReadCall → Prop}
  {source : Source} {idx choff gbeg gend off csend : ℕ} {buf : Bytes}
  {regularPhase : Bool}
  {pool : Pool ReadCall CacheState (Outcome CacheError (Bytes × Bool))}

/-! ## No thread is stuck -/

theorem lookup_live (tier : Tier) (key : Key) : (lookup tier key).Live :=
  fun _ => trivial

theorem cutGroup_live {sink : Tier} {bytes : Bytes} {owner : Bool} {offs : List ℕ}
    {demanded : Option Bytes} :
    (cache.cutGroup build sink idx choff gbeg gend bytes owner offs demanded).Live := by
  induction offs generalizing demanded with
  | nil => trivial
  | cons boff rest ih =>
      unfold cutGroup
      refine Thread.Live.goOn ?_
      rintro ⟨beg, end_⟩
      simp only
      split_ifs
      · trivial
      · exact Thread.Live.goOn fun _ => ih
      · exact Thread.Live.goOn fun _ _ => ih
      · exact ih

theorem makeFetch_live {sink : Tier} :
    (cache.makeFetch build idx choff source sink).Live := by
  unfold makeFetch
  refine Thread.Live.goOn ?_
  rintro ⟨gbeg, gend⟩
  simp only
  split_ifs
  · have hfetch : (fetchRange source idx gbeg gend).Live := fun _ _ => trivial
    refine hfetch.bind ?_
    intro outcome
    cases outcome <;> trivial
  · have hfetch : (groupFetch source (idx, gbeg) gend).Live :=
      fun _ _ _ _ _ => trivial
    refine hfetch.bind ?_
    rintro ⟨result, owner⟩
    match result with
    | none => trivial
    | some (.error e) => trivial
    | some (.ok bytes) =>
        refine cutGroup_live.attempt ?_
        intro demanded
        cases demanded <;> trivial

theorem fetchInto_live {tier : Tier} :
    (cache.fetchInto build tier idx choff source).Live := by
  refine Thread.Live.attempt ?_ fun _ => trivial
  refine (lookup_live _ _).bind ?_
  intro entry
  cases entry with
  | some block => trivial
  | none =>
      refine Thread.Live.attempt ?_ fun _ _ => trivial
      exact makeFetch_live.bind fun _ => trivial

theorem routeBlock_live {prefetch : Bool} :
    (cache.routeBlock build idx choff source prefetch).Live := by
  unfold routeBlock
  split_ifs
  · intro s
    refine (lookup_live _ _).bind ?_
    intro entry
    cases entry with
    | some entry => trivial
    | none =>
        refine (lookup_live _ _).bind ?_
        intro entry
        cases entry with
        | some entry =>
            simp only
            split_ifs
            · trivial
            · exact fun _ => trivial
        | none =>
            simp only
            split_ifs
            · exact fetchInto_live
            · exact fetchInto_live
  · refine (lookup_live _ _).bind ?_
    intro entry
    cases entry with
    | some entry => trivial
    | none => exact fetchInto_live

theorem routeAll_live (offs : List ℕ) :
    (Thread.tryJoinAll (offs.map fun choff =>
      cache.routeBlock build idx choff source false)).Live := by
  refine Thread.Live.tryJoinAll ?_
  intro t ht
  obtain ⟨choff, -, rfl⟩ := List.mem_map.mp ht
  exact routeBlock_live

theorem readBlocks_live :
    (cache.readBlocks build idx off source gbeg csend buf).Live := by
  have hmany : ∀ offs, (cache.readMany build idx off source offs buf).Live :=
    fun offs => (routeAll_live offs).attempt fun _ => Thread.Live.goOn fun _ => trivial
  unfold readBlocks
  split
  · refine routeBlock_live.attempt ?_
    exact fun _ => Thread.Live.goOn fun _ => trivial
  · split_ifs
    · exact (routeAll_live _).bind fun _ => hmany _
    · exact hmany _

theorem prefetchAfter_live {offs : List ℕ} {lastGroup : Option ℕ} :
    (cache.prefetchAfter build idx source offs lastGroup).Live := by
  induction offs generalizing lastGroup with
  | nil => trivial
  | cons choff rest ih =>
      have hcontains : (cache.contains (idx, choff)).Live := by
        refine (lookup_live _ _).bind ?_
        intro entry
        split_ifs
        · trivial
        · exact (lookup_live _ _).bind fun _ => trivial
        · trivial
      refine hcontains.bind ?_
      intro held
      simp only
      split_ifs
      · exact ih
      · intro permit
        beta_reduce
        split_ifs
        · trivial
        · exact routeBlock_live.spawn (ih.bind fun _ => trivial)

theorem read_live (call : ReadCall) : (cache.read build call).Live := by
  unfold read
  cases cache.sources call.idx with
  | none => trivial
  | some source =>
      refine Thread.Live.goOn fun csend => Thread.Live.goOn ?_
      rintro ⟨rabeg, raend⟩
      exact readBlocks_live.attempt fun r => prefetchAfter_live.bind fun _ => trivial

/-! ## Runs -/

theorem good_empty : cache.Good build K (.empty regularPhase) where
  entries := by simp [CacheState.empty]
  latch := .refl
  fetches := by simp [CacheState.empty, GroupLatch.new]
  gets := by simp [CacheState.empty]
  metadata := by simp [CacheState.empty]
  routed := by simp [CacheState.empty]

/-- A call of the pool. -/
def CalledIn (pool : Pool ReadCall CacheState (Outcome CacheError (Bytes × Bool)))
    (call : ReadCall) : Prop :=
  ∃ t, (call, t) ∈ pool.calls

theorem Runs.sound (h : cache.Runs build regularPhase pool) :
    pool.Sound (cache.contract build (CalledIn pool)) (cache.ReadServed build) :=
  Pool.Steps.sound (K := CalledIn pool) (fun _ _ henv hs => Good.later_env hs henv)
    (fun _ _ hK hs => read_upholds hs hK) h (fun call hmem => ⟨call.2, hmem⟩)
    (Pool.sound_start good_empty)

/-- Every entry is the block of its key. -/
def EntriesRight (cache : FoyerCache) (s : CacheState) : Prop :=
  ∀ (tier : Tier) (idx b : ℕ) (entry : Bytes), s.stored tier (idx, b) = some entry →
    ∃ source, cache.sources idx = some source ∧
      entry = Slice.window source.bytes b cache.chlen

/-- A read that has returned has returned the bytes of its source. -/
def ReadsRight (cache : FoyerCache)
    (pool : Pool ReadCall CacheState (Outcome CacheError (Bytes × Bool))) : Prop :=
  ∀ (call : ReadCall) (out : Bytes) (missed : Bool),
    (call, .done (.ok (out, missed))) ∈ pool.calls →
    ∃ source, cache.sources call.idx = some source ∧ out.length = call.buf.length ∧
      out = Slice.window source.bytes call.off call.buf.length

/-- The finished reads of ranges within their sources. -/
def Finished (cache : FoyerCache)
    (pool : Pool ReadCall CacheState (Outcome CacheError (Bytes × Bool)))
    (call : ReadCall) (result : Outcome CacheError (Bytes × Bool)) : Prop :=
  (call, .done result) ∈ pool.calls ∧
    ∃ source, cache.sources call.idx = some source ∧
      call.off + call.buf.length ≤ source.end_

/-- Every read can be brought to its end. -/
def AllEnd (cache : FoyerCache) (build : Build)
    (pool : Pool ReadCall CacheState (Outcome CacheError (Bytes × Bool))) : Prop :=
  ∀ (i : ℕ) (call : ReadCall) (t : Task (Outcome CacheError (Bytes × Bool))),
    pool.calls[i]? = some (call, t) →
    ∃ pool' result, Pool.Steps (cache.read build) Env pool pool' ∧
      pool'.calls[i]? = some (call, .done result)

theorem Runs.entriesRight (h : cache.Runs build regularPhase pool) :
    cache.EntriesRight pool.state := by
  intro tier idx b entry hentry
  obtain ⟨source, hsource, rfl, -⟩ := h.sound.inv.entries tier idx b entry hentry
  exact ⟨source, hsource, rfl⟩

theorem Runs.readsRight (h : cache.Runs build regularPhase pool) :
    cache.ReadsRight pool := by
  intro call out missed hmem
  have hserved := h.sound.result hmem
  unfold ReadServed at hserved
  cases hsource : cache.sources call.idx with
  | none =>
      rw [hsource] at hserved
      exact absurd rfl (hserved (out, missed))
  | some source =>
      rw [hsource] at hserved
      obtain ⟨⟨hbytes, hlen, -⟩, -⟩ := hserved.ok _ rfl
      exact ⟨source, rfl, hlen, hbytes⟩

theorem Runs.allEnd (h : cache.Runs build regularPhase pool) :
    cache.AllEnd build pool := by
  intro i call t hcall
  exact Pool.Steps.ends read_live h hcall

theorem Runs.finished {call : ReadCall} {result : Outcome CacheError (Bytes × Bool)}
    (h : cache.Runs build regularPhase pool) (hend : cache.Finished pool call result) :
    (cache.Fits build call.off call.buf.length → result.Returns) ∧
      ((∀ get ∈ pool.state.gets, get.Full) →
        ((∃ out, result = .ok out) ↔ cache.Fits build call.off call.buf.length)) := by
  obtain ⟨hmem, source, hsource, hle⟩ := hend
  have hserved := h.sound.result hmem
  unfold ReadServed at hserved
  rw [hsource] at hserved
  refine ⟨fun hfits => hserved.returns ⟨hle, hfits⟩, ?_⟩
  intro hfull
  constructor
  · rintro ⟨out, hout⟩
    exact (hserved.ok out hout).2
  · intro hfits
    by_contra hfailed
    obtain ⟨get, hget, hshort⟩ := hserved.failed
      (fun a ha => hfailed ⟨a, ha⟩) ⟨hle, hfits⟩
    exact hshort (hfull get hget)

/-- The cache is transparent in every run; reads return as long as their
arithmetic stays within the words. -/
theorem cache_transparent_iff (h : cache.Runs build regularPhase pool) :
    cache.EntriesRight pool.state ∧ cache.ReadsRight pool ∧ cache.AllEnd build pool ∧
      ∀ call result, cache.Finished pool call result →
        (cache.Fits build call.off call.buf.length → result.Returns) ∧
        ((∀ get ∈ pool.state.gets, get.Full) →
          ((∃ out, result = .ok out) ↔
            cache.Fits build call.off call.buf.length)) :=
  ⟨h.entriesRight, h.readsRight, h.allEnd, fun _ _ hend => h.finished hend⟩

/-! ## A source which ends with the last word -/

/-- A source which returns what it is asked for. -/
def steadySource (bytes : Bytes) (h : bytes.length < wordLimit) : Source where
  bytes := bytes
  answer := fun _ beg end_ => .ok (Slice.window bytes beg (end_ - beg))
  length_lt := h
  answer_within := by
    intro n beg end_ got hgot
    obtain rfl := ReadOutcome.ok.inj hgot
    exact List.take_prefix _ _

theorem full_of_steady {bytes : Bytes} {h : bytes.length < wordLimit}
    (hsources : ∀ idx source, cache.sources idx = some source →
      source = steadySource bytes h)
    (hruns : cache.Runs build regularPhase pool) :
    ∀ get ∈ pool.state.gets, get.Full := by
  intro get hget
  obtain ⟨source, n, hsource, hend, houtcome⟩ := hruns.sound.inv.gets get hget
  obtain rfl := hsources _ _ hsource
  refine ⟨_, houtcome, ?_⟩
  rw [Slice.length_window]
  have hlen : (steadySource bytes h).end_ = bytes.length := rfl
  omega

theorem one_lt_wordLimit : 1 < wordLimit := by decide

theorem two_lt_wordLimit : 2 < wordLimit := by decide

theorem three_lt_wordLimit : 3 < wordLimit := by decide

/-- `2^64 - 1` bytes -/
def vastSource : Source :=
  steadySource (List.replicate (wordLimit - 1) 0) (by
    rw [List.length_replicate]
    decide)

theorem end_vastSource : vastSource.end_ = wordLimit - 1 := List.length_replicate

/-- Blocks of two bytes. -/
def vastCache : FoyerCache :=
  .new 2 2 0 false (fun _ => some vastSource) two_lt_wordLimit two_lt_wordLimit

/-- The last byte. -/
def lastByte : ReadCall where
  idx := 0
  off := wordLimit - 2
  buf := [0]
  off_lt := by decide
  length_lt := by decide

theorem not_fits_lastByte : ¬ vastCache.Fits .release lastByte.off 1 := by
  rintro ⟨⟨-, hfits⟩, -⟩
  have hmem : wordLimit - 2 ∈ blockOffs (vastCache.firstBlock (wordLimit - 2))
      (wordLimit - 2 + 1) vastCache.chlen := by decide
  have hlast := hfits _ hmem
  revert hlast
  unfold GroupFits groupBeg
  decide

/-- The last block of the source is there, and no read of it is short, but its
group ends at the word limit. -/
theorem reads_fail_at_word_limit :
    ∃ pool, vastCache.Runs .release false pool ∧ ∃ result,
      (lastByte, .done result) ∈ pool.calls ∧
      vastCache.sources lastByte.idx = some vastSource ∧
      lastByte.off + lastByte.buf.length ≤ vastSource.end_ ∧
      (∀ get ∈ pool.state.gets, get.Full) ∧ ∀ out, result ≠ .ok out := by
  have hstart : vastCache.Runs .release false
      ⟨.empty false, [(lastByte, vastCache.read .release lastByte)], []⟩ :=
    .single (.call lastByte)
  obtain ⟨pool, result, hsteps, hcall⟩ := hstart.allEnd 0 lastByte _ rfl
  have hruns : vastCache.Runs .release false pool := hstart.trans hsteps
  have hmem := List.mem_of_getElem? hcall
  have hin : lastByte.off + lastByte.buf.length ≤ vastSource.end_ := by
    rw [end_vastSource]
    decide
  have hfull : ∀ get ∈ pool.state.gets, get.Full :=
    full_of_steady (fun _ _ hsource => (Option.some.inj hsource).symm) hruns
  refine ⟨pool, hruns, result, hmem, rfl, hin, hfull, ?_⟩
  intro out hout
  exact not_fits_lastByte
    (((hruns.finished ⟨hmem, vastSource, rfl, hin⟩).2 hfull).mp ⟨out, hout⟩)

/-- Three bytes in blocks of two. -/
def threeByteCache : FoyerCache :=
  .new 2 2 0 false (fun _ => some (steadySource [7, 8, 9] three_lt_wordLimit))
    two_lt_wordLimit two_lt_wordLimit

/-- The last two of the three, which lie in two blocks. -/
def lastTwoBytes : ReadCall where
  idx := 0
  off := 1
  buf := [0, 0]
  off_lt := by decide
  length_lt := two_lt_wordLimit

theorem fits_lastTwoBytes : threeByteCache.Fits .release 1 2 := by
  refine ⟨⟨by decide, ?_⟩, by simp⟩
  intro b hb
  have hblocks : b = 0 ∨ b = 2 := by
    have hoffs : blockOffs (threeByteCache.firstBlock 1) (1 + 2)
        threeByteCache.chlen = [0, 2] := by decide
    rw [hoffs] at hb
    simpa using hb
  rcases hblocks with rfl | rfl
  · unfold GroupFits groupBeg
    decide
  · unfold GroupFits groupBeg
    decide

/-- A read across two blocks, run to its end. -/
theorem cache_transparent_iff_lastTwoBytes :
    ∃ pool missed, threeByteCache.Runs .release false pool ∧
      (lastTwoBytes, .done (.ok ([8, 9], missed))) ∈ pool.calls ∧
      threeByteCache.EntriesRight pool.state := by
  have hstart : threeByteCache.Runs .release false ⟨.empty false,
      [(lastTwoBytes, threeByteCache.read .release lastTwoBytes)], []⟩ :=
    .single (.call lastTwoBytes)
  obtain ⟨-, -, hends, -⟩ := cache_transparent_iff hstart
  obtain ⟨pool, result, hsteps, hcall⟩ := hends 0 lastTwoBytes _ rfl
  have hruns : threeByteCache.Runs .release false pool := hstart.trans hsteps
  obtain ⟨hentries, hright, -, hfinished⟩ := cache_transparent_iff hruns
  have hmem := List.mem_of_getElem? hcall
  have hfull : ∀ get ∈ pool.state.gets, get.Full :=
    full_of_steady (fun _ _ hsource => (Option.some.inj hsource).symm) hruns
  obtain ⟨⟨out, missed⟩, rfl⟩ := ((hfinished lastTwoBytes result
    ⟨hmem, _, rfl, by decide⟩).2 hfull).mpr fits_lastTwoBytes
  obtain ⟨source, hsource, -, hout⟩ := hright lastTwoBytes out missed hmem
  obtain rfl := Option.some.inj hsource
  obtain rfl : out = [8, 9] := hout
  exact ⟨pool, missed, hruns, hmem, hentries⟩

end FoyerCache

end Foyer
end ImageReader
