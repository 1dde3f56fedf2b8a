import ImageReader.E01WorkerSpec

/-!
# What a read does to its worker

A worker whose buffer is whole answers every read it may be asked for, unless
the chunk is stored uncompressed, passes its checks, and has a payload shorter
than the range: then the read panics.  An uncompressed chunk which does not
pass its checks gets its error, but the buffer is gone from the decoder, and
the next read of the same worker panics.

Reads through the cache use the buffer only for compressed chunks, and keep
it.
-/

namespace ImageReader
namespace E01

/-! ## The cache -/

namespace DecodedChunkCache

variable {cache : DecodedChunkCache} {i j : ℕ} {payload chunk : Bytes}

@[simp] theorem get_fst (cache : DecodedChunkCache) (i : ℕ) :
    (cache.get i).1 = cache.chunks.lookup i := by
  unfold get
  cases cache.chunks.lookup i <;> rfl

@[simp] theorem get_chunks (cache : DecodedChunkCache) (i : ℕ) :
    (cache.get i).2.chunks = cache.chunks := by
  unfold get
  cases cache.chunks.lookup i <;> rfl

theorem lookup_evict {capacity : ℕ} {chunks : AList fun _ : ℕ => Bytes}
    {lru : List ℕ}
    (h : (evict capacity chunks lru).1.lookup j = some chunk) :
    chunks.lookup j = some chunk := by
  induction lru generalizing chunks with
  | nil => exact h
  | cons evicted lru ih =>
      unfold evict at h
      split_ifs at h with hfull
      · have hrest := ih h
        by_cases hj : j = evicted
        · subst hj
          simp [AList.lookup_erase] at hrest
        · rwa [AList.lookup_erase_ne hj] at hrest
      · exact h

theorem lookup_insert (h : (cache.insert i payload).chunks.lookup j =
      some chunk) :
    (j = i ∧ chunk = payload) ∨ cache.chunks.lookup j = some chunk := by
  unfold insert at h
  split_ifs at h with hcapacity
  · exact Or.inr h
  all_goals
    have hchunks := lookup_evict h
    by_cases hj : j = i
    · subst hj
      rw [AList.lookup_insert] at hchunks
      exact Or.inl ⟨rfl, by simpa using hchunks.symm⟩
    · rw [AList.lookup_insert_ne hj] at hchunks
      exact Or.inr hchunks

end DecodedChunkCache

variable {zlib : Zlib} {build : Build} {src : WorkerSource} {chunk : Chunk}
  {chunkIndex begInChunk endInChunk : ℕ} {buf : Bytes} {worker : ReadWorker}

/-- The buffer of the worker's decoder is whole. -/
def Whole (worker : ReadWorker) : Prop :=
  worker.buffer.length = worker.chunkSize + 4

theorem SameLength.whole {worker' : ReadWorker} (h : SameLength worker worker')
    (hwhole : Whole worker) : Whole worker' := by
  obtain ⟨buffer, hlength, rfl⟩ := h
  exact hlength.trans hwhole

theorem Whole.fits (hwhole : Whole worker)
    (hbounded : (worker.coding zlib).Bounded chunk) :
    chunk.storedLen ≤ worker.buffer.length := by
  rw [hwhole]
  exact hbounded.2

/-! ## Reads that do not return -/

theorem served_returns_iff (payload : Except ReadErrorKind Bytes) :
    (served payload begInChunk endInChunk).Returns ↔
      ∀ bytes, payload = .ok bytes → endInChunk ≤ bytes.length := by
  cases payload with
  | error e => simp [served]
  | ok bytes =>
      unfold served cut
      by_cases hend : endInChunk ≤ bytes.length
      · simp [hend]
      · simp [hend]

theorem served_payload_returns_iff {coding : Coding} {leftover : Bytes}
    (hend : endInChunk ≤ coding.chunkLen chunkIndex) :
    (served (coding.payload src chunk chunkIndex leftover) begInChunk
        endInChunk).Returns ↔
      ¬ coding.ShortPayload src chunk endInChunk := by
  rw [served_returns_iff, coding.shortPayload_iff hend]
  constructor
  · rintro hlong ⟨bytes, hbytes, hshort⟩
    have := hlong bytes hbytes
    omega
  · intro hlong bytes hbytes
    by_contra hshort
    exact hlong ⟨bytes, hbytes, by omega⟩

/-- The stored bytes of an uncompressed chunk do not reach the end of the
range. -/
def Truncated (chunk : Chunk) (endInChunk : ℕ) : Prop :=
  chunk.compressed = false ∧ chunk.storedLen < endInChunk + 4

/-- The call comes back, and with an error where the chunk is truncated. -/
def Settles (chunk : Chunk) (endInChunk : ℕ)
    (outcome : Outcome ReadErrorKind Bytes) : Prop :=
  outcome.Returns ∧ (Truncated chunk endInChunk → ∃ e, outcome = .error e)

theorem settles_served_iff {coding : Coding} {leftover : Bytes}
    (hend : endInChunk ≤ coding.chunkLen chunkIndex) :
    Settles chunk endInChunk (served (coding.payload src chunk chunkIndex
        leftover) begInChunk endInChunk) ↔
      ¬ coding.ShortPayload src chunk endInChunk := by
  unfold Settles
  rw [served_payload_returns_iff hend]
  constructor
  · exact fun h => h.1
  · refine fun hlong => ⟨hlong, ?_⟩
    rintro ⟨hraw, htruncated⟩
    cases hpayload : coding.payload src chunk chunkIndex leftover with
    | error e => exact ⟨e, rfl⟩
    | ok payload =>
        exfalso
        have hbounded : coding.Bounded chunk := by
          by_contra hnot
          simp [Coding.payload, hnot] at hpayload
        obtain ⟨haccepted, -⟩ := (Coding.payload_uncompressed_iff hraw hbounded
          src chunkIndex leftover fun _ => True).mp ⟨payload, hpayload, trivial⟩
        have hlong5 := haccepted.1
        exact hlong ⟨hraw, hbounded, haccepted, by omega⟩

/-! ## Reads through the cache -/

@[simp] theorem lookUp_value (buf : Bytes)
    (chunkIndex begInChunk endInChunk : ℕ) (cache : DecodedChunkCache) :
    (ReadWorker.lookUp buf chunkIndex begInChunk endInChunk cache).value =
      (cache.get chunkIndex).2 := by
  unfold ReadWorker.lookUp
  simp only
  cases (cache.get chunkIndex).1 <;> rfl

/-- A lookup poisons the lock exactly when it finds a chunk shorter than the
range. -/
theorem lookUp_unpoisoned_iff (cache : DecodedChunkCache)
    (hle : begInChunk ≤ endInChunk)
    (hbuf : buf.length = endInChunk - begInChunk) :
    (ReadWorker.lookUp buf chunkIndex begInChunk endInChunk cache).poisoned =
        false ↔
      ∀ hit, cache.chunks.lookup chunkIndex = some hit →
        endInChunk ≤ hit.length := by
  unfold ReadWorker.lookUp
  simp only [DecodedChunkCache.get_fst]
  cases cache.chunks.lookup chunkIndex with
  | none => simp [Mutex.new]
  | some hit =>
      simp only [copyOut_eq hle hbuf, Option.some.injEq, forall_eq']
      unfold cut
      by_cases hend : endInChunk ≤ hit.length
      · simp [hend, Outcome.isPanic]
      · simp [hend, Outcome.isPanic]

/-- The answer of a read through a cache. -/
def cachedAnswer (coding : Coding) (src : WorkerSource) (cache : SharedCache)
    (chunk : Chunk) (chunkIndex begInChunk endInChunk : ℕ)
    (leftover : Bytes) : Outcome ReadErrorKind Bytes :=
  if coding.Bounded chunk then
    if cache.poisoned then .panic .poisoned
    else
      match cache.value.chunks.lookup chunkIndex with
      | some hit => cut hit begInChunk endInChunk
      | none =>
          served (coding.payload src chunk chunkIndex leftover) begInChunk
            endInChunk
  else .error (.badChunkBounds chunkIndex chunk.dataOffset chunk.endOffset)

/-- The part of a read through the cache that follows the lookup. -/
def afterLookup (coding : Coding) (src : WorkerSource) (chunk : Chunk)
    (chunkIndex begInChunk endInChunk : ℕ) (leftover : Bytes)
    (worker worker' : ReadWorker) (hit : Option Bytes) :
    Thread SharedCache (Outcome ReadErrorKind Bytes × ReadWorker) :=
  match hit with
  | some payload => .done (cut payload begInChunk endInChunk, worker)
  | none =>
      match coding.payload src chunk chunkIndex leftover with
      | .ok payload =>
          match cut payload begInChunk endInChunk with
          | .ok bytes =>
              .lock (fun cache => .new (cache.insert chunkIndex payload))
                (.done (.panic .poisoned, worker'))
                fun _ => .done (.ok bytes, worker')
          | failed => .done (failed, worker')
      | .error e => .done (.error e, worker')

theorem readThroughCache_eq {decode : Work Bytes} {coding : Coding}
    {leftover : Bytes} {worker' : ReadWorker} (hle : begInChunk ≤ endInChunk)
    (hbuf : buf.length = endInChunk - begInChunk)
    (hdecode : decode worker = (.ofExcept
      (coding.payload src chunk chunkIndex leftover), worker')) :
    ReadWorker.readThroughCache decode chunkIndex buf begInChunk endInChunk
        worker =
      .lock (ReadWorker.lookUp buf chunkIndex begInChunk endInChunk)
        (.done (.panic .poisoned, worker)) fun cache =>
        afterLookup coding src chunk chunkIndex begInChunk endInChunk leftover
          worker worker' (cache.get chunkIndex).1 := by
  unfold ReadWorker.readThroughCache
  congr 1
  funext cache
  unfold afterLookup
  cases (cache.get chunkIndex).1 with
  | some hit => simp only [copyOut_eq hle hbuf]
  | none =>
      simp only [hdecode]
      cases coding.payload src chunk chunkIndex leftover with
      | error e => rfl
      | ok payload =>
          cases hcut : cut payload begInChunk endInChunk <;>
            simp only [Outcome.ofExcept_ok, copyOut_eq hle hbuf, hcut]

theorem readCached_eq (zlib : Zlib) (build : Build) (src : WorkerSource)
    (chunk : Chunk)
    (hasked : Asked worker chunkIndex buf begInChunk endInChunk)
    (hwhole : Whole worker) :
    ∃ worker', SameLength worker worker' ∧
      ReadWorker.readCached zlib build src chunk chunkIndex buf begInChunk
          endInChunk worker =
        if (worker.coding zlib).Bounded chunk then
          .lock (ReadWorker.lookUp buf chunkIndex begInChunk endInChunk)
            (.done (.panic .poisoned, worker)) fun cache =>
            afterLookup (worker.coding zlib) src chunk chunkIndex begInChunk
              endInChunk (worker.buffer.drop chunk.storedLen) worker worker'
              (cache.get chunkIndex).1
        else .done (.error (.badChunkBounds chunkIndex chunk.dataOffset
          chunk.endOffset), worker) := by
  unfold ReadWorker.readCached
  rw [checkedChunkLen_eq zlib build chunk chunkIndex hasked.size_lt]
  by_cases hbounded : (worker.coding zlib).Bounded chunk
  swap
  · refine ⟨worker, ⟨_, rfl, rfl⟩, ?_⟩
    rw [if_neg hbounded, if_neg hbounded]
  simp only [if_pos hbounded]
  cases hcompressed : chunk.compressed with
  | true =>
      obtain ⟨worker', hsame, hdecode⟩ := decodeCompressed_eq build src
        hcompressed hbounded hasked.beg_le hasked.imageEnd_lt
        (hwhole.fits hbounded)
      exact ⟨worker', hsame,
        readThroughCache_eq hasked.le hasked.length_eq hdecode⟩
  | false =>
      exact ⟨worker, ⟨_, rfl, rfl⟩, readThroughCache_eq hasked.le
        hasked.length_eq (decodeUncompressed_eq hcompressed hbounded _)⟩

theorem afterLookup_ends (coding : Coding) (src : WorkerSource) (chunk : Chunk)
    (chunkIndex begInChunk endInChunk : ℕ) (leftover : Bytes)
    (worker worker' : ReadWorker) {hit : Option Bytes} {cache : SharedCache}
    (hclean : hit = none → cache.poisoned = false) :
    ∃ worker'' cache', ∀ r cache'', Thread.Ends Thread.alone cache
        (afterLookup coding src chunk chunkIndex begInChunk endInChunk leftover
          worker worker' hit) r cache'' ↔
      r = (match hit with
        | some payload => cut payload begInChunk endInChunk
        | none => served (coding.payload src chunk chunkIndex leftover)
            begInChunk endInChunk, worker'') ∧ cache'' = cache' := by
  unfold afterLookup
  cases hit with
  | some payload => exact ⟨worker, cache, fun _ _ => Thread.ends_done_iff⟩
  | none =>
      cases coding.payload src chunk chunkIndex leftover with
      | error e => exact ⟨worker', cache, fun _ _ => Thread.ends_done_iff⟩
      | ok payload =>
          simp only [served]
          cases cut payload begInChunk endInChunk with
          | ok bytes =>
              refine ⟨worker', .new (cache.value.insert chunkIndex payload), ?_⟩
              intro r cache''
              rw [Thread.ends_lock_iff, hclean rfl, if_neg (by decide),
                Thread.ends_done_iff]
          | error e => exact ⟨worker', cache, fun _ _ => Thread.ends_done_iff⟩
          | panic fault =>
              exact ⟨worker', cache, fun _ _ => Thread.ends_done_iff⟩
          | hang => exact ⟨worker', cache, fun _ _ => Thread.ends_done_iff⟩

/-- Run alone, a read through the cache ends, and in one way. -/
theorem readCached_ends (zlib : Zlib) (build : Build) (src : WorkerSource)
    (chunk : Chunk) (cache : SharedCache)
    (hasked : Asked worker chunkIndex buf begInChunk endInChunk)
    (hwhole : Whole worker) :
    ∃ worker' cache', ∀ r cache'', Thread.Ends Thread.alone cache
        (ReadWorker.readCached zlib build src chunk chunkIndex buf begInChunk
          endInChunk worker) r cache'' ↔
      r = (cachedAnswer (worker.coding zlib) src cache chunk chunkIndex
          begInChunk endInChunk (worker.buffer.drop chunk.storedLen),
        worker') ∧ cache'' = cache' := by
  obtain ⟨worker', -, hread⟩ := readCached_eq zlib build src chunk hasked hwhole
  rw [hread]
  unfold cachedAnswer
  by_cases hbounded : (worker.coding zlib).Bounded chunk
  swap
  · simp only [if_neg hbounded]
    exact ⟨worker, cache, fun _ _ => Thread.ends_done_iff⟩
  simp only [if_pos hbounded, Thread.ends_lock_iff]
  by_cases hset : cache.poisoned = true
  · simp only [if_pos hset]
    exact ⟨worker, cache, fun _ _ => Thread.ends_done_iff⟩
  simp only [if_neg hset, DecodedChunkCache.get_fst]
  refine afterLookup_ends (worker.coding zlib) src chunk chunkIndex begInChunk
    endInChunk _ worker worker' ?_
  intro hmiss
  rw [lookUp_unpoisoned_iff _ hasked.le hasked.length_eq, hmiss]
  simp

/-! ## Untrusted chunk tables -/

/-- The lock of the cache is poisoned; or the payload which the range is cut
from, the cached one or else that of the chunk, is shorter than the range; or
it is another chunk's, found in the cache in place of one that is truncated. -/
def ShortAnswer (coding : Coding) (src : WorkerSource) (cache : SharedCache)
    (chunk : Chunk) (chunkIndex endInChunk : ℕ) : Prop :=
  coding.Bounded chunk ∧
    (cache.poisoned = true ∨
      match cache.value.chunks.lookup chunkIndex with
      | some hit => hit.length < endInChunk ∨ Truncated chunk endInChunk
      | none => coding.ShortPayload src chunk endInChunk)

theorem settles_cachedAnswer_iff {coding : Coding} {cache : SharedCache}
    {leftover : Bytes} (hend : endInChunk ≤ coding.chunkLen chunkIndex) :
    Settles chunk endInChunk (cachedAnswer coding src cache chunk chunkIndex
        begInChunk endInChunk leftover) ↔
      ¬ ShortAnswer coding src cache chunk chunkIndex endInChunk := by
  unfold cachedAnswer ShortAnswer
  by_cases hbounded : coding.Bounded chunk
  swap
  · simp [Settles, hbounded]
  by_cases hset : cache.poisoned = true
  · simp [Settles, hbounded, hset]
  rw [if_pos hbounded, if_neg hset, and_iff_right hbounded, or_iff_right hset]
  cases cache.value.chunks.lookup chunkIndex with
  | none => exact settles_served_iff hend
  | some hit =>
      by_cases hlong : endInChunk ≤ hit.length
      · simp [Settles, cut, hlong]
      · simp [Settles, cut, hlong, Nat.lt_of_not_le hlong]

/-- A chunk of any table, over any source: a read returns, and reports a
truncated chunk, exactly when no payload shorter than the range passes the
checks of an uncompressed chunk; and so does a read through a cache whose lock
is not poisoned, where a cached payload stands for that of the chunk. -/
theorem chunk_reads_settle_iff (zlib : Zlib) (build : Build)
    (src : WorkerSource) (chunk : Chunk) (cache : SharedCache)
    (hasked : Asked worker chunkIndex buf begInChunk endInChunk)
    (hwhole : Whole worker) :
    (Settles chunk endInChunk (ReadWorker.read zlib build src chunk chunkIndex
        buf begInChunk endInChunk worker).1 ↔
      ¬ (worker.coding zlib).ShortPayload src chunk endInChunk) ∧
    ((∃ r cache', Thread.Ends Thread.alone cache (ReadWorker.readCached zlib
        build src chunk chunkIndex buf begInChunk endInChunk worker) r cache' ∧
        Settles chunk endInChunk r.1) ↔
      ¬ ShortAnswer (worker.coding zlib) src cache chunk chunkIndex
        endInChunk) := by
  have hend : endInChunk ≤ (worker.coding zlib).chunkLen chunkIndex :=
    hasked.end_le
  constructor
  · obtain ⟨worker', hread, -, -⟩ := read_eq zlib build src hasked
      (fun hbounded => hwhole.fits hbounded)
    rw [hread]
    exact settles_served_iff hend
  · obtain ⟨worker', cache', hends⟩ := readCached_ends zlib build src chunk
      cache hasked hwhole
    rw [← settles_cachedAnswer_iff hend]
    constructor
    · rintro ⟨r, cache'', hrun, hsettles⟩
      obtain ⟨rfl, -⟩ := (hends r cache'').mp hrun
      exact hsettles
    · intro hsettles
      exact ⟨_, cache', (hends _ cache').mpr ⟨rfl, rfl⟩, hsettles⟩

/-- The bytes of a file. -/
def contentSource (content : Bytes) : WorkerSource where
  read off len :=
    if off + len ≤ content.length then .ok (Slice.window content off len)
    else .error 0
  length_eq := by
    intro off len data h
    split_ifs at h with hle
    obtain rfl : Slice.window content off len = data := by simpa using h
    exact Slice.length_window_of_le hle
  scratch _ buf := buf
  length_scratch _ _ := rfl

/-- A decoder that finds no stream. -/
def noStream : Zlib where
  readExact _ _ := .error 0
  length_eq := by simp

/-- A chunk of one byte and its checksum, where the image has eight bytes. -/
theorem read_short_chunk_panics :
    let worker : ReadWorker := ⟨8, 8, .zero, List.replicate 12 0⟩
    let buf : Bytes := List.replicate 8 0
    Whole worker ∧ Asked worker 0 buf 0 8 ∧
      (ReadWorker.read noStream .release (contentSource [7, 8, 0, 8, 0])
        ⟨0, 0, 5, false⟩ 0 buf 0 8 worker).1 = .panic .outOfBounds :=
  ⟨rfl, ⟨by decide, rfl, by decide, by decide, by decide, by decide⟩, rfl⟩

theorem chunk_reads_settle_whole_chunk :
    let worker : ReadWorker := ⟨1, 1, .error, List.replicate 5 0⟩
    Settles ⟨0, 0, 5, false⟩ 1 (ReadWorker.read noStream .release
      (contentSource [7, 8, 0, 8, 0]) ⟨0, 0, 5, false⟩ 0 [0] 0 1 worker).1 := by
  have hasked : Asked ⟨1, 1, .error, List.replicate 5 0⟩ 0 [0] 0 1 :=
    ⟨by decide, rfl, by decide, by decide, by decide, by decide⟩
  have hwhole : Whole ⟨1, 1, .error, List.replicate 5 0⟩ := rfl
  refine (chunk_reads_settle_iff noStream .release
    (contentSource [7, 8, 0, 8, 0]) ⟨0, 0, 5, false⟩ (.new (.new 0)) hasked
    hwhole).1.mpr ?_
  intro h
  exact absurd h.2.2.2 (by decide)

/-! ## A worker between its reads -/

/-- The arguments of one read. -/
structure ReadCall where
  src : WorkerSource
  chunk : Chunk
  chunkIndex : ℕ
  buf : Bytes
  begInChunk : ℕ
  endInChunk : ℕ

namespace ReadCall

def Asked (worker : ReadWorker) (call : ReadCall) : Prop :=
  E01.Asked worker call.chunkIndex call.buf call.begInChunk call.endInChunk

def run (zlib : Zlib) (build : Build) (worker : ReadWorker)
    (call : ReadCall) : Outcome ReadErrorKind Bytes × ReadWorker :=
  ReadWorker.read zlib build call.src call.chunk call.chunkIndex call.buf
    call.begInChunk call.endInChunk worker

end ReadCall

/-- The worker after a sequence of reads. -/
def afterCalls (zlib : Zlib) (build : Build) (worker : ReadWorker)
    (calls : List ReadCall) : ReadWorker :=
  calls.foldl (fun worker call => (call.run zlib build worker).2) worker

theorem SameLength.asked {worker' : ReadWorker} {call : ReadCall}
    (h : SameLength worker worker') (hasked : call.Asked worker) :
    call.Asked worker' := by
  obtain ⟨buffer, -, rfl⟩ := h
  exact ⟨hasked.le, hasked.length_eq, hasked.end_le, hasked.beg_le,
    hasked.imageEnd_lt, hasked.size_lt⟩

theorem SameLength.coding {worker' : ReadWorker}
    (h : SameLength worker worker') (zlib : Zlib) :
    worker'.coding zlib = worker.coding zlib := by
  obtain ⟨buffer, -, rfl⟩ := h
  rfl

theorem run_whole_iff (zlib : Zlib) (build : Build) {call : ReadCall}
    (hasked : call.Asked worker) (hwhole : Whole worker) :
    (Whole (call.run zlib build worker).2 ↔
      ¬ (worker.coding zlib).LosesBuffer call.src call.chunk
        call.endInChunk) ∧
    (¬ (worker.coding zlib).LosesBuffer call.src call.chunk
        call.endInChunk →
      SameLength worker (call.run zlib build worker).2) := by
  obtain ⟨worker', hread, hkeeps, hloses⟩ := read_eq zlib build call.src hasked
    (fun hbounded => hwhole.fits hbounded)
  unfold ReadCall.run
  rw [hread]
  refine ⟨⟨?_, fun h => (hkeeps h).whole hwhole⟩, hkeeps⟩
  intro hwhole' hlost
  rw [hloses hlost] at hwhole'
  simp [Whole] at hwhole'

/-- A worker's buffer is whole after each of its reads exactly when none of
them reads an uncompressed chunk that does not pass its checks, or is too
short. -/
theorem whole_after_calls_iff (zlib : Zlib) (build : Build)
    (calls : List ReadCall) (hasked : ∀ call ∈ calls, call.Asked worker)
    (hwhole : Whole worker) :
    (∀ k ≤ calls.length,
        Whole (afterCalls zlib build worker (calls.take k))) ↔
      ∀ call ∈ calls, ¬ (worker.coding zlib).LosesBuffer call.src call.chunk
        call.endInChunk := by
  induction calls generalizing worker with
  | nil =>
      simp only [List.length_nil, Nat.le_zero, List.not_mem_nil,
        false_implies, implies_true, iff_true]
      rintro k rfl
      exact hwhole
  | cons call calls ih =>
      obtain ⟨hfirst, hsame⟩ :=
        run_whole_iff zlib build (hasked call List.mem_cons_self) hwhole
      have hnext : ∀ k, afterCalls zlib build worker
          ((call :: calls).take (k + 1)) =
        afterCalls zlib build (call.run zlib build worker).2
          (calls.take k) := fun _ => rfl
      constructor
      · intro hall
        have hkept := hfirst.mp (hall 1 (by simp))
        have hrest := (ih (fun c hc => (hsame hkept).asked
          (hasked c (List.mem_cons_of_mem _ hc)))
          ((hsame hkept).whole hwhole)).mp
          fun k hk => hnext k ▸ hall (k + 1) (by simpa using hk)
        rw [(hsame hkept).coding] at hrest
        intro c hc
        rcases List.mem_cons.mp hc with rfl | hc
        · exact hkept
        · exact hrest c hc
      · intro hnone k hk
        have hkept := hnone call List.mem_cons_self
        cases k with
        | zero => exact hwhole
        | succ k =>
            rw [hnext]
            refine (ih (fun c hc => (hsame hkept).asked
              (hasked c (List.mem_cons_of_mem _ hc)))
              ((hsame hkept).whole hwhole)).mpr ?_ k (by simpa using hk)
            rw [(hsame hkept).coding]
            exact fun c hc => hnone c (List.mem_cons_of_mem _ hc)

/-- Two chunks of one byte, the first with a wrong checksum: its read reports
that, and the read of the second panics. -/
theorem buffer_lost_by_bad_checksum :
    let src := contentSource [7, 0, 0, 0, 0, 7, 8, 0, 8, 0]
    let worker : ReadWorker := ⟨1, 2, .error, List.replicate 5 0⟩
    let first : ReadCall := ⟨src, ⟨0, 0, 5, false⟩, 0, [0], 0, 1⟩
    let second : ReadCall := ⟨src, ⟨0, 5, 10, false⟩, 1, [0], 0, 1⟩
    Whole worker ∧ first.Asked worker ∧ second.Asked worker ∧
      (first.run noStream .release worker).1 =
        .error (.badChecksum 0 524296 0) ∧
      ¬ Whole (afterCalls noStream .release worker [first]) ∧
      (second.run noStream .release
        (afterCalls noStream .release worker [first])).1 =
        .panic .outOfBounds :=
  ⟨rfl, ⟨by decide, rfl, by decide, by decide, by decide, by decide⟩,
    ⟨by decide, rfl, by decide, by decide, by decide, by decide⟩, rfl,
    by simp [Whole, afterCalls]; decide, rfl⟩

theorem whole_after_two_good_calls :
    let src := contentSource [7, 8, 0, 8, 0]
    let worker : ReadWorker := ⟨1, 1, .error, List.replicate 5 0⟩
    let call : ReadCall := ⟨src, ⟨0, 0, 5, false⟩, 0, [0], 0, 1⟩
    Whole (afterCalls noStream .release worker [call, call]) := by
  intro src worker call
  have hasked : ∀ c ∈ [call, call], c.Asked worker := by
    intro c hc
    obtain rfl : c = call := by simpa using hc
    exact ⟨by decide, rfl, by decide, by decide, by decide, by decide⟩
  refine (whole_after_calls_iff noStream .release [call, call] hasked
    rfl).mpr ?_ 2 (le_refl 2)
  intro c hc
  obtain rfl : c = call := by simpa using hc
  rintro ⟨-, -, hnot⟩
  exact hnot ⟨⟨by decide, [7, 8, 0, 8, 0], rfl, fun _ => rfl⟩, by decide⟩

end E01
end ImageReader
