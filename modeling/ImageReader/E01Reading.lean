import ImageReader.E01Finish

/-!
# Reads of an E01 image

A read of an opened reader gives the bytes of the chunks which it touches, if
these decode, and an error if one of them does not.  It does so unless the end
of a touched chunk is no word, or the buffer of a new worker would be too long
for a vector, or a touched chunk makes its task panic: when the buffer of the
worker, which an earlier read has returned, was lost, when the payload is
shorter than the range, or when such a payload has poisoned the lock of the
cache before.
-/

namespace ImageReader
namespace E01

variable {build : Build} {zlib : Zlib} {sources : ℕ → WorkerSource}
  {reader : E01Reader} {pool : List ReadWorker} {offset : ℕ} {buf : Bytes}

/-! ## Up to the tasks -/

namespace E01Reader

/-- How many bytes a read gives. -/
def readLen (reader : E01Reader) (offset len : ℕ) : ℕ :=
  min len (reader.imageSize - offset)

/-- How many workers a read of `len` bytes checks out. -/
def workerCount (reader : E01Reader) (offset len : ℕ) : ℕ :=
  (offset + len) / reader.chunkSize +
    min ((offset + len) % reader.chunkSize) 1 - offset / reader.chunkSize

/-- The workers that come from the pool. -/
def lent (pool : List ReadWorker) (n : ℕ) : List ReadWorker :=
  pool.drop (pool.length - n)

/-- The pool has the workers, or the buffer of a new one is a vector. -/
def HasWorkers (reader : E01Reader) (pool : List ReadWorker) (n : ℕ) : Prop :=
  n ≤ pool.length ∨ reader.chunkSize + 4 ≤ isizeMax

def freshWorker (reader : E01Reader) : ReadWorker where
  chunkSize := reader.chunkSize
  imageEnd := reader.imageSize
  corruptChunkPolicy := reader.options.corruptChunkPolicy
  buffer := List.replicate (reader.chunkSize + 4) 0

/-- Each of the workers comes from the pool or, where that has none, is new. -/
def LentOrFresh (reader : E01Reader) (pool : List ReadWorker) (n : ℕ)
    (workers : List ReadWorker) : Prop :=
  ∀ (k : ℕ) (worker : ReadWorker), workers[k]? = some worker →
    (lent pool n)[k]? = some worker ∨
      (lent pool n)[k]? = none ∧ worker = reader.freshWorker ∧
        reader.chunkSize + 4 ≤ isizeMax

end E01Reader

theorem whole_freshWorker (reader : E01Reader) : Whole reader.freshWorker :=
  List.length_replicate

theorem limitBuf_eq (build : Build) (hle : offset ≤ reader.imageSize)
    (hsize : offset + buf.length < wordLimit) :
    reader.limitBuf build offset buf =
      .ok (buf.take (reader.readLen offset buf.length)) := by
  unfold E01Reader.limitBuf E01Reader.readLen
  rw [Build.add_of_lt (by omega), Outcome.ok_bind]
  by_cases hpast : reader.imageSize < offset + buf.length
  · rw [if_pos hpast, Build.sub_of_le hle, Outcome.ok_bind,
      Slice.range_of_le (Nat.zero_le _) (by omega), Slice.window,
      List.drop_zero, Nat.sub_zero, Nat.min_eq_right (by omega)]
  · rw [if_neg hpast, Nat.min_eq_left (by omega), List.take_length]
    rfl

/-- The chunks before the end of a range are the ones that start before it. -/
theorem lt_chunks_iff {size stop j : ℕ} (hpos : 0 < size) :
    j < stop / size + min (stop % size) 1 ↔ j * size < stop := by
  have hsplit := Nat.div_add_mod stop size
  have hlt := Nat.mod_lt stop hpos
  rw [Nat.mul_comm] at hsplit
  constructor
  · intro hj
    have hmul : j * size ≤ stop / size * size :=
      Nat.mul_le_mul_right _ (by omega)
    rcases Nat.eq_zero_or_pos (stop % size) with hzero | hpart
    · have hstep : (j + 1) * size ≤ stop / size * size :=
        Nat.mul_le_mul_right _ (by omega)
      rw [Nat.succ_mul] at hstep
      omega
    · omega
  · intro hj
    by_contra hge
    rcases Nat.eq_zero_or_pos (stop % size) with hzero | hpart
    · have hmul : stop / size * size ≤ j * size :=
        Nat.mul_le_mul_right _ (by omega)
      omega
    · have hmul : (stop / size + 1) * size ≤ j * size :=
        Nat.mul_le_mul_right _ (by omega)
      rw [Nat.succ_mul] at hmul
      omega

theorem chunkRange_eq (build : Build) (hpos : 0 < reader.chunkSize)
    {bufEnd : ℕ} (hlt : bufEnd < wordLimit) :
    reader.chunkRange build offset bufEnd =
      .ok (offset / reader.chunkSize,
        bufEnd / reader.chunkSize + min (bufEnd % reader.chunkSize) 1) := by
  have hsplit := Nat.div_add_mod bufEnd reader.chunkSize
  have hle : bufEnd / reader.chunkSize ≤
      reader.chunkSize * (bufEnd / reader.chunkSize) :=
    Nat.le_mul_of_pos_left _ hpos
  unfold E01Reader.chunkRange
  rw [Build.div_of_pos hpos, Outcome.ok_bind, Build.div_of_pos hpos,
    Outcome.ok_bind, Build.rem_of_pos hpos, Outcome.ok_bind,
    Build.add_of_lt (by omega)]
  rfl

theorem checkoutWorkers_panic (build : Build) (hopened : Opened reader)
    {n : ℕ} (h : ¬ reader.HasWorkers pool n) :
    reader.checkoutWorkers build pool n = .panic .capacityOverflow := by
  obtain ⟨hfew, hlong⟩ := not_or.mp h
  have hshort : (pool.drop (pool.length - n)).length < n := by
    rw [List.length_drop]
    omega
  unfold E01Reader.checkoutWorkers
  simp only
  rw [if_pos hshort]
  unfold ReadWorker.new
  rw [Build.add_of_lt hopened.chunkSize_lt, Outcome.ok_bind,
    if_pos (Nat.lt_of_not_le hlong), Outcome.panic_bind]

theorem checkoutWorkers_eq (build : Build) (hopened : Opened reader) {n : ℕ}
    (henough : reader.HasWorkers pool n) :
    ∃ workers, reader.checkoutWorkers build pool n =
        .ok (workers, pool.take (pool.length - n)) ∧
      workers.length = n ∧ reader.LentOrFresh pool n workers := by
  have hlent : (E01Reader.lent pool n).length = min n pool.length := by
    unfold E01Reader.lent
    rw [List.length_drop]
    omega
  have hdrop : pool.drop (pool.length - n) = E01Reader.lent pool n := rfl
  unfold E01Reader.checkoutWorkers
  simp only [hdrop]
  by_cases hshort : (E01Reader.lent pool n).length < n
  · rw [if_pos hshort]
    have hmade : reader.chunkSize + 4 ≤ isizeMax :=
      henough.resolve_left (by omega)
    have hnew : (ReadWorker.new build reader.chunkSize reader.imageSize
        reader.options.corruptChunkPolicy : Outcome ReadError ReadWorker) =
        .ok reader.freshWorker := by
      unfold ReadWorker.new
      rw [Build.add_of_lt hopened.chunkSize_lt, Outcome.ok_bind,
        if_neg (by omega)]
      rfl
    rw [hnew]
    refine ⟨_, rfl, ?_, ?_⟩
    · rw [List.length_append, List.length_replicate]
      omega
    · intro k worker hworker
      by_cases hk : k < (E01Reader.lent pool n).length
      · left
        rwa [List.getElem?_append_left hk] at hworker
      · right
        rw [List.getElem?_append_right (by omega), List.getElem?_replicate]
          at hworker
        split_ifs at hworker
        exact ⟨List.getElem?_eq_none (by omega),
          (Option.some.inj hworker).symm, hmade⟩
  · rw [if_neg hshort]
    exact ⟨E01Reader.lent pool n, rfl, by omega,
      fun k worker hworker => Or.inl hworker⟩

theorem readLen_le (reader : E01Reader) (offset : ℕ) (buf : Bytes) :
    (buf.take (reader.readLen offset buf.length)).length =
      reader.readLen offset buf.length := by
  rw [List.length_take]
  unfold E01Reader.readLen
  omega

/-- As many workers as a read of the bytes of `buf` checks out are enough. -/
theorem planable_of_workerCount (hopened : Opened reader)
    (hend : offset + buf.length ≤ reader.imageSize) {workers : List ReadWorker}
    (hlength : workers.length = reader.workerCount offset buf.length) :
    Planable reader offset buf workers where
  opened := hopened
  end_le := hend
  worker_lt := by
    intro k hk
    rw [← lt_chunks_iff hopened.chunkSize_pos] at hk
    rw [hlength, E01Reader.workerCount]
    omega

/-- The chunks of a read, in numbers of workers. -/
theorem chunkRange_workerCount (build : Build) (hopened : Opened reader)
    {n : ℕ} (hend : offset + n ≤ reader.imageSize) :
    reader.chunkRange build offset (offset + n) =
      .ok (offset / reader.chunkSize,
        offset / reader.chunkSize + reader.workerCount offset n) := by
  have himage := hopened.imageSize_lt
  have hmono : offset / reader.chunkSize ≤
      (offset + n) / reader.chunkSize := Nat.div_le_div_right (by omega)
  rw [chunkRange_eq build hopened.chunkSize_pos (by omega),
    E01Reader.workerCount, Nat.add_sub_cancel' (by omega)]

/-- A read within the image, up to its workers. -/
theorem readAtOffset_eq_readChunks (build : Build) (zlib : Zlib)
    (sources : ℕ → WorkerSource) (pool : List ReadWorker) (buf : Bytes)
    (hopened : Opened reader) (hle : offset ≤ reader.imageSize)
    (hsize : offset + buf.length < wordLimit) {n count : ℕ}
    (hn : n = reader.readLen offset buf.length)
    (hcount : count = reader.workerCount offset n) :
    reader.readAtOffset build zlib sources pool offset buf =
      reader.traced pool (offset / reader.chunkSize) count
        (reader.readChunks build zlib sources pool offset (offset + n)
          (buf.take n) (buf.drop n) count) := by
  have hlength : (buf.take n).length = n := hn ▸ readLen_le reader offset buf
  have hend : offset + n ≤ reader.imageSize := by
    rw [hn]
    unfold E01Reader.readLen
    omega
  have himage := hopened.imageSize_lt
  unfold E01Reader.readAtOffset
  rw [if_neg (by omega), limitBuf_eq build hle hsize, ← hn]
  simp only [E01Reader.proceed, hlength]
  rw [Build.add_of_lt (by omega)]
  simp only
  rw [chunkRange_workerCount build hopened hend]
  simp only
  rw [Build.sub_of_le (by omega), Nat.add_sub_cancel_left, ← hcount]

/-- Without the workers, the read panics. -/
theorem readAtOffset_eq_panic (build : Build) (zlib : Zlib)
    (sources : ℕ → WorkerSource) (hopened : Opened reader)
    (hle : offset ≤ reader.imageSize)
    (hsize : offset + buf.length < wordLimit) {n count : ℕ}
    (hn : n = reader.readLen offset buf.length)
    (hcount : count = reader.workerCount offset n)
    (hfew : ¬ reader.HasWorkers pool count) :
    reader.readAtOffset build zlib sources pool offset buf =
      reader.traced pool (offset / reader.chunkSize) count
        (.done (.panic .capacityOverflow,
          pool.take (pool.length - count))) := by
  rw [readAtOffset_eq_readChunks build zlib sources pool buf hopened hle hsize
    hn hcount]
  unfold E01Reader.readChunks
  rw [checkoutWorkers_panic build hopened hfew]
  rfl

theorem readAtOffset_eq (build : Build) (zlib : Zlib)
    (sources : ℕ → WorkerSource) (buf : Bytes)
    (hopened : Opened reader) (hle : offset ≤ reader.imageSize)
    (hsize : offset + buf.length < wordLimit) {n count : ℕ}
    (hn : n = reader.readLen offset buf.length)
    (hcount : count = reader.workerCount offset n)
    (henough : reader.HasWorkers pool count) :
    ∃ workers : List ReadWorker,
      reader.checkoutWorkers build pool count =
        .ok (workers, pool.take (pool.length - count)) ∧
      reader.LentOrFresh pool count workers ∧
      Planable reader offset (buf.take n) workers ∧
      reader.readAtOffset build zlib sources pool offset buf =
        reader.traced pool (offset / reader.chunkSize) count
          (E01Reader.proceed (pool.take (pool.length - count))
            (loop (reader.planBody build offset
                (offset + (buf.take n).length)) ((buf.take n).length + 1)
              { offset, buf := buf.take n, w := workers, tasks := [] })
            fun plan => reader.runTasks build zlib sources plan
              (pool.take (pool.length - count)) offset (buf.drop n)) := by
  have hlength : (buf.take n).length = n := hn ▸ readLen_le reader offset buf
  have hend : offset + n ≤ reader.imageSize := by
    rw [hn]
    unfold E01Reader.readLen
    omega
  have hend' : offset + (buf.take n).length ≤ reader.imageSize := by
    rwa [hlength]
  have hcount' : count = reader.workerCount offset (buf.take n).length := by
    rwa [hlength]
  obtain ⟨workers, hcheckout, hworkersLength, hworkers⟩ :=
    checkoutWorkers_eq build hopened henough
  refine ⟨workers, hcheckout, hworkers, planable_of_workerCount hopened hend'
    (hworkersLength.trans hcount'), ?_⟩
  rw [readAtOffset_eq_readChunks build zlib sources pool buf hopened hle hsize
    hn hcount]
  unfold E01Reader.readChunks
  rw [hcheckout]
  simp only [E01Reader.proceed, hlength]

/-! ## The bytes of the chunks -/

/-- The bytes from `lo` to `hi` of the image whose chunks have the payloads
`P`. -/
def imageBytes (P : ℕ → Bytes) (chunkSize lo hi : ℕ) : Bytes :=
  (List.range' lo (hi - lo)).map fun x =>
    (P (x / chunkSize)).getD (x % chunkSize) 0

theorem imageBytes_append (P : ℕ → Bytes) (chunkSize : ℕ) {a b c : ℕ}
    (hab : a ≤ b) (hbc : b ≤ c) :
    imageBytes P chunkSize a b ++ imageBytes P chunkSize b c =
      imageBytes P chunkSize a c := by
  unfold imageBytes
  rw [← List.map_append, show c - a = (b - a) + (c - b) by omega,
    ← List.range'_append_1, show a + (b - a) = b by omega]

theorem getElem?_imageBytes {P : ℕ → Bytes} {chunkSize lo hi j : ℕ}
    (hj : lo + j < hi)
    (hlong : (lo + j) % chunkSize < (P ((lo + j) / chunkSize)).length) :
    (imageBytes P chunkSize lo hi)[j]? =
      (P ((lo + j) / chunkSize))[(lo + j) % chunkSize]? := by
  unfold imageBytes
  rw [List.getElem?_map, List.getElem?_range' (by omega)]
  simp [List.getD_eq_getElem?_getD, List.getElem?_eq_getElem hlong]

theorem length_imageBytes (P : ℕ → Bytes) (chunkSize lo hi : ℕ) :
    (imageBytes P chunkSize lo hi).length = hi - lo := by
  simp [imageBytes]

theorem window_eq_imageBytes {P : ℕ → Bytes} {chunkSize i beg end_ : ℕ}
    (hend : end_ ≤ chunkSize) (hlong : end_ ≤ (P i).length) :
    Slice.window (P i) beg (end_ - beg) =
      imageBytes P chunkSize (i * chunkSize + beg) (i * chunkSize + end_) := by
  refine List.ext_getElem? fun j => ?_
  by_cases hj : j < end_ - beg
  · have hdiv : (i * chunkSize + beg + j) / chunkSize = i :=
      Nat.div_eq_of_lt_le (by omega) (by rw [Nat.succ_mul]; omega)
    have hmod : (i * chunkSize + beg + j) % chunkSize = beg + j := by
      rw [Nat.add_assoc, Nat.mul_add_mod_of_lt (by omega)]
    rw [Slice.getElem?_window hj, getElem?_imageBytes (by omega)
      (by rw [hdiv, hmod]; omega), hdiv, hmod]
  · rw [List.getElem?_eq_none, List.getElem?_eq_none]
    · rw [length_imageBytes]
      omega
    · rw [Slice.length_window]
      omega

theorem bufAfter_eq {workers : List ReadWorker} {plan : Plan}
    {results : List (Option TaskResult)} {P : ℕ → Bytes}
    (hplan : Planned reader offset buf workers plan)
    (hlength : results.length = plan.tasks.length)
    (h : ∀ (k : ℕ) (task : ChunkTask), plan.tasks[k]? = some task →
      task.endInChunk ≤ (P task.chunkIndex).length ∧
      ∃ r : TaskResult, results[k]? = some (some r) ∧
        r.1 = .ok (Slice.window (P task.chunkIndex) task.begInChunk
          (task.endInChunk - task.begInChunk))) :
    plan.bufAfter results =
      imageBytes P reader.chunkSize offset (offset + buf.length) := by
  unfold Plan.bufAfter
  rw [hplan.slices.2, List.append_nil]
  set pieces := List.zipWith ChunkTask.sbufAfter plan.tasks results
    with hpieces
  have hcount : pieces.length = plan.tasks.length := by
    rw [hpieces, List.length_zipWith, hlength, Nat.min_self]
  have hflatten := flatten_pieces (imageBytes P reader.chunkSize)
    (reader.stopAt offset buf.length) (by simp [imageBytes]) pieces ?_ ?_
  · rw [hflatten, hcount, hplan.stopAt_eq, stopAt_zero]
  · intro k _
    rw [stopAt_zero]
    exact imageBytes_append P _ (offset_le_stopAt reader offset buf.length k)
      (stopAt_mono reader offset buf.length k)
  · intro k piece hpiece
    have hk : k < plan.tasks.length :=
      hcount ▸ (List.getElem?_eq_some_iff.mp hpiece).choose
    have htask := List.getElem?_eq_getElem hk
    set task := plan.tasks[k]
    obtain ⟨hlong, r, hr, hbytes⟩ := h k task htask
    have hat := hplan.task k task htask
    obtain ⟨outcome, worker⟩ := r
    simp only at hbytes
    rw [hpieces, List.getElem?_zipWith, htask, hr] at hpiece
    simp only [hbytes, ChunkTask.sbufAfter, Option.some.injEq] at hpiece
    rw [← hpiece, window_eq_imageBytes hat.end_le hlong, hat.beg_eq, hat.end_eq]

/-! ## What a read is to do -/

/-- Chunk `i` decodes to the payload, whatever a buffer holds. -/
def E01Reader.Decodes (zlib : Zlib) (sources : ℕ → WorkerSource)
    (reader : E01Reader) (i : ℕ) (payload : Bytes) : Prop :=
  ∃ chunk, reader.chunks[i]? = some chunk ∧ ∀ leftover,
    (reader.coding zlib).payload (sources chunk.segment) chunk i leftover =
      .ok payload

def E01Reader.FailsToDecode (zlib : Zlib) (sources : ℕ → WorkerSource)
    (reader : E01Reader) (i : ℕ) : Prop :=
  ∃ chunk, reader.chunks[i]? = some chunk ∧ ∀ leftover, ∃ e,
    (reader.coding zlib).payload (sources chunk.segment) chunk i leftover =
      .error e

/-- Every touched chunk decodes to its part of the image, or more. -/
def E01Reader.AllDecode (zlib : Zlib) (sources : ℕ → WorkerSource)
    (reader : E01Reader) (offset len : ℕ) (P : ℕ → Bytes) : Prop :=
  ∀ i, reader.Touched offset len i → reader.Decodes zlib sources i (P i) ∧
    min reader.chunkSize (reader.imageSize - i * reader.chunkSize) ≤
      (P i).length

def E01Reader.SomeFails (zlib : Zlib) (sources : ℕ → WorkerSource)
    (reader : E01Reader) (offset len : ℕ) : Prop :=
  ∃ i, reader.Touched offset len i ∧ reader.FailsToDecode zlib sources i

/-- What the reads of a reader keep. -/
structure ReaderState.Valid (zlib : Zlib) (sources : ℕ → WorkerSource)
    (reader : E01Reader) (state : ReaderState) : Prop where
  lendable : Lendable reader state.workerPool
  remembers : reader.Remembers zlib sources state.decodedChunkCache.value

/-- Nor has a read poisoned the lock of the cache. -/
structure ReaderState.Clean (zlib : Zlib) (sources : ℕ → WorkerSource)
    (reader : E01Reader) (state : ReaderState) : Prop
    extends state.Valid zlib sources reader where
  unpoisoned : state.decodedChunkCache.poisoned = false

theorem ReaderState.clean_new :
    ReaderState.Clean zlib sources reader ReaderState.new :=
  ⟨⟨by simp [Lendable, ReaderState.new], remembers_new _⟩, rfl⟩

theorem ReaderState.Clean.kept {state : ReaderState}
    (h : state.Clean zlib sources reader) :
    reader.Kept zlib sources True state.decodedChunkCache :=
  ⟨h.remembers, fun _ => h.unpoisoned⟩

theorem E01Reader.Kept.clean {pool : List ReadWorker} {cache : SharedCache}
    (h : reader.Kept zlib sources True cache) (hpool : Lendable reader pool) :
    ReaderState.Clean zlib sources reader ⟨pool, cache⟩ :=
  ⟨⟨hpool, h.value⟩, h.unpoisoned trivial⟩

/-- The error which a read past the image end gets, and no other read. -/
def IsBeyondEnd (r : ReadResult) : Prop :=
  ∃ path offset imageEnd,
    r.1 = .error ⟨path, .offsetBeyondEnd offset imageEnd⟩

/-- The other reads of the reader keep its cache, and do not poison it. -/
def E01Reader.KeptBy (zlib : Zlib) (sources : ℕ → WorkerSource)
    (reader : E01Reader) (env : SharedCache → SharedCache → Prop) : Prop :=
  ∀ clean cache cache', env cache cache' →
    reader.Kept zlib sources clean cache → reader.Kept zlib sources clean cache'

theorem keptBy_alone (zlib : Zlib) (sources : ℕ → WorkerSource)
    (reader : E01Reader) : reader.KeptBy zlib sources Thread.alone :=
  fun _ _ _ h => h.elim

/-- The meaning of a read, in every execution of it, next to others. -/
structure E01Reader.Reads (build : Build) (zlib : Zlib)
    (sources : ℕ → WorkerSource) (env : SharedCache → SharedCache → Prop)
    (reader : E01Reader) (state : ReaderState) (offset : ℕ) (buf : Bytes) :
    Prop where
  beyond : Thread.Always env state.decodedChunkCache
    (reader.readAtOffset build zlib sources state.workerPool offset buf)
    fun r => IsBeyondEnd r ↔ reader.imageSize < offset
  /-- the loop ends, each task has its chunk, its segment and its worker, and
  the slices follow one another and cover the buffer -/
  cuts : offset ≤ reader.imageSize → ∀ n,
    n = reader.readLen offset buf.length →
    ∃ workers pool' plan,
      reader.checkoutWorkers build state.workerPool
        (reader.workerCount offset n) = .ok (workers, pool') ∧
      loop (reader.planBody build offset (offset + (buf.take n).length))
        ((buf.take n).length + 1)
        { offset, buf := buf.take n, w := workers, tasks := [] } = .ok plan ∧
      (∀ (k : ℕ) (task : ChunkTask), plan.tasks[k]? = some task →
        TaskAt reader offset (buf.take n) workers k task) ∧
      (plan.tasks.map ChunkTask.sbuf).flatten = buf.take n
  decodes : offset ≤ reader.imageSize → ∀ n,
    n = reader.readLen offset buf.length →
    ∀ P, reader.AllDecode zlib sources offset n P →
    Thread.Always env state.decodedChunkCache
      (reader.readAtOffset build zlib sources state.workerPool offset buf)
      fun r => ∃ buf', r.1 = .ok (n, buf') ∧
        (∀ j < n, buf'[j]? = (P ((offset + j) / reader.chunkSize))[
          (offset + j) % reader.chunkSize]?) ∧
        ∀ j ≥ n, buf'[j]? = buf[j]?
  fails : offset ≤ reader.imageSize →
    reader.SomeFails zlib sources offset (reader.readLen offset buf.length) →
    Thread.Always env state.decodedChunkCache
      (reader.readAtOffset build zlib sources state.workerPool offset buf)
      fun r => ∃ e, r.1 = .error e

/-- No touched chunk makes its task panic: no payload which passes its checks
ends before the range does, and the buffer of a worker from the pool has room
for the stored bytes. -/
def E01Reader.NoCrash (zlib : Zlib) (sources : ℕ → WorkerSource)
    (reader : E01Reader) (pool : List ReadWorker) (offset len : ℕ) : Prop :=
  ∀ i chunk, reader.Touched offset len i → reader.chunks[i]? = some chunk →
    ¬ (reader.coding zlib).ShortPayload (sources chunk.segment) chunk
        (reader.rangeEnd offset len i) ∧
    ∀ worker, (E01Reader.lent pool (reader.workerCount offset len))[
        i - offset / reader.chunkSize]? = some worker →
      HasRoom zlib reader worker chunk

/-- The read takes the lock of the cache: for the I/O log, or for a chunk. -/
def E01Reader.TakesLock (zlib : Zlib) (reader : E01Reader) (offset len : ℕ) :
    Prop :=
  reader.options.decodedChunkCache = true ∧
    (reader.options.tracing = true ∨ ∃ i chunk, reader.Touched offset len i ∧
      reader.chunks[i]? = some chunk ∧ (reader.coding zlib).Bounded chunk)

/-- The read is to give bytes or an error. -/
def E01Reader.Promises (zlib : Zlib) (sources : ℕ → WorkerSource)
    (reader : E01Reader) (offset len : ℕ) : Prop :=
  (∃ P, reader.AllDecode zlib sources offset len P) ∨
    reader.SomeFails zlib sources offset len

/-- The reads of `n` bytes within the image which do what they are to do. -/
structure E01Reader.ReadsIn (zlib : Zlib) (sources : ℕ → WorkerSource)
    (reader : E01Reader) (state : ReaderState) (offset n : ℕ) : Prop where
  fits : reader.ChunksFit offset n
  workers : reader.HasWorkers state.workerPool (reader.workerCount offset n)
  noCrash : reader.Promises zlib sources offset n →
    reader.NoCrash zlib sources state.workerPool offset n
  unpoisoned : reader.Promises zlib sources offset n →
    reader.TakesLock zlib offset n → state.decodedChunkCache.poisoned = false

/-- The reads which do what they are to do. -/
def E01Reader.ReadsThrough (zlib : Zlib) (sources : ℕ → WorkerSource)
    (reader : E01Reader) (state : ReaderState) (offset len : ℕ) : Prop :=
  reader.imageSize < offset ∨
    reader.ReadsIn zlib sources state offset (reader.readLen offset len)

/-! ## Executions -/

section Traced

variable {run : Thread SharedCache ReadResult}

theorem traced_keeps {clean : Prop} {Post : ReadResult → Prop} (beg n : ℕ)
    (hpoisoned : ¬ clean → Post (.panic .poisoned, pool))
    (h : run.Keeps (reader.Kept zlib sources clean) Post) :
    (reader.traced pool beg n run).Keeps (reader.Kept zlib sources clean)
      Post := by
  unfold E01Reader.traced
  split_ifs
  · exact Thread.keeps_lock hpoisoned fun cache hcache =>
      ⟨Mutex.holds_new (remembers_touchAll beg n hcache), h⟩
  · exact h

theorem traced_live (reader : E01Reader) (pool : List ReadWorker) (beg n : ℕ)
    (h : run.Live) : (reader.traced pool beg n run).Live := by
  unfold E01Reader.traced
  split_ifs
  · exact Thread.live_lock _ trivial fun _ => h
  · exact h

/-- What does not return also does not once the chunks have been looked up. -/
theorem traced_crash {env : SharedCache → SharedCache → Prop}
    (reader : E01Reader) (pool : List ReadWorker) (beg n : ℕ)
    (Inv : SharedCache → Prop) (hInv : ∀ cache, Inv cache →
      cache.poisoned = false → Inv (.new (touchAll beg n cache.value)))
    (h : ∀ cache, Inv cache → ∃ r cache', Thread.Ends env cache run r cache' ∧
      ¬ r.1.Returns) {cache : SharedCache} (hcache : Inv cache) :
    ∃ r cache', Thread.Ends env cache (reader.traced pool beg n run) r cache' ∧
      ¬ r.1.Returns := by
  unfold E01Reader.traced
  split_ifs
  swap
  · exact h cache hcache
  by_cases hset : cache.poisoned = true
  · refine ⟨(.panic .poisoned, pool), cache, Thread.Ends.of_alone ?_,
      Outcome.not_returns_panic .poisoned⟩
    rw [Thread.ends_lock_iff, if_pos hset]
    exact .refl
  · obtain ⟨r, cache', hends, hr⟩ :=
      h _ (hInv cache hcache (Bool.eq_false_iff.mpr hset))
    refine ⟨r, cache', .head .atomic ?_, hr⟩
    simp only [if_neg hset]
    exact hends

end Traced

theorem runTasks_live (build : Build) (zlib : Zlib)
    (sources : ℕ → WorkerSource) (reader : E01Reader) (plan : Plan)
    (pool : List ReadWorker) (offset : ℕ) (rest : Bytes) :
    (reader.runTasks build zlib sources plan pool offset rest).Live := by
  unfold E01Reader.runTasks
  refine Thread.Live.bind ?_ fun _ _ => trivial
  split_ifs
  · exact runParallel_live build zlib sources reader plan.tasks
  · exact runSerial_live build zlib sources reader plan.tasks

theorem readAtOffset_live (build : Build) (zlib : Zlib)
    (sources : ℕ → WorkerSource) (reader : E01Reader) (pool : List ReadWorker)
    (offset : ℕ) (buf : Bytes) :
    (reader.readAtOffset build zlib sources pool offset buf).Live := by
  have hproceed : ∀ {α : Type} (pool : List ReadWorker)
      (x : Outcome ReadError α) (next : α → Thread SharedCache ReadResult),
      (∀ a, (next a).Live) → (E01Reader.proceed pool x next).Live := by
    intro α pool x next hnext
    cases x with
    | ok a => exact hnext a
    | error e => trivial
    | panic fault => trivial
    | hang => trivial
  unfold E01Reader.readAtOffset
  split_ifs
  · trivial
  · refine hproceed _ _ _ fun limited => hproceed _ _ _ fun bufEnd =>
      hproceed _ _ _ fun range => hproceed _ _ _ fun n =>
        traced_live reader _ _ _ ?_
    exact hproceed _ _ _ fun checkout => hproceed _ _ _ fun plan =>
      runTasks_live build zlib sources reader plan _ _ _

section RunTasks

variable {Inv : SharedCache → Prop} {D : ChunkTask → TaskResult → Prop}
  {plan : Plan}

theorem runTasks_keeps (h : ∀ task ∈ plan.tasks,
      (reader.runChunkTask build zlib sources task).Keeps Inv (D task))
    (rest : Bytes) :
    (reader.runTasks build zlib sources plan pool offset rest).Keeps Inv
      fun r => ∃ results pick, Ran D plan.tasks results ∧
        r = E01Reader.finish build plan pool offset rest results pick := by
  unfold E01Reader.runTasks
  have hrun : (if reader.options.parallelChunkReads = true ∧
        1 < plan.tasks.length then
      reader.runParallel build zlib sources plan.tasks
    else reader.runSerial build zlib sources plan.tasks).Keeps Inv
      (Ran D plan.tasks) := by
    split_ifs
    · exact runParallel_keeps h
    · exact runSerial_keeps h
  exact hrun.bind fun results hran pick => ⟨results, pick, hran, rfl⟩

/-- With every task run to its end, a task which panics makes the read panic. -/
theorem runTasks_crash {env : SharedCache → SharedCache → Prop}
    (hparallel : reader.options.parallelChunkReads = true)
    (htasks : ∀ task ∈ plan.tasks,
      (reader.runChunkTask build zlib sources task).Keeps Inv (D task))
    {task : ChunkTask} (hmem : task ∈ plan.tasks)
    (hcrash : ∀ r, D task r → ¬ r.1.Returns)
    (pool : List ReadWorker) (offset : ℕ) (rest : Bytes)
    {cache : SharedCache} (hcache : Inv cache) :
    ∃ r cache', Thread.Ends env cache
        (reader.runTasks build zlib sources plan pool offset rest) r cache' ∧
      ¬ r.1.Returns := by
  have hends : ∃ results cache', Thread.Ends Thread.alone cache
      (if reader.options.parallelChunkReads = true ∧ 1 < plan.tasks.length then
        reader.runParallel build zlib sources plan.tasks
      else reader.runSerial build zlib sources plan.tasks) results cache' ∧
      ∃ (k : ℕ) (r : TaskResult), results[k]? = some (some r) ∧
        ¬ r.1.Returns := by
    by_cases hmany : 1 < plan.tasks.length
    · rw [if_pos ⟨hparallel, hmany⟩]
      have hchild : ∀ (i : Fin plan.tasks.length) cache, Inv cache →
          ∃ r cache', Thread.Ends Thread.alone cache (reader.runChunkTask build
              zlib sources (plan.tasks.get i)) r cache' ∧
            Inv cache' ∧ D (plan.tasks.get i) r := by
        intro i cache hcache
        obtain ⟨r, cache', hends⟩ := (runChunkTask_live build zlib sources
          reader (plan.tasks.get i)).ends Thread.alone cache
        exact ⟨r, cache', hends, hends.keeps (fun _ _ h => h.elim) hcache
          (htasks _ (List.get_mem plan.tasks i))⟩
      obtain ⟨results, hdone, cache', -, hrun⟩ := Thread.Runs.children
        E01Reader.FannedOut (fun results => Thread.done (List.ofFn results)) _
        hchild hcache
      obtain ⟨k, hk, rfl⟩ := List.mem_iff_getElem.mp hmem
      refine ⟨_, cache', hrun.trans (.head (.join (Or.inr ?_)) .refl), k,
        results ⟨k, hk⟩, ?_, hcrash _ (hdone ⟨k, hk⟩)⟩
      · intro i
        simp [Thread.result?]
      · rw [List.getElem?_ofFn]
        simp [hk, Thread.result?]
    · rw [if_neg fun h => hmany h.2]
      obtain ⟨results, cache', hends⟩ := (runSerial_live build zlib sources
        reader plan.tasks).ends Thread.alone cache
      obtain ⟨-, hran⟩ := hends.keeps (fun _ _ h => h.elim) hcache
        (runSerial_keeps htasks)
      obtain ⟨k, r, hr, -⟩ := hran.exists_failed hmem fun r hr bytes hbytes =>
        hcrash r hr (hbytes ▸ Outcome.returns_ok bytes)
      obtain ⟨task', htask', hdone⟩ := hran.task_of_result hr
      have hsame : task' = task := by
        obtain ⟨hk, rfl⟩ := List.getElem?_eq_some_iff.mp htask'
        obtain ⟨j, hj, rfl⟩ := List.mem_iff_getElem.mp hmem
        congr 1
        omega
      exact ⟨results, cache', hends, k, r, hr, hcrash r (hsame ▸ hdone)⟩
  obtain ⟨results, cache', hrun, hresult⟩ := hends
  exact ⟨_, cache', Thread.Ends.bind hrun.of_alone (.head (.choose 0) .refl),
    finish_crash build plan pool offset rest 0 hresult⟩

end RunTasks

end E01
end ImageReader
