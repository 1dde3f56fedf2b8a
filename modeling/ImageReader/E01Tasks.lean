import ImageReader.E01Plan

/-!
# Running the tasks of a read

Whatever the order of the tasks, and whatever other reads do to the cache in
between, a task answers with a range of what its chunk decodes to, provided
that the buffer of its worker has room for the stored bytes.  A cached chunk is
what the chunk decodes to.  A task which finds the lock of the cache poisoned
panics; the lock stays clean as long as no task comes upon a payload shorter
than its range.
-/

namespace ImageReader
namespace E01

variable {build : Build} {zlib : Zlib} {sources : ℕ → WorkerSource}
  {reader : E01Reader}

namespace E01Reader

variable (zlib : Zlib) (sources : ℕ → WorkerSource) (reader : E01Reader)

def coding : Coding :=
  ⟨zlib, reader.chunkSize, reader.imageSize, reader.options.corruptChunkPolicy⟩

/-- A worker made for this reader. -/
structure Belongs (worker : ReadWorker) : Prop where
  chunkSize_eq : worker.chunkSize = reader.chunkSize
  imageEnd_eq : worker.imageEnd = reader.imageSize
  policy_eq : worker.corruptChunkPolicy = reader.options.corruptChunkPolicy
  made : reader.chunkSize + 4 ≤ isizeMax

/-- Chunk `i` decodes to the payload after some content of a buffer. -/
def MayDecode (i : ℕ) (payload : Bytes) : Prop :=
  ∃ chunk leftover, reader.chunks[i]? = some chunk ∧
    (reader.coding zlib).payload (sources chunk.segment) chunk i leftover =
      .ok payload

/-- Every cached chunk is what the chunk of that index decodes to. -/
def Remembers (cache : DecodedChunkCache) : Prop :=
  ∀ i payload, cache.chunks.lookup i = some payload →
    reader.MayDecode zlib sources i payload

/-- The cache behind its lock, which is not poisoned if it is to be clean. -/
abbrev Kept (clean : Prop) : SharedCache → Prop :=
  Mutex.Holds clean (reader.Remembers zlib sources)

end E01Reader

theorem E01Reader.Belongs.coding {worker : ReadWorker}
    (h : reader.Belongs worker) (zlib : Zlib) :
    worker.coding zlib = reader.coding zlib := by
  simp only [ReadWorker.coding, E01Reader.coding, h.chunkSize_eq,
    h.imageEnd_eq, h.policy_eq]

theorem SameLength.belongs {worker worker' : ReadWorker}
    (h : SameLength worker worker') (hbelongs : reader.Belongs worker) :
    reader.Belongs worker' := by
  obtain ⟨buffer, -, rfl⟩ := h
  exact ⟨hbelongs.chunkSize_eq, hbelongs.imageEnd_eq, hbelongs.policy_eq,
    hbelongs.made⟩

theorem remembers_new (capacity : ℕ) :
    reader.Remembers zlib sources (.new capacity) := by
  intro i payload h
  simp [DecodedChunkCache.new] at h

theorem remembers_get {cache : DecodedChunkCache} {i : ℕ}
    (h : reader.Remembers zlib sources cache) :
    reader.Remembers zlib sources (cache.get i).2 := by
  intro j payload hlookup
  rw [DecodedChunkCache.get_chunks] at hlookup
  exact h j payload hlookup

theorem remembers_insert {cache : DecodedChunkCache} {i : ℕ} {payload : Bytes}
    (h : reader.Remembers zlib sources cache)
    (hpayload : reader.MayDecode zlib sources i payload) :
    reader.Remembers zlib sources (cache.insert i payload) := by
  intro j chunk hlookup
  rcases DecodedChunkCache.lookup_insert hlookup with ⟨rfl, rfl⟩ | hold
  · exact hpayload
  · exact h j chunk hold

theorem remembers_touchAll {cache : DecodedChunkCache} (beg n : ℕ)
    (h : reader.Remembers zlib sources cache) :
    reader.Remembers zlib sources (touchAll beg n cache) := by
  induction n generalizing beg cache with
  | zero => exact h
  | succ n ih =>
      unfold touchAll
      simp only
      split_ifs with hhit
      · exact ih (beg + 1) (remembers_get h)
      · exact remembers_get h

/-! ## One task -/

/-- What a task is given. -/
structure TaskReady (reader : E01Reader) (task : ChunkTask) : Prop where
  belongs : reader.Belongs task.worker
  whole : reader.options.decodedChunkCache = true → Whole task.worker
  asked : Asked task.worker task.chunkIndex task.sbuf task.begInChunk
    task.endInChunk
  chunk_eq : reader.chunks[task.chunkIndex]? = some task.chunk

theorem TaskReady.end_le {task : ChunkTask} (h : TaskReady reader task)
    (zlib : Zlib) :
    task.endInChunk ≤ (reader.coding zlib).chunkLen task.chunkIndex := by
  have hend := h.asked.end_le
  rw [h.belongs.chunkSize_eq, h.belongs.imageEnd_eq] at hend
  exact hend

/-- The buffer of the worker has room for the chunk. -/
def HasRoom (zlib : Zlib) (reader : E01Reader) (worker : ReadWorker)
    (chunk : Chunk) : Prop :=
  (reader.coding zlib).Bounded chunk → chunk.storedLen ≤ worker.buffer.length

/-- The task's range of what its chunk decodes to. -/
def taskAnswer (zlib : Zlib) (sources : ℕ → WorkerSource) (reader : E01Reader)
    (task : ChunkTask) (leftover : Bytes) : Outcome ReadError Bytes :=
  (served ((reader.coding zlib).payload (sources task.chunk.segment) task.chunk
    task.chunkIndex leftover) task.begInChunk task.endInChunk).mapError
      fun e => (ReadError.ofKind e).withPath task.segPath

/-- The payload of the task's chunk ends before the range does. -/
def ShortTask (zlib : Zlib) (sources : ℕ → WorkerSource) (reader : E01Reader)
    (task : ChunkTask) : Prop :=
  (reader.coding zlib).ShortPayload (sources task.chunk.segment) task.chunk
    task.endInChunk

/-- What a task leaves; with a clean lock it does not find it poisoned. -/
structure TaskDone (clean : Prop) (zlib : Zlib) (sources : ℕ → WorkerSource)
    (reader : E01Reader) (task : ChunkTask) (r : TaskResult) : Prop where
  answer : HasRoom zlib reader task.worker task.chunk →
    (∃ leftover, r.1 = taskAnswer zlib sources reader task leftover) ∨
      ¬ clean ∧ r.1 = .panic .poisoned
  stuck : ¬ HasRoom zlib reader task.worker task.chunk →
    ∃ fault, r.1 = .panic fault
  belongs : reader.Belongs r.2
  whole : reader.options.decodedChunkCache = true → Whole r.2

theorem TaskDone.weaken {clean : Prop} {task : ChunkTask} {r : TaskResult}
    (h : TaskDone True zlib sources reader task r) :
    TaskDone clean zlib sources reader task r where
  answer := fun hroom =>
    (h.answer hroom).imp_right fun hnot => absurd trivial hnot.1
  stuck := h.stuck
  belongs := h.belongs
  whole := h.whole

theorem TaskDone.answer_of_clean {task : ChunkTask} {r : TaskResult}
    (h : TaskDone True zlib sources reader task r)
    (hroom : HasRoom zlib reader task.worker task.chunk) :
    ∃ leftover, r.1 = taskAnswer zlib sources reader task leftover :=
  (h.answer hroom).resolve_right fun hnot => hnot.1 trivial

theorem read_without_room (build : Build) (src : WorkerSource)
    {worker : ReadWorker} {chunk : Chunk} {chunkIndex begInChunk endInChunk : ℕ} {buf : Bytes}
    (hasked : Asked worker chunkIndex buf begInChunk endInChunk)
    (hbounded : (worker.coding zlib).Bounded chunk)
    (hroom : worker.buffer.length < chunk.storedLen) :
    ∃ worker', ReadWorker.read zlib build src chunk chunkIndex buf begInChunk
        endInChunk worker = (.panic .outOfBounds, worker') ∧
      worker'.chunkSize = worker.chunkSize ∧
      worker'.imageEnd = worker.imageEnd ∧
      worker'.corruptChunkPolicy = worker.corruptChunkPolicy := by
  have htake : Slice.range (ε := ReadErrorKind) worker.buffer 0
      chunk.storedLen = .panic .outOfBounds :=
    Slice.range_of_not (by omega)
  refine ⟨{ worker with buffer := [] }, ?_, rfl, rfl, rfl⟩
  unfold ReadWorker.read
  rw [checkedChunkLen_eq zlib build chunk chunkIndex hasked.size_lt,
    if_pos hbounded,
    Work.lift_ok_bind]
  cases chunk.compressed with
  | true =>
      rw [if_pos rfl]
      unfold ReadWorker.readCompressed
      refine Work.bind_of_panic ?_
      unfold ReadWorker.decodeCompressed
      rw [Work.bind_of_ok (decodedLen_eq zlib hasked.beg_le hasked.imageEnd_lt)]
      refine Work.bind_of_panic ?_
      simp [ReadWorker.readCompressedRead, htake]
  | false =>
      rw [if_neg (by decide)]
      unfold ReadWorker.readUncompressed
      rw [Work.takeBuffer_bind, htake, Work.lift_panic_bind]

/-- A chunk that the reader remembers is no shorter than a range of it, unless
the payload of the chunk is. -/
theorem lookUp_holds {clean : Prop} {task : ChunkTask}
    (h : TaskReady reader task)
    (hlong : clean → ¬ ShortTask zlib sources reader task)
    {cache : DecodedChunkCache} (hcache : reader.Remembers zlib sources cache) :
    reader.Kept zlib sources clean (ReadWorker.lookUp task.sbuf task.chunkIndex
      task.begInChunk task.endInChunk cache) where
  value := by
    rw [lookUp_value]
    exact remembers_get hcache
  unpoisoned := by
    intro hclean
    rw [lookUp_unpoisoned_iff cache h.asked.le h.asked.length_eq]
    intro hit hhit
    obtain ⟨chunk, leftover, hchunk, hpayload⟩ := hcache _ hit hhit
    obtain rfl : task.chunk = chunk := by
      rw [h.chunk_eq] at hchunk
      simpa using hchunk
    by_contra hshort
    exact hlong hclean ((Coding.shortPayload_iff (h.end_le zlib)).mpr
      ⟨hit, hpayload, Nat.lt_of_not_le hshort⟩)

theorem readCached_keeps {clean : Prop} {task : ChunkTask}
    (h : TaskReady reader task) (hwhole : Whole task.worker)
    (hlong : clean → ¬ ShortTask zlib sources reader task) :
    (ReadWorker.readCached zlib build (sources task.chunk.segment) task.chunk
        task.chunkIndex task.sbuf task.begInChunk task.endInChunk
        task.worker).Keeps (reader.Kept zlib sources clean) fun r =>
      ((∃ leftover, r.1 = served ((reader.coding zlib).payload
          (sources task.chunk.segment) task.chunk task.chunkIndex leftover)
          task.begInChunk task.endInChunk) ∨
        ¬ clean ∧ r.1 = .panic .poisoned) ∧
      SameLength task.worker r.2 := by
  obtain ⟨worker', hsame, hread⟩ := readCached_eq zlib build
    (sources task.chunk.segment) task.chunk h.asked hwhole
  have hself : SameLength task.worker task.worker := ⟨_, rfl, rfl⟩
  rw [hread, h.belongs.coding]
  set leftover := task.worker.buffer.drop task.chunk.storedLen
  by_cases hbounded : (reader.coding zlib).Bounded task.chunk
  swap
  · rw [if_neg hbounded]
    refine ⟨Or.inl ⟨leftover, ?_⟩, hself⟩
    rw [Coding.payload_of_not_bounded hbounded]
    rfl
  rw [if_pos hbounded]
  refine Thread.keeps_lock (fun hnot => ⟨Or.inr ⟨hnot, rfl⟩, hself⟩) ?_
  intro cache hcache
  refine ⟨lookUp_holds h hlong hcache, ?_⟩
  simp only [DecodedChunkCache.get_fst]
  unfold afterLookup
  cases hhit : cache.chunks.lookup task.chunkIndex with
  | some hit =>
      obtain ⟨chunk, leftover', hchunk, hpayload⟩ := hcache _ hit hhit
      obtain rfl : task.chunk = chunk := by
        rw [h.chunk_eq] at hchunk
        simpa using hchunk
      exact ⟨Or.inl ⟨leftover', by rw [hpayload]; rfl⟩, hself⟩
  | none =>
      cases hpayload : (reader.coding zlib).payload
          (sources task.chunk.segment) task.chunk task.chunkIndex leftover with
      | error e => exact ⟨Or.inl ⟨leftover, by rw [hpayload]; rfl⟩, hsame⟩
      | ok payload =>
          have hserved : served ((reader.coding zlib).payload
              (sources task.chunk.segment) task.chunk task.chunkIndex
              leftover) task.begInChunk task.endInChunk =
            cut payload task.begInChunk task.endInChunk := by
            rw [hpayload]
            rfl
          simp only
          cases hcut : cut payload task.begInChunk task.endInChunk with
          | ok bytes =>
              refine Thread.keeps_lock
                (fun hnot => ⟨Or.inr ⟨hnot, rfl⟩, hsame⟩) ?_
              intro cache' hcache'
              exact ⟨Mutex.holds_new (remembers_insert hcache'
                  ⟨task.chunk, leftover, h.chunk_eq, hpayload⟩),
                Or.inl ⟨leftover, by rw [hserved, hcut]⟩, hsame⟩
          | error e =>
              exact ⟨Or.inl ⟨leftover, by rw [hserved, hcut]⟩, hsame⟩
          | panic fault =>
              exact ⟨Or.inl ⟨leftover, by rw [hserved, hcut]⟩, hsame⟩
          | hang => exact ⟨Or.inl ⟨leftover, by rw [hserved, hcut]⟩, hsame⟩

theorem readCached_live (zlib : Zlib) (build : Build) (src : WorkerSource)
    (chunk : Chunk) (chunkIndex : ℕ) (buf : Bytes)
    (begInChunk endInChunk : ℕ) (worker : ReadWorker) :
    (ReadWorker.readCached zlib build src chunk chunkIndex buf begInChunk
      endInChunk worker).Live := by
  have hthrough : ∀ decode : Work Bytes,
      (ReadWorker.readThroughCache decode chunkIndex buf begInChunk endInChunk
        worker).Live := by
    intro decode
    refine Thread.live_lock _ trivial fun cache => ?_
    simp only [DecodedChunkCache.get_fst]
    cases cache.chunks.lookup chunkIndex with
    | some chunk => trivial
    | none =>
        rcases decode worker with ⟨r, worker'⟩
        cases r with
        | ok payload =>
            cases hcopy : ReadWorker.copyOut buf payload begInChunk
                endInChunk with
            | ok bytes =>
                simp only [hcopy]
                exact Thread.live_lock _ trivial fun _ => trivial
            | error e => simp only [hcopy]; trivial
            | panic fault => simp only [hcopy]; trivial
            | hang => simp only [hcopy]; trivial
        | error e => trivial
        | panic fault => trivial
        | hang => trivial
  unfold ReadWorker.readCached
  split
  · split
    · exact hthrough _
    · exact hthrough _
  all_goals trivial

theorem runChunkTask_live (build : Build) (zlib : Zlib)
    (sources : ℕ → WorkerSource) (reader : E01Reader) (task : ChunkTask) :
    (reader.runChunkTask build zlib sources task).Live := by
  unfold E01Reader.runChunkTask
  refine Thread.Live.bind ?_ fun _ => trivial
  split
  · exact readCached_live ..
  · trivial

/-- The task takes the lock of the cache. -/
def TakesLock (zlib : Zlib) (reader : E01Reader) (task : ChunkTask) : Prop :=
  reader.options.decodedChunkCache = true ∧
    (reader.coding zlib).Bounded task.chunk

/-- A task which does not take the lock does not depend on the cache. -/
theorem runChunkTask_unlocked {Inv : SharedCache → Prop} {task : ChunkTask}
    (h : TaskReady reader task) (hlock : ¬ TakesLock zlib reader task) :
    (reader.runChunkTask build zlib sources task).Keeps Inv
      (TaskDone True zlib sources reader task) := by
  unfold E01Reader.runChunkTask
  simp only
  by_cases hcached : reader.options.decodedChunkCache = true
  · rw [if_pos hcached]
    have hnot : ¬ (reader.coding zlib).Bounded task.chunk :=
      fun hbounded => hlock ⟨hcached, hbounded⟩
    have hcheck := checkedChunkLen_eq zlib build task.chunk task.chunkIndex
      h.asked.size_lt
    rw [h.belongs.coding, if_neg hnot] at hcheck
    unfold ReadWorker.readCached
    rw [hcheck]
    simp only [Thread.done_bind]
    exact {
      answer := fun _ => Or.inl ⟨[], by
        rw [taskAnswer, Coding.payload_of_not_bounded hnot]
        rfl⟩
      stuck := fun hroom => absurd (fun hb => absurd hb hnot) hroom
      belongs := h.belongs
      whole := h.whole }
  rw [if_neg hcached]
  simp only [Thread.done_bind]
  by_cases hroom : HasRoom zlib reader task.worker task.chunk
  · obtain ⟨worker', hread, hkeeps, hloses⟩ := read_eq zlib build
      (sources task.chunk.segment) h.asked
      (fun hbounded => hroom (h.belongs.coding zlib ▸ hbounded))
    rw [hread, h.belongs.coding]
    exact {
      answer := fun _ => Or.inl ⟨_, rfl⟩
      stuck := fun hnot => absurd hroom hnot
      belongs := by
        by_cases hlost : (task.worker.coding zlib).LosesBuffer
            (sources task.chunk.segment) task.chunk task.endInChunk
        · rw [hloses hlost]
          exact ⟨h.belongs.chunkSize_eq, h.belongs.imageEnd_eq,
            h.belongs.policy_eq, h.belongs.made⟩
        · exact (hkeeps hlost).belongs h.belongs
      whole := fun hc => absurd hc hcached }
  · have hbounded : (reader.coding zlib).Bounded task.chunk := by
      by_contra hnot
      exact hroom fun hb => absurd hb hnot
    obtain ⟨worker', hread, hsize, hend, hpolicy⟩ :=
      read_without_room build (sources task.chunk.segment) h.asked
        (h.belongs.coding zlib ▸ hbounded) (by
          by_contra hle
          exact hroom fun _ => Nat.le_of_not_lt hle)
    rw [hread]
    exact {
      answer := fun hr => absurd hr hroom
      stuck := fun _ => ⟨.outOfBounds, rfl⟩
      belongs := ⟨hsize.trans h.belongs.chunkSize_eq,
        hend.trans h.belongs.imageEnd_eq, hpolicy.trans h.belongs.policy_eq,
        h.belongs.made⟩
      whole := fun hc => absurd hc hcached }

theorem runChunkTask_keeps {clean : Prop} {task : ChunkTask}
    (h : TaskReady reader task)
    (hlong : clean → ¬ ShortTask zlib sources reader task) :
    (reader.runChunkTask build zlib sources task).Keeps
      (reader.Kept zlib sources clean)
      (TaskDone clean zlib sources reader task) := by
  by_cases hlock : TakesLock zlib reader task
  swap
  · exact (runChunkTask_unlocked h hlock).mono fun r hr => hr.weaken
  have hwhole := h.whole hlock.1
  have hroom : HasRoom zlib reader task.worker task.chunk := by
    intro hbounded
    rw [← h.belongs.coding] at hbounded
    exact hwhole.fits hbounded
  unfold E01Reader.runChunkTask
  simp only
  rw [if_pos hlock.1]
  refine (readCached_keeps h hwhole hlong).bind ?_
  rintro ⟨r, worker'⟩ ⟨hr, hsame⟩
  simp only at hr
  exact {
    answer := fun _ => by
      rcases hr with ⟨leftover, rfl⟩ | ⟨hnot, rfl⟩
      · exact Or.inl ⟨leftover, rfl⟩
      · exact Or.inr ⟨hnot, rfl⟩
    stuck := fun hnot => absurd hroom hnot
    belongs := hsame.belongs h.belongs
    whole := fun _ => hsame.whole hwhole }

def Failed {α : Type} (outcome : Outcome ReadError α) : Prop :=
  ∀ a, outcome ≠ .ok a

/-- What a run of all tasks leaves when `D` holds of each task and its result:
a task that was not run is one that a failure kept from running. -/
structure Ran (D : ChunkTask → TaskResult → Prop) (tasks : List ChunkTask)
    (results : List (Option TaskResult)) : Prop where
  length_eq : results.length = tasks.length
  done : ∀ (k : ℕ) (task : ChunkTask) (r : TaskResult),
    tasks[k]? = some task → results[k]? = some (some r) → D task r
  skipped : (∃ (k : ℕ) (r : TaskResult), results[k]? = some (some r) ∧
      Failed r.1) ∨
    ∀ k : ℕ, results[k]? ≠ some none

theorem runSerial_live (build : Build) (zlib : Zlib)
    (sources : ℕ → WorkerSource) (reader : E01Reader)
    (tasks : List ChunkTask) :
    (reader.runSerial build zlib sources tasks).Live := by
  induction tasks with
  | nil => trivial
  | cons task tasks ih =>
      unfold E01Reader.runSerial
      refine (runChunkTask_live build zlib sources reader task).bind ?_
      rintro ⟨r, worker⟩
      cases r with
      | ok bytes => exact ih.bind fun _ => trivial
      | error e => trivial
      | panic fault => trivial
      | hang => trivial

theorem runParallel_live (build : Build) (zlib : Zlib)
    (sources : ℕ → WorkerSource) (reader : E01Reader)
    (tasks : List ChunkTask) :
    (reader.runParallel build zlib sources tasks).Live :=
  ⟨fun _ => runChunkTask_live build zlib sources reader _,
    fun _ => Or.inr fun _ => by simp, fun _ => trivial⟩

section Ran

variable {Inv : SharedCache → Prop} {D : ChunkTask → TaskResult → Prop}
  {tasks : List ChunkTask}

/-- The first task has failed, and the others are not run. -/
theorem ran_failed {task : ChunkTask} {r : TaskResult} (h : D task r)
    (hfailed : Failed r.1) :
    Ran D (task :: tasks) (some r :: tasks.map fun _ => none) where
  length_eq := by simp
  done := by
    intro k task' r' htask hr
    cases k with
    | zero =>
        obtain rfl : task = task' := by simpa using htask
        obtain rfl : r = r' := by simpa using hr
        exact h
    | succ k => simp [List.getElem?_replicate] at hr
  skipped := Or.inl ⟨0, r, rfl, hfailed⟩

theorem Ran.cons {task : ChunkTask} {r : TaskResult}
    {results : List (Option TaskResult)} (h : D task r)
    (hrest : Ran D tasks results) : Ran D (task :: tasks) (some r :: results) where
  length_eq := by simp [hrest.length_eq]
  done := by
    intro k task' r' htask hr
    cases k with
    | zero =>
        obtain rfl : task = task' := by simpa using htask
        obtain rfl : r = r' := by simpa using hr
        exact h
    | succ k => exact hrest.done k task' r' (by simpa using htask) (by simpa using hr)
  skipped := by
    rcases hrest.skipped with ⟨k, r', hr', hfailed⟩ | hall
    · exact Or.inl ⟨k + 1, r', by simpa using hr', hfailed⟩
    · right
      intro k
      cases k with
      | zero => simp
      | succ k => simpa using hall k

theorem runSerial_keeps (h : ∀ task ∈ tasks,
      (reader.runChunkTask build zlib sources task).Keeps Inv (D task)) :
    (reader.runSerial build zlib sources tasks).Keeps Inv (Ran D tasks) := by
  induction tasks with
  | nil => exact ⟨rfl, by simp, Or.inr (by simp)⟩
  | cons task tasks ih =>
      unfold E01Reader.runSerial
      refine (h task List.mem_cons_self).bind ?_
      rintro ⟨r, worker⟩ hdone
      cases r with
      | ok bytes =>
          refine (ih fun task' htask' =>
            h task' (List.mem_cons_of_mem _ htask')).bind ?_
          exact fun results hran => hran.cons hdone
      | error e => exact ran_failed hdone (by simp [Failed])
      | panic fault => exact ran_failed hdone (by simp [Failed])
      | hang => exact ran_failed hdone (by simp [Failed])

theorem runParallel_keeps (h : ∀ task ∈ tasks,
      (reader.runChunkTask build zlib sources task).Keeps Inv (D task)) :
    (reader.runParallel build zlib sources tasks).Keeps Inv (Ran D tasks) := by
  refine ⟨fun i => D (tasks.get i), fun i => h _ (List.get_mem tasks i), ?_⟩
  intro results hready hresults
  exact {
    length_eq := by simp
    done := by
      intro k task r htask hr
      obtain ⟨hk, rfl⟩ := List.getElem?_eq_some_iff.mp htask
      rw [List.getElem?_ofFn] at hr
      exact hresults ⟨k, hk⟩ r (by simpa [hk] using hr)
    skipped := by
      rcases hready with ⟨i, r, hr, hfailed⟩ | hall
      · exact Or.inl ⟨i, r, by rw [List.getElem?_ofFn]; simp [hr], hfailed⟩
      · right
        intro k hk
        rw [List.getElem?_ofFn] at hk
        split at hk
        · exact hall _ (by simpa using hk)
        · simp at hk }

end Ran

/-! ## The outcome of all tasks -/

section Settle

variable (results : List (Outcome ReadError Bytes)) (pick : ℕ)

theorem isFailure_eq_true_iff {r : Outcome ReadError Bytes} :
    isFailure r = true ↔ Failed r := by
  cases r <;> simp [isFailure, Failed]

theorem isCrash_eq_true_iff {r : Outcome ReadError Bytes} :
    isCrash r = true ↔ ¬ r.Returns := by
  cases r <;> simp [isCrash]

theorem settle_ok (h : ∀ r ∈ results, ∃ bytes, r = .ok bytes) :
    settle pick results = .ok () := by
  have hfailed : results.filter isFailure = [] := by
    rw [List.filter_eq_nil_iff]
    intro r hr
    obtain ⟨bytes, rfl⟩ := h r hr
    simp [isFailure]
  have hcrashed : results.filter isCrash = [] := by
    rw [List.filter_eq_nil_iff]
    intro r hr
    obtain ⟨bytes, rfl⟩ := h r hr
    simp [isCrash]
  unfold settle
  rw [hfailed, hcrashed]
  simp

theorem exists_picked {α : Type} {xs : List α} (pick : ℕ) (hne : xs ≠ []) :
    ∃ x ∈ xs, xs[pick % xs.length]? = some x := by
  have hlt : pick % xs.length < xs.length :=
    Nat.mod_lt _ (List.length_pos_iff.mpr hne)
  exact ⟨_, List.getElem_mem hlt, List.getElem?_eq_getElem hlt⟩

theorem settle_error (h : ∀ r ∈ results, r.Returns)
    (hfailed : ∃ r ∈ results, Failed r) :
    ∃ e, settle pick results = .error e ∧ .error e ∈ results := by
  have hcrashed : results.filter isCrash = [] := by
    rw [List.filter_eq_nil_iff]
    intro r hr
    rw [isCrash_eq_true_iff, not_not]
    exact h r hr
  have hne : results.filter isFailure ≠ [] := by
    obtain ⟨r, hmem, hr⟩ := hfailed
    exact List.ne_nil_of_mem
      (List.mem_filter.mpr ⟨hmem, isFailure_eq_true_iff.mpr hr⟩)
  obtain ⟨r, hmem, hpick⟩ := exists_picked pick hne
  obtain ⟨hresult, hfailure⟩ := List.mem_filter.mp hmem
  unfold settle
  simp only [hcrashed, if_true, hpick]
  rcases h r hresult with ⟨bytes, rfl⟩ | ⟨e, rfl⟩
  · simp [isFailure] at hfailure
  · exact ⟨e, rfl, hresult⟩

theorem settle_crash (h : ∃ r ∈ results, ¬ r.Returns) :
    ¬ (settle pick results).Returns := by
  have hne : results.filter isCrash ≠ [] := by
    obtain ⟨r, hmem, hr⟩ := h
    exact List.ne_nil_of_mem
      (List.mem_filter.mpr ⟨hmem, isCrash_eq_true_iff.mpr hr⟩)
  obtain ⟨r, hmem, hpick⟩ := exists_picked pick hne
  have hcrash := isCrash_eq_true_iff.mp (List.mem_filter.mp hmem).2
  unfold settle
  simp only [if_neg hne, hpick]
  cases r with
  | ok bytes => exact absurd (Outcome.returns_ok bytes) hcrash
  | error e => exact absurd (Outcome.returns_error e) hcrash
  | panic fault => simp
  | hang => simp

end Settle

end E01
end ImageReader
