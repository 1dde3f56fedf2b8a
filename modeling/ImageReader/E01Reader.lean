import ImageReader.E01Open
import ImageReader.E01WorkerSafety
import ImageReader.Loop

/-!
# Reading an E01 image

A read is cut into tasks, one for each chunk that it touches, and every task
gets a worker from the pool.  The tasks run one after another or side by side;
their slices of the buffer do not overlap, so a task is given its slice and
answers with the slice's new content.
-/

namespace ImageReader
namespace E01

structure ReadError where
  path : Option String
  source : ReadErrorKind
  deriving DecidableEq, Repr

namespace ReadError

def ofKind (source : ReadErrorKind) : ReadError := ⟨none, source⟩

def withPath (path : String) (e : ReadError) : ReadError :=
  { e with path := some path }

end ReadError

structure ChunkTask where
  chunkIndex : ℕ
  chunk : Chunk
  sbuf : Bytes
  begInChunk : ℕ
  endInChunk : ℕ
  segPath : String
  worker : ReadWorker
  deriving DecidableEq, Repr

/-- The variables of the loop that cuts a read into tasks. -/
structure Plan where
  offset : ℕ
  buf : Bytes
  w : List ReadWorker
  tasks : List ChunkTask
  deriving DecidableEq, Repr

/-- The content of a task's slice, and the worker after the task. -/
abbrev TaskResult : Type := Outcome ReadError Bytes × ReadWorker

/-- The result of a read with the buffer after it, and the pool of workers. -/
abbrev ReadResult : Type :=
  Outcome ReadError (ℕ × Bytes) × List ReadWorker

/-- The state which the reads of a reader share. -/
structure ReaderState where
  workerPool : List ReadWorker
  decodedChunkCache : SharedCache

def decodedChunkCacheChunks : ℕ := 1024

def ReaderState.new : ReaderState :=
  ⟨[], .new (DecodedChunkCache.new decodedChunkCacheChunks)⟩

/-- `(beg..end).all(|idx| cache.get(idx).is_some())`, which stops at the first
chunk that is not there. -/
def touchAll : ℕ → ℕ → DecodedChunkCache → DecodedChunkCache
  | _, 0, cache => cache
  | beg, n + 1, cache =>
      let (hit, cache') := cache.get beg
      if hit.isSome then touchAll (beg + 1) n cache' else cache'

namespace E01Reader

variable (build : Build) (zlib : Zlib) (sources : ℕ → WorkerSource)
  (reader : E01Reader)

/-- The workers for `n` tasks, and what is left of the pool. -/
def checkoutWorkers (pool : List ReadWorker) (n : ℕ) :
    Outcome ReadError (List ReadWorker × List ReadWorker) :=
  let keep := pool.length - n
  let workers := pool.drop keep
  if workers.length < n then do
    let worker ← ReadWorker.new build reader.chunkSize reader.imageSize
      reader.options.corruptChunkPolicy
    pure (workers ++ List.replicate (n - workers.length) worker, pool.take keep)
  else .ok (workers, pool.take keep)

def runChunkTask (task : ChunkTask) : Thread SharedCache TaskResult :=
  let src := sources task.chunk.segment
  let run :=
    if reader.options.decodedChunkCache then
      ReadWorker.readCached zlib build src task.chunk task.chunkIndex task.sbuf
        task.begInChunk task.endInChunk task.worker
    else
      .done (ReadWorker.read zlib build src task.chunk task.chunkIndex task.sbuf
        task.begInChunk task.endInChunk task.worker)
  run.bind fun r =>
    .done (r.1.mapError fun e => (ReadError.ofKind e).withPath task.segPath,
      r.2)

/-- One iteration of the loop that cuts a read into tasks. -/
def planBody (bufBeg bufEnd : ℕ) (plan : Plan) :
    Outcome ReadError (Step Plan Plan) :=
  if plan.offset < bufEnd then do
    let chunkIndex ← Build.div plan.offset reader.chunkSize
    let chunk ← Slice.index reader.chunks chunkIndex
    let segPath ← Slice.index reader.segmentPaths chunk.segment
    let chunkBeg ← build.mul chunkIndex reader.chunkSize
    let nextBeg ← build.add chunkBeg reader.chunkSize
    let chunkEnd := min nextBeg reader.imageSize
    let begInChunk ← build.sub plan.offset chunkBeg
    let endInChunk ← build.sub (min chunkEnd bufEnd) chunkBeg
    let begInBuf ← build.sub plan.offset bufBeg
    let len ← build.sub endInChunk begInChunk
    let endInBuf ← build.add begInBuf len
    let mid ← build.sub endInBuf begInBuf
    let (bleft, bright) ← Slice.splitAt plan.buf mid
    let (wleft, wright) ← Slice.splitAt plan.w 1
    let worker ← Slice.index wleft 0
    let offset ← build.add plan.offset mid
    pure (.next
      { offset, buf := bright, w := wright
        tasks := plan.tasks ++ [{ chunkIndex, chunk, sbuf := bleft, begInChunk,
                                  endInChunk, segPath, worker }] })
  else .ok (.done plan)

/-- The buffer up to the image end. -/
def limitBuf (offset : ℕ) (buf : Bytes) : Outcome ReadError Bytes := do
  let bufEnd ← build.add offset buf.length
  if reader.imageSize < bufEnd then
    let len ← build.sub reader.imageSize offset
    Slice.range buf 0 len
  else pure buf

/-- The indices of the first chunk of a read, and of the one after its last. -/
def chunkRange (bufBeg bufEnd : ℕ) : Outcome ReadError (ℕ × ℕ) := do
  let beg ← Build.div bufBeg reader.chunkSize
  let whole ← Build.div bufEnd reader.chunkSize
  let part ← Build.rem bufEnd reader.chunkSize
  let end_ ← build.add whole (min part 1)
  pure (beg, end_)

/-- The tasks in order, up to one that fails. -/
def runSerial : List ChunkTask →
    Thread SharedCache (List (Option TaskResult))
  | [] => .done []
  | task :: tasks =>
      (reader.runChunkTask build zlib sources task).bind fun r =>
        match r.1 with
        | .ok _ => (runSerial tasks).bind fun results =>
            .done (some r :: results)
        | _ => .done (some r :: tasks.map fun _ => none)

/-- A fan-out ends with its last task, or when a task has failed; then the tasks
which have not been run are dropped. -/
def FannedOut {n : ℕ} (results : Fin n → Option TaskResult) : Prop :=
  (∃ i r, results i = some r ∧ ∀ bytes, r.1 ≠ .ok bytes) ∨
    ∀ i, results i ≠ none

/-- The tasks side by side. -/
def runParallel (tasks : List ChunkTask) :
    Thread SharedCache (List (Option TaskResult)) :=
  .join (fun i : Fin tasks.length =>
      reader.runChunkTask build zlib sources (tasks.get i))
    FannedOut fun results => .done (List.ofFn results)

end E01Reader

def isFailure : Outcome ReadError Bytes → Bool
  | .ok _ => false
  | _ => true

def isCrash : Outcome ReadError Bytes → Bool
  | .ok _ => false
  | .error _ => false
  | _ => true

/-- The outcome of all tasks together.  A panic of one of them goes on in the
caller; of several errors, `pick` says which is reported. -/
def settle (pick : ℕ) (results : List (Outcome ReadError Bytes)) :
    Outcome ReadError Unit :=
  let crashed := results.filter isCrash
  let candidates := if crashed = [] then results.filter isFailure else crashed
  match candidates[pick % candidates.length]? with
  | some (.error e) => .error e
  | some (.panic fault) => .panic fault
  | some .hang => .hang
  | _ => .ok ()

namespace ChunkTask

def workerAfter (task : ChunkTask) : Option TaskResult → ReadWorker
  | some r => r.2
  | none => task.worker

def sbufAfter (task : ChunkTask) : Option TaskResult → Bytes
  | some (.ok bytes, _) => bytes
  | _ => task.sbuf

end ChunkTask

namespace Plan

variable (plan : Plan) (results : List (Option TaskResult))

/-- The workers after the tasks. -/
def workersAfter : List ReadWorker :=
  List.zipWith ChunkTask.workerAfter plan.tasks results ++ plan.w

/-- The slices of the tasks and the rest of the buffer. -/
def bufAfter : Bytes :=
  (List.zipWith ChunkTask.sbufAfter plan.tasks results).flatten ++ plan.buf

end Plan

namespace E01Reader

variable (build : Build) (zlib : Zlib) (sources : ℕ → WorkerSource)
  (reader : E01Reader)

/-- The end of a read: the workers go back to the pool, also when a task has
failed, but a panic drops them. -/
def finish (plan : Plan) (pool : List ReadWorker) (bufBeg : ℕ) (rest : Bytes)
    (results : List (Option TaskResult)) (pick : ℕ) : ReadResult :=
  let pool' := pool ++ plan.workersAfter results
  match settle pick (results.filterMap fun r => r.map Prod.fst) with
  | .ok _ =>
      (do
        let readLen ← build.sub plan.offset bufBeg
        pure (readLen, plan.bufAfter results ++ rest), pool')
  | .error e => (.error e, pool')
  | .panic fault => (.panic fault, pool)
  | .hang => (.hang, pool)

def runTasks (plan : Plan) (pool : List ReadWorker) (bufBeg : ℕ)
    (rest : Bytes) : Thread SharedCache ReadResult :=
  let run :=
    if reader.options.parallelChunkReads ∧ 1 < plan.tasks.length then
      reader.runParallel build zlib sources plan.tasks
    else reader.runSerial build zlib sources plan.tasks
  run.bind fun results => .choose fun pick =>
    .done (finish build plan pool bufBeg rest results pick)

/-- With an I/O log, the chunks of the read are looked up once more. -/
def traced (pool : List ReadWorker) (beg n : ℕ)
    (run : Thread SharedCache ReadResult) : Thread SharedCache ReadResult :=
  if reader.options.tracing ∧ reader.options.decodedChunkCache then
    .lock (fun cache => .new (touchAll beg n cache))
      (.done (.panic .poisoned, pool)) fun _ => run
  else run

/-- Go on with a value, or end the read. -/
def proceed {α : Type} (pool : List ReadWorker) (x : Outcome ReadError α)
    (next : α → Thread SharedCache ReadResult) :
    Thread SharedCache ReadResult :=
  match x with
  | .ok a => next a
  | .error e => .done (.error e, pool)
  | .panic fault => .done (.panic fault, pool)
  | .hang => .done (.hang, pool)

/-- What a read does once its chunks are known.  A panic drops the workers
which it has taken from the pool. -/
def readChunks (pool : List ReadWorker) (offset bufEnd : ℕ)
    (buf rest : Bytes) (n : ℕ) : Thread SharedCache ReadResult :=
  proceed (pool.take (pool.length - n)) (reader.checkoutWorkers build pool n)
    fun (workers, pool) => proceed pool
      (loop (reader.planBody build offset bufEnd) (buf.length + 1)
        { offset, buf, w := workers, tasks := [] })
      fun plan => reader.runTasks build zlib sources plan pool offset rest

def readAtOffset (pool : List ReadWorker) (offset : ℕ) (buf : Bytes) :
    Thread SharedCache ReadResult :=
  if reader.imageSize < offset then
    .done (.error (.ofKind (.offsetBeyondEnd offset reader.imageSize)), pool)
  else
    proceed pool (reader.limitBuf build offset buf) fun limited =>
      proceed pool (build.add offset limited.length) fun bufEnd =>
        proceed pool (reader.chunkRange build offset bufEnd)
          fun (beg, end_) =>
            proceed pool (build.sub end_ beg) fun n =>
              reader.traced pool beg n (reader.readChunks build zlib sources
                pool offset bufEnd limited (buf.drop limited.length) n)

end E01Reader

end E01
end ImageReader
