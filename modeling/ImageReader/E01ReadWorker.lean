import ImageReader.ByteOrder
import ImageReader.Interleave
import ImageReader.Machine
import Mathlib.Data.List.AList

/-!
# Reading a chunk of an E01 image

A `ReadWorker` decodes one chunk at a time.  Its decoder owns the buffer into
which stored bytes are read; every read moves the buffer out of the decoder
and is to move it back.  The decoded chunks may be kept in a cache which the
workers of a reader share; that cache is the state of a thread, and each time
its lock is taken is one atomic step.  A chunk found in the cache is copied
while the lock is held, and a panic there poisons it.

The zlib decoder is a parameter.  It sees the whole buffer, not only the bytes
of the chunk, since it stops where its stream does.
-/

namespace ImageReader
namespace E01

structure Chunk where
  segment : ℕ
  dataOffset : ℕ
  endOffset : ℕ
  compressed : Bool
  deriving DecidableEq, Repr

inductive CorruptChunkPolicy where
  | error
  | zero
  | rawIfPossible
  deriving DecidableEq, Repr

inductive ReadErrorKind where
  | offsetBeyondEnd (offset imageEnd : ℕ)
  | ioError (code : ℕ)
  | tooShort (chunk length : ℕ)
  | badChecksum (chunk calculated expected : ℕ)
  | decompressionFailed (chunk code : ℕ)
  | badChunkBounds (chunk dataOffset endOffset : ℕ)
  deriving DecidableEq, Repr

/-- `read_exact` of a zlib decoder on a buffer. -/
structure Zlib where
  readExact : Bytes → ℕ → Except ℕ Bytes
  length_eq : ∀ buffer len out,
    readExact buffer len = .ok out → out.length = len

/-- Where the stored bytes come from.  A failed read leaves anything in the
buffer it was given. -/
structure WorkerSource where
  read : ℕ → ℕ → Except ℕ Bytes
  length_eq : ∀ off len data, read off len = .ok data → data.length = len
  scratch : ℕ → Bytes → Bytes
  length_scratch : ∀ off buf, (scratch off buf).length = buf.length

/-- The published Adler-32 checksum, for the one of `simd_adler32`. -/
def adler32 (bytes : Bytes) : ℕ :=
  let (a, b) := bytes.foldl
    (fun (a, b) byte =>
      ((a + byte.toNat) % 65521, (b + (a + byte.toNat) % 65521) % 65521))
    (1, 0)
  b * 65536 + a

/-! ## The cache of decoded chunks -/

structure DecodedChunkCache where
  capacity : ℕ
  chunks : AList fun _ : ℕ => Bytes
  lru : List ℕ

namespace DecodedChunkCache

def new (capacity : ℕ) : DecodedChunkCache := ⟨capacity, ∅, []⟩

/-- `lru.retain(|idx| *idx != chunk_index); lru.push_back(chunk_index)` -/
def touch (lru : List ℕ) (chunkIndex : ℕ) : List ℕ :=
  lru.filter (· ≠ chunkIndex) ++ [chunkIndex]

def get (cache : DecodedChunkCache) (chunkIndex : ℕ) :
    Option Bytes × DecodedChunkCache :=
  match cache.chunks.lookup chunkIndex with
  | none => (none, cache)
  | some chunk => (some chunk, { cache with lru := touch cache.lru chunkIndex })

/-- The loop which drops the least recently used chunks. -/
def evict (capacity : ℕ) (chunks : AList fun _ : ℕ => Bytes) :
    List ℕ → AList (fun _ : ℕ => Bytes) × List ℕ
  | [] => (chunks, [])
  | evicted :: lru =>
      if capacity < chunks.keys.length then
        evict capacity (chunks.erase evicted) lru
      else (chunks, evicted :: lru)

def insert (cache : DecodedChunkCache) (chunkIndex : ℕ) (chunk : Bytes) :
    DecodedChunkCache :=
  if cache.capacity = 0 then cache
  else
    let lru :=
      if (cache.chunks.lookup chunkIndex).isSome then
        cache.lru.filter (· ≠ chunkIndex)
      else cache.lru
    let (chunks, lru) := evict cache.capacity
      (cache.chunks.insert chunkIndex chunk) (lru ++ [chunkIndex])
    { cache with chunks, lru }

end DecodedChunkCache

/-- `Mutex<DecodedChunkCache>` -/
abbrev SharedCache : Type := Mutex DecodedChunkCache

/-! ## Workers -/

/-- `buffer` is what the cursor of the decoder holds. -/
structure ReadWorker where
  chunkSize : ℕ
  imageEnd : ℕ
  corruptChunkPolicy : CorruptChunkPolicy
  buffer : Bytes
  deriving DecidableEq, Repr

/-- What a method of a worker does: its result, and the worker after it. -/
def Work (α : Type) : Type :=
  ReadWorker → Outcome ReadErrorKind α × ReadWorker

namespace Work

variable {α β : Type}

def lift (x : Outcome ReadErrorKind α) : Work α := fun worker => (x, worker)

def bind (x : Work α) (f : α → Work β) : Work β := fun worker =>
  match x worker with
  | (.ok a, worker') => f a worker'
  | (.error e, worker') => (.error e, worker')
  | (.panic fault, worker') => (.panic fault, worker')
  | (.hang, worker') => (.hang, worker')

instance : Monad Work where
  pure a := lift (.ok a)
  bind := bind

/-- Take the buffer out of the decoder. -/
def takeBuffer : Work Bytes := fun worker =>
  (.ok worker.buffer, { worker with buffer := [] })

/-- Give a buffer to the decoder. -/
def giveBuffer (buffer : Bytes) : Work Unit := fun worker =>
  (.ok (), { worker with buffer })

variable {f : α → Work β} {worker worker' : ReadWorker}

@[simp] theorem pure_apply (a : α) :
    (pure a : Work α) worker = (.ok a, worker) := rfl

@[simp] theorem lift_apply (x : Outcome ReadErrorKind α) :
    lift x worker = (x, worker) := rfl

@[simp] theorem lift_ok_bind (a : α) :
    (lift (.ok a) >>= f) worker = f a worker := rfl

@[simp] theorem lift_error_bind (e : ReadErrorKind) :
    (lift (.error e : Outcome ReadErrorKind α) >>= f) worker =
      (.error e, worker) := rfl

@[simp] theorem lift_panic_bind (fault : Fault) :
    (lift (.panic fault : Outcome ReadErrorKind α) >>= f) worker =
      (.panic fault, worker) := rfl

@[simp] theorem takeBuffer_bind {f : Bytes → Work β} :
    (takeBuffer >>= f) worker =
      f worker.buffer { worker with buffer := [] } := rfl

@[simp] theorem giveBuffer_bind {f : Unit → Work β} (buffer : Bytes) :
    (giveBuffer buffer >>= f) worker = f () { worker with buffer } := rfl

theorem bind_of_ok {x : Work α} {a : α} (h : x worker = (.ok a, worker')) :
    (x >>= f) worker = f a worker' := by
  change bind x f worker = f a worker'
  simp [bind, h]

theorem bind_of_error {x : Work α} {e : ReadErrorKind}
    (h : x worker = (.error e, worker')) :
    (x >>= f) worker = (.error e, worker') := by
  change bind x f worker = (.error e, worker')
  simp [bind, h]

theorem bind_of_panic {x : Work α} {fault : Fault}
    (h : x worker = (.panic fault, worker')) :
    (x >>= f) worker = (.panic fault, worker') := by
  change bind x f worker = (.panic fault, worker')
  simp [bind, h]

theorem bind_fst (x : Work α) :
    ((x >>= f) worker).1 =
      (x worker).1 >>= fun a => (f a (x worker).2).1 := by
  change (bind x f worker).1 = _
  unfold bind
  cases x worker with
  | mk r worker' => cases r <;> rfl

end Work

namespace ReadWorker

/-- No vector is longer than `isize::MAX` bytes. -/
def new {ε : Type} (build : Build) (chunkSize imageEnd : ℕ)
    (corruptChunkPolicy : CorruptChunkPolicy) : Outcome ε ReadWorker := do
  let len ← build.add chunkSize 4
  if isizeMax < len then .panic .capacityOverflow
  else
    pure { chunkSize, imageEnd, corruptChunkPolicy,
           buffer := List.replicate len 0 }

/-- `src.read(off, &mut v[..len])`: the answer, and `v` after it. -/
def readInto (src : WorkerSource) (off : ℕ) (v : Bytes) (len : ℕ) :
    Except ReadErrorKind Bytes × Bytes :=
  match src.read off len with
  | .ok data => (.ok data, data ++ v.drop len)
  | .error code =>
      (.error (.ioError code), src.scratch off (v.take len) ++ v.drop len)

section Reads

variable (zlib : Zlib) (build : Build) (src : WorkerSource)

def readCompressedRead (chunkOff chunkLen : ℕ) : Work Unit := do
  let v ← Work.takeBuffer
  let _ ← Work.lift (Slice.range v 0 chunkLen)
  let (r, v) := readInto src chunkOff v chunkLen
  Work.giveBuffer v
  let _ ← Work.lift (.ofExcept r)

def readCompressedDecompressFull (chunkIndex decodedLen : ℕ) : Work Bytes :=
  fun worker =>
    (match zlib.readExact worker.buffer decodedLen with
      | .ok out => .ok out
      | .error code =>
          match worker.corruptChunkPolicy with
          | .error => .error (.decompressionFailed chunkIndex code)
          | .zero | .rawIfPossible => .ok (List.replicate decodedLen 0),
      worker)

/-- The length of the decoded chunk, which is shorter at the image end. -/
def decodedLen (chunkIndex : ℕ) : Work ℕ := fun worker =>
  (do
    let chunkBeg ← build.mul chunkIndex worker.chunkSize
    let rest ← build.sub worker.imageEnd chunkBeg
    pure (min rest worker.chunkSize),
  worker)

/-- `buf.copy_from_slice(&payload[beg_in_chunk..end_in_chunk])` -/
def copyOut (buf payload : Bytes) (begInChunk endInChunk : ℕ) :
    Outcome ReadErrorKind Bytes := do
  let slice ← Slice.range payload begInChunk endInChunk
  Slice.copyFrom buf slice

/-- The steps in which a compressed chunk is decoded. -/
def decodeCompressed (chunkIndex chunkOff chunkLen : ℕ) : Work Bytes := do
  let len ← decodedLen build chunkIndex
  readCompressedRead src chunkOff chunkLen
  readCompressedDecompressFull zlib chunkIndex len

def readCompressed (chunkIndex chunkOff chunkLen : ℕ) (buf : Bytes)
    (begInChunk endInChunk : ℕ) : Work Bytes := do
  let decoded ← decodeCompressed zlib build src chunkIndex chunkOff chunkLen
  Work.lift (copyOut buf decoded begInChunk endInChunk)

def verifyUncompressedPayload (policy : CorruptChunkPolicy)
    (chunkIndex : ℕ) (rawData : Bytes) : Except ReadErrorKind Bytes :=
  if rawData.length < 5 then .error (.tooShort chunkIndex rawData.length)
  else
    let crcStored := fromLE (rawData.drop (rawData.length - 4))
    let out := rawData.take (rawData.length - 4)
    let crc := adler32 out
    if crc ≠ crcStored then
      match policy with
      | .error => .error (.badChecksum chunkIndex crc crcStored)
      | .zero => .ok (List.replicate out.length 0)
      | .rawIfPossible => .ok out
    else .ok out

/-- The answer of the source is unwrapped, and the payload verified, while the
buffer is out of the decoder. -/
def readUncompressed (chunkIndex chunkOff chunkLen : ℕ) (buf : Bytes)
    (begInChunk endInChunk : ℕ) : Work Bytes := fun worker =>
  (do
    let v ← Work.takeBuffer
    let _ ← Work.lift (Slice.range v 0 chunkLen)
    let (r, v) := readInto src chunkOff v chunkLen
    let rawData ← Work.lift (.ofExcept r)
    let out ← Work.lift (.ofExcept
      (verifyUncompressedPayload worker.corruptChunkPolicy chunkIndex rawData))
    let buf ← Work.lift (copyOut buf out begInChunk endInChunk)
    Work.giveBuffer v
    pure buf : Work Bytes) worker

/-- A chunk may not be longer than a full chunk and its checksum. -/
def checkedChunkLen (worker : ReadWorker) (chunk : Chunk) (chunkIndex : ℕ) :
    Outcome ReadErrorKind ℕ :=
  if chunk.dataOffset ≤ chunk.endOffset then do
    let limit ← build.add worker.chunkSize 4
    if chunk.endOffset - chunk.dataOffset ≤ limit then
      pure (chunk.endOffset - chunk.dataOffset)
    else
      .error (.badChunkBounds chunkIndex chunk.dataOffset chunk.endOffset)
  else .error (.badChunkBounds chunkIndex chunk.dataOffset chunk.endOffset)

def read (chunk : Chunk) (chunkIndex : ℕ) (buf : Bytes)
    (begInChunk endInChunk : ℕ) : Work Bytes := fun worker =>
  (do
    let chunkLen ← Work.lift (checkedChunkLen build worker chunk chunkIndex)
    if chunk.compressed then
      readCompressed zlib build src chunkIndex chunk.dataOffset chunkLen buf
        begInChunk endInChunk
    else
      readUncompressed src chunkIndex chunk.dataOffset chunkLen buf
        begInChunk endInChunk : Work Bytes) worker

/-- The steps in which `read_uncompressed_cached` decodes a chunk: the raw data
goes to a buffer of its own. -/
def decodeUncompressed (chunkIndex chunkOff chunkLen : ℕ) : Work Bytes :=
  fun worker =>
    (do
      let rawData ← Work.lift
        ((Outcome.ofExcept (src.read chunkOff chunkLen)).mapError .ioError)
      Work.lift (.ofExcept (verifyUncompressedPayload
        worker.corruptChunkPolicy chunkIndex rawData)) : Work Bytes) worker

/-- The cache after a lookup, which copies a chunk that it finds. -/
def lookUp (buf : Bytes) (chunkIndex begInChunk endInChunk : ℕ)
    (cache : DecodedChunkCache) : SharedCache :=
  let (hit, cache') := cache.get chunkIndex
  match hit with
  | some chunk => ⟨cache', (copyOut buf chunk begInChunk endInChunk).isPanic⟩
  | none => .new cache'

/-- Serve a chunk from the cache, or decode it and put it there.  The lock is
taken for the lookup, with the copy of what it finds, and for the insertion,
not in between. -/
def readThroughCache (decode : Work Bytes) (chunkIndex : ℕ) (buf : Bytes)
    (begInChunk endInChunk : ℕ) (worker : ReadWorker) :
    Thread SharedCache (Outcome ReadErrorKind Bytes × ReadWorker) :=
  .lock (lookUp buf chunkIndex begInChunk endInChunk)
    (.done (.panic .poisoned, worker)) fun cache =>
    match (cache.get chunkIndex).1 with
    | some chunk => .done (copyOut buf chunk begInChunk endInChunk, worker)
    | none =>
        match decode worker with
        | (.ok payload, worker') =>
            match copyOut buf payload begInChunk endInChunk with
            | .ok buf' =>
                .lock (fun cache => .new (cache.insert chunkIndex payload))
                  (.done (.panic .poisoned, worker'))
                  fun _ => .done (.ok buf', worker')
            | failed => .done (failed, worker')
        | (.error e, worker') => .done (.error e, worker')
        | (.panic fault, worker') => .done (.panic fault, worker')
        | (.hang, worker') => .done (.hang, worker')

def readUncompressedCached (chunkIndex chunkOff chunkLen : ℕ) :=
  readThroughCache (decodeUncompressed src chunkIndex chunkOff chunkLen)
    chunkIndex

def readCompressedCached (chunkIndex chunkOff chunkLen : ℕ) :=
  readThroughCache
    (decodeCompressed zlib build src chunkIndex chunkOff chunkLen) chunkIndex

def readCached (chunk : Chunk) (chunkIndex : ℕ) (buf : Bytes)
    (begInChunk endInChunk : ℕ) (worker : ReadWorker) :
    Thread SharedCache (Outcome ReadErrorKind Bytes × ReadWorker) :=
  match checkedChunkLen build worker chunk chunkIndex with
  | .ok chunkLen =>
      if chunk.compressed then
        readCompressedCached zlib build src chunkIndex chunk.dataOffset
          chunkLen buf begInChunk endInChunk worker
      else
        readUncompressedCached src chunkIndex chunk.dataOffset chunkLen buf
          begInChunk endInChunk worker
  | .error e => .done (.error e, worker)
  | .panic fault => .done (.panic fault, worker)
  | .hang => .done (.hang, worker)

end Reads

end ReadWorker

end E01
end ImageReader
