import ImageReader.E01Semantics

/-!
# The fast paths of an E01 reader

With a decoder that depends on the stored bytes alone, the cache of decoded
chunks and the order of the tasks make no difference: a run of reads gives,
read by read, what the plain reader gives, which has no cache, runs its tasks
in order and takes a fresh worker for each chunk.  A payload which is shorter
than the range of a read is excepted: its task panics, when that is seen
depends on the order, and a cached one poisons the lock of the cache.
-/

namespace ImageReader
namespace E01

variable {build : Build} {zlib : Zlib} {sources : ℕ → WorkerSource}
  {env : SharedCache → SharedCache → Prop} {reader : E01Reader}
  {state : ReaderState} {offset : ℕ} {buf : Bytes}

/-- What the decoder makes of a compressed chunk depends on its stored bytes
alone. -/
def DependsOnStored (zlib : Zlib) (sources : ℕ → WorkerSource)
    (reader : E01Reader) : Prop :=
  ∀ i chunk data, reader.chunks[i]? = some chunk → chunk.compressed = true →
    (sources chunk.segment).read chunk.dataOffset chunk.storedLen = .ok data →
    ∀ leftover leftover',
      zlib.readExact (data ++ leftover) ((reader.coding zlib).chunkLen i) =
        zlib.readExact (data ++ leftover') ((reader.coding zlib).chunkLen i)

theorem DependsOnStored.payload_eq (h : DependsOnStored zlib sources reader)
    {i : ℕ} {chunk : Chunk} (hchunk : reader.chunks[i]? = some chunk)
    (leftover leftover' : Bytes) :
    (reader.coding zlib).payload (sources chunk.segment) chunk i leftover =
      (reader.coding zlib).payload (sources chunk.segment) chunk i
        leftover' := by
  cases hcompressed : chunk.compressed with
  | false => exact Coding.payload_uncompressed hcompressed leftover leftover'
  | true =>
      unfold Coding.payload
      split_ifs with hbounded
      · cases hread : (sources chunk.segment).read chunk.dataOffset
            chunk.storedLen with
        | error code => rfl
        | ok data =>
            simp only
            unfold Coding.decompressed
            rw [show (reader.coding zlib).zlib = zlib from rfl,
              h i chunk data hchunk hcompressed hread leftover leftover']
      · rfl

theorem DependsOnStored.decodes_or_fails
    (h : DependsOnStored zlib sources reader) {i : ℕ} {chunk : Chunk}
    (hchunk : reader.chunks[i]? = some chunk) :
    (∃ payload, reader.Decodes zlib sources i payload) ∨
      reader.FailsToDecode zlib sources i := by
  cases hpayload : (reader.coding zlib).payload (sources chunk.segment) chunk i
      [] with
  | ok payload =>
      exact Or.inl ⟨payload, chunk, hchunk, fun leftover =>
        (h.payload_eq hchunk leftover []).trans hpayload⟩
  | error e =>
      exact Or.inr ⟨chunk, hchunk, fun leftover =>
        ⟨e, (h.payload_eq hchunk leftover []).trans hpayload⟩⟩

/-! ## The plain reader -/

/-- No cache, no I/O log, one task after the other. -/
def E01Reader.plain (reader : E01Reader) : E01Reader :=
  { reader with
    options := { reader.options with
      decodedChunkCache := false, parallelChunkReads := false,
      tracing := false } }

/-- Two results say the same: the same bytes, or both an error. -/
def Agree (r r' : Outcome ReadError (ℕ × Bytes)) : Prop :=
  (∀ v, r = .ok v ↔ r' = .ok v) ∧
    ((∃ e, r = .error e) ↔ ∃ e, r' = .error e)

/-- What a read within the image means, when all its chunks decode or fail. -/
def E01Reader.Means (zlib : Zlib) (sources : ℕ → WorkerSource)
    (reader : E01Reader) (offset n : ℕ) (rest : Bytes)
    (r : Outcome ReadError (ℕ × Bytes)) : Prop :=
  (∀ P, (∀ i, reader.Touched offset n i →
      reader.Decodes zlib sources i (P i) ∧
        reader.rangeEnd offset n i ≤ (P i).length) →
    r = .ok (n, imageBytes P reader.chunkSize offset (offset + n) ++ rest)) ∧
  (reader.SomeFails zlib sources offset n → ∃ e, r = .error e)

/-- No payload which a read touches ends before the range of the read does. -/
def E01Reader.NoShortPayload (zlib : Zlib) (sources : ℕ → WorkerSource)
    (reader : E01Reader) (offset len : ℕ) : Prop :=
  ∀ i chunk, reader.Touched offset (reader.readLen offset len) i →
    reader.chunks[i]? = some chunk →
    ¬ (reader.coding zlib).ShortPayload (sources chunk.segment) chunk
      (reader.rangeEnd offset (reader.readLen offset len) i)

theorem Opened.touched (zlib : Zlib) (hopened : Opened reader)
    (hle : offset ≤ reader.imageSize) {len i : ℕ}
    (hi : reader.Touched offset (reader.readLen offset len) i) :
    (∃ chunk, reader.chunks[i]? = some chunk) ∧
      reader.rangeEnd offset (reader.readLen offset len) i ≤
        (reader.coding zlib).chunkLen i := by
  obtain ⟨-, hlow, -⟩ := hi
  have hend : offset + reader.readLen offset len ≤ reader.imageSize := by
    unfold E01Reader.readLen
    omega
  have hlt : i < reader.chunks.length := by
    have hcovered := hopened.covered
    exact Nat.lt_of_mul_lt_mul_right (a := reader.chunkSize) (by omega)
  refine ⟨⟨_, List.getElem?_eq_getElem hlt⟩, ?_⟩
  unfold E01Reader.rangeEnd Coding.chunkLen E01Reader.coding
  rw [Nat.succ_mul]
  simp only
  omega

theorem agree_of_means (hdepends : DependsOnStored zlib sources reader)
    (hlong : reader.NoShortPayload zlib sources offset buf.length)
    (hopened : Opened reader) (hle : offset ≤ reader.imageSize)
    {rest : Bytes} {r r' : Outcome ReadError (ℕ × Bytes)}
    (h : reader.Means zlib sources offset (reader.readLen offset buf.length)
      rest r)
    (h' : reader.Means zlib sources offset (reader.readLen offset buf.length)
      rest r') : Agree r r' := by
  set n := reader.readLen offset buf.length with hn
  by_cases hsome : reader.SomeFails zlib sources offset n
  · obtain ⟨e, rfl⟩ := h.2 hsome
    obtain ⟨e', rfl⟩ := h'.2 hsome
    exact ⟨by simp, by simp⟩
  · have hpayload : ∀ i, ∃ payload, reader.Touched offset n i →
        reader.Decodes zlib sources i payload ∧
          reader.rangeEnd offset n i ≤ payload.length := by
      intro i
      by_cases hi : reader.Touched offset n i
      · obtain ⟨⟨chunk, hchunk⟩, hrange⟩ := hopened.touched zlib hle hi
        rcases hdepends.decodes_or_fails hchunk with
          ⟨payload, hdecodes⟩ | hfails
        · refine ⟨payload, fun _ => ⟨hdecodes, ?_⟩⟩
          by_contra hshort
          obtain ⟨chunk', hchunk', hpayload⟩ := hdecodes
          refine hlong i chunk' hi hchunk' ?_
          exact (Coding.shortPayload_iff hrange).mpr
            ⟨payload, hpayload [], Nat.lt_of_not_le hshort⟩
        · exact absurd ⟨i, hi, hfails⟩ hsome
      · exact ⟨[], fun hi' => absurd hi' hi⟩
    choose P hP using hpayload
    rw [h.1 P hP, h'.1 P hP]
    exact ⟨fun _ => Iff.rfl, Iff.rfl⟩

/-! ## One read -/

/-- What a read leaves: a result of which `P` holds, and good workers. -/
def ReadDone (reader : E01Reader) (P : Outcome ReadError (ℕ × Bytes) → Prop)
    (r : ReadResult) : Prop :=
  P r.1 ∧ Lendable reader r.2

theorem lendable_take {pool : List ReadWorker} (h : Lendable reader pool)
    (n : ℕ) : Lendable reader (pool.take n) :=
  fun worker hworker => h worker (List.mem_of_mem_take hworker)

/-- Where a worker has been made, others can be. -/
theorem Lendable.hasWorkers_iff {pool : List ReadWorker}
    (h : Lendable reader pool) (n : ℕ) :
    reader.HasWorkers pool n ↔ n = 0 ∨ reader.chunkSize + 4 ≤ isizeMax := by
  constructor
  · rintro (hle | hmade)
    · cases pool with
      | nil => exact Or.inl (Nat.le_zero.mp hle)
      | cons worker pool => exact Or.inr (h worker List.mem_cons_self).1.made
    · exact Or.inr hmade
  · rintro (rfl | hmade)
    · exact Or.inl (Nat.zero_le _)
    · exact Or.inr hmade

theorem CutRead.means {pool : List ReadWorker} {n : ℕ}
    {workers : List ReadWorker} {plan : Plan}
    (h : CutRead build zlib sources reader pool offset buf n workers plan)
    (hpool : Lendable reader pool)
    (hno : reader.NoCrash zlib sources pool offset n) :
    (reader.readAtOffset build zlib sources pool offset buf).Keeps
      (reader.Kept zlib sources True)
      (ReadDone reader (reader.Means zlib sources offset n (buf.drop n))) := by
  refine (h.keeps fun _ => hno).mono ?_
  rintro r (hnot | ⟨results, pick, hran, rfl⟩)
  · exact absurd trivial hnot.1
  refine ⟨⟨fun P hP => h.decodes hno hP pick hran _ _,
    fun hsome => h.fails hno hsome pick hran _ _⟩, ?_⟩
  refine finish_lendable build offset _ pick hran (lendable_take hpool _)
    h.ready ?_
  rw [h.planned.w_eq]
  exact fun worker hworker =>
    h.lendable worker (List.mem_of_mem_drop hworker)

/-- Where the end of a chunk is no word, or the buffer of a worker is too long
for a vector, the read panics. -/
theorem readAtOffset_overflow {pool : List ReadWorker}
    (hopened : Opened reader) (hpool : Lendable reader pool)
    (hle : offset ≤ reader.imageSize) (hsize : offset + buf.length < wordLimit)
    {n : ℕ} (hn : n = reader.readLen offset buf.length)
    (hover : ¬ (reader.ChunksFit offset n ∧
      reader.HasWorkers pool (reader.workerCount offset n))) :
    (reader.readAtOffset build zlib sources pool offset buf).Keeps
      (reader.Kept zlib sources True)
      (ReadDone reader fun r => ¬ r.Returns) := by
  have hpanic : ∀ fault pool', Lendable reader pool' →
      ReadDone reader (fun r => ¬ r.Returns) (.panic fault, pool') :=
    fun fault pool' hpool' => ⟨Outcome.not_returns_panic fault, hpool'⟩
  by_cases henough : reader.HasWorkers pool (reader.workerCount offset n)
  · have hlength : (buf.take n).length = n := hn ▸ readLen_le reader offset buf
    obtain ⟨workers, -, -, hread, heq⟩ := readAtOffset_eq build zlib sources
      buf hopened hle hsize hn rfl henough
    obtain ⟨fault, hloop⟩ := (plan_loop build hread).2 (by
      rw [hlength]
      exact fun hfit => hover ⟨hfit, henough⟩)
    rw [heq, hloop]
    exact traced_keeps _ _ (fun _ => hpanic _ _ hpool)
      (hpanic _ _ (lendable_take hpool _))
  · rw [readAtOffset_eq_panic build zlib sources hopened hle hsize hn rfl
      henough]
    exact traced_keeps _ _ (fun _ => hpanic _ _ hpool)
      (hpanic _ _ (lendable_take hpool _))

def E01Reader.withOptions (reader : E01Reader) (options : E01ReaderOptions) :
    E01Reader :=
  { reader with options }

theorem Opened.withOptions (h : Opened reader) (options : E01ReaderOptions) :
    Opened (reader.withOptions options) :=
  ⟨h.chunkSize_pos, h.chunkSize_lt, h.imageSize_lt, h.covered, h.segment_lt⟩

/-- Two reads which do not return agree. -/
theorem agree_of_not_returns {r r' : Outcome ReadError (ℕ × Bytes)}
    (hr : ¬ r.Returns) (hr' : ¬ r'.Returns) : Agree r r' := by
  constructor
  · intro v
    constructor
    · rintro rfl
      exact absurd (Outcome.returns_ok v) hr
    · rintro rfl
      exact absurd (Outcome.returns_ok v) hr'
  · constructor
    · rintro ⟨e, rfl⟩
      exact absurd (Outcome.returns_error e) hr
    · rintro ⟨e, rfl⟩
      exact absurd (Outcome.returns_error e) hr'

/-- A buffer that reaches past the last word: the sum panics, or wraps around.
Then the read gives no bytes, or it panics for want of workers. -/
theorem readAtOffset_wrapped (build : Build) (zlib : Zlib)
    (sources : ℕ → WorkerSource) (hopened : Opened reader)
    (hle : offset ≤ reader.imageSize) (hbuf : buf.length < wordLimit)
    (hsize : ¬ offset + buf.length < wordLimit) :
    ∃ P : Outcome ReadError (ℕ × Bytes) → Prop,
      (∀ r r', P r → P r' → Agree r r') ∧
      ∀ (options : E01ReaderOptions) (pool : List ReadWorker),
        Lendable (reader.withOptions options) pool →
        ((reader.withOptions options).readAtOffset build zlib sources pool
            offset buf).Keeps
          ((reader.withOptions options).Kept zlib sources True)
          (ReadDone (reader.withOptions options) P) := by
  cases build with
  | dev =>
      refine ⟨fun r => ¬ r.Returns, fun r r' => agree_of_not_returns, ?_⟩
      intro options pool hpool
      have hlimit : (reader.withOptions options).limitBuf .dev offset buf =
          .panic .addOverflow := by
        unfold E01Reader.limitBuf
        rw [Build.dev_add hsize]
        rfl
      have hwithin : ¬ (reader.withOptions options).imageSize < offset :=
        hle.not_gt
      unfold E01Reader.readAtOffset
      rw [if_neg hwithin, hlimit]
      exact ⟨Outcome.not_returns_panic _, hpool⟩
  | release =>
      have hpos := hopened.chunkSize_pos
      obtain ⟨bufEnd, hwrap, hback⟩ : ∃ bufEnd,
          (offset + buf.length) % wordLimit = bufEnd ∧ ¬ offset ≤ bufEnd :=
        ⟨_, wrapped_sum (Nat.le_of_not_lt hsize)
            (hle.trans_lt hopened.imageSize_lt) hbuf,
          (wrapped_sum_lt (Nat.le_of_not_lt hsize) hbuf (le_refl offset)).2⟩
      have hbufEndLt : bufEnd < wordLimit :=
        lt_trans (Nat.lt_of_not_le hback) (hle.trans_lt hopened.imageSize_lt)
      obtain ⟨n, hn⟩ := Build.release_sub_ok (ε := ReadError)
        (bufEnd / reader.chunkSize + min (bufEnd % reader.chunkSize) 1)
        (offset / reader.chunkSize)
      -- up to the workers
      have hread : ∀ (options : E01ReaderOptions) (pool : List ReadWorker),
          (reader.withOptions options).readAtOffset .release zlib sources pool
              offset buf =
            (reader.withOptions options).traced pool
              (offset / reader.chunkSize) n
              ((reader.withOptions options).readChunks .release zlib sources
                pool offset bufEnd buf (buf.drop buf.length) n) := by
        intro options pool
        have hrange : (reader.withOptions options).chunkRange .release offset
            bufEnd = .ok (offset / reader.chunkSize,
              bufEnd / reader.chunkSize + min (bufEnd % reader.chunkSize) 1) :=
          chunkRange_eq .release hpos hbufEndLt
        have hlimit : (reader.withOptions options).limitBuf .release offset
            buf = .ok buf := by
          have hend : ¬ (reader.withOptions options).imageSize < bufEnd :=
            Nat.not_lt.mpr ((Nat.lt_of_not_le hback).le.trans hle)
          unfold E01Reader.limitBuf
          rw [Build.release_add hsize, Outcome.ok_bind, hwrap, if_neg hend]
          rfl
        have hwithin : ¬ (reader.withOptions options).imageSize < offset :=
          hle.not_gt
        unfold E01Reader.readAtOffset
        rw [if_neg hwithin, hlimit]
        simp only [E01Reader.proceed]
        rw [Build.release_add hsize, hwrap]
        simp only
        rw [hrange]
        simp only
        rw [hn]
      by_cases hmade : n = 0 ∨ reader.chunkSize + 4 ≤ isizeMax
      · refine ⟨(· = .ok (0, buf)), ?_, ?_⟩
        · rintro r r' rfl rfl
          exact ⟨fun _ => Iff.rfl, Iff.rfl⟩
        intro options pool hpool
        obtain ⟨workers, hcheckout, -, hworkers⟩ := checkoutWorkers_eq .release
          (hopened.withOptions options) ((hpool.hasWorkers_iff n).mpr hmade)
        have hloop : loop ((reader.withOptions options).planBody .release offset
              bufEnd) (buf.length + 1)
              { offset, buf, w := workers, tasks := [] } =
            .ok { offset, buf, w := workers, tasks := [] } :=
          loop_done (if_neg fun hlt => hback (Nat.le_of_lt hlt))
        rw [hread]
        refine traced_keeps _ _ (fun hnot => absurd trivial hnot) ?_
        unfold E01Reader.readChunks
        rw [hcheckout]
        simp only [E01Reader.proceed]
        rw [hloop]
        have hnone : ∀ task ∈ ([] : List ChunkTask),
            ((reader.withOptions options).runChunkTask .release zlib sources
              task).Keeps ((reader.withOptions options).Kept zlib sources True)
              (TaskDone True zlib sources (reader.withOptions options)
                task) := by
          simp
        refine (runTasks_keeps hnone _).mono ?_
        rintro r ⟨results, pick, hran, rfl⟩
        obtain rfl : results = [] := List.length_eq_zero_iff.mp hran.length_eq
        refine ⟨?_, finish_lendable .release offset _ pick hran
          (lendable_take hpool _) (by simp) (lendable_of_lent hpool hworkers)⟩
        rw [finish_ok .release _ _ pick (le_refl offset) (by simp)]
        simp [Plan.bufAfter]
      · refine ⟨fun r => ¬ r.Returns, fun r r' => agree_of_not_returns, ?_⟩
        intro options pool hpool
        have hfew := mt (hpool.hasWorkers_iff n).mp hmade
        rw [hread]
        refine traced_keeps _ _ (fun hnot => absurd trivial hnot) ?_
        unfold E01Reader.readChunks
        rw [checkoutWorkers_panic .release (hopened.withOptions options) hfew]
        exact ⟨Outcome.not_returns_panic _, lendable_take hpool _⟩

/-- What is known of any read: of its result, and of the one of the plain
reader. -/
theorem reads_agree (build : Build) (hopened : Opened reader)
    (hcached : reader.options.decodedChunkCache = true)
    (hdepends : DependsOnStored zlib sources reader)
    (hbuf : buf.length < wordLimit)
    (hlong : offset ≤ reader.imageSize →
      reader.NoShortPayload zlib sources offset buf.length)
    {pool : List ReadWorker} (hpool : Lendable reader pool) :
    ∃ P P' : Outcome ReadError (ℕ × Bytes) → Prop,
      (reader.readAtOffset build zlib sources pool offset buf).Keeps
        (reader.Kept zlib sources True) (ReadDone reader P) ∧
      (reader.plain.readAtOffset build zlib sources [] offset buf).Keeps
        (reader.plain.Kept zlib sources True) (ReadDone reader.plain P') ∧
      ∀ r r', P r → P' r' → Agree r r' := by
  have hplain : Opened reader.plain := hopened.withOptions _
  have hnone : Lendable reader.plain [] := by simp [Lendable]
  by_cases hpast : reader.imageSize < offset
  · refine ⟨(· = .error (.ofKind (.offsetBeyondEnd offset reader.imageSize))),
      (· = .error (.ofKind (.offsetBeyondEnd offset reader.imageSize))),
      ?_, ?_, ?_⟩
    · unfold E01Reader.readAtOffset
      rw [if_pos hpast]
      exact ⟨rfl, hpool⟩
    · have hpast' : reader.plain.imageSize < offset := hpast
      unfold E01Reader.readAtOffset
      rw [if_pos hpast']
      exact ⟨rfl, hnone⟩
    · rintro r r' rfl rfl
      exact ⟨fun _ => Iff.rfl, Iff.rfl⟩
  have hle := Nat.le_of_not_lt hpast
  by_cases hsize : offset + buf.length < wordLimit
  swap
  · obtain ⟨P, hagree, hwrapped⟩ := readAtOffset_wrapped build zlib sources
      hopened hle hbuf hsize
    exact ⟨P, P, hwrapped reader.options pool hpool,
      hwrapped reader.plain.options [] hnone, hagree⟩
  set n := reader.readLen offset buf.length with hn
  by_cases hover : reader.ChunksFit offset n ∧
      reader.HasWorkers pool (reader.workerCount offset n)
  swap
  · have hover' : ¬ (reader.plain.ChunksFit offset n ∧
        reader.plain.HasWorkers [] (reader.workerCount offset n)) := by
      rw [hnone.hasWorkers_iff]
      rwa [hpool.hasWorkers_iff] at hover
    exact ⟨_, _, readAtOffset_overflow hopened hpool hle hsize hn hover,
      readAtOffset_overflow hplain hnone hle hsize hn hover',
      fun _ _ => agree_of_not_returns⟩
  obtain ⟨hfit, henough⟩ := hover
  have henough' : reader.plain.HasWorkers []
      (reader.plain.workerCount offset n) := by
    rw [hnone.hasWorkers_iff]
    exact (hpool.hasWorkers_iff _).mp henough
  obtain ⟨workers, plan, pool', -, -, hcut⟩ := exists_cutRead build zlib
    sources hopened hpool hle hsize hn hfit henough
  obtain ⟨workers', plan', pool'', -, -, hcut'⟩ := exists_cutRead build zlib
    sources hplain hnone hle hsize hn hfit henough'
  refine ⟨_, _, hcut.means hpool ?_, hcut'.means hnone ?_, ?_⟩
  · intro i chunk hi hchunk
    refine ⟨hlong hle i chunk hi hchunk, ?_⟩
    intro worker hworker hbounded
    have hmem := List.mem_of_mem_drop (List.mem_of_getElem? hworker)
    obtain ⟨hbelongs, hwhole⟩ := hpool worker hmem
    rw [← hbelongs.coding zlib] at hbounded
    exact (hwhole hcached).fits hbounded
  · intro i chunk hi hchunk
    refine ⟨hlong hle i chunk hi hchunk, ?_⟩
    intro worker hworker
    simp [E01Reader.lent] at hworker
  · exact fun r r' hr hr' =>
      agree_of_means hdepends (hlong hle) hopened hle hr hr'

/-! ## Runs of reads -/

/-- Each read of a run from the state agrees with the plain reader, in every
execution of it, and so do the reads that follow it. -/
def E01Reader.AgreesFrom (build : Build) (zlib : Zlib)
    (sources : ℕ → WorkerSource)
    (env : SharedCache → SharedCache → Prop) (reader : E01Reader) :
    List (ℕ × Bytes) → ReaderState → Prop
  | [], _ => True
  | (offset, buf) :: calls, state =>
      Thread.Always env state.decodedChunkCache
        (reader.readAtOffset build zlib sources state.workerPool offset buf)
        (fun r => Thread.Always Thread.alone
          ReaderState.new.decodedChunkCache
          (reader.plain.readAtOffset build zlib sources
            ReaderState.new.workerPool offset buf)
          fun plain => Agree r.1 plain.1) ∧
      ∀ r cache', Thread.Ends env state.decodedChunkCache
          (reader.readAtOffset build zlib sources state.workerPool offset buf)
          r cache' →
        AgreesFrom build zlib sources env reader calls ⟨r.2, cache'⟩

/-- A run of reads through the cache agrees with the plain reader, read by
read, as long as no read touches a payload that ends before its range, and none
has poisoned the cache before. -/
theorem fast_reads_agree (build : Build)
    (henv : reader.KeptBy zlib sources env)
    (hopened : Opened reader)
    (hcached : reader.options.decodedChunkCache = true)
    (hdepends : DependsOnStored zlib sources reader)
    (calls : List (ℕ × Bytes))
    (hcalls : ∀ call ∈ calls, call.2.length < wordLimit ∧
      (call.1 ≤ reader.imageSize →
        reader.NoShortPayload zlib sources call.1 call.2.length))
    (hclean : state.Clean zlib sources reader) :
    reader.AgreesFrom build zlib sources env calls state := by
  induction calls generalizing state with
  | nil => trivial
  | cons call calls ih =>
      obtain ⟨offset, buf⟩ := call
      obtain ⟨hbuf, hlong⟩ := hcalls _ List.mem_cons_self
      obtain ⟨P, P', hfast, hplain, hagree⟩ := reads_agree build hopened
        hcached hdepends hbuf hlong hclean.lendable
      constructor
      · refine Thread.always_of_keeps (henv True) hclean.kept
          (readAtOffset_live ..) (hfast.mono ?_)
        intro r hr
        exact Thread.always_of_keeps (fun _ _ h => h.elim)
          (Mutex.holds_new (remembers_new _)) (readAtOffset_live ..)
          (hplain.mono fun r' hr' => hagree _ _ hr.1 hr'.1)
      · intro r cache' hends
        obtain ⟨hcache', -, hpool'⟩ :=
          hends.keeps (henv True) hclean.kept hfast
        exact ih (fun call hcall => hcalls call (List.mem_cons_of_mem _ hcall))
          (E01Reader.Kept.clean hcache' hpool')

/-! ## Two readers of two chunks -/

/-- Chunks of two bytes: the first has a wrong checksum, and the payload of the
second is one byte short. -/
def shortChunkReader : E01Reader where
  chunks := [⟨0, 0, 5, false⟩, ⟨0, 5, 10, false⟩]
  chunkSize := 2
  imageSize := 4
  segmentPaths := ["image.E01"]
  options := ⟨.error, true, true, false⟩

/-- Side by side the tasks make the read panic, where the plain reader reports
the checksum. -/
theorem fast_read_panics_on_short_payload :
    Opened shortChunkReader ∧
    (∃ r cache', Thread.Ends Thread.alone ReaderState.new.decodedChunkCache
        (shortChunkReader.readAtOffset .release noStream
          (fun _ => twoChunkSource) [] 0 [0, 0, 0, 0]) r cache' ∧
      ¬ r.1.Returns) ∧
    ∃ pool, Thread.Ends Thread.alone ReaderState.new.decodedChunkCache
      (shortChunkReader.plain.readAtOffset .release noStream
        (fun _ => twoChunkSource) [] 0 [0, 0, 0, 0])
      (.error ⟨some "image.E01", .badChecksum 0 524296 0⟩, pool)
      ReaderState.new.decodedChunkCache := by
  have hopened : Opened shortChunkReader :=
    ⟨by decide, by decide, by decide, by decide, by decide⟩
  refine ⟨hopened, ?_, _, .head (.choose 0) .refl⟩
  have hfit : shortChunkReader.ChunksFit 0 4 := by
    rintro i ⟨-, hlt, -⟩
    simp only [shortChunkReader, wordLimit_eq] at hlt ⊢
    omega
  have hsize : 0 + ([0, 0, 0, 0] : Bytes).length < wordLimit := by decide
  obtain ⟨workers, plan, pool', -, -, hcut⟩ := exists_cutRead .release noStream
    (fun _ => twoChunkSource) hopened
    (by simp [Lendable] : Lendable shortChunkReader []) (Nat.zero_le _) hsize
    rfl hfit (Or.inr (by decide))
  refine hcut.crash rfl (remembers_new _) ?_
  intro hno
  refine (hno 1 ⟨0, 5, 10, false⟩ ⟨by decide, by decide, by decide⟩ rfl).1 ?_
  exact ⟨rfl, by decide, ⟨by decide, [7, 8, 0, 8, 0], rfl, fun _ => rfl⟩,
    by decide⟩

theorem fast_reads_agree_second_chunk :
    let reader : E01Reader :=
      { twoChunkReader with options := ⟨.error, true, true, false⟩ }
    reader.AgreesFrom .release noStream (fun _ => twoChunkSource) Thread.alone
      [(1, [0]), (1, [0])] ReaderState.new := by
  intro reader
  have hopened : Opened reader :=
    ⟨by decide, by decide, by decide, by decide, by decide⟩
  refine fast_reads_agree .release (keptBy_alone _ _ _) hopened rfl
    (fun _ _ _ _ _ _ _ _ => rfl) [(1, [0]), (1, [0])] ?_
    ReaderState.clean_new
  intro call hcall
  obtain rfl : call = (1, [0]) := by simpa using hcall
  refine ⟨by decide, fun _ => ?_⟩
  rintro i chunk ⟨-, hlt, hgt⟩ hchunk
  obtain rfl : i = 1 := by
    simp only [reader, twoChunkReader, E01Reader.readLen, List.length_singleton]
      at hlt hgt
    omega
  obtain rfl : (⟨0, 5, 10, false⟩ : Chunk) = chunk := by
    simpa [reader, twoChunkReader] using hchunk
  exact fun hshort => absurd hshort.2.2.2 (by decide)

end E01
end ImageReader
