import ImageReader.E01Content

/-!
# Reads which succeed leave whole workers

Without the cache of decoded chunks a task takes the buffer of its worker, and
loses it when the chunk is not what it should be.  A read that succeeds had no
such task: every worker it puts back has a buffer that fits any chunk, and so
the next read is as good as the first.
-/

namespace ImageReader
namespace E01

variable {build : Build} {zlib : Zlib} {sources : ℕ → WorkerSource}
  {reader : E01Reader} {offset : ℕ} {buf : Bytes}

/-- A task which has succeeded leaves a whole worker. -/
def LeavesWhole (_ : ChunkTask) (r : TaskResult) : Prop :=
  (∃ bytes, r.1 = .ok bytes) → Whole r.2

theorem not_losesBuffer_of_served {coding : Coding} {src : WorkerSource}
    {chunk : Chunk} {chunkIndex begInChunk endInChunk : ℕ}
    {leftover bytes : Bytes}
    (h : served (coding.payload src chunk chunkIndex leftover) begInChunk
      endInChunk = .ok bytes) :
    ¬ coding.LosesBuffer src chunk endInChunk := by
  rintro ⟨hraw, hbounded, hnot⟩
  refine hnot ((Coding.payload_uncompressed_iff hraw hbounded src chunkIndex
    leftover (endInChunk ≤ ·)).mp ?_)
  cases hpayload : coding.payload src chunk chunkIndex leftover with
  | error e =>
      rw [hpayload] at h
      simp [served] at h
  | ok payload =>
      rw [hpayload] at h
      simp only [served, cut] at h
      split_ifs at h with hend
      exact ⟨payload, rfl, hend⟩

theorem runChunkTask_leavesWhole {task : ChunkTask}
    (h : TaskReady reader task) (hwhole : Whole task.worker)
    (hlong : ¬ ShortTask zlib sources reader task) :
    (reader.runChunkTask build zlib sources task).Keeps
      (reader.Kept zlib sources True) (LeavesWhole task) := by
  by_cases hcached : reader.options.decodedChunkCache = true
  · exact (runChunkTask_keeps h fun _ => hlong).mono
      fun r hr _ => hr.whole hcached
  · obtain ⟨worker', hread, hkeeps, -⟩ := read_eq zlib build
      (sources task.chunk.segment) h.asked hwhole.fits
    unfold E01Reader.runChunkTask
    simp only
    rw [if_neg hcached]
    simp only [Thread.done_bind]
    rw [hread]
    rintro ⟨bytes, hbytes⟩
    refine (hkeeps ?_).whole hwhole
    exact not_losesBuffer_of_served (Outcome.mapError_eq_ok.mp hbytes)

/-! ## The pool after a read -/

/-- The workers of a pool are whole. -/
def AllWhole (pool : List ReadWorker) : Prop :=
  ∀ worker ∈ pool, Whole worker

theorem finish_allWhole {plan : Plan} {pool : List ReadWorker} {rest : Bytes}
    {results : List (Option TaskResult)} {pick : ℕ} {v : ℕ × Bytes}
    (hran : Ran LeavesWhole plan.tasks results)
    (htasks : ∀ task ∈ plan.tasks, Whole task.worker)
    (hpool : AllWhole pool) (hw : AllWhole plan.w)
    (hok : (E01Reader.finish build plan pool offset rest results pick).1 =
      .ok v) :
    AllWhole
      (E01Reader.finish build plan pool offset rest results pick).2 := by
  have hresults := fun (k : ℕ) (r : TaskResult)
    (hr : results[k]? = some (some r)) => finish_eq_ok hok hr
  have hafter : AllWhole (pool ++ plan.workersAfter results) := by
    intro worker hworker
    rcases List.mem_append.mp hworker with hold | hnew
    · exact hpool worker hold
    rcases List.mem_append.mp hnew with hzip | hunused
    swap
    · exact hw worker hunused
    obtain ⟨k, hk⟩ := List.mem_iff_getElem?.mp hzip
    rw [List.getElem?_zipWith] at hk
    cases htask : plan.tasks[k]? with
    | none => simp [htask] at hk
    | some task =>
        cases hresult : results[k]? with
        | none => simp [htask, hresult] at hk
        | some result =>
            cases result with
            | none =>
                obtain rfl : task.worker = worker := by
                  simpa [htask, hresult, ChunkTask.workerAfter] using hk
                exact htasks task (List.mem_of_getElem? htask)
            | some r =>
                obtain rfl : r.2 = worker := by
                  simpa [htask, hresult, ChunkTask.workerAfter] using hk
                exact hran.done k task r htask hresult (hresults k r hresult)
  unfold E01Reader.finish
  cases settle pick (results.filterMap fun r => r.map Prod.fst) with
  | ok _ => exact hafter
  | error e => exact hafter
  | panic fault => exact hpool
  | hang => exact hpool

theorem CutRead.allWhole {pool workers : List ReadWorker} {plan : Plan} {n : ℕ}
    (h : CutRead build zlib sources reader pool offset buf n workers plan)
    (hno : reader.NoCrash zlib sources pool offset n) (hpool : AllWhole pool) :
    (reader.readAtOffset build zlib sources pool offset buf).Keeps
      (reader.Kept zlib sources True)
      fun r => (∃ v, r.1 = .ok v) → AllWhole r.2 := by
  have hworkers : AllWhole workers := by
    intro worker hworker
    obtain ⟨k, hk⟩ := List.mem_iff_getElem?.mp hworker
    rcases h.lent_or_fresh k worker hk with hlent | ⟨-, rfl, -⟩
    · exact hpool worker
        (List.mem_of_mem_drop (List.mem_of_getElem? hlent))
    · exact whole_freshWorker reader
  have htasks : ∀ task ∈ plan.tasks, Whole task.worker := by
    intro task hmem
    obtain ⟨k, htask⟩ := List.mem_iff_getElem?.mp hmem
    exact hworkers _ (List.mem_of_getElem? (h.taskAt htask).worker_eq)
  have hw : AllWhole plan.w := by
    rw [h.planned.w_eq]
    exact fun worker hworker => hworkers worker (List.mem_of_mem_drop hworker)
  rw [h.read_eq]
  refine traced_keeps _ _ (fun hnot => absurd trivial hnot)
    ((runTasks_keeps (fun task hmem => runChunkTask_leavesWhole
      (h.ready task hmem) (htasks task hmem)
      (h.noCrash_iff.mp hno task hmem).2) _).mono ?_)
  rintro r ⟨results, pick, hran, rfl⟩ ⟨v, hok⟩
  exact finish_allWhole hran htasks
    (fun worker hworker => hpool worker (List.mem_of_mem_take hworker)) hw hok

/-- A read with whole workers delivers its part of the content in every
execution; the workers it leaves are good, and whole if it succeeds. -/
theorem E01Reader.Readable.reads_whole
    (h : reader.Readable zlib sources) (build : Build)
    {pool : List ReadWorker} (hpool : Lendable reader pool)
    (hwhole : AllWhole pool) (hle : offset ≤ reader.imageSize)
    (hsize : offset + buf.length < wordLimit) :
    (reader.readAtOffset build zlib sources pool offset buf).Keeps
      (reader.Kept zlib sources True)
      fun r => ReadDone reader (ReadsBytes (reader.content zlib sources)
          (reader.ReadFails zlib sources) offset buf) r ∧
        ((∃ v, r.1 = .ok v) → AllWhole r.2) := by
  have hend : offset + reader.readLen offset buf.length ≤
      reader.imageSize := by
    unfold E01Reader.readLen
    omega
  obtain ⟨workers, plan, pool', -, -, hcut⟩ := exists_cutRead build zlib
    sources h.opened hpool hle hsize rfl (h.chunksFit hend) (Or.inr h.made)
  exact (h.readsBytes build hpool hwhole hle hsize).and
    (hcut.allWhole (h.noCrash hpool hwhole hle _) hwhole)

end E01
end ImageReader
