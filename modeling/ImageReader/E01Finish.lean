import ImageReader.E01Tasks

/-!
# The end of a read

What the tasks of a read leave is put together: the bytes of all of them, or an
error when one has failed, or a panic.
-/

namespace ImageReader
namespace E01

variable {build : Build} {zlib : Zlib} {sources : ℕ → WorkerSource}
  {reader : E01Reader} {offset : ℕ} {buf rest : Bytes}
  {workers pool : List ReadWorker} {plan : Plan}
  {results : List (Option TaskResult)} {pick : ℕ}
  {D : ChunkTask → TaskResult → Prop}

/-! ## The tasks of a plan -/

/-- Workers made for the reader, whole where reads go through the cache. -/
def Lendable (reader : E01Reader) (workers : List ReadWorker) : Prop :=
  ∀ worker ∈ workers, reader.Belongs worker ∧
    (reader.options.decodedChunkCache = true → Whole worker)

theorem Planned.taskReady (hread : Planable reader offset buf workers)
    (h : Planned reader offset buf workers plan)
    (hworkers : Lendable reader workers) :
    ∀ task ∈ plan.tasks, TaskReady reader task := by
  intro task hmem
  obtain ⟨k, htask⟩ := List.mem_iff_getElem?.mp hmem
  have hat := h.task k task htask
  obtain ⟨hbelongs, hwhole⟩ :=
    hworkers _ (List.mem_of_getElem? hat.worker_eq)
  have hlength := h.sbuf_length htask
  have hstop := stopAt_le reader offset buf.length (k + 1)
  have hend := hat.end_eq
  have hlt := hat.beg_lt
  have hendLe := hread.end_le
  have hsize := hbelongs.chunkSize_eq
  have himage := hbelongs.imageEnd_eq
  exact {
    belongs := hbelongs
    whole := hwhole
    asked := {
      le := hlt.le
      length_eq := hlength
      end_le := by
        rw [hsize, himage]
        exact le_min (by omega) hat.end_le
      beg_le := by
        rw [hsize, himage]
        omega
      imageEnd_lt := himage ▸ hread.opened.imageSize_lt
      size_lt := hsize ▸ hread.opened.chunkSize_lt }
    chunk_eq := hat.chunk_eq }

/-! ## Results -/

theorem mem_outcomes {x : Outcome ReadError Bytes} :
    x ∈ results.filterMap (fun r => r.map Prod.fst) ↔
      ∃ (k : ℕ) (r : TaskResult), results[k]? = some (some r) ∧ r.1 = x := by
  rw [List.mem_filterMap]
  constructor
  · rintro ⟨r, hmem, hr⟩
    obtain ⟨k, hk⟩ := List.mem_iff_getElem?.mp hmem
    obtain ⟨r', rfl, hx⟩ := Option.map_eq_some_iff.mp hr
    exact ⟨k, r', hk, hx⟩
  · rintro ⟨k, r, hk, rfl⟩
    exact ⟨some r, List.mem_of_getElem? hk, rfl⟩

theorem Ran.task_of_result {tasks : List ChunkTask}
    (h : Ran D tasks results) {k : ℕ} {r : TaskResult}
    (hr : results[k]? = some (some r)) :
    ∃ task, tasks[k]? = some task ∧ D task r := by
  have hk : k < tasks.length :=
    h.length_eq ▸ (List.getElem?_eq_some_iff.mp hr).choose
  exact ⟨_, List.getElem?_eq_getElem hk,
    h.done k _ r (List.getElem?_eq_getElem hk) hr⟩

theorem Ran.result_of_all {tasks : List ChunkTask}
    (h : Ran D tasks results) (hall : ∀ k : ℕ, results[k]? ≠ some none) {k : ℕ} {task : ChunkTask}
    (htask : tasks[k]? = some task) :
    ∃ r, results[k]? = some (some r) ∧ D task r := by
  have hk : k < results.length :=
    h.length_eq ▸ (List.getElem?_eq_some_iff.mp htask).choose
  have hget := List.getElem?_eq_getElem hk
  cases hresult : results[k] with
  | none =>
      rw [hresult] at hget
      exact absurd hget (hall k)
  | some r =>
      rw [hresult] at hget
      exact ⟨r, hget, h.done k task r htask hget⟩

/-- When no task can fail, all of them have been run. -/
theorem Ran.result_of_task {tasks : List ChunkTask}
    (h : Ran D tasks results)
    (hok : ∀ task ∈ tasks, ∀ r, D task r → ∃ bytes, r.1 = .ok bytes) {k : ℕ} {task : ChunkTask}
    (htask : tasks[k]? = some task) :
    ∃ r, results[k]? = some (some r) ∧ D task r := by
  rcases h.skipped with ⟨j, r, hr, hfailed⟩ | hall
  · obtain ⟨task', htask', hdone⟩ := h.task_of_result hr
    obtain ⟨bytes, hbytes⟩ := hok task' (List.mem_of_getElem? htask') r hdone
    exact absurd hbytes (hfailed bytes)
  · exact h.result_of_all hall htask

/-- When a task must fail, one that was run has failed. -/
theorem Ran.exists_failed {tasks : List ChunkTask}
    (h : Ran D tasks results) {task : ChunkTask} (hmem : task ∈ tasks)
    (hfails : ∀ r, D task r → Failed r.1) :
    ∃ (k : ℕ) (r : TaskResult), results[k]? = some (some r) ∧ Failed r.1 := by
  obtain ⟨k, htask⟩ := List.mem_iff_getElem?.mp hmem
  rcases h.skipped with hfailed | hall
  · exact hfailed
  · obtain ⟨r, hr, hdone⟩ := h.result_of_all hall htask
    exact ⟨k, r, hr, hfails r hdone⟩

/-! ## The result of the read -/

theorem finish_ok (build : Build) (pool : List ReadWorker) (rest : Bytes)
    (pick : ℕ) (hle : offset ≤ plan.offset)
    (h : ∀ (k : ℕ) (r : TaskResult), results[k]? = some (some r) →
      ∃ bytes, r.1 = .ok bytes) :
    (E01Reader.finish build plan pool offset rest results pick).1 =
      .ok (plan.offset - offset, plan.bufAfter results ++ rest) := by
  have hsettle : settle pick (results.filterMap fun r => r.map Prod.fst) =
      .ok () := by
    apply settle_ok
    intro x hx
    obtain ⟨k, r, hr, rfl⟩ := mem_outcomes.mp hx
    exact h k r hr
  unfold E01Reader.finish
  simp only [hsettle]
  rw [Build.sub_of_le hle]
  rfl

theorem finish_error (build : Build) (plan : Plan) (pool : List ReadWorker)
    (offset : ℕ) (rest : Bytes) (pick : ℕ)
    (h : ∀ (k : ℕ) (r : TaskResult), results[k]? = some (some r) →
      r.1.Returns)
    (hfailed : ∃ (k : ℕ) (r : TaskResult), results[k]? = some (some r) ∧
      Failed r.1) :
    ∃ e, (E01Reader.finish build plan pool offset rest results pick).1 =
        .error e ∧
      ∃ (k : ℕ) (r : TaskResult), results[k]? = some (some r) ∧
        r.1 = .error e := by
  obtain ⟨e, hsettle, hmem⟩ := settle_error
    (results.filterMap fun r => r.map Prod.fst) pick
    (by
      intro x hx
      obtain ⟨k, r, hr, rfl⟩ := mem_outcomes.mp hx
      exact h k r hr)
    (by
      obtain ⟨k, r, hr, hf⟩ := hfailed
      exact ⟨r.1, mem_outcomes.mpr ⟨k, r, hr, rfl⟩, hf⟩)
  refine ⟨e, ?_, mem_outcomes.mp hmem⟩
  unfold E01Reader.finish
  simp only [hsettle]

theorem finish_crash (build : Build) (plan : Plan) (pool : List ReadWorker)
    (offset : ℕ) (rest : Bytes) (pick : ℕ)
    (h : ∃ (k : ℕ) (r : TaskResult), results[k]? = some (some r) ∧
      ¬ r.1.Returns) :
    ¬ (E01Reader.finish build plan pool offset rest results
      pick).1.Returns := by
  have hsettle := settle_crash
    (results.filterMap fun r => r.map Prod.fst) pick (by
      obtain ⟨k, r, hr, hcrash⟩ := h
      exact ⟨r.1, mem_outcomes.mpr ⟨k, r, hr, rfl⟩, hcrash⟩)
  unfold E01Reader.finish
  cases hcase : settle pick (results.filterMap fun r => r.map Prod.fst) with
  | ok u => exact absurd (hcase ▸ Outcome.returns_ok u) hsettle
  | error e => exact absurd (hcase ▸ Outcome.returns_error e) hsettle
  | panic fault => simp
  | hang => simp

/-- A read that succeeds had no task that did not. -/
theorem finish_eq_ok {v : ℕ × Bytes}
    (h : (E01Reader.finish build plan pool offset rest results pick).1 = .ok v)
    {k : ℕ} {r : TaskResult} (hr : results[k]? = some (some r)) :
    ∃ bytes, r.1 = .ok bytes := by
  have hreturns : ∀ (k : ℕ) (r : TaskResult), results[k]? = some (some r) →
      r.1.Returns := by
    intro k r hr
    by_contra hcrash
    have hnot := finish_crash build plan pool offset rest pick
      ⟨k, r, hr, hcrash⟩
    exact hnot (h ▸ Outcome.returns_ok v)
  by_contra hfailed
  obtain ⟨e, herror, -⟩ := finish_error build plan pool offset rest pick
    hreturns ⟨k, r, hr, fun bytes hbytes => hfailed ⟨bytes, hbytes⟩⟩
  rw [h] at herror
  simp at herror

theorem finish_lendable {clean : Prop} (build : Build) (offset : ℕ)
    (rest : Bytes) (pick : ℕ)
    (hran : Ran (TaskDone clean zlib sources reader) plan.tasks results)
    (hpool : Lendable reader pool)
    (htasks : ∀ task ∈ plan.tasks, TaskReady reader task)
    (hw : Lendable reader plan.w) :
    Lendable reader
      (E01Reader.finish build plan pool offset rest results pick).2 := by
  have hafter : Lendable reader (pool ++ plan.workersAfter results) := by
    intro worker hworker
    rcases List.mem_append.mp hworker with hold | hnew
    · exact hpool worker hold
    · rcases List.mem_append.mp hnew with hzip | hunused
      · obtain ⟨k, hk⟩ := List.mem_iff_getElem?.mp hzip
        rw [List.getElem?_zipWith] at hk
        cases htask : plan.tasks[k]? with
        | none => simp [htask] at hk
        | some task =>
            cases hresult : results[k]? with
            | none => simp [htask, hresult] at hk
            | some result =>
                cases result with
                | none =>
                    obtain rfl : task.worker = worker := by
                      simpa [htask, hresult, ChunkTask.workerAfter] using hk
                    have hready := htasks task (List.mem_of_getElem? htask)
                    exact ⟨hready.belongs, hready.whole⟩
                | some r =>
                    obtain rfl : r.2 = worker := by
                      simpa [htask, hresult, ChunkTask.workerAfter] using hk
                    have hdone := hran.done k task r htask hresult
                    exact ⟨hdone.belongs, hdone.whole⟩
      · exact hw worker hunused
  unfold E01Reader.finish
  cases settle pick (results.filterMap fun r => r.map Prod.fst) with
  | ok _ => exact hafter
  | error e => exact hafter
  | panic fault => exact hpool
  | hang => exact hpool

end E01
end ImageReader
