import ImageReader.E01Reading

/-!
# When a read of an E01 image means what it is to mean

The tasks of a read answer with ranges of what their chunks decode to.  Put
together, the read has its meaning exactly when the ends of the touched chunks
are words, there are workers for them, and no touched chunk makes its task
panic.
-/

namespace ImageReader
namespace E01

variable {build : Build} {zlib : Zlib} {sources : ℕ → WorkerSource}
  {env : SharedCache → SharedCache → Prop} {reader : E01Reader}
  {state : ReaderState} {offset : ℕ} {buf : Bytes}
  {workers : List ReadWorker} {plan : Plan} {task : ChunkTask}

/-! ## What a task answers -/

theorem TaskAt.rangeEnd_eq {k : ℕ}
    (h : TaskAt reader offset buf workers k task) :
    task.endInChunk = reader.rangeEnd offset buf.length task.chunkIndex := by
  have hend := h.end_eq
  have htouched := h.touched
  unfold E01Reader.stopAt at hend
  unfold E01Reader.rangeEnd
  obtain ⟨hlen, hlow, hhigh⟩ := htouched
  rw [← Nat.add_assoc, ← h.chunkIndex_eq] at hend
  omega

theorem taskAnswer_returns_iff (h : TaskReady reader task) (leftover : Bytes) :
    (taskAnswer zlib sources reader task leftover).Returns ↔
      ¬ ShortTask zlib sources reader task := by
  unfold taskAnswer
  rw [Outcome.returns_mapError]
  exact served_payload_returns_iff (h.end_le zlib)

theorem TaskReady.answers {P : ℕ → Bytes} (h : TaskReady reader task)
    (hdecodes : reader.Decodes zlib sources task.chunkIndex
      (P task.chunkIndex))
    (hlong : task.endInChunk ≤ (P task.chunkIndex).length)
    (hroom : HasRoom zlib reader task.worker task.chunk) {r : TaskResult}
    (hdone : TaskDone True zlib sources reader task r) :
    r.1 = .ok (Slice.window (P task.chunkIndex) task.begInChunk
      (task.endInChunk - task.begInChunk)) := by
  obtain ⟨leftover, hanswer⟩ := hdone.answer_of_clean hroom
  obtain ⟨chunk, hchunk, hpayload⟩ := hdecodes
  obtain rfl : task.chunk = chunk := by
    rw [h.chunk_eq] at hchunk
    simpa using hchunk
  rw [hanswer, taskAnswer, hpayload leftover]
  simp [served, cut, hlong, Outcome.mapError]

theorem TaskReady.fails (h : TaskReady reader task)
    (hfails : reader.FailsToDecode zlib sources task.chunkIndex)
    {r : TaskResult} (hdone : TaskDone True zlib sources reader task r) :
    Failed r.1 := by
  intro bytes hbytes
  by_cases hroom : HasRoom zlib reader task.worker task.chunk
  · obtain ⟨leftover, hanswer⟩ := hdone.answer_of_clean hroom
    obtain ⟨chunk, hchunk, hpayload⟩ := hfails
    obtain rfl : task.chunk = chunk := by
      rw [h.chunk_eq] at hchunk
      simpa using hchunk
    obtain ⟨e, he⟩ := hpayload leftover
    rw [hanswer, taskAnswer, he] at hbytes
    simp [served, Outcome.mapError] at hbytes
  · obtain ⟨fault, hstuck⟩ := hdone.stuck hroom
    rw [hstuck] at hbytes
    simp at hbytes

/-- A read of `n` bytes that has been cut into tasks. -/
structure CutRead (build : Build) (zlib : Zlib) (sources : ℕ → WorkerSource)
    (reader : E01Reader) (pool : List ReadWorker) (offset : ℕ) (buf : Bytes)
    (n : ℕ) (workers : List ReadWorker) (plan : Plan) : Prop where
  length_eq : (buf.take n).length = n
  planable : Planable reader offset (buf.take n) workers
  planned : Planned reader offset (buf.take n) workers plan
  lendable : Lendable reader workers
  lent_or_fresh : reader.LentOrFresh pool (reader.workerCount offset n) workers
  read_eq : reader.readAtOffset build zlib sources pool offset buf =
    reader.traced pool (offset / reader.chunkSize) (reader.workerCount offset n)
      (reader.runTasks build zlib sources plan
        (pool.take (pool.length - reader.workerCount offset n)) offset
        (buf.drop n))

theorem lendable_of_lent {pool workers : List ReadWorker} {n : ℕ}
    (hpool : Lendable reader pool) (h : reader.LentOrFresh pool n workers) :
    Lendable reader workers := by
  intro worker hworker
  obtain ⟨k, hk⟩ := List.mem_iff_getElem?.mp hworker
  rcases h k worker hk with hlent | ⟨-, rfl, hmade⟩
  · exact hpool worker (List.mem_of_mem_drop (List.mem_of_getElem? hlent))
  · exact ⟨⟨rfl, rfl, rfl, hmade⟩, fun _ => whole_freshWorker reader⟩

theorem exists_cutRead (build : Build) (zlib : Zlib)
    (sources : ℕ → WorkerSource) {pool : List ReadWorker}
    (hopened : Opened reader) (hpool : Lendable reader pool)
    (hle : offset ≤ reader.imageSize)
    (hsize : offset + buf.length < wordLimit) {n : ℕ}
    (hn : n = reader.readLen offset buf.length)
    (hfit : reader.ChunksFit offset n)
    (henough : reader.HasWorkers pool (reader.workerCount offset n)) :
    ∃ workers plan pool',
      reader.checkoutWorkers build pool (reader.workerCount offset n) =
        .ok (workers, pool') ∧
      loop (reader.planBody build offset (offset + (buf.take n).length))
        ((buf.take n).length + 1)
        { offset, buf := buf.take n, w := workers, tasks := [] } = .ok plan ∧
      CutRead build zlib sources reader pool offset buf n workers plan := by
  have hlength : (buf.take n).length = n := hn ▸ readLen_le reader offset buf
  obtain ⟨workers, hcheckout, hlent, hread, heq⟩ := readAtOffset_eq build zlib
    sources buf hopened hle hsize hn rfl henough
  obtain ⟨plan, hloop, hplanned⟩ := (plan_loop build hread).1 (by
    rw [hlength]
    exact hfit)
  refine ⟨workers, plan, _, hcheckout, hloop, hlength, hread, hplanned,
    lendable_of_lent hpool hlent, hlent, ?_⟩
  rw [heq, hloop]
  rfl

section CutReads

variable {pool : List ReadWorker} {n : ℕ}
  (h : CutRead build zlib sources reader pool offset buf n workers plan)

include h

theorem CutRead.ready : ∀ task ∈ plan.tasks, TaskReady reader task :=
  h.planned.taskReady h.planable h.lendable

theorem CutRead.live :
    (reader.readAtOffset build zlib sources pool offset buf).Live := by
  rw [h.read_eq]
  exact traced_live reader _ _ _ (runTasks_live ..)

theorem CutRead.le_offset : offset ≤ plan.offset := by
  rw [h.planned.done]
  exact Nat.le_add_right ..

theorem CutRead.taskAt {k : ℕ} {task : ChunkTask}
    (htask : plan.tasks[k]? = some task) :
    TaskAt reader offset (buf.take n) workers k task :=
  h.planned.task k task htask

theorem CutRead.touched {task : ChunkTask} (hmem : task ∈ plan.tasks) :
    reader.Touched offset n task.chunkIndex := by
  obtain ⟨k, htask⟩ := List.mem_iff_getElem?.mp hmem
  have htouched := (h.taskAt htask).touched
  rwa [h.length_eq] at htouched

theorem CutRead.exists_task {i : ℕ} (hi : reader.Touched offset n i) :
    ∃ task ∈ plan.tasks, task.chunkIndex = i := by
  rw [← h.length_eq] at hi
  obtain ⟨k, task, htask, hindex⟩ := h.planned.exists_task h.planable hi
  exact ⟨task, List.mem_of_getElem? htask, hindex⟩

theorem CutRead.endInChunk_eq {task : ChunkTask} (hmem : task ∈ plan.tasks) :
    task.endInChunk = reader.rangeEnd offset n task.chunkIndex := by
  obtain ⟨k, htask⟩ := List.mem_iff_getElem?.mp hmem
  have hend := (h.taskAt htask).rangeEnd_eq
  rwa [h.length_eq] at hend

theorem CutRead.hasRoom_iff {k : ℕ} {task : ChunkTask}
    (htask : plan.tasks[k]? = some task) :
    HasRoom zlib reader task.worker task.chunk ↔
      ∀ worker, (E01Reader.lent pool (reader.workerCount offset n))[k]? =
        some worker → HasRoom zlib reader worker task.chunk := by
  rcases h.lent_or_fresh k _ (h.taskAt htask).worker_eq with
    hlent | ⟨hnone, hfresh, -⟩
  · rw [hlent]
    simp
  · rw [hnone, hfresh]
    have hfreshRoom : HasRoom zlib reader reader.freshWorker task.chunk :=
      fun hbounded => (whole_freshWorker reader).symm ▸ hbounded.2
    simp [hfreshRoom]

/-- Nothing crashes when every task has a worker with room and a payload that
is not too short. -/
theorem CutRead.noCrash_iff :
    reader.NoCrash zlib sources pool offset n ↔
      ∀ task ∈ plan.tasks, HasRoom zlib reader task.worker task.chunk ∧
        ¬ ShortTask zlib sources reader task := by
  constructor
  · intro hno task hmem
    obtain ⟨k, htask⟩ := List.mem_iff_getElem?.mp hmem
    have hat := h.taskAt htask
    obtain ⟨hlong, hroom⟩ := hno _ _ (h.touched hmem) hat.chunk_eq
    rw [hat.chunkIndex_eq, Nat.add_sub_cancel_left] at hroom
    rw [h.hasRoom_iff htask, ShortTask, h.endInChunk_eq hmem]
    exact ⟨hroom, hlong⟩
  · intro hall i chunk hi hchunk
    obtain ⟨task, hmem, rfl⟩ := h.exists_task hi
    obtain ⟨k, htask⟩ := List.mem_iff_getElem?.mp hmem
    have hat := h.taskAt htask
    obtain rfl : task.chunk = chunk := by
      rw [hat.chunk_eq] at hchunk
      simpa using hchunk
    obtain ⟨hroom, hlong⟩ := hall task hmem
    rw [h.hasRoom_iff htask] at hroom
    rw [ShortTask, h.endInChunk_eq hmem] at hlong
    refine ⟨hlong, ?_⟩
    rw [hat.chunkIndex_eq, Nat.add_sub_cancel_left]
    exact hroom

/-- What a read leaves: of the results of its tasks, or of a poisoned lock. -/
theorem CutRead.keeps {clean : Prop}
    (hclean : clean → reader.NoCrash zlib sources pool offset n) :
    (reader.readAtOffset build zlib sources pool offset buf).Keeps
      (reader.Kept zlib sources clean) fun r =>
        ¬ clean ∧ r = (.panic .poisoned, pool) ∨ ∃ results pick,
          Ran (TaskDone clean zlib sources reader) plan.tasks results ∧
          r = E01Reader.finish build plan
            (pool.take (pool.length - reader.workerCount offset n)) offset
            (buf.drop n) results pick := by
  rw [h.read_eq]
  refine traced_keeps _ _ (fun hnot => Or.inl ⟨hnot, rfl⟩)
    ((runTasks_keeps (fun task hmem => runChunkTask_keeps (h.ready task hmem)
      fun hc => (h.noCrash_iff.mp (hclean hc) task hmem).2) _).mono ?_)
  exact fun r hr => Or.inr hr

theorem CutRead.decodes (hno : reader.NoCrash zlib sources pool offset n)
    {P : ℕ → Bytes}
    (hall : ∀ i, reader.Touched offset n i →
      reader.Decodes zlib sources i (P i) ∧
        reader.rangeEnd offset n i ≤ (P i).length)
    {results : List (Option TaskResult)} (pick : ℕ)
    (hran : Ran (TaskDone True zlib sources reader) plan.tasks results)
    (pool' : List ReadWorker) (rest : Bytes) :
    (E01Reader.finish build plan pool' offset rest results pick).1 =
      .ok (n, imageBytes P reader.chunkSize offset (offset + n) ++ rest) := by
  have hanswers : ∀ task ∈ plan.tasks,
      task.endInChunk ≤ (P task.chunkIndex).length ∧
      ∀ r, TaskDone True zlib sources reader task r →
        r.1 = .ok (Slice.window (P task.chunkIndex) task.begInChunk
          (task.endInChunk - task.begInChunk)) := by
    intro task hmem
    obtain ⟨hdecodes, hlong⟩ := hall _ (h.touched hmem)
    rw [← h.endInChunk_eq hmem] at hlong
    exact ⟨hlong, fun r hdone => (h.ready task hmem).answers hdecodes hlong
      (h.noCrash_iff.mp hno task hmem).1 hdone⟩
  have hok : ∀ (k : ℕ) (r : TaskResult), results[k]? = some (some r) →
      ∃ bytes, r.1 = .ok bytes := by
    intro k r hr
    obtain ⟨task, htask, hdone⟩ := hran.task_of_result hr
    exact ⟨_, (hanswers task (List.mem_of_getElem? htask)).2 r hdone⟩
  rw [finish_ok build pool' rest pick h.le_offset hok, h.planned.done,
    Nat.add_sub_cancel_left, bufAfter_eq (P := P) h.planned hran.length_eq,
    h.length_eq]
  intro k task htask
  have hmem := List.mem_of_getElem? htask
  obtain ⟨r, hr, hdone⟩ := hran.result_of_task
    (fun task' hmem' r hdone => ⟨_, (hanswers task' hmem').2 r hdone⟩) htask
  exact ⟨(hanswers task hmem).1, r, hr, (hanswers task hmem).2 r hdone⟩

theorem CutRead.fails (hno : reader.NoCrash zlib sources pool offset n)
    (hsome : reader.SomeFails zlib sources offset n)
    {results : List (Option TaskResult)} (pick : ℕ)
    (hran : Ran (TaskDone True zlib sources reader) plan.tasks results)
    (pool' : List ReadWorker) (rest : Bytes) :
    ∃ e, (E01Reader.finish build plan pool' offset rest results pick).1 =
      .error e := by
  have hreturns : ∀ (k : ℕ) (r : TaskResult), results[k]? = some (some r) →
      r.1.Returns := by
    intro k r hr
    obtain ⟨task, htask, hdone⟩ := hran.task_of_result hr
    have hmem := List.mem_of_getElem? htask
    obtain ⟨hroom, hlong⟩ := h.noCrash_iff.mp hno task hmem
    obtain ⟨leftover, hanswer⟩ := hdone.answer_of_clean hroom
    rw [hanswer, taskAnswer_returns_iff (h.ready task hmem)]
    exact hlong
  obtain ⟨i, hi, hfails⟩ := hsome
  obtain ⟨task, hmem, rfl⟩ := h.exists_task hi
  obtain ⟨e, he, -⟩ := finish_error build plan pool' offset rest pick hreturns
    (hran.exists_failed hmem fun r hdone =>
      (h.ready task hmem).fails hfails hdone)
  exact ⟨e, he⟩

/-- A task that crashes makes the read of some execution panic. -/
theorem CutRead.crash {cache : SharedCache}
    (hparallel : reader.options.parallelChunkReads = true)
    (hcache : reader.Remembers zlib sources cache.value)
    (hcrash : ¬ reader.NoCrash zlib sources pool offset n) :
    ∃ r cache', Thread.Ends env cache
        (reader.readAtOffset build zlib sources pool offset buf) r cache' ∧
      ¬ r.1.Returns := by
  rw [h.noCrash_iff] at hcrash
  push Not at hcrash
  obtain ⟨task, hmem, hcrash⟩ := hcrash
  have hpanics : ∀ r, TaskDone False zlib sources reader task r →
      ¬ r.1.Returns := by
    intro r hdone
    by_cases hroom : HasRoom zlib reader task.worker task.chunk
    · rcases hdone.answer hroom with ⟨leftover, hanswer⟩ | ⟨-, hpoisoned⟩
      · rw [hanswer, taskAnswer_returns_iff (h.ready task hmem), not_not]
        exact hcrash hroom
      · rw [hpoisoned]
        simp
    · obtain ⟨fault, hstuck⟩ := hdone.stuck hroom
      rw [hstuck]
      simp
  rw [h.read_eq]
  have hkept : reader.Kept zlib sources False cache := ⟨hcache, False.elim⟩
  refine traced_crash reader pool _ _ (reader.Kept zlib sources False)
    (fun cache hkept _ =>
      Mutex.holds_new (remembers_touchAll _ _ hkept.value)) ?_ hkept
  exact fun cache hkept => runTasks_crash hparallel
    (fun task hmem => runChunkTask_keeps (h.ready task hmem) False.elim)
    hmem hpanics _ offset (buf.drop n) hkept

end CutReads

/-! ## The meaning of a read -/

section AllDecode

variable {P : ℕ → Bytes} {n j : ℕ}

theorem E01Reader.AllDecode.range {i : ℕ}
    (h : reader.AllDecode zlib sources offset n P)
    (hend : offset + n ≤ reader.imageSize) (hi : reader.Touched offset n i) :
    reader.Decodes zlib sources i (P i) ∧
      reader.rangeEnd offset n i ≤ (P i).length := by
  obtain ⟨hdecodes, hlong⟩ := h i hi
  refine ⟨hdecodes, le_trans ?_ hlong⟩
  unfold E01Reader.rangeEnd
  rw [Nat.succ_mul]
  omega

theorem touched_of_lt (hopened : Opened reader) (hj : j < n) :
    reader.Touched offset n ((offset + j) / reader.chunkSize) := by
  have hlt := Nat.lt_mul_div_succ (offset + j) hopened.chunkSize_pos
  have hge := Nat.div_mul_le_self (offset + j) reader.chunkSize
  rw [Nat.mul_comm] at hlt
  exact ⟨by omega, by omega, by omega⟩

/-- In front come the bytes of the chunks. -/
theorem E01Reader.AllDecode.bytes
    (h : reader.AllDecode zlib sources offset n P) (hopened : Opened reader)
    (hend : offset + n ≤ reader.imageSize) (j : ℕ) (hj : j < n) :
    (imageBytes P reader.chunkSize offset (offset + n) ++ buf.drop n)[j]? =
      (P ((offset + j) / reader.chunkSize))[
        (offset + j) % reader.chunkSize]? := by
  have hlong := (h _ (touched_of_lt hopened hj)).2
  have hmod := Nat.mod_lt (offset + j) hopened.chunkSize_pos
  have hsplit := Nat.div_add_mod (offset + j) reader.chunkSize
  rw [Nat.mul_comm] at hsplit
  rw [List.getElem?_append_left (by rw [length_imageBytes]; omega)]
  exact getElem?_imageBytes (by omega) (by omega)

end AllDecode

/-- Two chunks of one byte, the first with a wrong checksum. -/
def twoChunkSource : WorkerSource :=
  contentSource [7, 0, 0, 0, 0, 7, 8, 0, 8, 0]

def twoChunkReader : E01Reader where
  chunks := [⟨0, 0, 5, false⟩, ⟨0, 5, 10, false⟩]
  chunkSize := 1
  imageSize := 2
  segmentPaths := ["image.E01"]
  options := ⟨.error, false, false, false⟩

end E01
end ImageReader
