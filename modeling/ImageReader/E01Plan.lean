import ImageReader.E01Reader

/-!
# Cutting a read into tasks

The loop that cuts a read into tasks visits the chunks which the read touches,
one after another, and cuts the buffer where the chunks end.  It gets through
when the end of every touched chunk is a word.
-/

namespace ImageReader
namespace E01

variable {build : Build} {reader : E01Reader} {offset bufBeg bufEnd : ℕ}
  {buf : Bytes} {workers : List ReadWorker} {plan : Plan}

/-- Chunk `i` holds one of the `len` bytes from `offset` on. -/
def E01Reader.Touched (reader : E01Reader) (offset len i : ℕ) : Prop :=
  0 < len ∧ i * reader.chunkSize < offset + len ∧
    offset < (i + 1) * reader.chunkSize

/-- The end, in chunk `i`, of the range that a read takes from it. -/
def E01Reader.rangeEnd (reader : E01Reader) (offset len i : ℕ) : ℕ :=
  min ((i + 1) * reader.chunkSize) (offset + len) - i * reader.chunkSize

/-! ## One iteration -/

section Wrapping

variable {limit a b stop : ℕ}

theorem wrapped_sum (h : limit ≤ a + b) (ha : a < limit) (hb : b < limit) :
    (a + b) % limit = a + b - limit := by
  rw [Nat.mod_eq_sub_mod h, Nat.mod_eq_of_lt (by omega)]

theorem wrapped_sum_lt (h : limit ≤ a + b) (hb : b < limit) (ha : a ≤ stop) :
    min (a + b - limit) stop = a + b - limit ∧ ¬ a ≤ a + b - limit := by
  omega

theorem wrapped_difference (h : limit ≤ a + b) (hb : b < limit) :
    (a + b - limit + limit - a) % limit = b := by
  rw [show a + b - limit + limit - a = b by omega, Nat.mod_eq_of_lt hb]

theorem wrapped_rest {off : ℕ} (h : limit ≤ a + b) (ha : a ≤ off)
    (hoff : off < stop) (hstop : stop < limit) :
    ¬ b - (off - a) ≤ stop - off := by
  omega

end Wrapping

section Iteration

variable {j : ℕ} {chunk : Chunk} {segPath : String} {worker : ReadWorker}
  {w : List ReadWorker}

/-- What the next iteration finds: the chunk, its segment and a worker. -/
structure AtChunk (reader : E01Reader) (bufBeg bufEnd : ℕ) (plan : Plan)
    (j : ℕ) (chunk : Chunk) (segPath : String) (worker : ReadWorker)
    (w : List ReadWorker) : Prop where
  offset_lt : plan.offset < bufEnd
  beg_le : bufBeg ≤ plan.offset
  end_le : bufEnd ≤ reader.imageSize
  imageSize_lt : reader.imageSize < wordLimit
  chunkSize_lt : reader.chunkSize < wordLimit
  chunk_le : j * reader.chunkSize ≤ plan.offset
  lt_chunk : plan.offset < (j + 1) * reader.chunkSize
  chunk_eq : reader.chunks[j]? = some chunk
  segPath_eq : reader.segmentPaths[chunk.segment]? = some segPath
  buf_length : plan.buf.length = bufEnd - plan.offset
  w_eq : plan.w = worker :: w

theorem AtChunk.chunkSize_pos
    (h : AtChunk reader bufBeg bufEnd plan j chunk segPath worker w) :
    0 < reader.chunkSize := by
  by_contra hzero
  have hlt := h.lt_chunk
  rw [Nat.eq_zero_of_not_pos hzero, Nat.mul_zero] at hlt
  omega

theorem AtChunk.div_eq
    (h : AtChunk reader bufBeg bufEnd plan j chunk segPath worker w) :
    plan.offset / reader.chunkSize = j :=
  Nat.div_eq_of_lt_le h.chunk_le h.lt_chunk

theorem planBody_next (build : Build)
    (h : AtChunk reader bufBeg bufEnd plan j chunk segPath worker w)
    (hfits : (j + 1) * reader.chunkSize < wordLimit) :
    reader.planBody build bufBeg bufEnd plan = .ok (.next
      { offset := min ((j + 1) * reader.chunkSize) bufEnd
        buf := plan.buf.drop
          (min ((j + 1) * reader.chunkSize) bufEnd - plan.offset)
        w
        tasks := plan.tasks ++
          [{ chunkIndex := j, chunk
             sbuf := plan.buf.take
               (min ((j + 1) * reader.chunkSize) bufEnd - plan.offset)
             begInChunk := plan.offset - j * reader.chunkSize
             endInChunk := min ((j + 1) * reader.chunkSize) bufEnd -
               j * reader.chunkSize
             segPath, worker }] }) := by
  have hmul : (j + 1) * reader.chunkSize =
      j * reader.chunkSize + reader.chunkSize := Nat.succ_mul ..
  obtain ⟨hlt, hbeg, hend, himage, hsize, hchunkLe, hltChunk, hchunk, hpath,
    hbuf, hw⟩ := h
  have hdiv := AtChunk.div_eq ⟨hlt, hbeg, hend, himage, hsize, hchunkLe,
    hltChunk, hchunk, hpath, hbuf, hw⟩
  have hpos := AtChunk.chunkSize_pos ⟨hlt, hbeg, hend, himage, hsize, hchunkLe,
    hltChunk, hchunk, hpath, hbuf, hw⟩
  have hmin : min (min ((j + 1) * reader.chunkSize) reader.imageSize) bufEnd =
      min ((j + 1) * reader.chunkSize) bufEnd := by omega
  set stop := min ((j + 1) * reader.chunkSize) bufEnd with hstop
  have hpast : plan.offset < stop := by omega
  have hlen : stop - j * reader.chunkSize -
      (plan.offset - j * reader.chunkSize) = stop - plan.offset := by omega
  have hmid : plan.offset - bufBeg + (stop - plan.offset) -
      (plan.offset - bufBeg) = stop - plan.offset := by omega
  have hnew : plan.offset + (stop - plan.offset) = stop := by omega
  unfold E01Reader.planBody
  rw [if_pos hlt, Build.div_of_pos hpos, hdiv, Outcome.ok_bind,
    Slice.index_of_getElem? hchunk, Outcome.ok_bind,
    Slice.index_of_getElem? hpath, Outcome.ok_bind,
    Build.mul_of_lt (by omega), Outcome.ok_bind,
    Build.add_of_lt (by omega), Outcome.ok_bind]
  simp only [← hmul, hmin]
  rw [Build.sub_of_le hchunkLe, Outcome.ok_bind,
    Build.sub_of_le (by omega), Outcome.ok_bind,
    Build.sub_of_le hbeg, Outcome.ok_bind,
    Build.sub_of_le (by omega), Outcome.ok_bind, hlen,
    Build.add_of_lt (by omega), Outcome.ok_bind,
    Build.sub_of_le (by omega), Outcome.ok_bind, hmid,
    Slice.splitAt_of_le (by omega), Outcome.ok_bind, hw]
  simp only
  rw [Slice.splitAt_of_le (by simp), Outcome.ok_bind]
  simp only
  rw [Slice.index_of_getElem? (show _ = some worker from rfl), Outcome.ok_bind,
    Build.add_of_lt (by omega), Outcome.ok_bind, hnew]
  rfl

/-- The sum that is to be the end of the chunk overflows, or wraps around, and
the slice is too long for the buffer. -/
theorem planBody_overflow (build : Build)
    (h : AtChunk reader bufBeg bufEnd plan j chunk segPath worker w)
    (hoverflow : ¬ (j + 1) * reader.chunkSize < wordLimit) :
    ∃ fault, reader.planBody build bufBeg bufEnd plan = .panic fault := by
  have hmul : (j + 1) * reader.chunkSize =
      j * reader.chunkSize + reader.chunkSize := Nat.succ_mul ..
  have hdiv := h.div_eq
  have hpos := h.chunkSize_pos
  obtain ⟨hlt, hbeg, hend', himage, hsize, hchunkLe, hltChunk, hchunk, hpath,
    hbuf, hw⟩ := h
  unfold E01Reader.planBody
  rw [if_pos hlt, Build.div_of_pos hpos, hdiv, Outcome.ok_bind,
    Slice.index_of_getElem? hchunk, Outcome.ok_bind,
    Slice.index_of_getElem? hpath, Outcome.ok_bind,
    Build.mul_of_lt (by omega), Outcome.ok_bind]
  cases build with
  | dev =>
      refine ⟨.addOverflow, ?_⟩
      rw [Build.add, if_neg (by omega)]
      rfl
  | release =>
      refine ⟨.outOfBounds, ?_⟩
      have hle : wordLimit ≤ j * reader.chunkSize + reader.chunkSize :=
        hmul ▸ Nat.le_of_not_lt hoverflow
      have hbegLt : j * reader.chunkSize < wordLimit := by omega
      have hnext := wrapped_sum hle hbegLt hsize
      have himg := wrapped_sum_lt hle hsize (by omega :
        j * reader.chunkSize ≤ reader.imageSize)
      have hstop := wrapped_sum_lt hle hsize (by omega :
        j * reader.chunkSize ≤ bufEnd)
      have hend := wrapped_difference hle hsize
      rw [Build.release_add (Nat.not_lt.mpr hle), Outcome.ok_bind, hnext]
      simp only [himg.1, hstop.1]
      rw [Build.sub_of_le hchunkLe, Outcome.ok_bind,
        Build.release_sub himg.2, Outcome.ok_bind, hend,
        Build.sub_of_le hbeg, Outcome.ok_bind,
        Build.sub_of_le (by omega), Outcome.ok_bind]
      set begInBuf := plan.offset - bufBeg with hbegInBuf
      set len := reader.chunkSize - (plan.offset - j * reader.chunkSize)
        with hlen
      have hbegInBufLt : begInBuf < wordLimit := by omega
      have hlenLt : len < wordLimit := by omega
      have hlong : ¬ len ≤ plan.buf.length := by
        rw [hbuf]
        exact wrapped_rest hle hchunkLe hlt (Nat.lt_of_le_of_lt hend' himage)
      have hsplit : (Slice.splitAt plan.buf len :
          Outcome ReadError (Bytes × Bytes)) = .panic .outOfBounds := by
        simp [Slice.splitAt, hlong]
      by_cases hsum : begInBuf + len < wordLimit
      · rw [Build.add_of_lt hsum, Outcome.ok_bind,
          Build.sub_of_le (Nat.le_add_right _ _), Outcome.ok_bind,
          Nat.add_sub_cancel_left, hsplit]
        rfl
      · have hle' := Nat.le_of_not_lt hsum
        have hback : ¬ begInBuf ≤ begInBuf + len - wordLimit :=
          (wrapped_sum_lt hle' hlenLt (le_refl _)).2
        rw [Build.release_add hsum, Outcome.ok_bind,
          wrapped_sum hle' hbegInBufLt hlenLt, Build.release_sub hback,
          Outcome.ok_bind, wrapped_difference hle' hlenLt, hsplit]
        rfl

end Iteration

/-! ## The whole loop -/

/-- Where the `k`-th task of a read starts, and the one before it stops. -/
def E01Reader.stopAt (reader : E01Reader) (offset len k : ℕ) : ℕ :=
  max offset (min ((offset / reader.chunkSize + k) * reader.chunkSize)
    (offset + len))

/-- The `k`-th task of a read into `buf`. -/
structure TaskAt (reader : E01Reader) (offset : ℕ) (buf : Bytes)
    (workers : List ReadWorker) (k : ℕ) (task : ChunkTask) : Prop where
  chunkIndex_eq : task.chunkIndex = offset / reader.chunkSize + k
  chunk_eq : reader.chunks[task.chunkIndex]? = some task.chunk
  segPath_eq : reader.segmentPaths[task.chunk.segment]? = some task.segPath
  worker_eq : workers[k]? = some task.worker
  touched : reader.Touched offset buf.length task.chunkIndex
  beg_eq : task.chunkIndex * reader.chunkSize + task.begInChunk =
    reader.stopAt offset buf.length k
  end_eq : task.chunkIndex * reader.chunkSize + task.endInChunk =
    reader.stopAt offset buf.length (k + 1)
  beg_lt : task.begInChunk < task.endInChunk
  end_le : task.endInChunk ≤ reader.chunkSize
  sbuf_eq : task.sbuf = Slice.window buf
    (reader.stopAt offset buf.length k - offset)
    (task.endInChunk - task.begInChunk)

/-- The invariant of the loop. -/
structure Planning (reader : E01Reader) (offset : ℕ) (buf : Bytes)
    (workers : List ReadWorker) (plan : Plan) : Prop where
  offset_eq : plan.offset = reader.stopAt offset buf.length plan.tasks.length
  buf_eq : plan.buf = buf.drop (plan.offset - offset)
  w_eq : plan.w = workers.drop plan.tasks.length
  task : ∀ k task, plan.tasks[k]? = some task →
    TaskAt reader offset buf workers k task
  fits : ∀ task ∈ plan.tasks,
    (task.chunkIndex + 1) * reader.chunkSize < wordLimit

/-- The loop has cut the whole buffer. -/
structure Planned (reader : E01Reader) (offset : ℕ) (buf : Bytes)
    (workers : List ReadWorker) (plan : Plan) : Prop
    extends Planning reader offset buf workers plan where
  done : plan.offset = offset + buf.length

/-- The reads that the loop is given: up to the image end, with a worker for
every chunk. -/
structure Planable (reader : E01Reader) (offset : ℕ) (buf : Bytes)
    (workers : List ReadWorker) : Prop where
  opened : Opened reader
  end_le : offset + buf.length ≤ reader.imageSize
  worker_lt : ∀ k, (offset / reader.chunkSize + k) * reader.chunkSize <
    offset + buf.length → k < workers.length

theorem planning_start (reader : E01Reader) (offset : ℕ) (buf : Bytes)
    (workers : List ReadWorker) :
    Planning reader offset buf workers
      { offset, buf, w := workers, tasks := [] } where
  offset_eq := by
    have hle := Nat.div_mul_le_self offset reader.chunkSize
    simp only [E01Reader.stopAt, List.length_nil, Nat.add_zero]
    omega
  buf_eq := by simp
  w_eq := by simp
  task := by simp
  fits := by simp

theorem Planning.atChunk (hread : Planable reader offset buf workers)
    (h : Planning reader offset buf workers plan)
    (hlt : plan.offset < offset + buf.length) :
    ∃ chunk segPath worker,
      AtChunk reader offset (offset + buf.length) plan
        (offset / reader.chunkSize + plan.tasks.length) chunk segPath worker
        (workers.drop (plan.tasks.length + 1)) ∧
      workers[plan.tasks.length]? = some worker := by
  have hpos := hread.opened.chunkSize_pos
  have hoffset := h.offset_eq
  have hfirst := Nat.lt_mul_div_succ offset hpos
  have hmono : (offset / reader.chunkSize + 1) * reader.chunkSize ≤
      (offset / reader.chunkSize + plan.tasks.length + 1) *
        reader.chunkSize := Nat.mul_le_mul_right _ (by omega)
  have hsucc : (offset / reader.chunkSize + plan.tasks.length + 1) *
      reader.chunkSize = (offset / reader.chunkSize + plan.tasks.length) *
        reader.chunkSize + reader.chunkSize := Nat.succ_mul ..
  rw [Nat.mul_comm] at hfirst
  unfold E01Reader.stopAt at hoffset
  have hchunkLt : offset / reader.chunkSize + plan.tasks.length <
      reader.chunks.length := by
    have hcovered := hread.opened.covered
    have hend := hread.end_le
    exact Nat.lt_of_mul_lt_mul_right (a := reader.chunkSize) (by omega)
  have hworkerLt := hread.worker_lt plan.tasks.length (by omega)
  have hsegment := hread.opened.segment_lt _ (List.getElem_mem hchunkLt)
  refine ⟨_, _, _, {
    offset_lt := hlt
    beg_le := by omega
    end_le := hread.end_le
    imageSize_lt := hread.opened.imageSize_lt
    chunkSize_lt := by
      have := hread.opened.chunkSize_lt
      omega
    chunk_le := by omega
    lt_chunk := by omega
    chunk_eq := List.getElem?_eq_getElem hchunkLt
    segPath_eq := List.getElem?_eq_getElem hsegment
    buf_length := by
      rw [h.buf_eq, List.length_drop]
      omega
    w_eq := by
      rw [h.w_eq]
      exact List.drop_eq_getElem_cons hworkerLt }, 
    List.getElem?_eq_getElem hworkerLt⟩

theorem Planning.next (build : Build) (hread : Planable reader offset buf workers)
    (h : Planning reader offset buf workers plan)
    (hlt : plan.offset < offset + buf.length)
    (hfits : (offset / reader.chunkSize + plan.tasks.length + 1) *
      reader.chunkSize < wordLimit) :
    ∃ plan', reader.planBody build offset (offset + buf.length) plan =
        .ok (.next plan') ∧
      Planning reader offset buf workers plan' ∧
      plan.offset < plan'.offset ∧ plan'.offset ≤ offset + buf.length := by
  obtain ⟨chunk, segPath, worker, hat, hworker⟩ := h.atChunk hread hlt
  refine ⟨_, planBody_next build hat hfits, ?_⟩
  obtain ⟨-, hbeg, -, -, -, hchunkLe, hltChunk, hchunk, hpath, hbuf, hw⟩ := hat
  have hstop : min ((offset / reader.chunkSize + plan.tasks.length + 1) *
      reader.chunkSize) (offset + buf.length) =
      reader.stopAt offset buf.length (plan.tasks.length + 1) := by
    unfold E01Reader.stopAt
    rw [← Nat.add_assoc]
    omega
  have hoffset := h.offset_eq
  have hpast : plan.offset <
      reader.stopAt offset buf.length (plan.tasks.length + 1) := by omega
  have hsucc : (offset / reader.chunkSize + plan.tasks.length + 1) *
      reader.chunkSize = (offset / reader.chunkSize + plan.tasks.length) *
        reader.chunkSize + reader.chunkSize := Nat.succ_mul ..
  refine ⟨?_, ?_, ?_⟩
  · simp only [hstop]
    constructor
    · simp
    · simp only
      rw [h.buf_eq, List.drop_drop]
      congr 1
      omega
    · simp
    · intro k task htask
      rcases Nat.lt_trichotomy k plan.tasks.length with hk | rfl | hk
      · rw [List.getElem?_append_left hk] at htask
        exact h.task k task htask
      · rw [List.getElem?_append_right le_rfl, Nat.sub_self] at htask
        obtain rfl : _ = task := by simpa using htask
        exact {
          chunkIndex_eq := rfl
          chunk_eq := hchunk
          segPath_eq := hpath
          worker_eq := hworker
          touched := ⟨by omega, by simp only; omega, by simp only; omega⟩
          beg_eq := by simp only; omega
          end_eq := by simp only; omega
          beg_lt := by simp only; omega
          end_le := by simp only; omega
          sbuf_eq := by
            simp only
            rw [h.buf_eq, ← hoffset, Slice.window]
            congr 1
            omega }
      · rw [List.getElem?_eq_none (by simp; omega)] at htask
        simp at htask
    · intro task htask
      rcases List.mem_append.mp htask with hold | hnew
      · exact h.fits task hold
      · obtain rfl : task = _ := List.mem_singleton.mp hnew
        exact hfits
  · simp only [hstop]
    exact hpast
  · simp only
    omega

/-- The end of every chunk that the read touches is a word. -/
def E01Reader.ChunksFit (reader : E01Reader) (offset len : ℕ) : Prop :=
  ∀ i, reader.Touched offset len i → (i + 1) * reader.chunkSize < wordLimit

theorem Planned.exists_task (hread : Planable reader offset buf workers)
    (h : Planned reader offset buf workers plan) {i : ℕ}
    (hi : reader.Touched offset buf.length i) :
    ∃ (k : ℕ) (task : ChunkTask),
      plan.tasks[k]? = some task ∧ task.chunkIndex = i := by
  have hpos := hread.opened.chunkSize_pos
  obtain ⟨hlen, hlow, hhigh⟩ := hi
  have hle : offset / reader.chunkSize ≤ i :=
    Nat.le_of_lt_succ (Nat.div_lt_of_lt_mul (Nat.mul_comm _ _ ▸ hhigh))
  have hk : i - offset / reader.chunkSize < plan.tasks.length := by
    by_contra hge
    have hmono : (offset / reader.chunkSize + plan.tasks.length) *
        reader.chunkSize ≤ i * reader.chunkSize :=
      Nat.mul_le_mul_right _ (by omega)
    have hoffset := h.offset_eq
    have hdone := h.done
    unfold E01Reader.stopAt at hoffset
    omega
  have hget := List.getElem?_eq_getElem hk
  refine ⟨_, _, hget, ?_⟩
  rw [(h.task _ _ hget).chunkIndex_eq]
  omega

/-- The loop that cuts a read into tasks gets through exactly when the chunks of
the read fit. -/
theorem plan_loop (build : Build) (hread : Planable reader offset buf workers) :
    (reader.ChunksFit offset buf.length →
      ∃ plan, loop (reader.planBody build offset (offset + buf.length))
          (buf.length + 1) { offset, buf, w := workers, tasks := [] } =
          .ok plan ∧
        Planned reader offset buf workers plan) ∧
    (¬ reader.ChunksFit offset buf.length →
      ∃ fault, loop (reader.planBody build offset (offset + buf.length))
          (buf.length + 1) { offset, buf, w := workers, tasks := [] } =
          .panic fault) := by
  refine loop_rule
    (fun plan => Planning reader offset buf workers plan ∧
      plan.offset ≤ offset + buf.length)
    (fun plan => offset + buf.length - plan.offset)
    (fun outcome => (reader.ChunksFit offset buf.length →
        ∃ plan, outcome = .ok plan ∧ Planned reader offset buf workers plan) ∧
      (¬ reader.ChunksFit offset buf.length →
        ∃ fault, outcome = .panic fault))
    ?_ ⟨planning_start reader offset buf workers, by simp⟩ (by simp only; omega)
  rintro plan ⟨hplan, hle⟩
  by_cases hlt : plan.offset < offset + buf.length
  · by_cases hfits : (offset / reader.chunkSize + plan.tasks.length + 1) *
        reader.chunkSize < wordLimit
    · obtain ⟨plan', hbody, hplan', hpast, hle'⟩ :=
        hplan.next build hread hlt hfits
      rw [hbody]
      exact ⟨⟨hplan', hle'⟩, by simp only; omega⟩
    · obtain ⟨chunk, segPath, worker, hat, -⟩ := hplan.atChunk hread hlt
      obtain ⟨fault, hbody⟩ := planBody_overflow build hat hfits
      rw [hbody]
      refine ⟨fun hall => absurd (hall _ ⟨?_, ?_, ?_⟩) hfits,
        fun _ => ⟨fault, rfl⟩⟩
      · have := hat.beg_le
        omega
      · exact Nat.lt_of_le_of_lt hat.chunk_le hlt
      · exact Nat.lt_of_le_of_lt hat.beg_le hat.lt_chunk
  · have hdone : Planned reader offset buf workers plan :=
      { hplan with done := by omega }
    have hbody : reader.planBody build offset (offset + buf.length) plan =
        .ok (.done plan) := if_neg hlt
    rw [hbody]
    refine ⟨fun _ => ⟨plan, rfl, hdone⟩, fun hnot => absurd ?_ hnot⟩
    intro i hi
    obtain ⟨k, task, htask, rfl⟩ := hdone.exists_task hread hi
    exact hplan.fits task (List.mem_of_getElem? htask)

/-! ## The slices -/

theorem flatten_pieces {α : Type} (g : ℕ → ℕ → List α) (stop : ℕ → ℕ)
    (hnil : ∀ a, g a a = []) (pieces : List (List α))
    (happend : ∀ k < pieces.length,
      g (stop 0) (stop k) ++ g (stop k) (stop (k + 1)) =
        g (stop 0) (stop (k + 1)))
    (hpieces : ∀ k piece, pieces[k]? = some piece →
      piece = g (stop k) (stop (k + 1))) :
    pieces.flatten = g (stop 0) (stop pieces.length) := by
  induction pieces using List.reverseRecOn with
  | nil => simp [hnil]
  | append_singleton pieces piece ih =>
      have hlast := hpieces pieces.length piece (by simp)
      rw [List.flatten_append, List.flatten_singleton, ih, hlast,
        List.length_append, List.length_singleton,
        happend pieces.length (by simp)]
      · intro k hk
        exact happend k (by simp; omega)
      · intro k piece' hpiece'
        refine hpieces k piece' ?_
        rw [List.getElem?_append_left
          (List.getElem?_eq_some_iff.mp hpiece').choose]
        exact hpiece'

theorem stopAt_zero (reader : E01Reader) (offset len : ℕ) :
    reader.stopAt offset len 0 = offset := by
  have hle := Nat.div_mul_le_self offset reader.chunkSize
  simp only [E01Reader.stopAt, Nat.add_zero]
  omega

theorem stopAt_mono (reader : E01Reader) (offset len k : ℕ) :
    reader.stopAt offset len k ≤ reader.stopAt offset len (k + 1) := by
  have hmono : (offset / reader.chunkSize + k) * reader.chunkSize ≤
      (offset / reader.chunkSize + (k + 1)) * reader.chunkSize :=
    Nat.mul_le_mul_right _ (by omega)
  unfold E01Reader.stopAt
  omega

theorem offset_le_stopAt (reader : E01Reader) (offset len k : ℕ) :
    offset ≤ reader.stopAt offset len k :=
  le_max_left ..

theorem stopAt_le (reader : E01Reader) (offset len k : ℕ) :
    reader.stopAt offset len k ≤ offset + len := by
  unfold E01Reader.stopAt
  omega

theorem Planned.stopAt_eq (h : Planned reader offset buf workers plan) :
    reader.stopAt offset buf.length plan.tasks.length =
      offset + buf.length := by
  rw [← h.offset_eq, h.done]

theorem Planned.slices (h : Planned reader offset buf workers plan) :
    (plan.tasks.map ChunkTask.sbuf).flatten = buf ∧ plan.buf = [] := by
  constructor
  · have hpieces := flatten_pieces
      (fun a b => Slice.window buf (a - offset) (b - a))
      (reader.stopAt offset buf.length) (by simp)
      (plan.tasks.map ChunkTask.sbuf)
      (by
        intro k _
        have hle := stopAt_mono reader offset buf.length k
        have hge := offset_le_stopAt reader offset buf.length k
        simp only [stopAt_zero, Nat.sub_self]
        rw [show reader.stopAt offset buf.length (k + 1) - offset =
            (reader.stopAt offset buf.length k - offset) +
              (reader.stopAt offset buf.length (k + 1) -
                reader.stopAt offset buf.length k) by omega,
          ← Slice.window_append, Nat.zero_add])
      (by
        intro k piece hpiece
        obtain ⟨task, htask, rfl⟩ := by simpa using hpiece
        have hat := h.task k task htask
        have hbeg := hat.beg_eq
        have hend := hat.end_eq
        rw [hat.sbuf_eq]
        congr 1
        omega)
    rw [hpieces, List.length_map, h.stopAt_eq, stopAt_zero, Slice.window]
    simp
  · rw [h.buf_eq, h.done]
    simp

theorem Planned.sbuf_length (h : Planned reader offset buf workers plan)
    {k : ℕ} {task : ChunkTask} (htask : plan.tasks[k]? = some task) :
    task.sbuf.length = task.endInChunk - task.begInChunk := by
  have hat := h.task k task htask
  have hbeg := hat.beg_eq
  have hend := hat.end_eq
  have hlt := hat.beg_lt
  have hge := offset_le_stopAt reader offset buf.length k
  have hstop := stopAt_le reader offset buf.length (k + 1)
  rw [hat.sbuf_eq, Slice.length_window_of_le]
  omega

end E01
end ImageReader
