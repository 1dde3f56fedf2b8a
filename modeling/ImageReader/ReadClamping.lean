import ImageReader.E01Semantics
import ImageReader.RawdiskReader
import ImageReader.VmdkHandleImage
import ImageReader.VmdkReading

/-!
# Limiting reads to the image

Each of the three readers cuts the buffer of a read at the image end before it
fills it, and finds out by an addition whether it has to.  A read is limited
exactly when that sum is a word, and, for an E01 image, the ends of the chunks
which it touches are words too.
-/

namespace ImageReader

/-- How much of a buffer of `len` bytes an image has at `offset`. -/
def lenToEnd (imageSize offset len : ℕ) : ℕ := min len (imageSize - offset)

theorem lenToEnd_le {imageSize offset len : ℕ} (h : offset ≤ imageSize) :
    offset + lenToEnd imageSize offset len ≤ imageSize := by
  unfold lenToEnd
  omega

theorem lenToEnd_le_len (imageSize offset len : ℕ) :
    lenToEnd imageSize offset len ≤ len := Nat.min_le_left _ _

/-- The test of the limit is right only where its sum is a word. -/
theorem limitToEnd_exact_iff {ε : Type} {imageSize offset len : ℕ}
    (h : offset ≤ imageSize) :
    (∀ build, (limitToEnd build imageSize offset len : Outcome ε ℕ) =
      .ok (lenToEnd imageSize offset len)) ↔ offset + len < wordLimit := by
  constructor
  · intro hall
    by_contra hpast
    have hdev := hall .dev
    unfold limitToEnd at hdev
    rw [Build.dev_add hpast] at hdev
    simp at hdev
  · intro hlen build
    exact limitToEnd_eq h hlen

/-! ## VMDK -/

namespace Vmdk

variable {δ : Type} {build : Build} {inflater : Inflater δ}
  {reader : VmdkReader} {offset : ℕ} {buf : Bytes}

/-- An extent of the reader delivers the byte when it is read at some offset up
to `o`. -/
def VmdkReader.Serves (build : Build) (inflater : Inflater δ)
    (reader : VmdkReader) (o : ℕ) (b : UInt8) : Prop :=
  ∃ ex ∈ reader.extents, ∃ beg want data,
    ex.storage.read build inflater beg want = .ok data ∧
      beg ≤ o ∧ data[o - beg]? = some b

/-- A read is limited to the image: the limit and the offsets of the copy loop
are what they are over the integers, and a read that succeeds says how many
bytes it has filled, and has filled them. -/
structure VmdkReader.LimitsRead (reader : VmdkReader) (offset : ℕ)
    (buf : Bytes) : Prop where
  limit : ∀ build,
    (limitToEnd build reader.imageSize offset buf.length :
      Outcome ReadError ℕ) =
        .ok (lenToEnd reader.imageSize offset buf.length)
  ends : ∀ (δ : Type) (build : Build) (inflater : Inflater δ),
    ∀ n, n = lenToEnd reader.imageSize offset buf.length →
    ∀ i copy, firstSpan reader offset = .ok i →
      Reaches (copyBody build inflater reader (offset + n))
        ⟨offset, i, [], Slice.window buf 0 n⟩ copy →
      copy.offset = offset + copy.filled.length ∧ copy.offset < wordLimit
  count : ∀ (δ : Type) (build : Build) (inflater : Inflater δ) n filled,
    readAtOffset build inflater reader offset buf = .ok (n, filled) →
    n = lenToEnd reader.imageSize offset buf.length ∧
      ∃ bytes, bytes.length = n ∧ filled = bytes ++ buf.drop n ∧
        ∀ j b, bytes[j]? = some b →
          reader.Serves build inflater (offset + j) b

theorem copyBody_next {end_ : ℕ} {copy copy' : Copy}
    (h : copyBody build inflater reader end_ copy = .ok (.next copy')) :
    ∃ ex ∈ reader.extents, ∃ want data,
      ex.storage.read build inflater copy.offset want = .ok data ∧
        copy'.filled = copy.filled ++ data := by
  unfold copyBody at h
  split_ifs at h
  · obtain ⟨span, -, h⟩ := Outcome.bind_eq_ok.mp h
    obtain ⟨left, -, h⟩ := Outcome.bind_eq_ok.mp h
    obtain ⟨ex, hex, h⟩ := Outcome.bind_eq_ok.mp h
    obtain ⟨data, hdata, h⟩ := Outcome.bind_eq_ok.mp h
    obtain ⟨next, -, h⟩ := Outcome.bind_eq_ok.mp h
    obtain ⟨rest, -, h⟩ := Outcome.bind_eq_ok.mp h
    obtain rfl := Step.next.inj (Outcome.ok.inj h)
    exact ⟨ex, List.mem_of_getElem? (Slice.index_eq_ok.mp hex), _, data, hdata,
      rfl⟩
  · simp at h

theorem copyBody_done {end_ : ℕ} {copy : Copy} {content : Bytes}
    (h : copyBody build inflater reader end_ copy = .ok (.done content)) :
    end_ ≤ copy.offset ∧ content = copy.filled ++ copy.buf := by
  unfold copyBody at h
  split_ifs at h with hmore
  · obtain ⟨span, -, h⟩ := Outcome.bind_eq_ok.mp h
    obtain ⟨left, -, h⟩ := Outcome.bind_eq_ok.mp h
    obtain ⟨ex, -, h⟩ := Outcome.bind_eq_ok.mp h
    obtain ⟨data, -, h⟩ := Outcome.bind_eq_ok.mp h
    obtain ⟨next, -, h⟩ := Outcome.bind_eq_ok.mp h
    obtain ⟨rest, -, h⟩ := Outcome.bind_eq_ok.mp h
    simp at h
  · exact ⟨Nat.le_of_not_lt hmore, (Step.done.inj (Outcome.ok.inj h)).symm⟩

theorem copying_next (hwf : reader.WellFormed) {beg count : ℕ}
    (hcount : beg + count ≤ reader.imageSize) {copy copy' : Copy}
    (hcopy : Copying build inflater reader beg count copy)
    (h : copyBody build inflater reader (beg + count) copy =
      .ok (.next copy')) : Copying build inflater reader beg count copy' := by
  have hspec := copyBody_spec hwf hcount hcopy
  rw [h] at hspec
  exact hspec.1

/-- The bytes which the loop has filled are bytes of extents. -/
def Serving (build : Build) (inflater : Inflater δ) (reader : VmdkReader)
    (beg : ℕ) (filled : Bytes) : Prop :=
  ∀ j b, filled[j]? = some b → reader.Serves build inflater (beg + j) b

theorem serving_next {beg count : ℕ} {copy copy' : Copy}
    (hcopy : Copying build inflater reader beg count copy)
    (hserving : Serving build inflater reader beg copy.filled)
    (h : copyBody build inflater reader (beg + count) copy =
      .ok (.next copy')) :
    Serving build inflater reader beg copy'.filled := by
  obtain ⟨ex, hmem, want, data, hdata, hfilled⟩ := copyBody_next h
  intro j b hj
  rw [hfilled] at hj
  rcases Nat.lt_or_ge j copy.filled.length with hold | hnew
  · rw [List.getElem?_append_left hold] at hj
    exact hserving j b hj
  · rw [List.getElem?_append_right hnew] at hj
    have hoffset := hcopy.offset_eq
    refine ⟨ex, hmem, copy.offset, want, data, hdata, by omega, ?_⟩
    rw [show beg + j - copy.offset = j - copy.filled.length by omega]
    exact hj

theorem VmdkReader.WellFormed.limitsRead (hwf : reader.WellFormed)
    (hoffset : offset ≤ reader.imageSize)
    (hlen : offset + buf.length < wordLimit) :
    reader.LimitsRead offset buf where
  limit := (limitToEnd_exact_iff hoffset).mpr hlen
  ends := by
    rintro δ build inflater n hn i copy hfirst hreach
    have hle : offset + n ≤ reader.imageSize := hn ▸ lenToEnd_le hoffset
    obtain ⟨i', hfirst', hstart, -⟩ := readAtOffset_eq_loop build inflater hwf
      hoffset hlen hn
    obtain rfl : i = i' := by simpa [hfirst] using hfirst'
    have hcopy := hreach.invariant
      (fun _ _ hcopy hbody => copying_next hwf hle hcopy hbody) hstart
    have hlength := hcopy.length_eq
    have hlt := hwf.lt
    exact ⟨hcopy.offset_eq, by rw [hcopy.offset_eq]; omega⟩
  count := by
    intro δ build inflater n filled hread
    obtain ⟨i, -, hstart, heq⟩ := readAtOffset_eq_loop build inflater hwf
      hoffset hlen
      (show lenToEnd reader.imageSize offset buf.length = _ from rfl)
    rw [heq] at hread
    obtain ⟨content, hloop, hresult⟩ := Outcome.bind_eq_ok.mp hread
    obtain ⟨rfl, rfl⟩ := Prod.mk.inj (Outcome.ok.inj hresult)
    obtain ⟨hlength, hserving⟩ : content.length =
        lenToEnd reader.imageSize offset buf.length ∧
          Serving build inflater reader offset content := by
      refine loop_ok_rule (fun copy => Copying build inflater reader offset
          (lenToEnd reader.imageSize offset buf.length) copy ∧
          Serving build inflater reader offset copy.filled)
        (fun content => content.length =
          lenToEnd reader.imageSize offset buf.length ∧
            Serving build inflater reader offset content) ?_ ?_
        ⟨hstart, by simp [Serving]⟩ hloop
      · rintro copy copy' ⟨hcopy, hserving⟩ hbody
        exact ⟨copying_next hwf (lenToEnd_le hoffset) hcopy hbody,
          serving_next hcopy hserving hbody⟩
      · rintro copy content' ⟨hcopy, hserving⟩ hbody
        obtain ⟨hend, rfl⟩ := copyBody_done hbody
        have hat := hcopy.offset_eq
        have hlength := hcopy.length_eq
        have hempty : copy.buf = [] := List.length_eq_zero_iff.mp (by omega)
        rw [hempty, List.append_nil]
        exact ⟨by omega, hserving⟩
    exact ⟨rfl, content, hlength, rfl, hserving⟩

theorem VmdkReader.WellFormed.limitsRead_iff (hwf : reader.WellFormed)
    (hoffset : offset ≤ reader.imageSize) :
    reader.LimitsRead offset buf ↔ offset + buf.length < wordLimit :=
  ⟨fun h => (limitToEnd_exact_iff hoffset).mp h.limit,
    fun hlen => hwf.limitsRead hoffset hlen⟩

/-- Where the sum wraps around, a read says that it has filled the buffer, and
has not touched it. -/
theorem VmdkReader.WellFormed.readAtOffset_wrapped (inflater : Inflater δ)
    (hwf : reader.WellFormed) (hoffset : offset ≤ reader.imageSize)
    (hbuf : buf.length < wordLimit)
    (hlen : ¬ offset + buf.length < wordLimit) :
    readAtOffset .release inflater reader offset buf = .ok (buf.length, buf) := by
  have hpast := Nat.le_of_not_lt hlen
  have hlt := hwf.lt
  have hback := Build.release_add (ε := ReadError) hlen
  rw [E01.wrapped_sum hpast (by omega) hbuf] at hback
  have hlimit : (limitToEnd .release reader.imageSize offset buf.length :
      Outcome ReadError ℕ) = .ok buf.length := by
    unfold limitToEnd
    rw [hback, Outcome.ok_bind, if_neg (by omega)]
  have hwindow : Slice.window buf 0 buf.length = buf := by
    simp [Slice.window]
  obtain ⟨i, hfirst, -⟩ := firstSpan_spec hwf offset
  -- the loop starts behind its end
  have hloop : loop (copyBody .release inflater reader
      (offset + buf.length - wordLimit)) (buf.length + reader.spans.length + 1)
      ⟨offset, i, [], buf⟩ = .ok buf := by
    refine loop_done ?_
    unfold copyBody
    rw [if_neg (by simp only; omega)]
    rfl
  have hcount : (Build.release.sub (offset + buf.length - wordLimit) offset :
      Outcome ReadError ℕ) = .ok buf.length := by
    rw [Build.release_sub (by omega), E01.wrapped_difference hpast hbuf]
  unfold readAtOffset
  rw [if_neg (by omega), hlimit, Outcome.ok_bind,
    Slice.range_of_le (Nat.zero_le _) le_rfl, Outcome.ok_bind, Nat.sub_zero,
    hwindow, hback, Outcome.ok_bind, hfirst, Outcome.ok_bind, hloop,
    Outcome.ok_bind, hcount, Outcome.ok_bind, List.drop_length,
    List.append_nil]
  rfl

end Vmdk

/-! ## Split raw images -/

namespace Rawdisk

variable {build : Build} {cache : Cache} {reader : RawdiskReader} {offset : ℕ}
  {buf : Bytes}

/-- Byte `o` comes from a read of the cache in the segment where some offset up
to `o` is located. -/
def RawdiskReader.Serves (build : Build) (cache : Cache)
    (reader : RawdiskReader) (o : ℕ) (b : UInt8) : Prop :=
  ∃ beg idx within left take data,
    (reader.segments.locate build beg : Outcome ReadError _) =
        .ok (some (idx, within, left)) ∧
      take ≤ left ∧ cache.read idx within take = .ok data ∧
      beg ≤ o ∧ data[o - beg]? = some b

structure RawdiskReader.LimitsRead (reader : RawdiskReader) (offset : ℕ)
    (buf : Bytes) : Prop where
  limit : ∀ build,
    (limitToEnd build reader.imageSize offset buf.length :
      Outcome ReadError ℕ) =
        .ok (lenToEnd reader.imageSize offset buf.length)
  ends : ∀ build cache filled,
    Reaches (readBody build cache reader offset
      (lenToEnd reader.imageSize offset buf.length)) [] filled →
    offset + filled.length < wordLimit
  count : ∀ build cache n filled,
    readAtOffset build cache reader offset buf = .ok (n, filled) →
    n = lenToEnd reader.imageSize offset buf.length ∧
      ∃ bytes, bytes.length = n ∧ filled = bytes ++ buf.drop n ∧
        ∀ j b, bytes[j]? = some b →
          reader.Serves build cache (offset + j) b

theorem saturatingAdd_lt (a b : ℕ) : saturatingAdd a b < wordLimit := by
  unfold saturatingAdd
  rw [wordLimit_eq]
  omega

theorem cumulativeStarts_lt {acc : ℕ} (lengths : List ℕ)
    (h : acc < wordLimit) : (cumulativeStarts acc lengths).2 < wordLimit := by
  induction lengths generalizing acc with
  | nil => exact h
  | cons len rest ih => exact ih (saturatingAdd_lt acc len)

theorem openSegments_lt {imagePath : String} {sources : List (String × ℕ)}
    (h : openSegments build imagePath sources = .ok reader) :
    reader.imageSize < wordLimit := by
  unfold openSegments at h
  obtain ⟨lengths, -, h⟩ := Outcome.bind_eq_ok.mp h
  obtain ⟨map, hmap, h⟩ := Outcome.bind_eq_ok.mp h
  obtain rfl := Outcome.ok.inj h
  unfold SegmentMap.new at hmap
  obtain ⟨_, -, hmap⟩ := Outcome.bind_eq_ok.mp hmap
  obtain rfl := Outcome.ok.inj hmap
  exact cumulativeStarts_lt lengths (by rw [wordLimit_eq]; omega)

/-- The part of the buffer which the loop has filled. -/
structure Filling (build : Build) (cache : Cache) (reader : RawdiskReader)
    (offset total : ℕ) (filled : Bytes) : Prop where
  le : filled.length ≤ total
  serves : ∀ j b, filled[j]? = some b →
    reader.Serves build cache (offset + j) b

theorem filling_next {total : ℕ} {filled filled' : Bytes}
    (hlt : offset + total < wordLimit)
    (h : Filling build cache reader offset total filled)
    (hbody : readBody build cache reader offset total filled =
      .ok (.next filled')) :
    Filling build cache reader offset total filled' := by
  have hle := h.le
  unfold readBody at hbody
  split_ifs at hbody with hmore
  rotate_left
  · simp at hbody
  rw [Build.add_of_lt (by omega), Outcome.ok_bind] at hbody
  obtain ⟨found, hlocate, hbody⟩ := Outcome.bind_eq_ok.mp hbody
  cases found with
  | none => simp at hbody
  | some found =>
      obtain ⟨idx, within, left⟩ := found
      simp only at hbody
      rw [Build.sub_of_le hle, Outcome.ok_bind] at hbody
      split_ifs at hbody with hzero
      obtain ⟨data, hdata, hbody⟩ := Outcome.bind_eq_ok.mp hbody
      obtain rfl := Step.next.inj (Outcome.ok.inj hbody)
      have hread := Outcome.ofExcept_eq_ok.mp (Outcome.mapError_eq_ok.mp hdata)
      have hlength := cache.length_eq _ _ _ _ hread
      have htake : takeBytes (total - filled.length) left ≤
          total - filled.length ∧
          takeBytes (total - filled.length) left ≤ left := by
        unfold takeBytes
        omega
      constructor
      · rw [List.length_append]
        omega
      · intro j b hj
        rcases Nat.lt_or_ge j filled.length with hold | hnew
        · rw [List.getElem?_append_left hold] at hj
          exact h.serves j b hj
        · rw [List.getElem?_append_right hnew] at hj
          refine ⟨offset + filled.length, idx, within, left, _, data, hlocate,
            htake.2, hread, by omega, ?_⟩
          rw [show offset + j - (offset + filled.length) =
            j - filled.length by omega]
          exact hj

theorem readBody_done {total : ℕ} {filled bytes : Bytes}
    (h : readBody build cache reader offset total filled = .ok (.done bytes)) :
    total ≤ filled.length ∧ bytes = filled := by
  unfold readBody at h
  split_ifs at h with hmore
  · obtain ⟨want, -, h⟩ := Outcome.bind_eq_ok.mp h
    obtain ⟨found, -, h⟩ := Outcome.bind_eq_ok.mp h
    cases found with
    | none => simp at h
    | some found =>
        simp only at h
        obtain ⟨remaining, -, h⟩ := Outcome.bind_eq_ok.mp h
        split_ifs at h
        obtain ⟨data, -, h⟩ := Outcome.bind_eq_ok.mp h
        simp at h
  · exact ⟨Nat.le_of_not_lt hmore, (Step.done.inj (Outcome.ok.inj h)).symm⟩

theorem RawdiskReader.limitsRead (hlt : reader.imageSize < wordLimit)
    (hoffset : offset ≤ reader.imageSize)
    (hlen : offset + buf.length < wordLimit) :
    reader.LimitsRead offset buf := by
  have hlimit := (limitToEnd_exact_iff (ε := ReadError) hoffset).mpr hlen
  have hend : offset + lenToEnd reader.imageSize offset buf.length <
      wordLimit := (lenToEnd_le hoffset).trans_lt hlt
  have hbuf := lenToEnd_le_len reader.imageSize offset buf.length
  refine ⟨hlimit, ?_, ?_⟩ <;>
    generalize lenToEnd reader.imageSize offset buf.length = total at *
  · intro build cache filled hreach
    have hfilling : Filling build cache reader offset total filled :=
      hreach.invariant (fun _ _ h hbody => filling_next (by omega) h hbody)
        ⟨Nat.zero_le _, by simp⟩
    have := hfilling.le
    omega
  · intro build cache n filled hread
    unfold readAtOffset at hread
    have hwindow : (Slice.window buf 0 total).length = total :=
      Slice.length_window_of_le (by omega)
    rw [if_neg (by omega), hlimit build, Outcome.ok_bind,
      Slice.range_of_le (Nat.zero_le _) hbuf, Outcome.ok_bind, Nat.sub_zero]
      at hread
    simp only [hwindow] at hread
    split_ifs at hread with hzero
    · obtain ⟨rfl, rfl⟩ := Prod.mk.inj (Outcome.ok.inj hread)
      exact ⟨hzero.symm, [], rfl, rfl, by simp⟩
    · obtain ⟨bytes, hloop, hread⟩ := Outcome.bind_eq_ok.mp hread
      obtain ⟨rfl, rfl⟩ := Prod.mk.inj (Outcome.ok.inj hread)
      obtain ⟨hfilling, hend⟩ :
          Filling build cache reader offset total bytes ∧
            total ≤ bytes.length := by
        refine loop_ok_rule (Filling build cache reader offset total)
          (fun bytes => Filling build cache reader offset total bytes ∧
            total ≤ bytes.length) ?_ ?_ ⟨Nat.zero_le _, by simp⟩ hloop
        · exact fun _ _ h hbody => filling_next (by omega) h hbody
        · intro filled bytes h hbody
          obtain ⟨hend, rfl⟩ := readBody_done hbody
          exact ⟨h, hend⟩
      exact ⟨rfl, bytes, le_antisymm hfilling.le hend, rfl, hfilling.serves⟩

theorem RawdiskReader.limitsRead_iff (hlt : reader.imageSize < wordLimit)
    (hoffset : offset ≤ reader.imageSize) :
    reader.LimitsRead offset buf ↔ offset + buf.length < wordLimit :=
  ⟨fun h => (limitToEnd_exact_iff hoffset).mp h.limit,
    fun hlen => limitsRead hlt hoffset hlen⟩

end Rawdisk


/-! ## E01 -/

namespace E01

variable {build : Build} {zlib : Zlib} {sources : ℕ → WorkerSource}
  {env : SharedCache → SharedCache → Prop} {reader : E01Reader}
  {state : ReaderState} {offset : ℕ} {buf : Bytes}

/-- Each of the `n` bytes from `offset` on is the byte of what its chunk
decodes to. -/
def E01Reader.Serves (zlib : Zlib) (sources : ℕ → WorkerSource)
    (reader : E01Reader) (offset n : ℕ) (bytes : Bytes) : Prop :=
  ∃ P : ℕ → Bytes, bytes = imageBytes P reader.chunkSize offset (offset + n) ∧
    ∀ i, reader.Touched offset n i → ∃ chunk leftover,
      reader.chunks[i]? = some chunk ∧
        (reader.coding zlib).payload (sources chunk.segment) chunk i leftover =
          .ok (P i) ∧
        reader.rangeEnd offset n i ≤ (P i).length

/-- The read is cut into tasks up to the end of its range: its chunks are
counted, and with a worker for each the loop cuts them all. -/
structure E01Reader.Cuts (build : Build) (reader : E01Reader)
    (pool : List ReadWorker) (offset n : ℕ) (buf : Bytes) : Prop where
  range : reader.chunkRange build offset (offset + n) =
    .ok (offset / reader.chunkSize,
      offset / reader.chunkSize + reader.workerCount offset n)
  checkout : reader.HasWorkers pool (reader.workerCount offset n) →
    ∃ workers pool', reader.checkoutWorkers build pool
        (reader.workerCount offset n) = .ok (workers, pool') ∧
      workers.length = reader.workerCount offset n
  loop_ends : ∀ workers : List ReadWorker,
    workers.length = reader.workerCount offset n →
    ∃ plan, loop (reader.planBody build offset (offset + n)) (n + 1)
        { offset, buf := buf.take n, w := workers, tasks := [] } = .ok plan ∧
      plan.offset = offset + n

structure E01Reader.LimitsRead (reader : E01Reader) (offset : ℕ)
    (buf : Bytes) : Prop where
  limit : ∀ build, reader.limitBuf build offset buf =
    .ok (buf.take (lenToEnd reader.imageSize offset buf.length))
  ends : ∀ build pool, Lendable reader pool →
    reader.Cuts build pool offset
      (lenToEnd reader.imageSize offset buf.length) buf
  count : ∀ build zlib sources
    (env : SharedCache → SharedCache → Prop) (state : ReaderState),
    (∀ cache cache', env cache cache' →
      reader.Remembers zlib sources cache.value →
      reader.Remembers zlib sources cache'.value) →
    state.Valid zlib sources reader →
    Thread.Always env state.decodedChunkCache
      (reader.readAtOffset build zlib sources state.workerPool offset buf)
      fun r => ∀ n filled, r.1 = .ok (n, filled) →
        n = lenToEnd reader.imageSize offset buf.length ∧
          ∃ bytes, bytes.length = n ∧ filled = bytes ++ buf.drop n ∧
            reader.Serves zlib sources offset n bytes

theorem limitBuf_exact_iff (hoffset : offset ≤ reader.imageSize) :
    (∀ build, reader.limitBuf build offset buf =
      .ok (buf.take (lenToEnd reader.imageSize offset buf.length))) ↔
      offset + buf.length < wordLimit := by
  constructor
  · intro hall
    by_contra hpast
    have hdev := hall .dev
    unfold E01Reader.limitBuf at hdev
    rw [Build.dev_add hpast] at hdev
    simp at hdev
  · intro hlen build
    exact limitBuf_eq build hoffset hlen

/-- The tasks are cut exactly when the ends of their chunks are words. -/
theorem cuts_iff (build : Build) (hopened : Opened reader)
    (pool : List ReadWorker) {n : ℕ} (hlength : (buf.take n).length = n)
    (hend : offset + n ≤ reader.imageSize) :
    reader.Cuts build pool offset n buf ↔ reader.ChunksFit offset n := by
  have hend' : offset + (buf.take n).length ≤ reader.imageSize := by
    rwa [hlength]
  have hloop : ∀ workers : List ReadWorker,
      workers.length = reader.workerCount offset n →
      Planable reader offset (buf.take n) workers := fun workers hworkers =>
    planable_of_workerCount hopened hend' (by rw [hlength, hworkers])
  constructor
  · intro h
    let workers := List.replicate (reader.workerCount offset n)
      reader.freshWorker
    obtain ⟨plan, hends, -⟩ := h.loop_ends workers List.length_replicate
    by_contra hnot
    obtain ⟨fault, hpanic⟩ := (plan_loop build (hloop workers
      List.length_replicate)).2 (by rwa [hlength])
    rw [hlength, hends] at hpanic
    simp at hpanic
  · intro hchunks
    refine ⟨chunkRange_workerCount build hopened hend, ?_, ?_⟩
    · intro henough
      obtain ⟨workers, hcheckout, hworkers, -⟩ :=
        checkoutWorkers_eq build hopened henough
      exact ⟨workers, _, hcheckout, hworkers⟩
    · intro workers hworkers
      obtain ⟨plan, hends, hplanned⟩ := (plan_loop build (hloop workers
        hworkers)).1 (by rwa [hlength])
      rw [hlength] at hends
      exact ⟨plan, hends, by rw [hplanned.done, hlength]⟩

/-- A task that answers with bytes has taken them from the payload of its
chunk. -/
theorem TaskDone.served {clean : Prop} {task : ChunkTask} {r : TaskResult}
    {bytes : Bytes} (hdone : TaskDone clean zlib sources reader task r)
    (hok : r.1 = .ok bytes) :
    ∃ payload leftover,
      (reader.coding zlib).payload (sources task.chunk.segment) task.chunk
        task.chunkIndex leftover = .ok payload ∧
      task.endInChunk ≤ payload.length ∧
      r.1 = .ok (Slice.window payload task.begInChunk
        (task.endInChunk - task.begInChunk)) := by
  by_cases hroom : HasRoom zlib reader task.worker task.chunk
  · obtain ⟨leftover, hanswer⟩ : ∃ leftover,
        r.1 = taskAnswer zlib sources reader task leftover :=
      (hdone.answer hroom).resolve_right fun hpoisoned => by
        simp [hpoisoned.2] at hok
    have hbytes := hanswer.symm.trans hok
    unfold taskAnswer at hbytes hanswer
    cases hpayload : (reader.coding zlib).payload (sources task.chunk.segment)
        task.chunk task.chunkIndex leftover with
    | error e =>
        rw [hpayload] at hbytes
        simp [E01.served, Outcome.mapError] at hbytes
    | ok payload =>
        rw [hpayload] at hbytes hanswer
        simp only [E01.served, cut] at hbytes hanswer
        split_ifs at hbytes hanswer with hle
        · exact ⟨payload, leftover, hpayload, hle, hanswer⟩
        · simp [Outcome.mapError] at hbytes
  · obtain ⟨fault, hstuck⟩ := hdone.stuck hroom
    rw [hok] at hstuck
    simp at hstuck

/-- A read that succeeds has answers from all of its tasks. -/
theorem CutRead.serves {pool : List ReadWorker} {n : ℕ}
    {workers : List ReadWorker} {plan : Plan}
    (h : CutRead build zlib sources reader pool offset buf n workers plan)
    {clean : Prop} {results : List (Option TaskResult)} {pick : ℕ}
    (hran : Ran (TaskDone clean zlib sources reader) plan.tasks results)
    (pool' : List ReadWorker) {count : ℕ} {filled : Bytes}
    (hok : (E01Reader.finish build plan pool' offset (buf.drop n) results
      pick).1 = .ok (count, filled)) :
    count = n ∧ ∃ bytes, bytes.length = count ∧
      filled = bytes ++ buf.drop count ∧
        reader.Serves zlib sources offset count bytes := by
  have hall : ∀ (k : ℕ) (r : TaskResult), results[k]? = some (some r) →
      ∃ bytes, r.1 = .ok bytes := fun k r hr => finish_eq_ok hok hr
  have hnone : ∀ k : ℕ, results[k]? ≠ some none := by
    rcases hran.skipped with ⟨k, r, hr, hfailed⟩ | hnone
    · obtain ⟨bytes, hbytes⟩ := hall k r hr
      exact absurd hbytes (hfailed bytes)
    · exact hnone
  -- the payload of every task, by its place in the plan
  have hpayload : ∀ k : ℕ, ∃ payload, ∀ task : ChunkTask,
      plan.tasks[k]? = some task →
      (∃ leftover, (reader.coding zlib).payload (sources task.chunk.segment)
        task.chunk task.chunkIndex leftover = .ok payload) ∧
      task.endInChunk ≤ payload.length ∧
      ∃ r : TaskResult, results[k]? = some (some r) ∧
        r.1 = .ok (Slice.window payload task.begInChunk
          (task.endInChunk - task.begInChunk)) := by
    intro k
    cases htask : plan.tasks[k]? with
    | none => exact ⟨[], by simp⟩
    | some task =>
        obtain ⟨r, hr, hdone⟩ := hran.result_of_all hnone htask
        obtain ⟨bytes, hbytes⟩ := hall k r hr
        obtain ⟨payload, leftover, hdecoded, hle, hanswer⟩ :=
          hdone.served hbytes
        refine ⟨payload, ?_⟩
        rintro task' htask'
        obtain rfl := Option.some.inj htask'
        exact ⟨⟨leftover, hdecoded⟩, hle, r, hr, hanswer⟩
  choose Q hQ using hpayload
  have hindex : ∀ (k : ℕ) (task : ChunkTask), plan.tasks[k]? = some task →
      task.chunkIndex - offset / reader.chunkSize = k := by
    intro k task htask
    rw [(h.taskAt htask).chunkIndex_eq, Nat.add_sub_cancel_left]
  have hbuf := bufAfter_eq (P := fun i => Q (i - offset / reader.chunkSize))
    h.planned hran.length_eq (fun k task htask => by
      rw [hindex k task htask]
      exact (hQ k task htask).2)
  rw [finish_ok build pool' (buf.drop n) pick h.le_offset hall, h.planned.done,
    Nat.add_sub_cancel_left, hbuf, h.length_eq] at hok
  obtain ⟨rfl, rfl⟩ := Prod.mk.inj (Outcome.ok.inj hok)
  refine ⟨rfl, _, ?_, rfl, _, rfl, ?_⟩
  · rw [length_imageBytes, Nat.add_sub_cancel_left]
  · intro i hi
    obtain ⟨task, hmem, rfl⟩ := h.exists_task hi
    obtain ⟨k, htask⟩ := List.mem_iff_getElem?.mp hmem
    obtain ⟨⟨leftover, hdecoded⟩, hle, -⟩ := hQ k task htask
    rw [hindex k task htask, ← h.endInChunk_eq hmem]
    exact ⟨task.chunk, leftover, (h.taskAt htask).chunk_eq, hdecoded, hle⟩

theorem Opened.limitsRead (hopened : Opened reader)
    (hoffset : offset ≤ reader.imageSize)
    (hlen : offset + buf.length < wordLimit)
    (hfit : reader.ChunksFit offset
      (lenToEnd reader.imageSize offset buf.length)) :
    reader.LimitsRead offset buf where
  limit := (limitBuf_exact_iff hoffset).mpr hlen
  ends := fun build pool _ => (cuts_iff build hopened pool
    (readLen_le reader offset buf) (lenToEnd_le hoffset)).mpr hfit
  count := by
    intro build zlib sources env state henv hvalid
    have hkept : reader.Kept zlib sources False state.decodedChunkCache :=
      ⟨hvalid.remembers, False.elim⟩
    refine Thread.always_of_keeps (fun cache cache' hchange hkept =>
      (⟨henv cache cache' hchange hkept.value, False.elim⟩ :
        reader.Kept zlib sources False cache')) hkept (readAtOffset_live ..) ?_
    by_cases henough : reader.HasWorkers state.workerPool (reader.workerCount
        offset (lenToEnd reader.imageSize offset buf.length))
    · obtain ⟨workers, plan, pool', -, -, hcut⟩ := exists_cutRead build zlib
        sources hopened hvalid.lendable hoffset hlen rfl hfit henough
      refine (hcut.keeps False.elim).mono ?_
      rintro r (⟨-, rfl⟩ | ⟨results, pick, hran, rfl⟩) n filled hok
      · simp at hok
      · exact hcut.serves hran _ hok
    · rw [readAtOffset_eq_panic build zlib sources hopened hoffset hlen rfl rfl
        henough]
      exact traced_keeps _ _ (fun _ => by simp) (by simp [Thread.Keeps])

theorem Opened.limitsRead_iff (hopened : Opened reader)
    (hoffset : offset ≤ reader.imageSize) :
    reader.LimitsRead offset buf ↔
      offset + buf.length < wordLimit ∧ reader.ChunksFit offset
        (lenToEnd reader.imageSize offset buf.length) := by
  constructor
  · intro h
    exact ⟨(limitBuf_exact_iff hoffset).mp h.limit,
      (cuts_iff .dev hopened [] (readLen_le reader offset buf)
        (lenToEnd_le hoffset)).mp (h.ends .dev [] (by simp [Lendable]))⟩
  · rintro ⟨hlen, hfit⟩
    exact hopened.limitsRead hoffset hlen hfit

end E01

/-! ## The three readers -/

/-- A read at or before the image end is limited to the image exactly when the
end of its buffer is a word; for an E01 image, the ends of the chunks which it
touches have to be words too. -/
theorem reads_limited_iff (build : Build) (offset : ℕ) (buf : Bytes) :
    (∀ (handleImage : Vmdk.HandleImage) (fuel : ℕ) (imagePath : String)
        (url : Vmdk.Url) (reader : Vmdk.VmdkReader),
      Vmdk.openWithOptions build handleImage fuel imagePath url =
        .ok reader → offset ≤ reader.imageSize →
        (reader.LimitsRead offset buf ↔ offset + buf.length < wordLimit)) ∧
    (∀ (options : E01.E01ReaderOptions) (segments : List E01.SegmentComponents)
        (reader : E01.E01Reader),
      E01.openImpl build options segments = .ok reader →
        offset ≤ reader.imageSize →
        (reader.LimitsRead offset buf ↔ offset + buf.length < wordLimit ∧
          reader.ChunksFit offset
            (lenToEnd reader.imageSize offset buf.length))) ∧
    ∀ (imagePath : String) (sources : List (String × ℕ))
        (reader : Rawdisk.RawdiskReader),
      Rawdisk.openSegments build imagePath sources = .ok reader →
        offset ≤ reader.imageSize →
        (reader.LimitsRead offset buf ↔ offset + buf.length < wordLimit) := by
  refine ⟨?_, ?_, ?_⟩
  · intro handleImage fuel imagePath url reader hopen hoffset
    obtain ⟨n, walk, fill, spans, hopened⟩ := Vmdk.openWithOptions_spec hopen
    exact hopened.wellFormed.limitsRead_iff hoffset
  · intro options segments reader hopen hoffset
    exact (E01.openImpl_opened hopen).limitsRead_iff hoffset
  · intro imagePath sources reader hopen hoffset
    exact Rawdisk.RawdiskReader.limitsRead_iff
      (Rawdisk.openSegments_lt hopen) hoffset

section Huge

open Vmdk

/-- A descriptor file of one line: `RW 36028797018963967 ZERO`. -/
def hugeDescriptor : BackingFile where
  content :=
    "# Disk DescriptorFile\nRW 36028797018963967 ZERO\n".toList.map
      fun c => c.toNat.toUInt8
  fault := fun _ _ => none

def hugeStore : Store where
  source := fun _ => .ok hugeDescriptor
  join := fun _ _ => none

theorem hugeImage_opens :
    ∃ reader, openWithOptions .release (handleImage .release hugeStore) 1
        "a.vmdk" "a.vmdk" = .ok reader ∧
      reader.imageSize = 2 ^ 64 - 512 := by
  have hsize : (openWithOptions .release (handleImage .release hugeStore) 1
      "a.vmdk" "a.vmdk").map VmdkReader.imageSize = .ok (2 ^ 64 - 512) := by
    decide +kernel
  exact Outcome.map_eq_ok.mp hsize

theorem reads_limited_iff_hugeImage :
    ∃ reader, openWithOptions .release (handleImage .release hugeStore) 1
        "a.vmdk" "a.vmdk" = .ok reader ∧
      reader.LimitsRead 0 (List.replicate 1024 9) ∧
      ¬ reader.LimitsRead (2 ^ 64 - 513) (List.replicate 1024 9) := by
  obtain ⟨reader, hopen, hsize⟩ := hugeImage_opens
  have hbuf : (List.replicate 1024 (9 : UInt8)).length = 1024 :=
    List.length_replicate
  have hreads := fun offset => (reads_limited_iff .release offset
    (List.replicate 1024 9)).1 _ _ _ _ reader hopen
  refine ⟨reader, hopen, ?_, ?_⟩
  · refine (hreads 0 (Nat.zero_le _)).mpr ?_
    rw [hbuf, wordLimit_eq]
    decide
  · rw [hreads (2 ^ 64 - 513) (by rw [hsize]; decide), hbuf, wordLimit_eq]
    decide

/-- One byte is left at the offset, and the read says that it has filled 1024,
none of which it has touched. -/
theorem hugeImage_overreads :
    ∃ reader, openWithOptions .release (handleImage .release hugeStore) 1
        "a.vmdk" "a.vmdk" = .ok reader ∧
      lenToEnd reader.imageSize (2 ^ 64 - 513) 1024 = 1 ∧
      readAtOffset .release emptyInflater reader (2 ^ 64 - 513)
        (List.replicate 1024 9) = .ok (1024, List.replicate 1024 9) := by
  obtain ⟨reader, hopen, hsize⟩ := hugeImage_opens
  obtain ⟨n, walk, fill, spans, hopened⟩ := openWithOptions_spec hopen
  have hbuf : (List.replicate 1024 (9 : UInt8)).length = 1024 :=
    List.length_replicate
  have hread := hopened.wellFormed.readAtOffset_wrapped emptyInflater
    (show 2 ^ 64 - 513 ≤ reader.imageSize by rw [hsize]; decide)
    (show (List.replicate 1024 (9 : UInt8)).length < wordLimit by
      rw [hbuf, wordLimit_eq]; decide)
    (by rw [hbuf, wordLimit_eq]; decide)
  rw [hbuf] at hread
  refine ⟨reader, hopen, ?_, hread⟩
  rw [hsize]
  decide

end Huge

end ImageReader
