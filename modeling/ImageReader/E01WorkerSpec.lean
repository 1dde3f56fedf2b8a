import ImageReader.E01ReadWorker

/-!
# What a chunk decodes to

`Coding.payload` says what a chunk decodes to, apart from how: it depends on
the stored bytes, on the policy, and, for a compressed chunk, on what follows
the stored bytes in the buffer of the decoder.  A read with a buffer that
holds the chunk cuts its range out of the payload; where the payload is
shorter than the range, the read panics.
-/

namespace ImageReader
namespace E01

/-- What decoding depends on, besides the chunk and its stored bytes. -/
structure Coding where
  zlib : Zlib
  chunkSize : ℕ
  imageEnd : ℕ
  policy : CorruptChunkPolicy

def ReadWorker.coding (zlib : Zlib) (worker : ReadWorker) : Coding :=
  ⟨zlib, worker.chunkSize, worker.imageEnd, worker.corruptChunkPolicy⟩

@[simp] theorem ReadWorker.coding_zlib (zlib : Zlib) (worker : ReadWorker) :
    (worker.coding zlib).zlib = zlib := rfl

@[simp] theorem ReadWorker.coding_policy (zlib : Zlib) (worker : ReadWorker) :
    (worker.coding zlib).policy = worker.corruptChunkPolicy := rfl

def Chunk.storedLen (chunk : Chunk) : ℕ := chunk.endOffset - chunk.dataOffset

namespace Coding

variable (coding : Coding)

/-- The bounds of a chunk which a worker accepts. -/
def Bounded (chunk : Chunk) : Prop :=
  chunk.dataOffset ≤ chunk.endOffset ∧ chunk.storedLen ≤ coding.chunkSize + 4

instance (chunk : Chunk) : Decidable (coding.Bounded chunk) := by
  unfold Bounded
  infer_instance

def decompressed (chunkIndex decodedLen : ℕ) (buffer : Bytes) :
    Except ReadErrorKind Bytes :=
  match coding.zlib.readExact buffer decodedLen with
  | .ok out => .ok out
  | .error code =>
      match coding.policy with
      | .error => .error (.decompressionFailed chunkIndex code)
      | .zero | .rawIfPossible => .ok (List.replicate decodedLen 0)

/-- How many bytes of the image a chunk holds. -/
def chunkLen (chunkIndex : ℕ) : ℕ :=
  min (coding.imageEnd - chunkIndex * coding.chunkSize) coding.chunkSize

def payload (src : WorkerSource) (chunk : Chunk) (chunkIndex : ℕ)
    (leftover : Bytes) : Except ReadErrorKind Bytes :=
  if coding.Bounded chunk then
    match src.read chunk.dataOffset chunk.storedLen with
    | .error code => .error (.ioError code)
    | .ok data =>
        if chunk.compressed then
          coding.decompressed chunkIndex (coding.chunkLen chunkIndex)
            (data ++ leftover)
        else
          ReadWorker.verifyUncompressedPayload coding.policy chunkIndex data
  else .error (.badChunkBounds chunkIndex chunk.dataOffset chunk.endOffset)

/-- The stored bytes of an uncompressed chunk can be read, hold a checksum, and
agree with it unless the policy tolerates that they do not. -/
def Accepted (src : WorkerSource) (chunk : Chunk) : Prop :=
  5 ≤ chunk.storedLen ∧
    ∃ data, src.read chunk.dataOffset chunk.storedLen = .ok data ∧
      (coding.policy = .error →
        adler32 (data.take (chunk.storedLen - 4)) =
          fromLE (data.drop (chunk.storedLen - 4)))

/-- An uncompressed chunk which passes its checks with a payload shorter than
`len`. -/
def ShortPayload (src : WorkerSource) (chunk : Chunk) (len : ℕ) : Prop :=
  chunk.compressed = false ∧ coding.Bounded chunk ∧
    coding.Accepted src chunk ∧ chunk.storedLen - 4 < len

/-- An uncompressed chunk of acceptable bounds which does not pass its checks
with a payload of at least `len` bytes. -/
def LosesBuffer (src : WorkerSource) (chunk : Chunk) (len : ℕ) : Prop :=
  chunk.compressed = false ∧ coding.Bounded chunk ∧
    ¬ (coding.Accepted src chunk ∧ len ≤ chunk.storedLen - 4)

end Coding

variable {zlib : Zlib} {build : Build} {src : WorkerSource} {chunk : Chunk}
  {chunkIndex begInChunk endInChunk : ℕ} {buf : Bytes} {worker : ReadWorker}

/-- A range that `read_at_offset` may ask of a worker. -/
structure Asked (worker : ReadWorker) (chunkIndex : ℕ) (buf : Bytes)
    (begInChunk endInChunk : ℕ) : Prop where
  le : begInChunk ≤ endInChunk
  length_eq : buf.length = endInChunk - begInChunk
  end_le : endInChunk ≤ min (worker.imageEnd - chunkIndex * worker.chunkSize)
    worker.chunkSize
  beg_le : chunkIndex * worker.chunkSize ≤ worker.imageEnd
  imageEnd_lt : worker.imageEnd < wordLimit
  size_lt : worker.chunkSize + 4 < wordLimit

theorem verifyUncompressedPayload_length {policy : CorruptChunkPolicy}
    {data out : Bytes}
    (h : ReadWorker.verifyUncompressedPayload policy chunkIndex data = .ok out) :
    out.length = data.length - 4 ∧ 5 ≤ data.length := by
  unfold ReadWorker.verifyUncompressedPayload at h
  split_ifs at h with hshort
  simp only at h
  split_ifs at h with hcrc
  · cases policy with
    | error => simp at h
    | zero =>
        injection h with hout
        rw [← hout, List.length_replicate, List.length_take]
        omega
    | rawIfPossible =>
        injection h with hout
        rw [← hout, List.length_take]
        omega
  · injection h with hout
    rw [← hout, List.length_take]
    omega

/-- A payload passes its checks exactly when it is long enough for its checksum
and the checksum is right, or need not be. -/
theorem verifyUncompressedPayload_ok_iff (chunkIndex : ℕ)
    (policy : CorruptChunkPolicy) (data : Bytes) :
    (∃ out, ReadWorker.verifyUncompressedPayload policy chunkIndex data =
        .ok out) ↔
      5 ≤ data.length ∧ (policy = .error →
        adler32 (data.take (data.length - 4)) =
          fromLE (data.drop (data.length - 4))) := by
  unfold ReadWorker.verifyUncompressedPayload
  by_cases hshort : data.length < 5
  · simp only [if_pos hshort]
    constructor
    · rintro ⟨out, hout⟩
      simp at hout
    · rintro ⟨hle, _⟩
      omega
  · rw [if_neg hshort]
    simp only
    by_cases hcrc : adler32 (data.take (data.length - 4)) =
        fromLE (data.drop (data.length - 4))
    · rw [if_neg (not_not.mpr hcrc)]
      exact ⟨fun _ => ⟨by omega, fun _ => hcrc⟩, fun _ => ⟨_, rfl⟩⟩
    · rw [if_pos hcrc]
      cases policy with
      | error => simp [hcrc]
      | zero => exact ⟨fun _ => ⟨by omega, by simp⟩, fun _ => ⟨_, rfl⟩⟩
      | rawIfPossible =>
          exact ⟨fun _ => ⟨by omega, by simp⟩, fun _ => ⟨_, rfl⟩⟩

namespace Coding

variable {coding : Coding} {leftover payload : Bytes}

theorem decompressed_length {decodedLen : ℕ} {buffer out : Bytes}
    (h : coding.decompressed chunkIndex decodedLen buffer = .ok out) :
    out.length = decodedLen := by
  unfold decompressed at h
  cases hread : coding.zlib.readExact buffer decodedLen with
  | ok out' =>
      rw [hread] at h
      obtain rfl : out' = out := by simpa using h
      exact coding.zlib.length_eq _ _ _ hread
  | error code =>
      rw [hread] at h
      cases hpolicy : coding.policy with
      | error => simp [hpolicy] at h
      | zero =>
          obtain rfl : List.replicate decodedLen 0 = out := by
            simpa [hpolicy] using h
          simp
      | rawIfPossible =>
          obtain rfl : List.replicate decodedLen 0 = out := by
            simpa [hpolicy] using h
          simp

theorem payload_length {payload : Bytes} (hcompressed : chunk.compressed = true)
    (h : coding.payload src chunk chunkIndex leftover = .ok payload) :
    payload.length = coding.chunkLen chunkIndex := by
  unfold Coding.payload at h
  by_cases hbounded : coding.Bounded chunk
  swap
  · simp [hbounded] at h
  rw [if_pos hbounded] at h
  cases hread : src.read chunk.dataOffset chunk.storedLen with
  | error code => simp [hread] at h
  | ok data =>
      simp only [hread, if_pos hcompressed] at h
      exact decompressed_length h

/-- The payload of an uncompressed chunk: there is one when the stored bytes are
accepted, and it is as long as they are without the checksum. -/
theorem payload_uncompressed_iff (hraw : chunk.compressed = false)
    (hbounded : coding.Bounded chunk) (src : WorkerSource) (chunkIndex : ℕ)
    (leftover : Bytes) (P : ℕ → Prop) :
    (∃ payload, coding.payload src chunk chunkIndex leftover = .ok payload ∧
        P payload.length) ↔
      coding.Accepted src chunk ∧ P (chunk.storedLen - 4) := by
  unfold Coding.payload Accepted
  rw [if_pos hbounded, hraw]
  cases hread : src.read chunk.dataOffset chunk.storedLen with
  | error code => simp
  | ok data =>
      have hdata := src.length_eq _ _ _ hread
      have hok := verifyUncompressedPayload_ok_iff chunkIndex coding.policy data
      rw [hdata] at hok
      simp only [Bool.false_eq_true, if_false, Except.ok.injEq, exists_eq_left']
      constructor
      · rintro ⟨payload, hpayload, hP⟩
        have hlength := (verifyUncompressedPayload_length hpayload).1
        rw [hlength, hdata] at hP
        exact ⟨hok.mp ⟨payload, hpayload⟩, hP⟩
      · rintro ⟨haccepted, hP⟩
        obtain ⟨payload, hpayload⟩ := hok.mpr haccepted
        have hlength := (verifyUncompressedPayload_length hpayload).1
        refine ⟨payload, hpayload, ?_⟩
        rw [hlength, hdata]
        exact hP

/-- Only an uncompressed chunk can have a payload shorter than its part of the
image, and such a chunk is known from its stored bytes. -/
theorem shortPayload_iff {len : ℕ} (hlen : len ≤ coding.chunkLen chunkIndex) :
    coding.ShortPayload src chunk len ↔
      ∃ payload, coding.payload src chunk chunkIndex leftover = .ok payload ∧
        payload.length < len := by
  constructor
  · rintro ⟨hraw, hbounded, hshort⟩
    exact (payload_uncompressed_iff hraw hbounded src chunkIndex leftover
      (· < len)).mpr hshort
  · rintro ⟨payload, hpayload, hshort⟩
    cases hcompressed : chunk.compressed with
    | true =>
        have := payload_length hcompressed hpayload
        omega
    | false =>
        have hbounded : coding.Bounded chunk := by
          by_contra hnot
          simp [Coding.payload, hnot] at hpayload
        exact ⟨hcompressed, hbounded,
          (payload_uncompressed_iff hcompressed hbounded src chunkIndex leftover
            (· < len)).mp ⟨payload, hpayload, hshort⟩⟩

theorem payload_of_not_bounded (h : ¬ coding.Bounded chunk) :
    coding.payload src chunk chunkIndex leftover =
      .error (.badChunkBounds chunkIndex chunk.dataOffset chunk.endOffset) := by
  simp [Coding.payload, h]

theorem payload_uncompressed (h : chunk.compressed = false)
    (leftover leftover' : Bytes) :
    coding.payload src chunk chunkIndex leftover =
      coding.payload src chunk chunkIndex leftover' := by
  simp [Coding.payload, h]

end Coding

/-! ## The pieces of a read -/

/-- Cut a range out of a payload, or panic where the payload is too short. -/
def cut (payload : Bytes) (begInChunk endInChunk : ℕ) :
    Outcome ReadErrorKind Bytes :=
  if endInChunk ≤ payload.length then
    .ok (Slice.window payload begInChunk (endInChunk - begInChunk))
  else .panic .outOfBounds

theorem copyOut_eq {payload : Bytes} (hle : begInChunk ≤ endInChunk)
    (hbuf : buf.length = endInChunk - begInChunk) :
    ReadWorker.copyOut buf payload begInChunk endInChunk =
      cut payload begInChunk endInChunk := by
  unfold ReadWorker.copyOut cut
  by_cases hend : endInChunk ≤ payload.length
  · rw [Slice.range_of_le hle hend, Outcome.ok_bind, if_pos hend,
      Slice.copyFrom_of_length]
    rw [hbuf, Slice.length_window_of_le (by omega)]
  · rw [Slice.range_of_not (by omega), if_neg hend, Outcome.panic_bind]

theorem checkedChunkLen_eq (zlib : Zlib) (build : Build) (chunk : Chunk)
    (chunkIndex : ℕ) (hsize : worker.chunkSize + 4 < wordLimit) :
    ReadWorker.checkedChunkLen build worker chunk chunkIndex =
      if (worker.coding zlib).Bounded chunk then .ok chunk.storedLen
      else .error
        (.badChunkBounds chunkIndex chunk.dataOffset chunk.endOffset) := by
  unfold ReadWorker.checkedChunkLen
  rw [Build.add_of_lt hsize, Outcome.ok_bind]
  by_cases hbounded : (worker.coding zlib).Bounded chunk
  · rw [if_pos hbounded, if_pos hbounded.1]
    exact if_pos hbounded.2
  · rw [if_neg hbounded]
    by_cases hle : chunk.dataOffset ≤ chunk.endOffset
    · rw [if_pos hle]
      exact if_neg fun hlen => hbounded ⟨hle, hlen⟩
    · rw [if_neg hle]

theorem readInto_length (src : WorkerSource) (off : ℕ) {len : ℕ} {v : Bytes}
    (hlen : len ≤ v.length) :
    (ReadWorker.readInto src off v len).2.length = v.length := by
  unfold ReadWorker.readInto
  cases hread : src.read off len with
  | ok data =>
      have := src.length_eq _ _ _ hread
      simp only [List.length_append, List.length_drop]
      omega
  | error code =>
      simp only [List.length_append, List.length_drop, src.length_scratch,
        List.length_take]
      omega

/-- The worker with another buffer of the same length. -/
def SameLength (worker worker' : ReadWorker) : Prop :=
  ∃ buffer, buffer.length = worker.buffer.length ∧
    worker' = { worker with buffer }

theorem decodedLen_eq (zlib : Zlib)
    (hbeg : chunkIndex * worker.chunkSize ≤ worker.imageEnd)
    (hend : worker.imageEnd < wordLimit) :
    ReadWorker.decodedLen build chunkIndex worker =
      (.ok ((worker.coding zlib).chunkLen chunkIndex), worker) := by
  unfold ReadWorker.decodedLen
  rw [Build.mul_of_lt (by omega), Outcome.ok_bind, Build.sub_of_le hbeg,
    Outcome.ok_bind]
  rfl

/-- Decoding a compressed chunk gives its payload and a buffer as long as the
one taken, whatever goes wrong on the way. -/
theorem decodeCompressed_eq (build : Build) (src : WorkerSource)
    (hcompressed : chunk.compressed = true)
    (hbounded : (worker.coding zlib).Bounded chunk)
    (hbeg : chunkIndex * worker.chunkSize ≤ worker.imageEnd)
    (hend : worker.imageEnd < wordLimit)
    (hfits : chunk.storedLen ≤ worker.buffer.length) :
    ∃ worker', SameLength worker worker' ∧
      ReadWorker.decodeCompressed zlib build src chunkIndex chunk.dataOffset
          chunk.storedLen worker =
        (.ofExcept ((worker.coding zlib).payload src chunk chunkIndex
          (worker.buffer.drop chunk.storedLen)), worker') := by
  have hlength := readInto_length src chunk.dataOffset hfits
  refine ⟨_, ⟨_, hlength, rfl⟩, ?_⟩
  unfold ReadWorker.decodeCompressed
  rw [Work.bind_of_ok (decodedLen_eq zlib hbeg hend)]
  have htake : Slice.range (ε := ReadErrorKind) worker.buffer 0
      chunk.storedLen = .ok (Slice.window worker.buffer 0 chunk.storedLen) :=
    Slice.range_of_le (Nat.zero_le _) hfits
  cases hread : src.read chunk.dataOffset chunk.storedLen with
  | error code =>
      have hwork : ReadWorker.readCompressedRead src chunk.dataOffset
          chunk.storedLen worker = (.error (.ioError code),
            { worker with buffer := (ReadWorker.readInto src chunk.dataOffset
              worker.buffer chunk.storedLen).2 }) := by
        simp [ReadWorker.readCompressedRead, htake, ReadWorker.readInto, hread]
      rw [Work.bind_of_error hwork]
      simp [Coding.payload, hbounded, hread]
  | ok data =>
      have hwork : ReadWorker.readCompressedRead src chunk.dataOffset
          chunk.storedLen worker = (.ok (),
            { worker with buffer := (ReadWorker.readInto src chunk.dataOffset
              worker.buffer chunk.storedLen).2 }) := by
        simp [ReadWorker.readCompressedRead, htake, ReadWorker.readInto, hread]
      rw [Work.bind_of_ok hwork]
      have hinto : (ReadWorker.readInto src chunk.dataOffset worker.buffer
          chunk.storedLen).2 = data ++ worker.buffer.drop chunk.storedLen := by
        simp [ReadWorker.readInto, hread]
      have hpayload : (worker.coding zlib).payload src chunk chunkIndex
          (worker.buffer.drop chunk.storedLen) =
        (worker.coding zlib).decompressed chunkIndex
          ((worker.coding zlib).chunkLen chunkIndex)
          (data ++ worker.buffer.drop chunk.storedLen) := by
        simp [Coding.payload, hbounded, hread, hcompressed]
      rw [hpayload, hinto]
      unfold ReadWorker.readCompressedDecompressFull Coding.decompressed
      simp only [ReadWorker.coding_zlib, ReadWorker.coding_policy]
      cases zlib.readExact (data ++ worker.buffer.drop chunk.storedLen) _ with
      | ok out => rfl
      | error code => cases worker.corruptChunkPolicy <;> rfl

theorem decodeUncompressed_eq (hraw : chunk.compressed = false)
    (hbounded : (worker.coding zlib).Bounded chunk) (leftover : Bytes) :
    ReadWorker.decodeUncompressed src chunkIndex chunk.dataOffset
        chunk.storedLen worker =
      (.ofExcept ((worker.coding zlib).payload src chunk chunkIndex leftover),
        worker) := by
  unfold ReadWorker.decodeUncompressed
  cases hread : src.read chunk.dataOffset chunk.storedLen with
  | error code =>
      simp [Coding.payload, hbounded, hread, Outcome.mapError]
  | ok data =>
      simp [Coding.payload, hbounded, hread, hraw, Outcome.mapError]

/-! ## Whole reads -/

/-- What a worker answers which decodes to the given payload. -/
def served (payload : Except ReadErrorKind Bytes)
    (begInChunk endInChunk : ℕ) : Outcome ReadErrorKind Bytes :=
  match payload with
  | .ok payload => cut payload begInChunk endInChunk
  | .error e => .error e

theorem readCompressed_eq (hcompressed : chunk.compressed = true)
    (hasked : Asked worker chunkIndex buf begInChunk endInChunk)
    (hbounded : (worker.coding zlib).Bounded chunk)
    (hfits : chunk.storedLen ≤ worker.buffer.length) :
    ∃ worker', ReadWorker.readCompressed zlib build src chunkIndex
        chunk.dataOffset chunk.storedLen buf begInChunk endInChunk worker =
      (served ((worker.coding zlib).payload src chunk chunkIndex
        (worker.buffer.drop chunk.storedLen)) begInChunk endInChunk, worker') ∧
      SameLength worker worker' := by
  obtain ⟨worker', hsame, hdecode⟩ := decodeCompressed_eq
    build src hcompressed hbounded hasked.beg_le hasked.imageEnd_lt hfits
  refine ⟨worker', ?_, hsame⟩
  unfold ReadWorker.readCompressed
  cases hpayload : (worker.coding zlib).payload src chunk chunkIndex
      (worker.buffer.drop chunk.storedLen) with
  | error e =>
      rw [hpayload] at hdecode
      rw [Work.bind_of_error hdecode]
      rfl
  | ok payload =>
      rw [hpayload] at hdecode
      rw [Work.bind_of_ok hdecode, Work.lift_apply,
        copyOut_eq hasked.le hasked.length_eq]
      rfl

/-- The buffer is lost with a payload that is not there or too short. -/
theorem readUncompressed_eq (hraw : chunk.compressed = false)
    (hasked : Asked worker chunkIndex buf begInChunk endInChunk)
    (hbounded : (worker.coding zlib).Bounded chunk)
    (hfits : chunk.storedLen ≤ worker.buffer.length) :
    let payload := (worker.coding zlib).payload src chunk chunkIndex
      (worker.buffer.drop chunk.storedLen)
    ∃ worker', ReadWorker.readUncompressed src chunkIndex chunk.dataOffset
        chunk.storedLen buf begInChunk endInChunk worker =
      (served payload begInChunk endInChunk, worker') ∧
      ((∃ out, payload = .ok out ∧ endInChunk ≤ out.length) →
        SameLength worker worker') ∧
      ((¬ ∃ out, payload = .ok out ∧ endInChunk ≤ out.length) →
        worker' = { worker with buffer := [] }) := by
  intro payload
  have htake : Slice.range (ε := ReadErrorKind) worker.buffer 0
      chunk.storedLen = .ok (Slice.window worker.buffer 0 chunk.storedLen) :=
    Slice.range_of_le (Nat.zero_le _) hfits
  have hlength := readInto_length src chunk.dataOffset hfits
  unfold ReadWorker.readUncompressed
  rw [Work.takeBuffer_bind, htake, Work.lift_ok_bind]
  cases hread : src.read chunk.dataOffset chunk.storedLen with
  | error code =>
      have herror : payload = .error (.ioError code) := by
        simp [payload, Coding.payload, hbounded, hread]
      rw [herror]
      refine ⟨{ worker with buffer := [] }, ?_, ?_, fun _ => rfl⟩
      · simp [ReadWorker.readInto, hread, served]
      · intro h
        simp at h
  | ok data =>
      have hverify : payload =
          ReadWorker.verifyUncompressedPayload worker.corruptChunkPolicy
            chunkIndex data := by
        simp [payload, Coding.payload, hbounded, hread, hraw]
      rw [hverify]
      have hinto : ReadWorker.readInto src chunk.dataOffset worker.buffer
          chunk.storedLen =
        (.ok data, data ++ worker.buffer.drop chunk.storedLen) := by
        simp [ReadWorker.readInto, hread]
      rw [hinto] at hlength ⊢
      cases hcase : ReadWorker.verifyUncompressedPayload
          worker.corruptChunkPolicy chunkIndex data with
      | error e =>
          refine ⟨{ worker with buffer := [] }, by simp [served, hcase],
            ?_, fun _ => rfl⟩
          intro h
          simp at h
      | ok out =>
          by_cases hend : endInChunk ≤ out.length
          · refine ⟨{ worker with
              buffer := data ++ worker.buffer.drop chunk.storedLen }, ?_,
              fun _ => ⟨_, hlength, rfl⟩, ?_⟩
            · simp [served, cut, hend, hcase,
                copyOut_eq hasked.le hasked.length_eq]
            · intro h
              exact absurd ⟨out, rfl, hend⟩ h
          · refine ⟨{ worker with buffer := [] }, ?_, ?_, fun _ => rfl⟩
            · simp [served, cut, hend, hcase,
                copyOut_eq hasked.le hasked.length_eq]
            · intro h
              simp [hend] at h

theorem read_eq (zlib : Zlib) (build : Build) (src : WorkerSource)
    (hasked : Asked worker chunkIndex buf begInChunk endInChunk)
    (hfits : (worker.coding zlib).Bounded chunk →
      chunk.storedLen ≤ worker.buffer.length) :
    ∃ worker', ReadWorker.read zlib build src chunk chunkIndex buf begInChunk
        endInChunk worker =
      (served ((worker.coding zlib).payload src chunk chunkIndex
        (worker.buffer.drop chunk.storedLen)) begInChunk endInChunk, worker') ∧
      (¬ (worker.coding zlib).LosesBuffer src chunk endInChunk →
        SameLength worker worker') ∧
      ((worker.coding zlib).LosesBuffer src chunk endInChunk →
        worker' = { worker with buffer := [] }) := by
  have hcheck := checkedChunkLen_eq zlib build chunk chunkIndex
    hasked.size_lt
  unfold ReadWorker.read
  rw [hcheck]
  by_cases hbounded : (worker.coding zlib).Bounded chunk
  swap
  · rw [if_neg hbounded, Work.lift_error_bind,
      Coding.payload_of_not_bounded hbounded]
    exact ⟨worker, rfl, fun _ => ⟨_, rfl, rfl⟩, fun h => absurd h.2.1 hbounded⟩
  rw [if_pos hbounded, Work.lift_ok_bind]
  cases hcompressed : chunk.compressed with
  | true =>
      rw [if_pos rfl]
      obtain ⟨worker', hread, hsame⟩ := readCompressed_eq hcompressed hasked
        hbounded (hfits hbounded)
      exact ⟨worker', hread, fun _ => hsame,
        fun h => absurd h.1 (by simp [hcompressed])⟩
  | false =>
      rw [if_neg (by decide)]
      have hpayload := Coding.payload_uncompressed_iff hcompressed hbounded src
        chunkIndex (worker.buffer.drop chunk.storedLen) (endInChunk ≤ ·)
      have hloses : (worker.coding zlib).LosesBuffer src chunk endInChunk ↔
          ¬ ∃ payload, (worker.coding zlib).payload src chunk chunkIndex
              (worker.buffer.drop chunk.storedLen) = .ok payload ∧
            endInChunk ≤ payload.length := by
        rw [hpayload]
        simp [Coding.LosesBuffer, hcompressed, hbounded]
      rw [hloses, not_not]
      exact readUncompressed_eq hcompressed hasked hbounded (hfits hbounded)

end E01
end ImageReader
