import ImageReader.E01WorkerSafety

/-!
# What a worker read before

The buffer of a worker is longer than most of the chunks read into it, and
the decoder gets all of it.  Two workers that differ in their buffers decode a
chunk alike exactly when the decoder settles on the stored bytes: what it makes
of them does not depend on the bytes that follow.
-/

namespace ImageReader
namespace E01

/-- The decoder makes the same of `data` whatever `room` bytes follow. -/
def Zlib.Settles (zlib : Zlib) (data : Bytes) (room len : ℕ) : Prop :=
  ∀ leftover leftover' : Bytes, leftover.length = room →
    leftover'.length = room →
    zlib.readExact (data ++ leftover) len =
      zlib.readExact (data ++ leftover') len

namespace ReadWorker

variable {zlib : Zlib} {build : Build} {src : WorkerSource}
  {worker : ReadWorker} {chunkIndex chunkOff chunkLen : ℕ}

/-- What is decoded of the stored bytes and the rest of the buffer. -/
def decodedOf (zlib : Zlib) (src : WorkerSource) (worker : ReadWorker)
    (chunkIndex chunkOff chunkLen len : ℕ) : Except ReadErrorKind Bytes :=
  match src.read chunkOff chunkLen with
  | .error code => .error (.ioError code)
  | .ok data => (worker.coding zlib).decompressed chunkIndex len
      (data ++ worker.buffer.drop chunkLen)

theorem decompressFull_fst (worker : ReadWorker) (len : ℕ) :
    (readCompressedDecompressFull zlib chunkIndex len worker).1 =
      .ofExcept ((worker.coding zlib).decompressed chunkIndex len
        worker.buffer) := by
  unfold readCompressedDecompressFull Coding.decompressed
  simp only [coding_zlib, coding_policy]
  cases zlib.readExact worker.buffer len with
  | ok out => rfl
  | error code => cases worker.corruptChunkPolicy <;> rfl

theorem readCompressedRead_eq (hfits : chunkLen ≤ worker.buffer.length) :
    readCompressedRead src chunkOff chunkLen worker =
      (.ofExcept ((readInto src chunkOff worker.buffer chunkLen).1.map
          fun _ => ()),
        { worker with
          buffer := (readInto src chunkOff worker.buffer chunkLen).2 }) := by
  unfold readCompressedRead
  rw [Work.takeBuffer_bind, Slice.range_of_le (Nat.zero_le _) hfits,
    Work.lift_ok_bind]
  cases readInto src chunkOff worker.buffer chunkLen with
  | mk r v => cases r <;> rfl

theorem decodeCompressed_fst (hfits : chunkLen ≤ worker.buffer.length) :
    (decodeCompressed zlib build src chunkIndex chunkOff chunkLen worker).1 =
      (decodedLen build chunkIndex worker).1 >>= fun len =>
        .ofExcept (decodedOf zlib src worker chunkIndex chunkOff chunkLen
          len) := by
  unfold decodeCompressed
  rw [Work.bind_fst]
  congr 1
  funext len
  change ((readCompressedRead src chunkOff chunkLen >>= fun _ =>
    readCompressedDecompressFull zlib chunkIndex len) worker).1 = _
  rw [Work.bind_fst, readCompressedRead_eq hfits]
  unfold readInto decodedOf
  cases src.read chunkOff chunkLen with
  | error code => rfl
  | ok data =>
      exact decompressFull_fst { worker with
        buffer := data ++ worker.buffer.drop chunkLen } len

theorem readCompressed_fst (hfits : chunkLen ≤ worker.buffer.length)
    (buf : Bytes) (begInChunk endInChunk : ℕ) :
    (readCompressed zlib build src chunkIndex chunkOff chunkLen buf begInChunk
        endInChunk worker).1 =
      (decodedLen build chunkIndex worker).1 >>= fun len =>
        Outcome.ofExcept (decodedOf zlib src worker chunkIndex chunkOff
          chunkLen len) >>= fun decoded =>
            copyOut buf decoded begInChunk endInChunk := by
  unfold readCompressed
  rw [Work.bind_fst, decodeCompressed_fst hfits, Outcome.bind_assoc]
  rfl

/-- With the policy which reports errors, a read of the whole chunk answers as
the decoder does. -/
theorem readCompressed_whole {len : ℕ} {data rest : Bytes}
    (hdecodedLen : (decodedLen build chunkIndex worker).1 = .ok len)
    (hpolicy : worker.corruptChunkPolicy = .error)
    (hbuffer : worker.buffer = data ++ rest)
    (hread : src.read chunkOff chunkLen = .ok data) :
    (readCompressed zlib build src chunkIndex chunkOff chunkLen
        (List.replicate len 0) 0 len worker).1 =
      match zlib.readExact (data ++ rest) len with
      | .ok out => .ok out
      | .error code => .error (.decompressionFailed chunkIndex code) := by
  have hdata := src.length_eq _ _ _ hread
  have hdrop : (data ++ rest).drop chunkLen = rest := by
    rw [← hdata, List.drop_left]
  have hfits : chunkLen ≤ worker.buffer.length := by
    rw [hbuffer, List.length_append, hdata]
    exact Nat.le_add_right _ _
  rw [readCompressed_fst hfits, hdecodedLen, Outcome.ok_bind]
  unfold decodedOf Coding.decompressed
  simp only [hread, hbuffer, hdrop, coding_zlib, coding_policy, hpolicy]
  cases hout : zlib.readExact (data ++ rest) len with
  | error code => rfl
  | ok out =>
      have hlength := zlib.length_eq _ _ _ hout
      rw [Outcome.ofExcept_ok, Outcome.ok_bind,
        copyOut_eq (Nat.zero_le _) (by simp)]
      simp [cut, hlength, Slice.window]

/-- Compressed chunks decode alike with any two buffers exactly when the
decoder settles on the stored bytes. -/
theorem readCompressed_ignores_buffer_iff (zlib : Zlib) (build : Build)
    (src : WorkerSource) {chunkSize imageEnd chunkIndex chunkOff chunkLen : ℕ}
    (hlen : chunkLen ≤ chunkSize + 4) :
    (∀ policy buffer buffer', buffer.length = chunkSize + 4 →
      buffer'.length = chunkSize + 4 →
      ∀ buf begInChunk endInChunk,
        (readCompressed zlib build src chunkIndex chunkOff chunkLen buf
            begInChunk endInChunk ⟨chunkSize, imageEnd, policy, buffer⟩).1 =
          (readCompressed zlib build src chunkIndex chunkOff chunkLen buf
            begInChunk endInChunk
            ⟨chunkSize, imageEnd, policy, buffer'⟩).1) ↔
      ∀ len data,
        (decodedLen build chunkIndex ⟨chunkSize, imageEnd, .error, []⟩).1 =
          .ok len →
        src.read chunkOff chunkLen = .ok data →
        zlib.Settles data (chunkSize + 4 - chunkLen) len := by
  constructor
  · intro hsame len data hdecodedLen hread leftover leftover' hroom hroom'
    have hdata := src.length_eq _ _ _ hread
    have hbuffer : ∀ rest : Bytes,
        rest.length = chunkSize + 4 - chunkLen →
        (data ++ rest).length = chunkSize + 4 := by
      intro rest hrest
      rw [List.length_append]
      omega
    have hanswer : ∀ rest : Bytes,
        (readCompressed zlib build src chunkIndex chunkOff chunkLen
            (List.replicate len 0) 0 len
            ⟨chunkSize, imageEnd, .error, data ++ rest⟩).1 =
          match zlib.readExact (data ++ rest) len with
          | .ok out => .ok out
          | .error code => .error (.decompressionFailed chunkIndex code) :=
      fun rest => readCompressed_whole hdecodedLen rfl rfl hread
    have heq := hsame .error (data ++ leftover) (data ++ leftover')
      (hbuffer leftover hroom) (hbuffer leftover' hroom')
      (List.replicate len 0) 0 len
    rw [hanswer leftover, hanswer leftover'] at heq
    cases hout : zlib.readExact (data ++ leftover) len <;>
      cases hout' : zlib.readExact (data ++ leftover') len <;>
      simp_all
  · intro hsettles policy buffer buffer' hbuffer hbuffer' buf begInChunk
      endInChunk
    rw [readCompressed_fst (by simp only [hbuffer]; exact hlen),
      readCompressed_fst (by simp only [hbuffer']; exact hlen)]
    change ((decodedLen build chunkIndex
        ⟨chunkSize, imageEnd, .error, []⟩).1 >>= _) =
      ((decodedLen build chunkIndex ⟨chunkSize, imageEnd, .error, []⟩).1 >>= _)
    cases hdecodedLen : (decodedLen build chunkIndex
        ⟨chunkSize, imageEnd, .error, []⟩).1 with
    | ok len =>
        rw [Outcome.ok_bind, Outcome.ok_bind]
        congr 2
        unfold decodedOf
        cases hread : src.read chunkOff chunkLen with
        | error code => rfl
        | ok data =>
            have hsame := hsettles len data hdecodedLen hread
              (buffer.drop chunkLen) (buffer'.drop chunkLen)
              (by simp [hbuffer]) (by simp [hbuffer'])
            simp only [Coding.decompressed, coding_zlib, coding_policy, hsame]
    | error e => rfl
    | panic fault => rfl
    | hang => rfl

/-! ## A truncated stream -/

/-- A decoder of one stored block, which reads as many bytes as it is asked
for. -/
def storedBlock : Zlib where
  readExact buffer len :=
    match buffer with
    | 0x78 :: 0x01 :: 0x01 :: lo :: hi :: nlo :: nhi :: rest =>
        if fromLE [lo, hi] + fromLE [nlo, nhi] = 65535 ∧
            len ≤ fromLE [lo, hi] ∧ len ≤ rest.length then
          .ok (rest.take len)
        else .error 0
    | _ => .error 0
  length_eq := by
    intro buffer len out h
    split at h
    · split_ifs at h with hblock
      obtain rfl : _ = out := by simpa using h
      rw [List.length_take]
      omega
    · simp at h

/-- The stored bytes end before the byte of the block, which then is whatever
the buffer held. -/
theorem readCompressed_reads_leftover :
    let src := contentSource [0x78, 0x01, 0x01, 0x01, 0x00, 0xFE, 0xFF]
    (readCompressed storedBlock .release src 0 0 7 [0] 0 1
        ⟨4, 1, .error, [0, 0, 0, 0, 0, 0, 0, 8]⟩).1 = .ok [8] ∧
      (readCompressed storedBlock .release src 0 0 7 [0] 0 1
        ⟨4, 1, .error, [0, 0, 0, 0, 0, 0, 0, 9]⟩).1 = .ok [9] := by
  decide

/-- A whole block, in front of four bytes of what the buffer held. -/
theorem readCompressed_ignores_buffer_iff_eight :
    let src := contentSource [0x78, 0x01, 0x01, 0x01, 0x00, 0xFE, 0xFF, 7]
    ∀ policy buffer buffer', buffer.length = 8 + 4 →
      buffer'.length = 8 + 4 →
      ∀ buf begInChunk endInChunk,
        (readCompressed storedBlock .release src 0 0 8 buf begInChunk
            endInChunk ⟨8, 1, policy, buffer⟩).1 =
          (readCompressed storedBlock .release src 0 0 8 buf begInChunk
            endInChunk ⟨8, 1, policy, buffer'⟩).1 := by
  refine (readCompressed_ignores_buffer_iff storedBlock .release _
    (by decide)).mpr ?_
  intro len data hdecodedLen hread leftover leftover' _ _
  obtain rfl : 1 = len := Outcome.ok.inj hdecodedLen
  obtain rfl : [0x78, 0x01, 0x01, 0x01, 0x00, 0xFE, 0xFF, 7] = data :=
    Except.ok.inj hread
  have hblock : ∀ rest : Bytes, storedBlock.readExact
      ([0x78, 0x01, 0x01, 0x01, 0x00, 0xFE, 0xFF, 7] ++ rest) 1 = .ok [7] := by
    intro rest
    have hlength : fromLE [0x01, 0x00] = 1 := rfl
    have hcheck : fromLE [0xFE, 0xFF] = 65534 := rfl
    simp only [storedBlock, List.cons_append, List.nil_append, hlength, hcheck]
    simp
  rw [hblock leftover, hblock leftover']

end ReadWorker

end E01
end ImageReader
