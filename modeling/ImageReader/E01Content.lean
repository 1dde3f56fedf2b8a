import ImageReader.Contents
import ImageReader.E01FastPaths

/-!
# The content of an E01 image

Each chunk of an image decodes to a payload or fails to; the payloads of the
chunks, cut to their parts of the image and put together, are its content.  A
read of the reader delivers a part of it, in every execution, unless it touches
a chunk which does not decode.
-/

namespace ImageReader
namespace E01

variable {build : Build} {zlib : Zlib} {sources : ℕ → WorkerSource}
  {reader : E01Reader} {offset : ℕ} {buf : Bytes}

namespace E01Reader

/-- What chunk `i` decodes to; nothing if it does not. -/
def payloadOf (zlib : Zlib) (sources : ℕ → WorkerSource) (reader : E01Reader)
    (i : ℕ) : Bytes :=
  match reader.chunks[i]? with
  | none => []
  | some chunk =>
      match (reader.coding zlib).payload (sources chunk.segment) chunk i []
        with
      | .ok payload => payload
      | .error _ => []

def content (zlib : Zlib) (sources : ℕ → WorkerSource) (reader : E01Reader) :
    Bytes :=
  imageBytes (reader.payloadOf zlib sources) reader.chunkSize 0
    reader.imageSize

@[simp] theorem length_content (zlib : Zlib) (sources : ℕ → WorkerSource)
    (reader : E01Reader) :
    (reader.content zlib sources).length = reader.imageSize := by
  simp [content, length_imageBytes]

/-- A read of the `n` bytes at the offset touches a chunk which does not
decode. -/
def ReadFails (zlib : Zlib) (sources : ℕ → WorkerSource) (reader : E01Reader)
    (offset n : ℕ) (_ : ReadError) : Prop :=
  reader.SomeFails zlib sources offset n

/-- An opened image with a decoder that depends on the stored bytes alone,
where no chunk which passes its checks ends before its part of the image, and
the buffer of a worker is a vector. -/
structure Readable (zlib : Zlib) (sources : ℕ → WorkerSource)
    (reader : E01Reader) : Prop where
  opened : Opened reader
  depends : DependsOnStored zlib sources reader
  long : ∀ i chunk, reader.chunks[i]? = some chunk →
    ∀ len ≤ (reader.coding zlib).chunkLen i,
      ¬ (reader.coding zlib).ShortPayload (sources chunk.segment) chunk len
  fits : reader.imageSize + reader.chunkSize < wordLimit
  made : reader.chunkSize + 4 ≤ isizeMax

end E01Reader

theorem Decodes.payloadOf_eq {i : ℕ} {payload : Bytes}
    (h : reader.Decodes zlib sources i payload) :
    reader.payloadOf zlib sources i = payload := by
  obtain ⟨chunk, hchunk, hpayload⟩ := h
  unfold E01Reader.payloadOf
  rw [hchunk]
  simp only
  rw [hpayload []]

theorem window_imageBytes (P : ℕ → Bytes) (chunkSize : ℕ) {size n : ℕ}
    (hend : offset + n ≤ size) :
    Slice.window (imageBytes P chunkSize 0 size) offset n =
      imageBytes P chunkSize offset (offset + n) := by
  have hsplit : imageBytes P chunkSize 0 size =
      imageBytes P chunkSize 0 offset ++
        (imageBytes P chunkSize offset (offset + n) ++
          imageBytes P chunkSize (offset + n) size) := by
    rw [imageBytes_append P chunkSize (Nat.le_add_right _ _) hend,
      imageBytes_append P chunkSize (Nat.zero_le _) (by omega)]
  have hfront : (imageBytes P chunkSize 0 offset).length = offset := by
    rw [length_imageBytes, Nat.sub_zero]
  have hmiddle : (imageBytes P chunkSize offset (offset + n)).length = n := by
    rw [length_imageBytes, Nat.add_sub_cancel_left]
  rw [hsplit, Slice.window, List.drop_left' hfront, List.take_left' hmiddle]

namespace E01Reader.Readable

variable (h : reader.Readable zlib sources)

include h

theorem chunksFit {n : ℕ} (hend : offset + n ≤ reader.imageSize) :
    reader.ChunksFit offset n := by
  rintro i ⟨-, hlow, -⟩
  have hfits := h.fits
  rw [Nat.succ_mul]
  omega

theorem noShortPayload (hle : offset ≤ reader.imageSize) (len : ℕ) :
    reader.NoShortPayload zlib sources offset len := by
  intro i chunk hi hchunk
  exact h.long i chunk hchunk _ (h.opened.touched zlib hle hi).2

/-- A read means its part of the content, or a chunk that it touches does not
decode. -/
theorem readsBytes_of_means (hle : offset ≤ reader.imageSize)
    {r : Outcome ReadError (ℕ × Bytes)} {n : ℕ}
    (hn : n = reader.readLen offset buf.length)
    (hmeans : reader.Means zlib sources offset n (buf.drop n) r) :
    ReadsBytes (reader.content zlib sources)
      (reader.ReadFails zlib sources) offset buf r := by
  have hlen : n = min buf.length
      ((reader.content zlib sources).length - offset) := by
    rw [E01Reader.length_content]
    exact hn
  by_cases hsome : reader.SomeFails zlib sources offset n
  · obtain ⟨e, rfl⟩ := hmeans.2 hsome
    rw [hlen] at hsome
    exact hsome
  · have hall : ∀ i, reader.Touched offset n i →
        reader.Decodes zlib sources i (reader.payloadOf zlib sources i) ∧
          reader.rangeEnd offset n i ≤
            (reader.payloadOf zlib sources i).length := by
      intro i hi
      rw [hn] at hi
      obtain ⟨⟨chunk, hchunk⟩, hrange⟩ := h.opened.touched zlib hle hi
      rcases h.depends.decodes_or_fails hchunk with ⟨payload, hdecodes⟩ | hfails
      · have heq := Decodes.payloadOf_eq hdecodes
        rw [heq]
        refine ⟨hdecodes, ?_⟩
        by_contra hshort
        obtain ⟨chunk', hchunk', hpayload⟩ := hdecodes
        refine h.noShortPayload hle buf.length i chunk' hi hchunk' ?_
        refine (Coding.shortPayload_iff hrange).mpr
          ⟨payload, hpayload [], ?_⟩
        rw [← hn]
        exact Nat.lt_of_not_le hshort
      · exact absurd ⟨i, hn ▸ hi, hfails⟩ hsome
    rw [hmeans.1 _ hall]
    refine ⟨hlen, ?_⟩
    have hend : offset + n ≤ reader.imageSize := by
      rw [hn]
      unfold E01Reader.readLen
      omega
    unfold E01Reader.content
    rw [window_imageBytes _ _ hend]

theorem noCrash {pool : List ReadWorker} (hpool : Lendable reader pool)
    (hwhole : ∀ worker ∈ pool, Whole worker) (hle : offset ≤ reader.imageSize)
    (len : ℕ) : reader.NoCrash zlib sources pool offset
      (reader.readLen offset len) := by
  intro i chunk hi hchunk
  refine ⟨h.noShortPayload hle len i chunk hi hchunk, ?_⟩
  intro worker hworker hbounded
  have hmem := List.mem_of_mem_drop (List.mem_of_getElem? hworker)
  rw [← (hpool worker hmem).1.coding zlib] at hbounded
  exact (hwhole worker hmem).fits hbounded

/-- A read with good workers delivers its part of the content in every
execution, and leaves good workers. -/
theorem readsBytes (build : Build) {pool : List ReadWorker}
    (hpool : Lendable reader pool) (hwhole : ∀ worker ∈ pool, Whole worker)
    (hle : offset ≤ reader.imageSize)
    (hsize : offset + buf.length < wordLimit) :
    (reader.readAtOffset build zlib sources pool offset buf).Keeps
      (reader.Kept zlib sources True)
      (ReadDone reader (ReadsBytes (reader.content zlib sources)
        (reader.ReadFails zlib sources) offset buf)) := by
  have hend : offset + reader.readLen offset buf.length ≤
      reader.imageSize := by
    unfold E01Reader.readLen
    omega
  obtain ⟨workers, plan, pool', -, -, hcut⟩ := exists_cutRead build zlib
    sources h.opened hpool hle hsize rfl (h.chunksFit hend) (Or.inr h.made)
  exact (hcut.means hpool (h.noCrash hpool hwhole hle _)).mono fun r hr =>
    ⟨h.readsBytes_of_means hle rfl hr.1, hr.2⟩

end E01Reader.Readable

/-! ## An image of two chunks -/

theorem opened_twoChunks : Opened twoChunkReader :=
  ⟨by decide, by decide, by decide, by decide, by decide⟩

theorem readable_twoChunks (options : E01ReaderOptions) :
    E01Reader.Readable noStream (fun _ => twoChunkSource)
      { twoChunkReader with options } where
  opened :=
    let h := opened_twoChunks
    ⟨h.chunkSize_pos, h.chunkSize_lt, h.imageSize_lt, h.covered, h.segment_lt⟩
  depends _ _ _ _ _ _ _ _ := rfl
  long := by
    rintro i chunk hchunk len hlen ⟨-, -, -, hshort⟩
    have hchunks : chunk ∈ twoChunkReader.chunks := List.mem_of_getElem? hchunk
    have hone : len ≤ 1 := hlen.trans (min_le_right _ _)
    simp only [twoChunkReader, List.mem_cons, List.not_mem_nil, or_false]
      at hchunks
    rcases hchunks with rfl | rfl
    · simp only [Chunk.storedLen] at hshort
      omega
    · simp only [Chunk.storedLen] at hshort
      omega
  fits := by
    simp only [twoChunkReader]
    decide
  made := by
    simp only [twoChunkReader]
    decide

end E01
end ImageReader
