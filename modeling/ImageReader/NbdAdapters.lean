import ImageReader.E01Content
import ImageReader.NbdExport
import ImageReader.RawdiskFailures
import ImageReader.VmdkContent

/-!
# Images behind the NBD server

An adapter lends a reader the front of the read buffer and hands on what the
reader has put there; of an error nothing is left but its text.  Over a split
raw image, over a snapshot chain and over a set of E01 segments the server
exports the bytes which the format means.
-/

namespace ImageReader
namespace Nbd

/-- What `NbdImage` makes of the result of `read_at_offset`.  A panic is no
result; it unwinds the thread instead. -/
def adapted {ε : Type} (want : ℕ) :
    Outcome ε (ℕ × Bytes) → Except IoError Bytes
  | .ok (count, buf) => .ok ((buf.take want).take count)
  | .error _ => .error ioErr
  | .panic _ => .error ioErr
  | .hang => .error ioErr

theorem length_adapted_le {ε : Type} {want : ℕ}
    {result : Outcome ε (ℕ × Bytes)} {data : Bytes}
    (h : adapted want result = .ok data) : data.length ≤ want := by
  cases result with
  | ok read =>
      obtain rfl : _ = data := Except.ok.inj h
      exact (List.length_take_le' _ _).trans (List.length_take_le _ _)
  | error e => simp [adapted] at h
  | panic fault => simp [adapted] at h
  | hang => simp [adapted] at h

/-- A read of a reader of the array answers with bytes of it, or fails where it
may. -/
theorem adapted_of_readsBytes {ε : Type} {content : Bytes}
    {mayFail : ℕ → ℕ → ε → Prop} {pos want : ℕ}
    {result : Outcome ε (ℕ × Bytes)} (hwant : 0 < want)
    (hend : pos + want ≤ content.length)
    (h : ReadsBytes content mayFail pos (List.replicate want 0) result) :
    (∃ data, adapted want result = .ok data ∧ data ≠ [] ∧
        data = Slice.window content pos data.length) ∨
      adapted want result = .error ioErr ∧ ∃ e, mayFail pos want e := by
  have hcount : min (List.replicate want (0 : UInt8)).length
      (content.length - pos) = want := by
    rw [List.length_replicate]
    omega
  cases result with
  | ok read =>
      obtain ⟨n, filled⟩ := read
      obtain ⟨hn, rfl⟩ := h
      obtain rfl : n = want := hn.trans hcount
      have hlength : (Slice.window content pos n).length = n :=
        Slice.length_window_of_le hend
      have hdata : adapted n (.ok (n, Slice.window content pos n ++
          (List.replicate n 0).drop n) : Outcome ε (ℕ × Bytes)) =
          .ok (Slice.window content pos n) := by
        unfold adapted
        simp only
        rw [List.take_left' hlength, List.take_of_length_le hlength.le]
      refine Or.inl ⟨_, hdata, ?_, by rw [hlength]⟩
      rw [← List.length_pos_iff, hlength]
      exact hwant
  | error e =>
      have hmay : mayFail pos want e := hcount ▸ h
      exact Or.inr ⟨rfl, e, hmay⟩
  | panic fault => exact h.elim
  | hang => exact h.elim

/-! ## Raw images -/

section Raw

variable {build : Build} {caches : ℕ → Rawdisk.Cache} {segments : List Bytes}
  {reader : Rawdisk.RawdiskReader} {mayFail : ℕ → ℕ → ℕ → Prop}

/-- A read which fails may succeed later on: read number `turn` finds the
cache `caches turn`. -/
def rawAdapter (build : Build) (caches : ℕ → Rawdisk.Cache)
    (reader : Rawdisk.RawdiskReader) : NbdImage ℕ where
  readAtOffset turn pos want :=
    (adapted want (Rawdisk.readAtOffset build (caches turn) reader pos
      (List.replicate want 0)), turn + 1)
  length_le _ _ _ _ _ h := length_adapted_le (Prod.mk.inj h).1

def rawSize (reader : Rawdisk.RawdiskReader) (_turn : ℕ) : UInt64 :=
  UInt64.ofNat reader.imageSize

/-- A read of the export has panicked. -/
def rawUnwinds (build : Build) (caches : ℕ → Rawdisk.Cache)
    (reader : Rawdisk.RawdiskReader) (turn turn' : ℕ) : Prop :=
  ∃ pos want, pos + want ≤ reader.imageSize ∧
    ¬ (Rawdisk.readAtOffset build (caches turn) reader pos
      (List.replicate want 0)).Returns ∧ turn' = turn + 1

theorem raw_readsBytes (build : Build) (hmounted : Rawdisk.Mounted segments reader)
    (hcaches : ∀ turn, Rawdisk.HonestCache (caches turn) segments mayFail)
    (turn : ℕ) {pos want : ℕ} (hend : pos + want ≤ segments.flatten.length) :
    ReadsBytes segments.flatten (Rawdisk.ReadMayFail segments mayFail) pos
      (List.replicate want 0) (Rawdisk.readAtOffset build (caches turn) reader
        pos (List.replicate want 0)) := by
  have hlt := hmounted.segmented.lt
  rw [← List.length_flatten] at hlt
  exact hmounted.readsBytes (hcaches turn) (by omega)
    (by rw [List.length_replicate]; omega)

theorem raw_servesContent (hmounted : Rawdisk.Mounted segments reader)
    (hcaches : ∀ turn, Rawdisk.HonestCache (caches turn) segments mayFail) :
    ServesContent (rawAdapter build caches reader) (fun _ => True)
      segments.flatten
      (fun pos want => Rawdisk.SliceMayFail segments mayFail pos (pos + want))
      (rawSize reader) (rawUnwinds build caches reader) where
  exports := by
    intro turn pos want _ hwant hend
    refine ⟨_, turn + 1, rfl, trivial, ?_⟩
    rcases adapted_of_readsBytes hwant hend
        (raw_readsBytes build hmounted hcaches turn hend) with
      hdata | ⟨herror, e, code, -, hmay⟩
    · exact Or.inl hdata
    · exact Or.inr ⟨herror, hmay⟩
  size _ _ := by
    have hlt := hmounted.segmented.lt
    rw [← List.length_flatten] at hlt
    unfold rawSize
    rw [hmounted.imageSize]
    exact UInt64.toNat_ofNat_of_lt' hlt
  calm turn _ _ hunwinds := by
    obtain ⟨pos, want, hend, hpanics, -⟩ := hunwinds
    rw [hmounted.imageSize] at hend
    exact hpanics (raw_readsBytes build hmounted hcaches turn hend).returns

/-- A split raw image behind the server: whatever its clients do, in whatever
order they are served, each of them that keeps to the protocol gets bytes of
the concatenated segments, and an error only where the cache may fail. -/
theorem raw_sessions_export {imagePath : String} {paths : List String}
    (hpaths : paths.length = segments.length) (hne : segments ≠ [])
    (hlt : segments.flatten.length < wordLimit)
    (hopen : Rawdisk.openSegments build imagePath
      (paths.zip (segments.map List.length)) = .ok reader)
    (hcaches : ∀ turn, Rawdisk.HonestCache (caches turn) segments mayFail)
    {turn : ℕ} {s : Server ℕ}
    (hreach : Server.Reachable build (rawAdapter build caches reader)
      (rawSize reader) (rawUnwinds build caches reader) turn s)
    {i : ℕ} {client : Client} {now : Connection}
    (hi : s.threads[i]? = some (.unlocked (.accepted client.sends) now) ∨
      s.threads[i]? = some (.finished (.accepted client.sends) now)) :
    Heard segments.flatten
      (fun pos want => Rawdisk.SliceMayFail segments mayFail pos (pos + want))
      client now :=
  sessions_export (raw_servesContent
    (Rawdisk.mounted_of_opened hpaths hne hlt hopen) hcaches) trivial hreach hi

theorem raw_sessions_export_two :
    ∃ reader now, Rawdisk.openSegments .dev "d.001"
        [("d.001", 1), ("d.002", 2)] = .ok reader ∧
      Heard [1, 2, 3] (fun pos want => Rawdisk.SliceMayFail [[1], [2, 3]]
        (fun _ _ _ => False) pos (pos + want)) readingClient now := by
  obtain ⟨reader, hopen, -⟩ := @Rawdisk.openSegments_mounted [[1], [2, 3]] .dev
    "d.001" ["d.001", "d.002"] rfl (by simp) (Or.inr (by simp)) (by decide)
  obtain ⟨now, s, hreach, hi⟩ := exists_finished .dev
    (rawAdapter .dev (fun _ => Rawdisk.segmentCache [[1], [2, 3]]) reader)
    (rawSize reader)
    (rawUnwinds .dev (fun _ => Rawdisk.segmentCache [[1], [2, 3]]) reader) 0
    readingClient.sends
  exact ⟨reader, now, hopen, raw_sessions_export
    (show ["d.001", "d.002"].length = ([[1], [2, 3]] : List Bytes).length
      from rfl) (by simp) (by decide) hopen
    (fun _ => (Rawdisk.correctCache_segmentCache _).honest _) hreach
    (Or.inr hi)⟩

end Raw

/-! ## Snapshot chains -/

section Chains

variable {δ : Type} {build : Build} {inflater : Vmdk.Inflater δ}
  {reader : Vmdk.VmdkReader}

def vmdkAdapter (build : Build) (inflater : Vmdk.Inflater δ)
    (reader : Vmdk.VmdkReader) : NbdImage Unit where
  readAtOffset _ pos want :=
    (adapted want (Vmdk.readAtOffset build inflater reader pos
      (List.replicate want 0)), ())
  length_le _ _ _ _ _ h := length_adapted_le (Prod.mk.inj h).1

def vmdkSize (reader : Vmdk.VmdkReader) (_ : Unit) : UInt64 :=
  UInt64.ofNat reader.imageSize

def vmdkUnwinds (build : Build) (inflater : Vmdk.Inflater δ)
    (reader : Vmdk.VmdkReader) (_ _ : Unit) : Prop :=
  ∃ pos want, pos + want ≤ reader.imageSize ∧
    ¬ (Vmdk.readAtOffset build inflater reader pos
      (List.replicate want 0)).Returns

theorem vmdk_readsBytes {imgs : List Vmdk.ImageExtents}
    (hreads : Vmdk.ReadsContent build inflater reader imgs) {pos want : ℕ}
    (hend : pos + want ≤ reader.imageSize) :
    ReadsBytes (Vmdk.chainContent build inflater imgs reader.imageSize)
      (reader.ReadFails build inflater) pos (List.replicate want 0)
      (Vmdk.readAtOffset build inflater reader pos
        (List.replicate want 0)) := by
  obtain ⟨hlt, hreads⟩ := hreads
  exact hreads pos _ (by omega) (by rw [List.length_replicate]; omega)

theorem vmdk_servesContent {imgs : List Vmdk.ImageExtents}
    (hreads : Vmdk.ReadsContent build inflater reader imgs) :
    ServesContent (vmdkAdapter build inflater reader) (fun _ => True)
      (Vmdk.chainContent build inflater imgs reader.imageSize)
      (fun pos want => ∃ e, reader.ReadFails build inflater pos want e)
      (vmdkSize reader) (vmdkUnwinds build inflater reader) where
  exports := by
    intro _ pos want _ hwant hend
    have hend' := hend
    rw [Vmdk.length_chainContent] at hend'
    exact ⟨_, (), rfl, trivial, adapted_of_readsBytes hwant hend
      (vmdk_readsBytes hreads hend')⟩
  size _ _ := by
    rw [Vmdk.length_chainContent]
    exact UInt64.toNat_ofNat_of_lt' hreads.1
  calm _ _ _ hunwinds := by
    obtain ⟨pos, want, hend, hpanics⟩ := hunwinds
    exact hpanics (vmdk_readsBytes hreads hend).returns

/-- A snapshot chain behind the server: each client that keeps to the protocol
gets bytes of the chain, and an error only where a backing read fails. -/
theorem vmdk_sessions_export {handleImage : Vmdk.HandleImage} {fuel : ℕ}
    {imagePath : String} {url : Vmdk.Url}
    (hopen : Vmdk.openWithOptions build handleImage fuel imagePath url =
      .ok reader) (inflater : Vmdk.Inflater δ) :
    ∃ followed, followed ≠ [] ∧ Vmdk.IsChain handleImage url 0 followed ∧
      ∀ imgs, followed <+: imgs → Vmdk.IsChain handleImage url 0 imgs →
      (∀ img ∈ imgs, ∀ ex ∈ img.extents, ex.PositionsExact) →
      ∀ s : Server Unit,
        Server.Reachable build (vmdkAdapter build inflater reader)
          (vmdkSize reader) (vmdkUnwinds build inflater reader) () s →
        ∀ (i : ℕ) (client : Client) (now : Connection),
          (s.threads[i]? = some (.unlocked (.accepted client.sends) now) ∨
            s.threads[i]? = some (.finished (.accepted client.sends) now)) →
          Heard (Vmdk.chainContent build inflater imgs reader.imageSize)
            (fun pos want => ∃ e, reader.ReadFails build inflater pos want e)
            client now := by
  obtain ⟨followed, hne, hchain, hreads⟩ :=
    Vmdk.exists_followed hopen inflater
  refine ⟨followed, hne, hchain, ?_⟩
  intro imgs hext himgs hexact s hreach i client now hi
  exact sessions_export (vmdk_servesContent (hreads imgs hext himgs hexact))
    trivial hreach hi

theorem vmdk_sessions_export_single :
    ∃ reader now, Vmdk.openWithOptions .release Vmdk.singleImage 2 "base"
        "base" = .ok reader ∧
      Heard (Vmdk.chainContent .release Vmdk.emptyInflater [Vmdk.baseImage]
          reader.imageSize)
        (fun pos want => ∃ e,
          reader.ReadFails .release Vmdk.emptyInflater pos want e)
        readingClient now := by
  obtain ⟨reader, hopen⟩ : ∃ reader,
      Vmdk.openWithOptions .release Vmdk.singleImage 2 "base" "base" =
        .ok reader := ⟨_, rfl⟩
  obtain ⟨followed, hne, hchain, hheard⟩ :=
    vmdk_sessions_export (δ := Unit) hopen Vmdk.emptyInflater
  obtain rfl := Vmdk.eq_of_isChain_singleImage hne hchain
  obtain ⟨now, s, hreach, hi⟩ := exists_finished .release
    (vmdkAdapter .release Vmdk.emptyInflater reader) (vmdkSize reader)
    (vmdkUnwinds .release Vmdk.emptyInflater reader) () readingClient.sends
  exact ⟨reader, now, hopen, hheard [Vmdk.baseImage] (List.prefix_refl _)
    hchain Vmdk.positionsExact_baseImage s hreach 0 readingClient now
    (Or.inr hi)⟩

end Chains

/-! ## E01 images -/

section Segments

variable {build : Build} {zlib : E01.Zlib} {sources : ℕ → E01.WorkerSource}
  {reader : E01.E01Reader}

/-- How the tasks of each read are scheduled: one execution for each read, in
turn, from each state of the reader. -/
structure Schedule (build : Build) (zlib : E01.Zlib)
    (sources : ℕ → E01.WorkerSource) (reader : E01.E01Reader) where
  result : ℕ → E01.ReaderState → ℕ → ℕ → E01.ReadResult
  cache : ℕ → E01.ReaderState → ℕ → ℕ → E01.SharedCache
  ends : ∀ turn state pos want, Thread.Ends Thread.alone
    state.decodedChunkCache
    (reader.readAtOffset build zlib sources state.workerPool pos
      (List.replicate want 0))
    (result turn state pos want) (cache turn state pos want)

def Schedule.after (schedule : Schedule build zlib sources reader) (turn : ℕ)
    (state : E01.ReaderState) (pos want : ℕ) : E01.ReaderState :=
  ⟨(schedule.result turn state pos want).2, schedule.cache turn state pos want⟩

/-- The state of the image is that of its reader, and how many reads there have
been. -/
def e01Adapter (schedule : Schedule build zlib sources reader) :
    NbdImage (ℕ × E01.ReaderState) where
  readAtOffset state pos want :=
    (adapted want (schedule.result state.1 state.2 pos want).1,
      state.1 + 1, schedule.after state.1 state.2 pos want)
  length_le _ _ _ _ _ h := length_adapted_le (Prod.mk.inj h).1

def e01Size (reader : E01.E01Reader) (_ : ℕ × E01.ReaderState) : UInt64 :=
  UInt64.ofNat reader.imageSize

def e01Unwinds (schedule : Schedule build zlib sources reader)
    (state state' : ℕ × E01.ReaderState) : Prop :=
  ∃ pos want, pos + want ≤ reader.imageSize ∧
    ¬ (schedule.result state.1 state.2 pos want).1.Returns ∧
    state' = (state.1 + 1, schedule.after state.1 state.2 pos want)

theorem e01_readsBytes (hreadable : reader.Readable zlib sources)
    (hcached : reader.options.decodedChunkCache = true)
    (schedule : Schedule build zlib sources reader)
    {state : ℕ × E01.ReaderState}
    (hclean : state.2.Clean zlib sources reader) {pos want : ℕ}
    (hend : pos + want ≤ reader.imageSize) :
    ReadsBytes (reader.content zlib sources) (reader.ReadFails zlib sources)
        pos (List.replicate want 0)
        (schedule.result state.1 state.2 pos want).1 ∧
      (schedule.after state.1 state.2 pos want).Clean zlib sources reader := by
  have hlt := hreadable.opened.imageSize_lt
  have hkeeps := hreadable.readsBytes build hclean.lendable
    (fun worker hworker => (hclean.lendable worker hworker).2 hcached)
    (show pos ≤ reader.imageSize by omega)
    (show pos + (List.replicate want (0 : UInt8)).length < wordLimit by
      rw [List.length_replicate]
      omega)
  obtain ⟨hkept, hreads, hlendable⟩ :=
    (schedule.ends state.1 state.2 pos want).keeps (fun _ _ h => h.elim)
      hclean.kept hkeeps
  exact ⟨hreads, E01.E01Reader.Kept.clean hkept hlendable⟩

theorem e01_servesContent (hreadable : reader.Readable zlib sources)
    (hcached : reader.options.decodedChunkCache = true)
    (schedule : Schedule build zlib sources reader) :
    ServesContent (e01Adapter schedule)
      (fun state => state.2.Clean zlib sources reader)
      (reader.content zlib sources)
      (fun pos want => reader.SomeFails zlib sources pos want)
      (e01Size reader) (e01Unwinds schedule) where
  exports := by
    intro state pos want hclean hwant hend
    have hend' := hend
    rw [E01.E01Reader.length_content] at hend'
    obtain ⟨hreads, hafter⟩ :=
      e01_readsBytes hreadable hcached schedule hclean hend'
    refine ⟨_, _, rfl, hafter, ?_⟩
    rcases adapted_of_readsBytes hwant hend hreads with
      hdata | ⟨herror, _, hfails⟩
    · exact Or.inl hdata
    · exact Or.inr ⟨herror, hfails⟩
  size _ _ := by
    rw [E01.E01Reader.length_content]
    exact UInt64.toNat_ofNat_of_lt' hreadable.opened.imageSize_lt
  calm state _ hclean hunwinds := by
    obtain ⟨pos, want, hend, hpanics, -⟩ := hunwinds
    exact hpanics
      (e01_readsBytes hreadable hcached schedule hclean hend).1.returns

/-- An E01 image behind the server: in every schedule of the tasks of each
read, each client that keeps to the protocol gets bytes of the decoded chunks,
and an error only where one of them does not decode. -/
theorem e01_sessions_export (hreadable : reader.Readable zlib sources)
    (hcached : reader.options.decodedChunkCache = true)
    (schedule : Schedule build zlib sources reader)
    {s : Server (ℕ × E01.ReaderState)}
    (hreach : Server.Reachable build (e01Adapter schedule) (e01Size reader)
      (e01Unwinds schedule) (0, .new) s)
    {i : ℕ} {client : Client} {now : Connection}
    (hi : s.threads[i]? = some (.unlocked (.accepted client.sends) now) ∨
      s.threads[i]? = some (.finished (.accepted client.sends) now)) :
    Heard (reader.content zlib sources)
      (fun pos want => reader.SomeFails zlib sources pos want) client now :=
  sessions_export (e01_servesContent hreadable hcached schedule)
    E01.ReaderState.clean_new hreach hi

theorem exists_schedule (build : Build) (zlib : E01.Zlib)
    (sources : ℕ → E01.WorkerSource) (reader : E01.E01Reader) :
    Nonempty (Schedule build zlib sources reader) := by
  have hends : ∀ (state : E01.ReaderState) (pos want : ℕ), ∃ r cache,
      Thread.Ends Thread.alone state.decodedChunkCache
        (reader.readAtOffset build zlib sources state.workerPool pos
          (List.replicate want 0)) r cache :=
    fun state pos want => (E01.readAtOffset_live build zlib sources reader
      state.workerPool pos _).ends _ _
  choose result cache hends using hends
  exact ⟨⟨fun _ => result, fun _ => cache, fun _ => hends⟩⟩

/-- The reader of two chunks, with the cache of decoded chunks. -/
def cachedReader : E01.E01Reader :=
  { E01.twoChunkReader with options := ⟨.error, true, true, false⟩ }

theorem e01_sessions_export_two :
    ∃ now, Heard (cachedReader.content E01.noStream fun _ => E01.twoChunkSource)
      (fun pos want => cachedReader.SomeFails E01.noStream
        (fun _ => E01.twoChunkSource) pos want) readingClient now := by
  obtain ⟨schedule⟩ := exists_schedule .release E01.noStream
    (fun _ => E01.twoChunkSource) cachedReader
  obtain ⟨now, s, hreach, hi⟩ := exists_finished .release
    (e01Adapter schedule) (e01Size cachedReader) (e01Unwinds schedule)
    (0, .new) readingClient.sends
  exact ⟨now, e01_sessions_export (E01.readable_twoChunks _) rfl schedule
    hreach (Or.inr hi)⟩

end Segments

end Nbd
end ImageReader
