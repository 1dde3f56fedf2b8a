import ImageReader.VmdkGrainTables
import ImageReader.VmdkReader
import ImageReader.VmdkRegisters

/-!
# Reading the extents of an image

`readExtent` turns one description and the file it names into a storage.
`readExtents` does so for all descriptions of an image; it lays the extents end
to end and gives every file the next index.

What `Regular` and `Laid` demand of the extents of an image is what the header
checks and the running start sector give.
-/

namespace ImageReader
namespace Vmdk

/-! ## One extent -/

/-- An error of a function which does not know the path yet. -/
def atPathless {α : Type} (x : Outcome OpenErrorKind α) : Outcome OpenError α :=
  x.mapError .ofKind

@[simp] theorem atPathless_ok {α : Type} (a : α) :
    atPathless (.ok a) = .ok a := rfl

theorem atPathless_eq_ok {α : Type} {x : Outcome OpenErrorKind α} {a : α} :
    atPathless x = .ok a ↔ x = .ok a :=
  Outcome.mapError_eq_ok

/-- The arm of SPARSE and VMFSSPARSE. -/
def readSparseExtent (build : Build) (startSector : ℕ) (filename : Text)
    (src : BackingFile) : Outcome OpenError ExtentStorage := do
  let header ← atPathless (readHeaderSparse build src)
  let grainTable ← atPathless
    ((readGrainTableSparse build header src).mapError .ioError)
  pure (.sparse {
    source := src
    filename := String.ofList filename
    grainTable
    grainSize := header.clusterSectors
    hasCompressedGrain := header.compressed
    zeroedGrainTableEntry := header.hasZeroGrain
    startSector })

/-- The arm of SESPARSE. -/
def readSeSparseExtent (build : Build) (startSector : ℕ) (filename : Text)
    (src : BackingFile) : Outcome OpenError ExtentStorage := do
  let header ← atPathless (readHeaderSeSparse build src)
  let grainTable ← atPathless
    ((readGrainTableSeSparse build header src).mapError .ioError)
  pure (.sparse {
    source := src
    filename := String.ofList filename
    grainTable
    grainSize := header.clusterSectors
    hasCompressedGrain := false
    zeroedGrainTableEntry := true
    startSector })

def readExtent (build : Build) (ed : ExtentDescription) (startSector : ℕ)
    (filename : Text) (src : BackingFile) : Outcome OpenError ExtentStorage :=
  match ed.kind with
  | .sparse _ | .vmfsSparse _ =>
      readSparseExtent build startSector filename src
  | .seSparse _ => readSeSparseExtent build startSector filename src
  | .vmfs _ => .ok (.flat ⟨src, 0, startSector⟩)
  | .flat _ offset => .ok (.flat ⟨src, offset, startSector⟩)
  | .vmfsRaw _ | .vmfsRdm _ | .zero =>
      .error (.ofKind (.unsupportedExtentKind ed.kind))

section Opened

variable {build : Build} {ed : ExtentDescription} {startSector : ℕ}
  {filename : Text} {file : BackingFile} {storage : SparseStorage}

theorem readSparseExtent_ok
    (hopen : readSparseExtent build startSector filename file =
      .ok (.sparse storage)) :
    ∃ m : VmdkSparseMeta, m.Bounded ∧
      readGrainTableSparse build m file = .ok storage.grainTable ∧
      storage.grainSize = m.clusterSectors ∧
      storage.startSector = startSector := by
  unfold readSparseExtent at hopen
  obtain ⟨m, hheader, hopen⟩ := Outcome.bind_eq_ok.mp hopen
  obtain ⟨table, htable, hopen⟩ := Outcome.bind_eq_ok.mp hopen
  obtain rfl := ExtentStorage.sparse.inj (Outcome.ok.inj hopen)
  exact ⟨m, readHeaderSparse_bounded (atPathless_eq_ok.mp hheader),
    Outcome.mapError_eq_ok.mp (atPathless_eq_ok.mp htable), rfl, rfl⟩

theorem readSeSparseExtent_ok
    (hopen : readSeSparseExtent build startSector filename file =
      .ok (.sparse storage)) :
    ∃ m, readHeaderSeSparse build file = .ok m ∧ m.Bounded ∧
      readGrainTableSeSparse build m file = .ok storage.grainTable ∧
      storage.source = file ∧ storage.grainSize = m.clusterSectors ∧
      storage.hasCompressedGrain = false ∧
      storage.zeroedGrainTableEntry = true ∧
      storage.startSector = startSector := by
  unfold readSeSparseExtent at hopen
  obtain ⟨m, hheader, hopen⟩ := Outcome.bind_eq_ok.mp hopen
  obtain ⟨table, htable, hopen⟩ := Outcome.bind_eq_ok.mp hopen
  obtain rfl := ExtentStorage.sparse.inj (Outcome.ok.inj hopen)
  have hheader' := atPathless_eq_ok.mp hheader
  exact ⟨m, hheader', readHeaderSeSparse_bounded hheader',
    Outcome.mapError_eq_ok.mp (atPathless_eq_ok.mp htable),
    rfl, rfl, rfl, rfl, rfl⟩

/-- What is known of a sparse storage which has been opened. -/
structure SparseStorage.Sound (storage : SparseStorage)
    (startSector : ℕ) : Prop where
  start : storage.startSector = startSector
  grainSize_pos : 0 < storage.grainSize
  grain_le : ∀ g v, storage.grainTable.lookup g = some v →
    (g + 1) * storage.grainSize * SECTOR_SIZE ≤ Extent.sparseSizeLimit
  narrow : storage.hasCompressedGrain = true →
    ∀ g v, storage.grainTable.lookup g = some v → v < 2 ^ 32

/-- Grains of the tables are inside the size the header is checked for. -/
theorem grain_le_of_index {g l1Len l2Len clusterSectors limit : ℕ}
    (hl2 : 0 < l2Len) (hindex : g / l2Len < l1Len)
    (hsize : l1Len * l2Len * clusterSectors * SECTOR_SIZE ≤ limit) :
    (g + 1) * clusterSectors * SECTOR_SIZE ≤ limit := by
  have hg : g + 1 ≤ l1Len * l2Len :=
    (Nat.div_lt_iff_lt_mul hl2).mp hindex
  have hgrain : (g + 1) * clusterSectors ≤ l1Len * l2Len * clusterSectors :=
    Nat.mul_le_mul_right _ hg
  exact (Nat.mul_le_mul_right _ hgrain).trans hsize

theorem readSparseExtent_sound
    (hopen : readSparseExtent build startSector filename file =
      .ok (.sparse storage)) :
    storage.Sound startSector := by
  obtain ⟨m, hbounded, htable, hsize, hstart⟩ := readSparseExtent_ok hopen
  obtain ⟨hpos, hlookup⟩ := readGrainTableSparse_lookup hbounded htable
  exact {
    start := hstart
    grainSize_pos := by
      rw [hsize]
      exact hpos
    grain_le := by
      intro g v hfound
      obtain ⟨_, hindex, _⟩ := (hlookup g v).mp hfound
      rw [hsize]
      apply grain_le_of_index hbounded.l2Len_pos hindex
      apply hbounded.size_le.trans
      rw [Extent.sparseSizeLimit_eq]
      norm_num
    narrow := by
      intro _ g v hfound
      obtain ⟨_, _, _, _, rfl⟩ := (hlookup g v).mp hfound
      exact entryAt_four_lt _ _ _ }

theorem readSeSparseExtent_sound
    (hopen : readSeSparseExtent build startSector filename file =
      .ok (.sparse storage)) :
    storage.Sound startSector := by
  obtain ⟨m, _, hbounded, htable, _, hsize, hcompressed, _, hstart⟩ :=
    readSeSparseExtent_ok hopen
  obtain ⟨entries, hcount, _, hlookup⟩ :=
    readGrainTableSeSparse_inTables hbounded htable
  exact {
    start := hstart
    grainSize_pos := by
      rw [hsize, hbounded.clusterSectors_eq]
      norm_num
    grain_le := by
      intro g v hfound
      obtain ⟨_, l1Entry, hget, _⟩ := (hlookup g v).mp hfound
      have hindex : g / m.l2Len < m.l1Len := by
        rw [← hcount]
        exact (List.getElem?_eq_some_iff.mp hget).1
      rw [hsize]
      have hl2 : 0 < m.l2Len := by
        rw [hbounded.l2Len_eq]
        norm_num
      exact grain_le_of_index hl2 hindex hbounded.size_le
    narrow := by
      intro hdeflated
      rw [hcompressed] at hdeflated
      exact absurd hdeflated (by decide) }

theorem readSparseExtent_sparse {opened : ExtentStorage}
    (hopen : readSparseExtent build startSector filename file = .ok opened) :
    ∃ storage, opened = .sparse storage := by
  unfold readSparseExtent at hopen
  obtain ⟨_, _, hopen⟩ := Outcome.bind_eq_ok.mp hopen
  obtain ⟨_, _, hopen⟩ := Outcome.bind_eq_ok.mp hopen
  exact ⟨_, (Outcome.ok.inj hopen).symm⟩

theorem readSeSparseExtent_sparse {opened : ExtentStorage}
    (hopen : readSeSparseExtent build startSector filename file =
      .ok opened) : ∃ storage, opened = .sparse storage := by
  unfold readSeSparseExtent at hopen
  obtain ⟨_, _, hopen⟩ := Outcome.bind_eq_ok.mp hopen
  obtain ⟨_, _, hopen⟩ := Outcome.bind_eq_ok.mp hopen
  exact ⟨_, (Outcome.ok.inj hopen).symm⟩

/-- An opened storage is a flat one from the same sector, or a sparse one of
which the tables are sound. -/
theorem readExtent_cases {opened : ExtentStorage}
    (hopen : readExtent build ed startSector filename file = .ok opened) :
    (∃ storage, opened = .flat storage ∧ storage.startSector = startSector) ∨
      ∃ storage, opened = .sparse storage ∧ storage.Sound startSector := by
  unfold readExtent at hopen
  cases hkind : ed.kind <;> simp only [hkind] at hopen
  case sparse =>
    obtain ⟨storage, rfl⟩ := readSparseExtent_sparse hopen
    exact Or.inr ⟨storage, rfl, readSparseExtent_sound hopen⟩
  case vmfsSparse =>
    obtain ⟨storage, rfl⟩ := readSparseExtent_sparse hopen
    exact Or.inr ⟨storage, rfl, readSparseExtent_sound hopen⟩
  case seSparse =>
    obtain ⟨storage, rfl⟩ := readSeSparseExtent_sparse hopen
    exact Or.inr ⟨storage, rfl, readSeSparseExtent_sound hopen⟩
  case flat => exact Or.inl ⟨_, (Outcome.ok.inj hopen).symm, rfl⟩
  case vmfs => exact Or.inl ⟨_, (Outcome.ok.inj hopen).symm, rfl⟩
  all_goals simp at hopen

theorem readExtent_sound
    (hopen : readExtent build ed startSector filename file =
      .ok (.sparse storage)) :
    storage.Sound startSector := by
  rcases readExtent_cases hopen with ⟨flat, hflat, _⟩ | ⟨sparse, heq, hsound⟩
  · simp at hflat
  · obtain rfl := ExtentStorage.sparse.inj heq
    exact hsound

theorem readExtent_regular {opened : ExtentStorage} (sectors : ℕ)
    (hopen : readExtent build ed startSector filename file = .ok opened) :
    Extent.Regular ⟨startSector, sectors, opened⟩ := by
  rcases readExtent_cases hopen with
    ⟨flat, rfl, hstart⟩ | ⟨sparse, rfl, hsound⟩
  · exact {
      flatStart := by
        intro storage heq
        obtain rfl := ExtentStorage.flat.inj heq
        exact hstart
      sparseStart := by simp
      grainSize_pos := by simp
      grain_le := by simp }
  · exact {
      flatStart := by simp
      sparseStart := by
        intro storage heq
        obtain rfl := ExtentStorage.sparse.inj heq
        exact hsound.start
      grainSize_pos := by
        intro storage heq
        obtain rfl := ExtentStorage.sparse.inj heq
        exact hsound.grainSize_pos
      grain_le := by
        intro storage heq g hg
        obtain rfl := ExtentStorage.sparse.inj heq
        obtain ⟨v, hv⟩ := Option.isSome_iff_exists.mp
          (AList.lookup_isSome.mpr hg)
        exact hsound.grain_le g v hv }

end Opened

/-! ## All extents of an image -/

/-- Where files come from, and how a path in an image is resolved. -/
structure Store where
  /-- `source_for_url(url)`; an error is a path and a code -/
  source : Url → Except (String × ℕ) BackingFile
  /-- `base.join(path)` -/
  join : Url → Text → Option Url

/-- `source_for_url(url)?` -/
def Store.sourceForUrl (store : Store) (url : Url) :
    Outcome OpenError BackingFile :=
  (Outcome.ofExcept (store.source url)).mapError
    fun e => ⟨e.1, .source e.2⟩

/-- `base.join(path)`, which a path may not allow. -/
def Store.resolve (store : Store) (base : Url) (path : Text) :
    Outcome OpenError Url :=
  match store.join base path with
  | some url => .ok url
  | none => .error ⟨String.ofList path, .badPath path⟩

/-- The file of an extent; the image file itself stands in for a single
extent of a binary image whose file is not there. -/
def Store.extentSource (store : Store) (imageUrl edUrl : Url)
    (isBinAndSingular : Bool) : Outcome OpenError (Url × BackingFile) :=
  match store.sourceForUrl edUrl with
  | .ok src => .ok (edUrl, src)
  | .error e =>
      if isBinAndSingular ∧ edUrl ≠ imageUrl then do
        let src ← store.sourceForUrl imageUrl
        pure (imageUrl, src)
      else .error e
  | .panic fault => .panic fault
  | .hang => .hang

section Extents

open Registers

variable (build : Build) (store : Store) (imageUrl : Url)
  (isBinAndSingular : Bool)

def readExtentFile (ed : ExtentDescription) (filename : Text)
    (startSector idx : ℕ) : Registers OpenedExtent := do
  let edUrl ← lift (store.resolve imageUrl filename)
  let (url, src) ← lift (store.extentSource imageUrl edUrl isBinAndSingular)
  addSource idx url src
  let storage ← lift ((readExtent build ed startSector filename src).mapError
    fun e => e.withPath edUrl)
  pushExtent ⟨⟨startSector, ed.sectors, storage⟩, some (idx, url)⟩

/-- One extent, and the index behind the ones it has taken. -/
def readExtentOf (ed : ExtentDescription) (startSector idx : ℕ) :
    Registers (OpenedExtent × ℕ) :=
  match ed.filename with
  | none => do
      let opened ← pushExtent ⟨⟨startSector, ed.sectors, .zero⟩, none⟩
      pure (opened, idx)
  | some filename => do
      let opened ← readExtentFile build store imageUrl isBinAndSingular ed
        filename startSector idx
      pure (opened, idx + 1)

/-- `read_extents`, from the extent that starts at `startSector` and takes
index `idx` on. -/
def readExtents : List ExtentDescription → ℕ → ℕ →
    Registers (List OpenedExtent)
  | [], _, _ => pure []
  | ed :: eds, startSector, idx => do
      let (opened, idx) ← readExtentOf build store imageUrl isBinAndSingular
        ed startSector idx
      let startSector ← lift (build.add startSector ed.sectors)
      let rest ← readExtents eds startSector idx
      pure (opened :: rest)

end Extents

section Laying

variable {build : Build} {store : Store} {imageUrl : Url} {bin : Bool}

theorem readExtentFile_extent {ed : ExtentDescription} {filename : Text}
    {startSector idx : ℕ} {opened : OpenedExtent}
    (hread : (readExtentFile build store imageUrl bin ed filename startSector
      idx).result = .ok opened) :
    opened.extent.Regular ∧ opened.extent.startSector = startSector ∧
      opened.extent.sectors = ed.sectors := by
  unfold readExtentFile at hread
  obtain ⟨edUrl, _, hread⟩ := Registers.bind_eq_ok.mp hread
  obtain ⟨⟨url, src⟩, _, hread⟩ := Registers.bind_eq_ok.mp hread
  obtain ⟨_, _, hread⟩ := Registers.bind_eq_ok.mp hread
  obtain ⟨storage, hopen, hread⟩ := Registers.bind_eq_ok.mp hread
  obtain rfl := Outcome.ok.inj hread
  exact ⟨readExtent_regular ed.sectors (Outcome.mapError_eq_ok.mp hopen), rfl,
    rfl⟩

theorem readExtentOf_extent {ed : ExtentDescription} {startSector idx : ℕ}
    {result : OpenedExtent × ℕ}
    (hread : (readExtentOf build store imageUrl bin ed startSector idx).result =
      .ok result) :
    result.1.extent.Regular ∧ result.1.extent.startSector = startSector ∧
      result.1.extent.sectors = ed.sectors := by
  unfold readExtentOf at hread
  cases hname : ed.filename with
  | none =>
      simp only [hname] at hread
      obtain rfl := Outcome.ok.inj hread
      refine ⟨?_, rfl, rfl⟩
      exact {
        flatStart := by simp
        sparseStart := by simp
        grainSize_pos := by simp
        grain_le := by simp }
  | some filename =>
      simp only [hname] at hread
      obtain ⟨opened, hopened, hpair⟩ := Registers.bind_eq_ok.mp hread
      obtain rfl := Outcome.ok.inj hpair
      exact readExtentFile_extent hopened

/-- The extents of an image are regular, and laid end to end. -/
theorem readExtents_spec {eds : List ExtentDescription} {startSector idx : ℕ}
    {opened : List OpenedExtent}
    (hread : (readExtents build store imageUrl bin eds startSector idx).result =
      .ok opened) :
    (∀ ex ∈ opened.map OpenedExtent.extent, ex.Regular) ∧
      Laid startSector (opened.map OpenedExtent.extent) := by
  induction eds generalizing startSector idx opened with
  | nil =>
      obtain rfl := Outcome.ok.inj hread
      exact ⟨by simp, trivial⟩
  | cons ed eds ih =>
      unfold readExtents at hread
      obtain ⟨⟨first, idx'⟩, hfirst, hread⟩ := Registers.bind_eq_ok.mp hread
      obtain ⟨startSector', hadd, hread⟩ := Registers.bind_eq_ok.mp hread
      obtain ⟨rest, hrest, hread⟩ := Registers.bind_eq_ok.mp hread
      obtain rfl := Outcome.ok.inj hread
      obtain ⟨hregular, hlaid⟩ := ih hrest
      obtain ⟨hfirstRegular, hstart, hsectors⟩ := readExtentOf_extent hfirst
      rw [List.map_cons]
      refine ⟨?_, hstart, ?_⟩
      · intro ex hex
        rcases List.mem_cons.mp hex with rfl | hex
        · exact hfirstRegular
        · exact hregular ex hex
      · rw [hsectors, ← Build.add_eq_ok hadd]
        exact hlaid

end Laying

end Vmdk
end ImageReader
