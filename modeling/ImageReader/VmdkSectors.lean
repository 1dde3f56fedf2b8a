import ImageReader.ExactWords
import ImageReader.VmdkDescriptor
import ImageReader.VmdkReadExtent

/-!
# From sectors to bytes

A VMDK image says in sectors where things are, and the reader seeks to bytes.
`Seek` lists the positions which it computes from the fields of an image.  The
code multiplies and adds without checks, so a position is the exact one as long
as that is a word, and beyond the words the call panics or seeks elsewhere.
-/

namespace ImageReader
namespace Vmdk

variable {δ : Type} {build : Build}

/-! ## The positions -/

/-- A grain of the file at sector `v`, read where the sector says. -/
def readGrainAtSector (build : Build) (inflater : Inflater δ)
    (storage : SparseStorage) (v grainIndex grainSize grainDataOffset r : ℕ) :
    Outcome IoError Bytes :=
  if storage.hasCompressedGrain then do
    ioResult (storage.source.seek (v * SECTOR_SIZE))
    let grainData ← readAndDecompressGrain build inflater storage.source
      (v * SECTOR_SIZE) grainIndex grainSize
    Slice.range grainData grainDataOffset (grainDataOffset + r)
  else readFileAt storage.source (v * SECTOR_SIZE + grainDataOffset) r

namespace SparseStorage

variable (storage : SparseStorage) (offset : ℕ)

def grainBytes : ℕ := storage.grainSize * SECTOR_SIZE

/-- `offset` within its extent. -/
def offsetInExtent : ℕ := offset - storage.startSector * SECTOR_SIZE

/-- The sector which the grain at `offset` is read from, unless it is a grain
of zeros. -/
def sectorAt : Option ℕ :=
  (storage.grainTable.lookup
    (storage.offsetInExtent offset / storage.grainBytes)).filter fun v =>
      ¬ (storage.zeroedGrainTableEntry ∧ v = 1)

/-- Where a read at `offset` starts in a grain which is at sector `v`; a
compressed grain is read as a whole. -/
def positionIn (v : ℕ) : ℕ :=
  if storage.hasCompressedGrain then v * SECTOR_SIZE
  else v * SECTOR_SIZE + storage.offsetInExtent offset % storage.grainBytes

end SparseStorage

/-- A VMDK4 header is refused before the byte offset of its directory is
computed; in the `release` profile the checks behind that count as well. -/
def Vmdk4Header.Refused (build : Build) (h : Vmdk4Header) : Prop :=
  h.fieldsOk = false ∨ build = .release ∧ h.sizeOk = false

/-- The same of a SESPARSE header. -/
def VmdkSeSparseConstHeader.Refused (build : Build)
    (h : VmdkSeSparseConstHeader) : Prop :=
  h.fieldsOk = false ∨ ¬ h.grainDirSize.toNat * SECTOR_SIZE < wordLimit ∨
    build = .release ∧ h.sizeOk = false

/-- A position which the reader computes from fields of an image. -/
inductive Seek (build : Build) where
  /-- the grain directory of a COWD file -/
  | vmdk3Directory (h : Vmdk3Header)
  /-- the grain directory of a VMDK4 file -/
  | vmdk4Directory (h : Vmdk4Header)
  /-- a level 2 table of these two, from entry `i` of the directory at `pos` -/
  | sparseTable (file : BackingFile) (pos i : ℕ)
  /-- the grain directory and the grain tables of a SESPARSE file -/
  | seSparseTables (h : VmdkSeSparseConstHeader)
  /-- the grain table of a level 1 entry -/
  | seSparseTable (h : VmdkSeSparseConstHeader) (m : VmdkSeSparseMeta)
      (haccepted : h.toMeta build = .ok m) (l1Entry : UInt64)
  /-- the grain of a level 2 entry, still in sectors -/
  | seSparseGrain (h : VmdkSeSparseConstHeader) (m : VmdkSeSparseMeta)
      (haccepted : h.toMeta build = .ok m) (l2Entry : UInt64)
  /-- a read from a sparse extent -/
  | grain (ed : ExtentDescription) (startSector : ℕ) (filename : Text)
      (src : BackingFile) (storage : SparseStorage)
      (hopen : readExtent build ed startSector filename src =
        .ok (.sparse storage))
      (offset want : ℕ) (hstart : storage.startSector * SECTOR_SIZE ≤ offset)
      (hoffset : offset < wordLimit)
  /-- a read from a flat extent -/
  | flat (storage : FlatStorage) (offset want : ℕ)
      (hstart : storage.startSector * SECTOR_SIZE ≤ offset)
      (hoffset : offset < wordLimit)
  /-- the descriptor embedded in a VMDK4 file -/
  | descriptor (descOffset : UInt64)

namespace Seek

/-- The position is the exact value of its expression, or the open or the read
fails.  Where the code seeks at once, the call has to be the one at the exact
position whatever file it is made with. -/
def Exact (inflater : Inflater δ) : Seek build → Prop
  | vmdk3Directory h =>
      ExactOrFails ((h.toMeta build).map (·.l1Offset))
        (.ok (h.l1dirOffset.toNat * SECTOR_SIZE))
  | vmdk4Directory h =>
      ExactOrFails ((h.toMeta build).map (·.l1Offset))
        (.ok (h.directory.toNat * SECTOR_SIZE))
  | sparseTable file pos i =>
      ExactOrFails
        (build.mul (entryAt file 4 pos i) SECTOR_SIZE : Outcome OpenIoError ℕ)
        (.ok (entryAt file 4 pos i * SECTOR_SIZE))
  | seSparseTables h =>
      ExactOrFails
        ((h.toMeta build).map fun m => (m.l1Offset, m.l2TablesOffset))
        (.ok (h.grainDirOffset.toNat * SECTOR_SIZE,
          h.grainTablesOffset.toNat * SECTOR_SIZE))
  | seSparseTable h m _ l1Entry =>
      ExactOrFails
        ((seSparseFormat build m (m.l2Len * 8)).l2Offset l1Entry.toNat)
        (.ok (h.grainTablesOffset.toNat * SECTOR_SIZE +
          (l1Entry.toNat &&& 0x0FFFFFFFFFFFFFFF) *
            (h.grainTableSize.toNat * SECTOR_SIZE)))
  | seSparseGrain h m _ l2Entry =>
      highNibble l2Entry.toNat = 0x3000000000000000 →
      ExactOrFails
        ((seSparseFormat build m (m.l2Len * 8)).decode l2Entry.toNat)
        (.ok (some (h.grainsOffset.toNat + seSparseIndex l2Entry.toNat * 8)))
  | grain _ _ _ _ storage _ offset want _ _ =>
      ∀ v, storage.sectorAt offset = some v → ∀ file,
        ExactOrFails
          ({ storage with source := file }.read build inflater offset want)
          (readGrainAtSector build inflater { storage with source := file } v
            (storage.offsetInExtent offset / storage.grainBytes) storage.grainBytes
            (storage.offsetInExtent offset % storage.grainBytes)
            (min (storage.grainBytes -
              storage.offsetInExtent offset % storage.grainBytes) want))
  | flat storage offset want _ _ =>
      ∀ file, ExactOrFails
        ({ storage with source := file }.read build offset want)
        (readFileAt file (offset - storage.startSector * SECTOR_SIZE +
          storage.offset * SECTOR_SIZE) want)
  | descriptor descOffset =>
      ∀ file, ExactOrFails
        (readDescriptorInternal build file descOffset.toNat)
        (descriptorAt file (descOffset.toNat * SECTOR_SIZE))

/-- The exact value is a word, or the code does not get to it. -/
def Fits : Seek build → Prop
  | vmdk3Directory _ => True
  | vmdk4Directory h =>
      h.directory.toNat * SECTOR_SIZE < wordLimit ∨ h.Refused build
  | sparseTable _ _ _ => True
  | seSparseTables h =>
      (h.grainDirOffset.toNat * SECTOR_SIZE < wordLimit ∧
        h.grainTablesOffset.toNat * SECTOR_SIZE < wordLimit) ∨ h.Refused build
  | seSparseTable h _ _ l1Entry =>
      highNibble l1Entry.toNat = 0x1000000000000000 →
      h.grainTablesOffset.toNat * SECTOR_SIZE +
        (l1Entry.toNat &&& 0x0FFFFFFFFFFFFFFF) *
          (h.grainTableSize.toNat * SECTOR_SIZE) < wordLimit
  | seSparseGrain h _ _ l2Entry =>
      highNibble l2Entry.toNat = 0x3000000000000000 →
      h.grainsOffset.toNat + seSparseIndex l2Entry.toNat * 8 < wordLimit
  | grain _ _ _ _ storage _ offset _ _ _ =>
      ∀ v, storage.sectorAt offset = some v →
        storage.positionIn offset v < wordLimit
  | flat storage offset _ _ _ =>
      offset - storage.startSector * SECTOR_SIZE +
        storage.offset * SECTOR_SIZE < wordLimit
  | descriptor descOffset => descOffset.toNat * SECTOR_SIZE < wordLimit

end Seek

/-! ## Headers -/

section Headers

/-- A field in sectors, in bytes. -/
theorem sectors_carry {ε : Type} (build : Build) (field : UInt64) :
    build.Carries (build.mul field.toNat SECTOR_SIZE : Outcome ε ℕ)
      (field.toNat * SECTOR_SIZE) :=
  .mul field.toNat SECTOR_SIZE

theorem vmdk3_exact (h : Vmdk3Header) :
    ExactOrFails ((h.toMeta build).map (·.l1Offset))
      (.ok (h.l1dirOffset.toNat * SECTOR_SIZE)) := by
  rw [h.toMeta_eq]
  split_ifs with hsize
  · exact Or.inl ⟨_, rfl⟩
  · exact Or.inr rfl

theorem vmdk4_exact_iff (h : Vmdk4Header) :
    ExactOrFails ((h.toMeta build).map (·.l1Offset))
        (.ok (h.directory.toNat * SECTOR_SIZE)) ↔
      h.directory.toNat * SECTOR_SIZE < wordLimit ∨ h.Refused build := by
  unfold Vmdk4Header.Refused
  by_cases hok : h.fieldsOk = true
  · have hcarries := sectors_carry (ε := OpenErrorKind) build h.directory
    have hchecked := hcarries.checked_exact_iff h.sizeOk
      OpenErrorKind.invalidFileHeader
    rw [h.toMeta_eq build hok, Outcome.map_bind]
    simp only [hok, Bool.true_eq_false, false_or]
    rw [← hchecked]
    cases h.sizeOk <;> rfl
  · have hrefused : h.toMeta build = .error .invalidFileHeader := by
      unfold Vmdk4Header.toMeta
      rw [if_pos (by simpa using hok)]
    rw [hrefused]
    simp only [Bool.not_eq_true] at hok
    exact ⟨fun _ => Or.inr (Or.inl hok), fun _ => Or.inl ⟨_, rfl⟩⟩

theorem seSparse_exact_iff (h : VmdkSeSparseConstHeader) :
    ExactOrFails
        ((h.toMeta build).map fun m => (m.l1Offset, m.l2TablesOffset))
        (.ok (h.grainDirOffset.toNat * SECTOR_SIZE,
          h.grainTablesOffset.toNat * SECTOR_SIZE)) ↔
      (h.grainDirOffset.toNat * SECTOR_SIZE < wordLimit ∧
        h.grainTablesOffset.toNat * SECTOR_SIZE < wordLimit) ∨
      h.Refused build := by
  unfold VmdkSeSparseConstHeader.Refused
  by_cases hok : h.fieldsOk = true
  · by_cases hdir : h.grainDirSize.toNat * SECTOR_SIZE < wordLimit
    · have hl1 := sectors_carry (ε := OpenErrorKind) build h.grainDirOffset
      have hl2 := sectors_carry (ε := OpenErrorKind) build h.grainTablesOffset
      rw [h.toMeta_eq build hok hdir, Outcome.map_bind]
      simp only [Outcome.map_bind]
      have hchecked := hl1.checked_pair_exact_iff hl2 h.sizeOk
        OpenErrorKind.invalidFileHeader
      simp only [hok, hdir, Bool.true_eq_false, not_true_eq_false, false_or]
      rw [← hchecked]
      cases h.sizeOk <;> rfl
    · rw [h.toMeta_of_directory build hdir]
      exact ⟨fun _ => Or.inr (Or.inr (Or.inl hdir)), fun _ => Or.inl ⟨_, rfl⟩⟩
  · rw [h.toMeta_of_not_fieldsOk build hok]
    simp only [Bool.not_eq_true] at hok
    exact ⟨fun _ => Or.inr (Or.inl hok), fun _ => Or.inl ⟨_, rfl⟩⟩

end Headers

/-! ## Table entries -/

section Entries

variable {h : VmdkSeSparseConstHeader} {m : VmdkSeSparseMeta}

/-- What an accepted SESPARSE header carries. -/
theorem seSparse_accepted (haccepted : h.toMeta build = .ok m) :
    build.Carries (.ok m.l2TablesOffset : Outcome OpenIoError ℕ)
        (h.grainTablesOffset.toNat * SECTOR_SIZE) ∧
      h.grainTableSize.toNat * SECTOR_SIZE = m.l2Len * 8 ∧
      m.clustersOffset = h.grainsOffset.toNat ∧ m.clusterSectors = 8 := by
  rcases h.toMeta_cases build with herror | ⟨hok, _, ⟨_, hpanic⟩ |
    ⟨l1Offset, l2TablesOffset, _, hl2, _, hmeta⟩⟩
  · rw [herror] at haccepted
    simp at haccepted
  · rw [hpanic] at haccepted
    simp at haccepted
  · rw [hmeta] at haccepted
    obtain rfl := Outcome.ok.inj haccepted
    have htable : h.grainTableSize.toNat * SECTOR_SIZE = 4096 * 8 := by
      rw [(h.grainSize_of_fieldsOk hok).2]
      decide
    exact ⟨(sectors_carry build h.grainTablesOffset).of_ok hl2, htable, rfl,
      rfl⟩

theorem seSparseTable_exact_iff (haccepted : h.toMeta build = .ok m)
    (l1Entry : UInt64) :
    ExactOrFails
        ((seSparseFormat build m (m.l2Len * 8)).l2Offset l1Entry.toNat)
        (.ok (h.grainTablesOffset.toNat * SECTOR_SIZE +
          (l1Entry.toNat &&& 0x0FFFFFFFFFFFFFFF) *
            (h.grainTableSize.toNat * SECTOR_SIZE))) ↔
      (highNibble l1Entry.toNat = 0x1000000000000000 →
        h.grainTablesOffset.toNat * SECTOR_SIZE +
          (l1Entry.toNat &&& 0x0FFFFFFFFFFFFFFF) *
            (h.grainTableSize.toNat * SECTOR_SIZE) < wordLimit) := by
  obtain ⟨htables, hsize, _, _⟩ := seSparse_accepted haccepted
  have hposition := htables.add
    (.mul (l1Entry.toNat &&& 0x0FFFFFFFFFFFFFFF) (m.l2Len * 8))
  rw [Outcome.ok_bind] at hposition
  rw [hsize]
  unfold seSparseFormat
  simp only
  by_cases hnibble : highNibble l1Entry.toNat = 0x1000000000000000
  · rw [if_neg (by simpa using hnibble), hposition.exact_iff]
    exact ⟨fun hlt _ => hlt, fun hlt => hlt hnibble⟩
  · rw [if_pos hnibble]
    exact ⟨fun _ h => absurd h hnibble, fun _ => Or.inl ⟨_, rfl⟩⟩

theorem seSparseGrain_exact_iff (haccepted : h.toMeta build = .ok m)
    (l2Entry : UInt64)
    (hnibble : highNibble l2Entry.toNat = 0x3000000000000000) :
    ExactOrFails
        ((seSparseFormat build m (m.l2Len * 8)).decode l2Entry.toNat)
        (.ok (some (h.grainsOffset.toNat + seSparseIndex l2Entry.toNat * 8))) ↔
      h.grainsOffset.toNat + seSparseIndex l2Entry.toNat * 8 < wordLimit := by
  obtain ⟨_, _, hgrains, hcluster⟩ := seSparse_accepted haccepted
  have hoffset : build.Carries
      (.ok h.grainsOffset.toNat : Outcome OpenIoError ℕ)
      h.grainsOffset.toNat := .ok h.grainsOffset.toNat_lt
  have hsector := hoffset.add (.mul (seSparseIndex l2Entry.toNat) 8)
  have hne : l2Entry.toNat ≠ 0 := by
    intro hzero
    rw [hzero] at hnibble
    exact absurd hnibble (by decide)
  unfold seSparseFormat
  simp only
  rw [if_neg hne, if_neg (by omega), if_pos hnibble, hgrains, hcluster,
    ← hsector.exact_iff, Outcome.ok_bind, ← Outcome.bind_assoc]
  exact exactOrFails_bind_ok_iff (Option.some_injective ℕ)

end Entries

/-! ## Reads -/

section Reads

/-- A file which can be read at `pos` but not at `n`. -/
theorem readFileAt_separates (n want pos : ℕ) (hpos : pos < n) :
    ∃ file a e, readFileAt file pos want = .ok a ∧
      readFileAt file n want = .error e := by
  let file : BackingFile :=
    ⟨List.replicate (pos + want) 0, fun p _ => if p = n then some 0 else none⟩
  have hlength : file.content.length = pos + want := List.length_replicate
  have hseek : file.seek pos = .ok () := if_pos (by omega)
  have hread : file.readExact pos want =
      .ok (Slice.window file.content pos want) := by
    have hfits : pos + want ≤ file.content.length := hlength.ge
    rcases BackingFile.readExact_cases hfits with
      hread | ⟨code, hfault, _⟩
    · exact hread
    · have hnone : file.fault pos want = none := if_neg hpos.ne
      simp [hnone] at hfault
  have hok : readFileAt file pos want =
      .ok (Slice.window file.content pos want) := by
    unfold readFileAt
    rw [hseek, hread]
    rfl
  have herror : ∃ e, readFileAt file n want = .error e := by
    unfold readFileAt
    by_cases hlong : n ≤ file.content.length
    · have hfault : file.fault n want = some 0 := if_pos rfl
      have hreadn : file.readExact n want = .error (.backing 0) := by
        unfold BackingFile.readExact
        rw [if_neg (by omega), hfault]
      have hseekn : file.seek n = .ok () := if_pos hlong
      rw [hseekn, hreadn]
      exact ⟨_, rfl⟩
    · have hseekn : file.seek n = .error .seekPastEnd := if_neg hlong
      rw [hseekn]
      exact ⟨_, rfl⟩
  obtain ⟨e, he⟩ := herror
  exact ⟨file, _, e, hok, he⟩

theorem flat_exact_iff (storage : FlatStorage) {offset : ℕ} (want : ℕ)
    (hstart : storage.startSector * SECTOR_SIZE ≤ offset)
    (hoffset : offset < wordLimit) :
    (∀ file, ExactOrFails
        ({ storage with source := file }.read build offset want)
        (readFileAt file (offset - storage.startSector * SECTOR_SIZE +
          storage.offset * SECTOR_SIZE) want)) ↔
      offset - storage.startSector * SECTOR_SIZE +
        storage.offset * SECTOR_SIZE < wordLimit := by
  have hlocal : build.Carries
      (.ok (offset - storage.startSector * SECTOR_SIZE) : Outcome IoError ℕ)
      (offset - storage.startSector * SECTOR_SIZE) := .ok (by omega)
  have hposition := hlocal.add (.mul storage.offset SECTOR_SIZE)
  rw [← hposition.continued_exact_iff (readFileAt_separates _ want)]
  have hread : ∀ file, { storage with source := file }.read build offset want =
      (.ok (offset - storage.startSector * SECTOR_SIZE) >>= fun a =>
        build.mul storage.offset SECTOR_SIZE >>= fun b => build.add a b) >>=
        fun pos => readFileAt file pos want := by
    intro file
    unfold FlatStorage.read
    rw [Build.mul_of_lt (hstart.trans_lt hoffset), Outcome.ok_bind,
      Build.sub_of_le hstart, Outcome.ok_bind, Outcome.ok_bind,
      Outcome.bind_assoc]
    rfl
  simp only [hread]

/-- A read from a grain which is not a grain of zeros. -/
theorem grain_exact_iff (inflater : Inflater δ) {storage : SparseStorage}
    {startSector offset v : ℕ} (want : ℕ) (hsound : storage.Sound startSector)
    (hstart : storage.startSector * SECTOR_SIZE ≤ offset)
    (hoffset : offset < wordLimit) (hsector : storage.sectorAt offset = some v) :
    (∀ file, ExactOrFails
        ({ storage with source := file }.read build inflater offset want)
        (readGrainAtSector build inflater { storage with source := file } v
          (storage.offsetInExtent offset / storage.grainBytes)
          storage.grainBytes
          (storage.offsetInExtent offset % storage.grainBytes)
          (min (storage.grainBytes -
            storage.offsetInExtent offset % storage.grainBytes) want))) ↔
      storage.positionIn offset v < wordLimit := by
  obtain ⟨hlookup, hfilter⟩ := Option.filter_eq_some_iff.mp hsector
  have hdata : ¬ (storage.zeroedGrainTableEntry = true ∧ v = 1) :=
    of_decide_eq_true hfilter
  have hpos := hsound.grainSize_pos
  have hsize : storage.grainBytes < wordLimit := by
    have hle := hsound.grain_le _ _ hlookup
    rw [Nat.mul_assoc, Nat.add_mul, Nat.one_mul, Extent.sparseSizeLimit_eq]
      at hle
    have : storage.grainBytes ≤ 70368744177664 :=
      (Nat.le_add_left _ _).trans hle
    rw [wordLimit_eq]
    omega
  have hread : ∀ file, { storage with source := file }.read build inflater
      offset want =
        readGrain build inflater { storage with source := file } v
          (storage.offsetInExtent offset / storage.grainBytes)
          storage.grainBytes
          (storage.offsetInExtent offset % storage.grainBytes)
          (min (storage.grainBytes -
            storage.offsetInExtent offset % storage.grainBytes) want) :=
    fun file => SparseStorage.read_of_lookup build inflater
      { storage with source := file } offset want hpos hsize hstart hoffset
      hlookup
  simp only [hread]
  unfold readGrain readGrainAtSector SparseStorage.positionIn
  simp only [if_neg hdata]
  by_cases hcompressed : storage.hasCompressedGrain = true
  · simp only [if_pos hcompressed]
    have hnarrow := hsound.narrow hcompressed _ _ hlookup
    have hfits : v * SECTOR_SIZE < wordLimit := by
      rw [sectorSize_eq, wordLimit_eq]
      omega
    rw [Build.mul_of_lt hfits]
    exact ⟨fun _ => hfits, fun _ file => Or.inr rfl⟩
  · simp only [if_neg hcompressed]
    have hinside : build.Carries
        (.ok (storage.offsetInExtent offset % storage.grainBytes) :
          Outcome IoError ℕ)
        (storage.offsetInExtent offset % storage.grainBytes) := by
      apply Build.Carries.ok
      unfold SparseStorage.offsetInExtent
      exact (Nat.mod_le _ _).trans_lt (by omega)
    have hposition := (Build.Carries.mul v SECTOR_SIZE).add hinside
    rw [← hposition.continued_exact_iff (readFileAt_separates _ _)]
    simp only [Outcome.bind_assoc, Outcome.ok_bind]
    rfl

theorem descriptor_exact_iff (descOffset : ℕ) :
    (∀ file, ExactOrFails (readDescriptorInternal build file descOffset)
        (descriptorAt file (descOffset * SECTOR_SIZE))) ↔
      descOffset * SECTOR_SIZE < wordLimit := by
  have hposition : build.Carries
      (build.mul descOffset SECTOR_SIZE : Outcome OpenIoError ℕ)
      (descOffset * SECTOR_SIZE) := .mul descOffset SECTOR_SIZE
  apply hposition.continued_exact_iff
  intro pos hpos
  let file : BackingFile := ⟨List.replicate pos 0, fun _ _ => none⟩
  have hlength : file.content.length = pos := List.length_replicate
  have hok : descriptorAt file pos = .ok [] := by
    have hseek : file.seek pos = .ok () := if_pos hlength.ge
    unfold descriptorAt
    rw [hseek, file.stream_of_length_le hlength.le]
    rfl
  have herror : file.seek (descOffset * SECTOR_SIZE) = .error .seekPastEnd :=
    if_neg (by omega)
  refine ⟨file, [], .source .seekPastEnd, hok, ?_⟩
  unfold descriptorAt
  rw [herror]
  rfl

end Reads

/-- Every position is exact, or the call fails, unless its expression leaves
the words on the way that the code takes. -/
theorem seek_exact_iff (build : Build) (inflater : Inflater δ)
    (seek : Seek build) : seek.Exact inflater ↔ seek.Fits := by
  cases seek with
  | vmdk3Directory h => exact iff_of_true (vmdk3_exact h) trivial
  | vmdk4Directory h => exact vmdk4_exact_iff h
  | sparseTable file pos i =>
      exact iff_of_true (Or.inr (mul_entryAt build file pos i)) trivial
  | seSparseTables h => exact seSparse_exact_iff h
  | seSparseTable h m haccepted l1Entry =>
      exact seSparseTable_exact_iff haccepted l1Entry
  | seSparseGrain h m haccepted l2Entry =>
      exact forall_congr' (seSparseGrain_exact_iff haccepted l2Entry)
  | grain ed startSector filename src storage hopen offset want hstart hoffset =>
      apply forall₂_congr
      intro v hsector
      exact grain_exact_iff inflater want (readExtent_sound hopen) hstart
        hoffset hsector
  | flat storage offset want hstart hoffset =>
      exact flat_exact_iff storage want hstart hoffset
  | descriptor descOffset => exact descriptor_exact_iff descOffset.toNat

/-- The second sector of an image, in a flat file from sector `offset` on. -/
def secondSector (offset : ℕ) : Seek .release :=
  .flat ⟨⟨List.replicate 4096 7, fun _ _ => none⟩, offset, 1⟩ 600 1
    (show 1 * 512 ≤ 600 by decide) (by decide)

/-- A read within the words, and one of a file which would begin at 2^64. -/
theorem seek_exact_iff_secondSector :
    (secondSector 3).Exact emptyInflater ∧
      ¬ (secondSector 0x80000000000000).Exact emptyInflater := by
  constructor
  · refine (seek_exact_iff .release emptyInflater (secondSector 3)).mpr ?_
    change 88 + 1536 < wordLimit
    decide
  · intro hexact
    have hfits : 88 + 0x80000000000000 * 512 < wordLimit :=
      (seek_exact_iff .release emptyInflater _).mp hexact
    exact absurd hfits (by decide)

/-- A header which is accepted, with its directory 2^64 bytes into the file. -/
def farDirectory : Vmdk4Header where
  magic := VMDK4_MAGIC
  version := 1
  flags := 0
  capacity := 16
  granularity := 8
  descOffset := 0
  descSize := 0
  numGtesPerGt := 2
  rgdOffset := 0
  gdOffset := 0x80000000000000
  grainOffset := 0
  filler := 0
  checkBytes := [0, 0, 0, 0]
  compressAlgorithm := 0

theorem farDirectory_wraps :
    ¬ ∀ (build : Build) (seek : Seek build), seek.Exact emptyInflater := by
  intro hall
  have hzero : (farDirectory.toMeta .release).map (·.l1Offset) = .ok 0 := by
    decide +kernel
  have hexact : ExactOrFails ((farDirectory.toMeta .release).map (·.l1Offset))
      (.ok (farDirectory.directory.toNat * SECTOR_SIZE)) :=
    hall .release (.vmdk4Directory farDirectory)
  rw [hzero] at hexact
  rcases hexact with ⟨e, he⟩ | heq
  · simp at he
  · exact absurd (Outcome.ok.inj heq) (by decide)

end Vmdk
end ImageReader
