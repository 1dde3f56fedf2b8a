import ImageReader.VmdkReadExtent

/-!
# What the entries of a SESPARSE file mean

The reader of the tables writes 1 as the sector of a zeroed grain, and
`SparseStorage::read` takes sector 1 of such a storage for zeros.  An allocated
grain which is at sector 1 of the file is therefore read as zeros as well;
every other entry keeps its meaning.
-/

namespace ImageReader
namespace Vmdk

variable {δ : Type} {build : Build}

namespace VmdkSeSparseMeta

variable (m : VmdkSeSparseMeta) (file : BackingFile)

/-- The level 1 entry of grain `g`. -/
def l1Entry (g : ℕ) : ℕ := entryAt file 8 m.l1Offset (g / m.l2Len)

/-- Where the level 2 table is which a level 1 entry points at. -/
def l2Offset (e : ℕ) : ℕ :=
  m.l2TablesOffset + (e &&& 0x0FFFFFFFFFFFFFFF) * (m.l2Len * 8)

/-- The level 2 entry of grain `g`. -/
def l2Entry (g : ℕ) : ℕ :=
  entryAt file 8 (m.l2Offset (m.l1Entry file g)) (g % m.l2Len)

/-- The sector of an allocated grain. -/
def grainSector (e : ℕ) : ℕ :=
  m.clustersOffset + seSparseIndex e * m.clusterSectors

def grainBytes : ℕ := m.clusterSectors * SECTOR_SIZE

/-- The numbers which lead to grain `g` are words. -/
structure InWords (startSector g : ℕ) : Prop where
  l2Offset : m.l2Offset (m.l1Entry file g) < wordLimit
  grain : highNibble (m.l2Entry file g) = 0x3000000000000000 →
    m.grainSector (m.l2Entry file g) * SECTOR_SIZE + m.grainBytes ≤ wordLimit
  offset : startSector * SECTOR_SIZE + (g + 1) * m.grainBytes ≤ wordLimit

end VmdkSeSparseMeta

/-- Grain `g` of the storage is what its entries say: not there, zeros, or the
bytes of the file. -/
structure GrainMeans (build : Build) (inflater : Inflater δ)
    (m : VmdkSeSparseMeta) (file : BackingFile) (storage : SparseStorage)
    (g : ℕ) : Prop where
  parent : m.l1Entry file g = 0 ∨ m.l2Entry file g = 0 →
    storage.grainTable.lookup g = none
  zeroed : m.l1Entry file g ≠ 0 →
    highNibble (m.l2Entry file g) = 0x1000000000000000 ∨
      highNibble (m.l2Entry file g) = 0x2000000000000000 →
    ∀ p < m.grainBytes, ∀ want,
      storage.read build inflater
        (storage.startSector * SECTOR_SIZE + g * m.grainBytes + p) want =
          .ok (List.replicate (min (m.grainBytes - p) want) 0)
  allocated : m.l1Entry file g ≠ 0 →
    highNibble (m.l2Entry file g) = 0x3000000000000000 →
    ∀ p < m.grainBytes, ∀ want,
      storage.read build inflater
        (storage.startSector * SECTOR_SIZE + g * m.grainBytes + p) want =
          readFileAt file
            (m.grainSector (m.l2Entry file g) * SECTOR_SIZE + p)
            (min (m.grainBytes - p) want)

/-- Grain `g` is allocated at sector 1. -/
def AtSentinel (m : VmdkSeSparseMeta) (file : BackingFile) (g : ℕ) : Prop :=
  m.l1Entry file g ≠ 0 ∧
    highNibble (m.l2Entry file g) = 0x3000000000000000 ∧
    m.clustersOffset = 1 ∧ seSparseIndex (m.l2Entry file g) = 0

/-- The file reads as zeros from sector 1 on, for the length of a grain. -/
def ZeroAtSentinel (m : VmdkSeSparseMeta) (file : BackingFile) : Prop :=
  ∀ p < m.grainBytes, ∀ want,
    readFileAt file (SECTOR_SIZE + p) (min (m.grainBytes - p) want) =
      .ok (List.replicate (min (m.grainBytes - p) want) 0)

/-! ## The table -/

section Table

variable {m : VmdkSeSparseMeta} {file : BackingFile} {table : GrainTable}

theorem l2Offset_eq_ok_iff {e pos : ℕ} (hword : m.l2Offset e < wordLimit) :
    (seSparseFormat build m (m.l2Len * 8)).l2Offset e = .ok pos ↔
      highNibble e = 0x1000000000000000 ∧ m.l2Offset e = pos := by
  unfold VmdkSeSparseMeta.l2Offset at hword ⊢
  unfold seSparseFormat
  simp only
  by_cases hnibble : highNibble e = 0x1000000000000000
  · rw [if_neg (by simpa using hnibble), Build.mul_of_lt (by omega),
      Outcome.ok_bind, Build.add_of_lt hword]
    simp [hnibble]
  · rw [if_pos hnibble]
    simp [hnibble]

/-- What the tables say about grain `g`. -/
theorem readGrainTableSeSparse_lookup (hbounded : m.Bounded)
    (hread : readGrainTableSeSparse build m file = .ok table) {g : ℕ}
    (htotal : g < m.totalGrains) (hl1 : g < m.l1Len * m.l2Len)
    (hword : m.l2Offset (m.l1Entry file g) < wordLimit) (v : ℕ) :
    table.lookup g = some v ↔
      m.l1Entry file g ≠ 0 ∧
        highNibble (m.l1Entry file g) = 0x1000000000000000 ∧
        (seSparseFormat build m (m.l2Len * 8)).decode (m.l2Entry file g) =
          .ok (some v) := by
  obtain ⟨entries, _, hentries, htable⟩ :=
    readGrainTableSeSparse_inTables hbounded hread
  have hindex : g / m.l2Len < m.l1Len := by
    have := hbounded.l2Len_eq
    exact (Nat.div_lt_iff_lt_mul (by omega)).mpr hl1
  have hget : entries[g / m.l2Len]? = some (m.l1Entry file g) :=
    hentries _ hindex
  rw [htable]
  unfold InTables
  rw [hget]
  constructor
  · rintro ⟨_, l1, hl1, hne, pos, hpos, hdecode⟩
    obtain rfl := Option.some.inj hl1
    obtain ⟨hnibble, rfl⟩ := (l2Offset_eq_ok_iff hword).mp hpos
    exact ⟨hne, hnibble, hdecode⟩
  · rintro ⟨hne, hnibble, hdecode⟩
    exact ⟨htotal, _, rfl, hne, _, (l2Offset_eq_ok_iff hword).mpr ⟨hnibble, rfl⟩,
      hdecode⟩

/-- The decoded level 2 entry, by its high nibble. -/
theorem decode_eq_ok_iff {e v : ℕ}
    (hword : highNibble e = 0x3000000000000000 →
      m.grainSector e < wordLimit) (l2Size : ℕ) :
    (seSparseFormat build m l2Size).decode e = .ok (some v) ↔
      ((highNibble e = 0x1000000000000000 ∨
        highNibble e = 0x2000000000000000) ∧ v = 1) ∨
      highNibble e = 0x3000000000000000 ∧ v = m.grainSector e := by
  have hzero : highNibble 0 = 0 := rfl
  unfold seSparseFormat
  simp only
  by_cases he : e = 0
  · subst he
    simp [hzero]
  · rw [if_neg he]
    by_cases hzeroed : highNibble e = 0x1000000000000000 ∨
        highNibble e = 0x2000000000000000
    · rw [if_pos hzeroed]
      have hnot : highNibble e ≠ 0x3000000000000000 := by
        intro h
        rw [h] at hzeroed
        omega
      simp only [hzeroed, hnot, true_and, false_and, or_false, Outcome.ok.injEq,
        Option.some.injEq]
      exact eq_comm
    · rw [if_neg hzeroed]
      by_cases hallocated : highNibble e = 0x3000000000000000
      · have hlt := hword hallocated
        unfold VmdkSeSparseMeta.grainSector at hlt ⊢
        rw [if_pos hallocated, Build.mul_of_lt (by omega), Outcome.ok_bind,
          Build.add_of_lt hlt, Outcome.ok_bind]
        simp [hallocated, eq_comm]
      · rw [if_neg hallocated]
        simp [hzeroed, hallocated]

end Table

/-! ## The storage -/

section Storage

variable {inflater : Inflater δ} {m : VmdkSeSparseMeta} {file : BackingFile}
  {storage : SparseStorage} {startSector g : ℕ} {filename : Text}

/-- A read inside grain `g` of a storage which holds `table`. -/
theorem read_grain_eq (hbounded : m.Bounded)
    (hsize : storage.grainSize = m.clusterSectors)
    (hcompressed : storage.hasCompressedGrain = false)
    (hentry : storage.zeroedGrainTableEntry = true)
    {v : ℕ} (hlookup : storage.grainTable.lookup g = some v)
    (hoffset : storage.startSector * SECTOR_SIZE + (g + 1) * m.grainBytes ≤
      wordLimit) {p : ℕ} (hp : p < m.grainBytes) (want : ℕ)
    (hsector : v ≠ 1 → v * SECTOR_SIZE + m.grainBytes ≤ wordLimit) :
    storage.read build inflater
        (storage.startSector * SECTOR_SIZE + g * m.grainBytes + p) want =
      if v = 1 then .ok (List.replicate (min (m.grainBytes - p) want) 0)
      else readFileAt storage.source (v * SECTOR_SIZE + p)
        (min (m.grainBytes - p) want) := by
  have hbytes : storage.grainSize * SECTOR_SIZE = m.grainBytes := by
    rw [hsize]
    rfl
  have hgrain : m.grainBytes = 4096 := by
    unfold VmdkSeSparseMeta.grainBytes
    rw [hbounded.clusterSectors_eq]
    rfl
  rw [Nat.add_mul, Nat.one_mul] at hoffset
  have hpos : 0 < storage.grainSize := by
    rw [hsize, hbounded.clusterSectors_eq]
    norm_num
  have hrel : storage.startSector * SECTOR_SIZE + g * m.grainBytes + p -
      storage.startSector * SECTOR_SIZE = g * m.grainBytes + p := by omega
  have hplace : g * m.grainBytes + p < g * m.grainBytes + m.grainBytes := by
    omega
  obtain ⟨hdiv, hmod⟩ := div_mod_of_table (Nat.le_add_right _ p) hplace
  have hmod' : (g * m.grainBytes + p) % m.grainBytes = p := by omega
  have hlookup' : storage.grainTable.lookup
      ((storage.startSector * SECTOR_SIZE + g * m.grainBytes + p -
        storage.startSector * SECTOR_SIZE) /
          (storage.grainSize * SECTOR_SIZE)) = some v := by
    rw [hbytes, hrel, hdiv]
    exact hlookup
  rw [SparseStorage.read_of_lookup build inflater storage _ want hpos
    (by rw [hbytes, hgrain, wordLimit_eq]; norm_num) (by omega) (by omega)
    hlookup']
  simp only [hbytes, hrel, hdiv, hmod']
  unfold readGrain
  rw [hentry, hcompressed]
  by_cases hv : v = 1
  · simp [hv]
  · have hfits := hsector hv
    rw [if_neg (by simp [hv]), if_neg hv, Build.mul_of_lt (by omega),
      Outcome.ok_bind, if_neg (by simp), Build.add_of_lt (by omega)]
    rfl

/-- A grain keeps the meaning of its entries unless it is allocated at sector
1, where the file would have to hold zeros. -/
theorem seSparse_grain_means_iff {storage : SparseStorage}
    (inflater : Inflater δ)
    (hheader : readHeaderSeSparse build file = .ok m)
    (hopen : readSeSparseExtent build startSector filename file =
      .ok (.sparse storage))
    (htotal : g < m.totalGrains) (hl1 : g < m.l1Len * m.l2Len)
    (hnibble : m.l1Entry file g = 0 ∨
      highNibble (m.l1Entry file g) = 0x1000000000000000)
    (hwords : m.InWords file startSector g) :
    GrainMeans build inflater m file storage g ↔
      (AtSentinel m file g → ZeroAtSentinel m file) := by
  obtain ⟨m', hheader', hbounded, htable, rfl, hsize, hcompressed, hentry,
    rfl⟩ := readSeSparseExtent_ok hopen
  obtain rfl : m = m' := by simpa [hheader] using hheader'
  have hsector : highNibble (m.l2Entry storage.source g) = 0x3000000000000000 →
      m.grainSector (m.l2Entry storage.source g) < wordLimit := by
    intro hallocated
    have := hwords.grain hallocated
    have hpos : 0 < m.grainBytes := by
      unfold VmdkSeSparseMeta.grainBytes
      rw [hbounded.clusterSectors_eq]
      norm_num
    rw [sectorSize_eq] at this
    omega
  have hlookup : ∀ v, storage.grainTable.lookup g = some v ↔
      m.l1Entry storage.source g ≠ 0 ∧
        (((highNibble (m.l2Entry storage.source g) = 0x1000000000000000 ∨
            highNibble (m.l2Entry storage.source g) = 0x2000000000000000) ∧
            v = 1) ∨
          highNibble (m.l2Entry storage.source g) = 0x3000000000000000 ∧
            v = m.grainSector (m.l2Entry storage.source g)) := by
    intro v
    rw [readGrainTableSeSparse_lookup hbounded htable htotal hl1
      hwords.l2Offset, decode_eq_ok_iff hsector]
    constructor
    · rintro ⟨hne, _, hdecode⟩
      exact ⟨hne, hdecode⟩
    · rintro ⟨hne, hdecode⟩
      exact ⟨hne, hnibble.resolve_left hne, hdecode⟩
  have hread : ∀ v, storage.grainTable.lookup g = some v →
      (v ≠ 1 → v * SECTOR_SIZE + m.grainBytes ≤ wordLimit) →
      ∀ p < m.grainBytes, ∀ want, storage.read build inflater
        (storage.startSector * SECTOR_SIZE + g * m.grainBytes + p) want =
          if v = 1 then .ok (List.replicate (min (m.grainBytes - p) want) 0)
          else readFileAt storage.source (v * SECTOR_SIZE + p)
            (min (m.grainBytes - p) want) :=
    fun v hv hfits p hp want => read_grain_eq hbounded hsize hcompressed hentry
      hv hwords.offset hp want hfits
  constructor
  · rintro hmeans ⟨hne, hallocated, hoffset, hindex⟩ p hp want
    have hone : m.grainSector (m.l2Entry storage.source g) = 1 := by
      unfold VmdkSeSparseMeta.grainSector
      rw [hoffset, hindex, Nat.zero_mul]
    have hfound : storage.grainTable.lookup g = some 1 :=
      (hlookup 1).mpr ⟨hne, Or.inr ⟨hallocated, hone.symm⟩⟩
    have hmeant := hmeans.allocated hne hallocated p hp want
    rw [hread 1 hfound (by simp) p hp want, if_pos rfl, hone, Nat.one_mul]
      at hmeant
    exact hmeant.symm
  · intro hsentinel
    exact {
      parent := by
        intro hparent
        apply Option.eq_none_iff_forall_ne_some.mpr
        intro v hfound
        obtain ⟨hne, hdecode⟩ := (hlookup v).mp hfound
        rw [hparent.resolve_left hne] at hdecode
        have hzero : highNibble 0 = 0 := rfl
        rw [hzero] at hdecode
        omega
      zeroed := by
        intro hne hzeroed p hp want
        have hfound : storage.grainTable.lookup g = some 1 :=
          (hlookup 1).mpr ⟨hne, Or.inl ⟨hzeroed, rfl⟩⟩
        rw [hread 1 hfound (by simp) p hp want, if_pos rfl]
      allocated := by
        intro hne hallocated p hp want
        have hfound : storage.grainTable.lookup g =
            some (m.grainSector (m.l2Entry storage.source g)) :=
          (hlookup _).mpr ⟨hne, Or.inr ⟨hallocated, rfl⟩⟩
        rw [hread _ hfound (fun _ => hwords.grain hallocated) p hp want]
        by_cases hone : m.grainSector (m.l2Entry storage.source g) = 1
        · rw [if_pos hone, hone, Nat.one_mul]
          have hat : AtSentinel m storage.source g := by
            unfold VmdkSeSparseMeta.grainSector at hone
            rw [hbounded.clusterSectors_eq] at hone
            exact ⟨hne, hallocated, by omega, by omega⟩
          exact (hsentinel hat p hp want).symm
        · rw [if_neg hone] }

/-- A file with one allocated grain, the first one; the grains are said to be
at sector `grainsOffset`. -/
def oneGrainFile (grainsOffset : ℕ) : BackingFile where
  content :=
    VMDK_SESPARSE_MAGIC ++
      [0x0000000200000001, 8, 8, 64, 0, 0, 0, 0, 0, 0, 0, 0, 0, 0, 0,
        1, 1, 2, 8, 0, 0, 0, 0, grainsOffset, 8].flatMap
          (fun word => (toBE 8 word).reverse) ++
      List.replicate 304 0 ++
      [0, 0, 0, 0, 0, 0, 0, 0x10] ++ List.replicate 504 0 ++
      [0, 0, 0, 0, 0, 0, 0, 0x30]
  fault := fun _ _ => none

def oneGrainMeta (grainsOffset : ℕ) : VmdkSeSparseMeta where
  sectors := 8
  l1Offset := 512
  l1Len := 64
  l2TablesOffset := 1024
  l2Len := 4096
  clusterSectors := 8
  clustersOffset := grainsOffset

def oneGrainStorage (grainsOffset : ℕ) : SparseStorage where
  source := oneGrainFile grainsOffset
  filename := ""
  grainTable := (∅ : GrainTable).insert 0 grainsOffset
  grainSize := 8
  hasCompressedGrain := false
  zeroedGrainTableEntry := true
  startSector := 0

section OneGrain

theorem oneGrain_inWords {grainsOffset : ℕ} (hsmall : grainsOffset < 2 ^ 32)
    (hl1 : (oneGrainMeta grainsOffset).l1Entry (oneGrainFile grainsOffset) 0 =
      0x1000000000000000)
    (hl2 : (oneGrainMeta grainsOffset).l2Entry (oneGrainFile grainsOffset) 0 =
      0x3000000000000000) :
    (oneGrainMeta grainsOffset).InWords (oneGrainFile grainsOffset) 0 0 where
  l2Offset := by
    rw [hl1]
    show 1024 + 0 * (4096 * 8) < wordLimit
    rw [wordLimit_eq]
    norm_num
  grain := by
    intro _
    rw [hl2]
    show (grainsOffset + 0 * 8) * 512 + 8 * 512 ≤ wordLimit
    rw [wordLimit_eq]
    omega
  offset := by
    show 0 * 512 + (0 + 1) * (8 * 512) ≤ wordLimit
    decide

theorem readSeSparseExtent_oneGrain {build : Build} {grainsOffset : ℕ}
    (hheader : readHeaderSeSparse build (oneGrainFile grainsOffset) =
      .ok (oneGrainMeta grainsOffset))
    (hentries : (readGrainTableSeSparse build (oneGrainMeta grainsOffset)
      (oneGrainFile grainsOffset)).map AList.entries =
        .ok [⟨0, grainsOffset⟩]) :
    readSeSparseExtent build 0 [] (oneGrainFile grainsOffset) =
      .ok (.sparse (oneGrainStorage grainsOffset)) := by
  obtain ⟨table, htable, hone⟩ := Outcome.map_eq_ok.mp hentries
  obtain rfl : table = (oneGrainStorage grainsOffset).grainTable :=
    AList.ext hone
  unfold readSeSparseExtent
  rw [hheader, atPathless_ok, Outcome.ok_bind, htable]
  rfl

theorem seSparse_grain_means_iff_oneGrain :
    GrainMeans .dev emptyInflater (oneGrainMeta 3) (oneGrainFile 3)
        (oneGrainStorage 3) 0 ↔
      (AtSentinel (oneGrainMeta 3) (oneGrainFile 3) 0 →
        ZeroAtSentinel (oneGrainMeta 3) (oneGrainFile 3)) := by
  have hl1 : (oneGrainMeta 3).l1Entry (oneGrainFile 3) 0 =
      0x1000000000000000 := by decide +kernel
  have hheader : readHeaderSeSparse .dev (oneGrainFile 3) =
      .ok (oneGrainMeta 3) := by decide +kernel
  have hopen : readSeSparseExtent .dev 0 [] (oneGrainFile 3) =
      .ok (.sparse (oneGrainStorage 3)) :=
    readSeSparseExtent_oneGrain hheader (by decide +kernel)
  exact seSparse_grain_means_iff emptyInflater hheader hopen (by decide)
    (by decide) (Or.inr (by rw [hl1]; decide))
    (oneGrain_inWords (by norm_num) hl1 (by decide +kernel))

/-- The entry of a grain at sector 1 is read as that of a zeroed one. -/
theorem oneGrain_at_sentinel :
    ¬ ∀ (build : Build) (m : VmdkSeSparseMeta) (file : BackingFile)
      (storage : SparseStorage) (startSector g : ℕ) (filename : Text),
      readHeaderSeSparse build file = .ok m →
      readSeSparseExtent build startSector filename file =
        .ok (.sparse storage) →
      g < m.totalGrains → g < m.l1Len * m.l2Len →
      (m.l1Entry file g = 0 ∨
        highNibble (m.l1Entry file g) = 0x1000000000000000) →
      m.InWords file startSector g →
      GrainMeans build emptyInflater m file storage g := by
  intro hall
  have hl1 : (oneGrainMeta 1).l1Entry (oneGrainFile 1) 0 =
      0x1000000000000000 := by decide +kernel
  have hl2 : (oneGrainMeta 1).l2Entry (oneGrainFile 1) 0 =
      0x3000000000000000 := by decide +kernel
  have hheader : readHeaderSeSparse .dev (oneGrainFile 1) =
      .ok (oneGrainMeta 1) := by decide +kernel
  have hopen : readSeSparseExtent .dev 0 [] (oneGrainFile 1) =
      .ok (.sparse (oneGrainStorage 1)) :=
    readSeSparseExtent_oneGrain hheader (by decide +kernel)
  have hmeans : GrainMeans .dev emptyInflater (oneGrainMeta 1) (oneGrainFile 1)
      (oneGrainStorage 1) 0 :=
    hall .dev (oneGrainMeta 1) (oneGrainFile 1) (oneGrainStorage 1) 0 0 []
      hheader hopen (by decide) (by decide) (Or.inr (by rw [hl1]; decide))
      (oneGrain_inWords (by norm_num) hl1 hl2)
  have hread := hmeans.allocated (by rw [hl1]; decide) (by rw [hl2]; decide)
    0 (by decide) 8
  have hzeros : (oneGrainStorage 1).read .dev emptyInflater
      ((oneGrainStorage 1).startSector * SECTOR_SIZE +
        0 * (oneGrainMeta 1).grainBytes + 0) 8 =
      .ok (List.replicate 8 0) := by decide +kernel
  have hfile : readFileAt (oneGrainFile 1)
      ((oneGrainMeta 1).grainSector 0x3000000000000000 * SECTOR_SIZE + 0)
      (min ((oneGrainMeta 1).grainBytes - 0) 8) =
      .ok [0, 0, 0, 0, 0, 0, 0, 0x10] := by decide +kernel
  rw [hl2, hzeros, hfile] at hread
  exact absurd hread (by decide)

end OneGrain

end Storage

end Vmdk
end ImageReader
