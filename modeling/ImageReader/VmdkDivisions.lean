import ImageReader.VmdkReadExtent

/-!
# Divisions while a sparse extent is opened

The conversions of the headers, the two readers of grain tables and
`Extent::spans` divide by numbers which come from the file.  Every one of these
divisions is safe but one: the size check of the COWD header is a product, and
a granularity of zero passes it.
-/

namespace ImageReader
namespace Vmdk

variable {build : Build}

/-! ## Everything else settles -/

theorem openIo_settles {α : Type} {P : Fault → Prop}
    (r : Except SourceError α) : (openIo r).Settles P := by
  unfold openIo
  exact (Outcome.settles_ofExcept r).mapError _

section Tables

variable {file : BackingFile} {width : ℕ} {format : TableFormat}

theorem collectEntries_settles {P : Fault → Prop}
    {entry : ℕ → Outcome OpenIoError ℕ} (hentry : ∀ e, (entry e).Settles P)
    (pos count : ℕ) :
    (collectEntries file width entry pos count).Settles P := by
  induction count generalizing pos with
  | zero => trivial
  | succ count ih =>
      unfold collectEntries
      apply (openIo_settles _).bind
      intro bytes _
      apply (hentry _).bind
      intro e _
      apply (ih _).bind
      intro rest _
      trivial

theorem enterGrains_settles
    (hdecode : ∀ e, (format.decode e).Settles build.Overflows)
    (curGrain : ℕ) (es : List ℕ) (i : ℕ) (table : GrainTable) :
    (enterGrains build format curGrain es i table).Settles
      build.Overflows := by
  induction es generalizing i table with
  | nil => trivial
  | cons e rest ih =>
      unfold enterGrains
      apply (hdecode e).bind
      intro r _
      cases r with
      | none => exact ih _ _
      | some sector =>
          apply (Build.add_settles build _ _).bind
          intro key _
          exact ih _ _

theorem walkTables_settles
    (hoffset : ∀ e, (format.l2Offset e).Settles build.Overflows)
    (hdecode : ∀ e, (format.decode e).Settles build.Overflows)
    (l2Len totalGrains : ℕ) (es : List ℕ) (curGrain : ℕ)
    (table : GrainTable) :
    (walkTables build file format l2Len totalGrains es curGrain
      table).Settles build.Overflows := by
  induction es generalizing curGrain table with
  | nil => trivial
  | cons l1Entry rest ih =>
      unfold walkTables
      by_cases hdone : totalGrains ≤ curGrain
      · rw [if_pos hdone]
        trivial
      · rw [if_neg hdone, Build.sub_of_le (by omega), Outcome.ok_bind]
        have htable : (enterTable build file format curGrain
            (min l2Len (totalGrains - curGrain)) l1Entry table).Settles
              build.Overflows := by
          unfold enterTable
          split_ifs
          · trivial
          · apply (hoffset l1Entry).bind
            intro pos _
            apply (openIo_settles _).bind
            intro _ _
            apply (collectEntries_settles Outcome.settles_ok _ _).bind
            intro entries _
            exact enterGrains_settles hdecode _ _ _ _
        apply htable.bind
        intro table₁ _
        apply (Build.add_settles build _ _).bind
        intro next _
        exact ih _ _

theorem readGrainTableSparse_settles (build : Build) {m : VmdkSparseMeta}
    (hpos : 0 < m.clusterSectors) (file : BackingFile) :
    (readGrainTableSparse build m file).Settles build.Overflows := by
  unfold readGrainTableSparse
  apply (openIo_settles _).bind
  intro _ _
  apply (collectEntries_settles (fun e => Build.mul_settles build e _) _ _).bind
  intro l1Entries _
  rw [Build.divCeil_of_pos hpos, Outcome.ok_bind]
  apply walkTables_settles
  · intro e
    exact Outcome.settles_ok e
  · intro e
    exact Outcome.settles_ok _

theorem readGrainTableSeSparse_settles (build : Build) {m : VmdkSeSparseMeta}
    (hpos : 0 < m.clusterSectors) (file : BackingFile) :
    (readGrainTableSeSparse build m file).Settles build.Overflows := by
  unfold readGrainTableSeSparse
  apply (openIo_settles _).bind
  intro _ _
  apply (collectEntries_settles Outcome.settles_ok _ _).bind
  intro l1Entries _
  rw [Build.divCeil_of_pos hpos, Outcome.ok_bind]
  apply (Build.mul_settles build _ _).bind
  intro l2Size _
  apply walkTables_settles
  · intro e
    unfold seSparseFormat
    simp only
    split_ifs
    · trivial
    · apply (Build.mul_settles build _ _).bind
      intro rel _
      exact Build.add_settles build _ _
  · intro e
    unfold seSparseFormat
    simp only
    split_ifs
    · trivial
    · trivial
    · apply (Build.mul_settles build _ _).bind
      intro rel _
      apply (Build.add_settles build _ _).bind
      intro sector _
      trivial
    · trivial

end Tables

section Headers

theorem Vmdk3Header.toMeta_settles (build : Build) (h : Vmdk3Header) :
    (h.toMeta build).Settles build.Overflows := by
  unfold Vmdk3Header.toMeta
  apply (Build.mul_settles build _ _).bind
  intro l1Offset _
  simp only
  split_ifs
  · trivial
  · trivial

theorem mulOverflow_settles {a b : ℕ} {ε α : Type}
    (h : (build.mul a b : Outcome ε ℕ) = .panic .mulOverflow) :
    (.panic .mulOverflow : Outcome ε α).Settles build.Overflows := by
  have := Build.mul_settles (ε := ε) build a b
  rw [h] at this
  exact this

theorem Vmdk4Header.toMeta_settles (build : Build) (h : Vmdk4Header) :
    (h.toMeta build).Settles build.Overflows := by
  rcases h.toMeta_cases build with herror | ⟨_, ⟨hmul, hpanic⟩ |
    ⟨l1Offset, _, _, hok⟩⟩
  · rw [herror]
    trivial
  · rw [hpanic]
    exact mulOverflow_settles hmul
  · rw [hok]
    trivial

theorem VmdkSeSparseConstHeader.toMeta_settles (build : Build)
    (h : VmdkSeSparseConstHeader) :
    (h.toMeta build).Settles build.Overflows := by
  rcases h.toMeta_cases build with herror | ⟨_, _, ⟨hmul | hmul, hpanic⟩ |
    ⟨l1Offset, l2TablesOffset, _, _, _, hok⟩⟩
  · rw [herror]
    trivial
  · rw [hpanic]
    exact mulOverflow_settles hmul
  · rw [hpanic]
    exact mulOverflow_settles hmul
  · rw [hok]
    trivial

theorem checkSignature_settles {P : Fault → Prop} (file : BackingFile)
    (pos : ℕ) : (checkSignature file pos).Settles P :=
  (openIo_settles _).mapError _

theorem deserialize_settles {α : Type} {P : Fault → Prop} (name : String)
    (header : CursorM α) (file : BackingFile) (pos : ℕ) :
    (deserialize name header file pos).Settles P :=
  (Outcome.settles_ofExcept _).mapError _

theorem readHeaderSparse_settles (build : Build) (file : BackingFile) :
    (readHeaderSparse build file).Settles build.Overflows := by
  unfold readHeaderSparse
  apply (checkSignature_settles file 0).bind
  intro fileType _
  cases fileType with
  | none => trivial
  | some fileType =>
      cases fileType with
      | vmdk3 =>
          apply (deserialize_settles _ _ file 0).bind
          intro h _
          exact h.toMeta_settles build
      | vmdk4 =>
          apply (deserialize_settles _ _ file 0).bind
          intro h _
          split_ifs
          · apply ((openIo_settles _).mapError _).bind
            intro pos _
            apply (checkSignature_settles file pos).bind
            intro fileType _
            split_ifs
            · trivial
            · apply (deserialize_settles _ _ file pos).bind
              intro h' _
              exact h'.toMeta_settles build
          · exact h.toMeta_settles build
      | vmdkSeSparse => trivial

theorem readHeaderSeSparse_settles (build : Build) (file : BackingFile) :
    (readHeaderSeSparse build file).Settles build.Overflows := by
  unfold readHeaderSeSparse
  apply (checkSignature_settles file 0).bind
  intro fileType _
  cases fileType with
  | none => trivial
  | some fileType =>
      cases fileType with
      | vmdk3 => trivial
      | vmdk4 => trivial
      | vmdkSeSparse =>
          apply (deserialize_settles _ _ file 0).bind
          intro h _
          exact h.toMeta_settles build

end Headers

/-! ## Granularity zero -/

/-- A COWD file with an empty grain, whose level 1 table can be read. -/
structure ZeroGranularity (ed : ExtentDescription) (src : BackingFile) :
    Prop where
  kind : (∃ filename, ed.kind = .sparse filename) ∨
    ∃ filename, ed.kind = .vmfsSparse filename
  cowd : checkSignature src 0 = .ok (some .vmdk3)
  header : ∃ h, Vmdk3Header.fromReader.readAt src 0 = .ok h ∧
    h.granularity = 0 ∧
    h.l1dirOffset.toNat * SECTOR_SIZE ≤ src.content.length ∧
    ∀ i < h.l1dirSize.toNat, ∃ bytes,
      src.readExact (h.l1dirOffset.toNat * SECTOR_SIZE + i * 4) 4 = .ok bytes

/-- Opening a sparse extent ends in an error or in a storage whose grains are
not empty; in the `dev` profile an overflow may stop it as well. -/
def OpensSafely (build : Build) (outcome : Outcome OpenError ExtentStorage) :
    Prop :=
  outcome.Settles build.Overflows ∧
    ∀ storage, outcome = .ok (.sparse storage) → 1 ≤ storage.grainSize

theorem collectEntries_ok_iff {file : BackingFile} {width pos count : ℕ}
    {entry : ℕ → Outcome OpenIoError ℕ}
    (hentry : ∀ i < count, ∃ e, entry (entryAt file width pos i) = .ok e) :
    (∃ es, collectEntries file width entry pos count = .ok es) ↔
      ∀ i < count, ∃ bytes,
        file.readExact (pos + i * width) width = .ok bytes := by
  induction count generalizing pos with
  | zero => simp [collectEntries]
  | succ count ih =>
      have hrest : ∀ i < count,
          ∃ e, entry (entryAt file width (pos + width) i) = .ok e := by
        intro i hi
        rw [← entryAt_succ]
        exact hentry (i + 1) (by omega)
      have hshift : ∀ i, pos + width + i * width = pos + (i + 1) * width := by
        intro i
        ring
      constructor
      · rintro ⟨es, hes⟩ i hi
        unfold collectEntries at hes
        obtain ⟨bytes, hread, hes⟩ := Outcome.bind_eq_ok.mp hes
        obtain ⟨e, _, hes⟩ := Outcome.bind_eq_ok.mp hes
        obtain ⟨rest, hcollect, _⟩ := Outcome.bind_eq_ok.mp hes
        cases i with
        | zero =>
            rw [Nat.zero_mul, Nat.add_zero]
            exact ⟨bytes, openIo_eq_ok.mp hread⟩
        | succ i =>
            rw [← hshift]
            exact (ih hrest).mp ⟨rest, hcollect⟩ i (by omega)
      · intro hall
        obtain ⟨bytes, hread⟩ := hall 0 (Nat.succ_pos count)
        rw [Nat.zero_mul, Nat.add_zero] at hread
        obtain ⟨e, he⟩ := hentry 0 (Nat.succ_pos count)
        rw [entryAt_zero, ← BackingFile.eq_window_of_readExact hread] at he
        have htail : ∀ i < count, ∃ bytes,
            file.readExact (pos + width + i * width) width = .ok bytes := by
          intro i hi
          rw [hshift]
          exact hall (i + 1) (by omega)
        obtain ⟨rest, hcollect⟩ := (ih hrest).mpr htail
        refine ⟨e :: rest, ?_⟩
        unfold collectEntries
        rw [openIo_eq_ok.mpr hread, Outcome.ok_bind, he, Outcome.ok_bind,
          hcollect]
        rfl

/-- Level 1 is in the file, and the store delivers it. -/
def L1Readable (m : VmdkSparseMeta) (file : BackingFile) : Prop :=
  m.l1Offset ≤ file.content.length ∧
    ∀ i < m.l1Len, ∃ bytes,
      file.readExact (m.l1Offset + i * 4) 4 = .ok bytes

/-- Level 1 is read before the grains are counted. -/
theorem readGrainTableSparse_of_zero (build : Build) {m : VmdkSparseMeta}
    (hzero : m.clusterSectors = 0) (file : BackingFile) :
    (L1Readable m file →
      readGrainTableSparse build m file = .panic .divideByZero) ∧
    (¬ L1Readable m file →
      (readGrainTableSparse build m file).Settles build.Overflows ∧
        ∀ table, readGrainTableSparse build m file ≠ .ok table) := by
  have hentry : ∀ i < m.l1Len, ∃ e, (fun e =>
      (build.mul e SECTOR_SIZE : Outcome OpenIoError ℕ))
        (entryAt file 4 m.l1Offset i) = .ok e :=
    fun i _ => ⟨_, mul_entryAt build file m.l1Offset i⟩
  have hcollect : (∃ es, collectEntries file 4
      (fun e => build.mul e SECTOR_SIZE) m.l1Offset m.l1Len = .ok es) ↔
      ∀ i < m.l1Len, ∃ bytes,
        file.readExact (m.l1Offset + i * 4) 4 = .ok bytes :=
    collectEntries_ok_iff hentry
  unfold readGrainTableSparse
  constructor
  · rintro ⟨hseek, hall⟩
    obtain ⟨es, hes⟩ := hcollect.mpr hall
    rw [openIo_seek hseek, Outcome.ok_bind, hes, Outcome.ok_bind]
    simp [Build.divCeil, hzero]
  · intro hnot
    -- a level 1 that can be read has been excluded
    have hstuck : ∀ u es, openIo (file.seek m.l1Offset) = .ok u →
        collectEntries file 4 (fun e => build.mul e SECTOR_SIZE)
          m.l1Offset m.l1Len ≠ .ok es := by
      intro u es hseek hes
      have hseek' := openIo_eq_ok.mp hseek
      unfold BackingFile.seek at hseek'
      split_ifs at hseek' with hle
      exact hnot ⟨hle, hcollect.mp ⟨es, hes⟩⟩
    constructor
    · apply (openIo_settles _).bind
      intro u hseek
      apply (collectEntries_settles
        (fun e => Build.mul_settles build e _) _ _).bind
      intro es hes
      exact absurd hes (hstuck u es hseek)
    · intro table htable
      obtain ⟨u, hseek, htable⟩ := Outcome.bind_eq_ok.mp htable
      obtain ⟨es, hes, _⟩ := Outcome.bind_eq_ok.mp htable
      exact hstuck u es hseek hes

/-- The size check lets a COWD header without granularity through. -/
theorem Vmdk3Header.toMeta_of_zero (build : Build) {h : Vmdk3Header}
    (hzero : h.granularity = 0) : h.toMeta build = .ok h.converted := by
  have hsize := h.l1dirSize.toNat_lt
  have hproduct : checkedProduct h.converted.sizeFactors = some 0 := by
    have hgranularity : h.granularity.toNat = 0 := by
      rw [hzero]
      rfl
    have h₁ : checkedMul 1 h.l1dirSize.toNat = some h.l1dirSize.toNat := by
      apply checkedMul_eq_some.mpr
      rw [wordLimit_eq]
      omega
    have h₂ : checkedMul h.l1dirSize.toNat 4096 =
        some (h.l1dirSize.toNat * 4096) := by
      apply checkedMul_eq_some.mpr
      rw [wordLimit_eq]
      omega
    simp only [checkedProduct, VmdkSparseMeta.sizeFactors, converted,
      hgranularity, List.foldlM_cons, List.foldlM_nil, Option.bind_eq_bind, h₁,
      Option.bind_some, h₂]
    rw [show checkedMul (h.l1dirSize.toNat * 4096) 0 = some 0 from rfl]
    rfl
  rw [h.toMeta_eq, if_neg]
  simp [productExceeds, hproduct]

theorem ZeroGranularity.readHeaderSparse_eq {ed : ExtentDescription}
    {src : BackingFile} (hzero : ZeroGranularity ed src) (build : Build) :
    ∃ m, readHeaderSparse build src = .ok m ∧ m.clusterSectors = 0 ∧
      L1Readable m src := by
  obtain ⟨h, hread, hgranularity, hseek, hall⟩ := hzero.header
  refine ⟨h.converted, ?_, ?_, hseek, hall⟩
  · unfold readHeaderSparse
    rw [hzero.cowd, Outcome.ok_bind]
    simp only
    rw [deserialize_eq_ok.mpr hread, Outcome.ok_bind,
      h.toMeta_of_zero build hgranularity]
  · rw [Vmdk3Header.converted, hgranularity]
    rfl

section ReadExtent

variable {src : BackingFile} {m : VmdkSparseMeta}

theorem readSparseExtent_of_pos (startSector : ℕ) (filename : Text)
    (hheader : readHeaderSparse build src = .ok m)
    (hpos : 0 < m.clusterSectors) :
    OpensSafely build (readSparseExtent build startSector filename src) := by
  have htable := readGrainTableSparse_settles build hpos src
  unfold readSparseExtent
  rw [hheader, atPathless_ok, Outcome.ok_bind]
  constructor
  · apply ((htable.mapError _).mapError _).bind
    intro grainTable _
    trivial
  · intro storage hstorage
    obtain ⟨grainTable, _, hstorage⟩ := Outcome.bind_eq_ok.mp hstorage
    obtain rfl := ExtentStorage.sparse.inj (Outcome.ok.inj hstorage)
    exact hpos

theorem readSparseExtent_of_zero (startSector : ℕ) (filename : Text)
    (hheader : readHeaderSparse build src = .ok m)
    (hzero : m.clusterSectors = 0) :
    OpensSafely build (readSparseExtent build startSector filename src) ↔
      ¬ L1Readable m src := by
  obtain ⟨hpanic, hsettles⟩ := readGrainTableSparse_of_zero build hzero src
  unfold readSparseExtent
  rw [hheader, atPathless_ok, Outcome.ok_bind]
  constructor
  · rintro ⟨hsafe, _⟩ hreadable
    have hfault : build.Overflows .divideByZero := by
      have hsafe' := hsafe
      rw [hpanic hreadable] at hsafe'
      exact hsafe'
    simp [Build.Overflows] at hfault
  · intro hnot
    obtain ⟨hsettled, hnone⟩ := hsettles hnot
    constructor
    · apply ((hsettled.mapError _).mapError _).bind
      intro grainTable _
      trivial
    · intro storage hstorage
      obtain ⟨grainTable, htable, _⟩ := Outcome.bind_eq_ok.mp hstorage
      exact absurd
        (Outcome.mapError_eq_ok.mp (atPathless_eq_ok.mp htable))
        (hnone grainTable)

/-- A COWD header without granularity is the only one with empty grains. -/
theorem zeroGranularity_iff {ed : ExtentDescription}
    (hkind : (∃ filename, ed.kind = .sparse filename) ∨
      ∃ filename, ed.kind = .vmfsSparse filename)
    (hheader : readHeaderSparse build src = .ok m) :
    ZeroGranularity ed src ↔ m.clusterSectors = 0 ∧ L1Readable m src := by
  constructor
  · intro hzero
    obtain ⟨m', hheader', hcluster, hreadable⟩ :=
      hzero.readHeaderSparse_eq build
    obtain rfl : m = m' := by simpa [hheader] using hheader'
    exact ⟨hcluster, hreadable⟩
  · rintro ⟨hcluster, hseek, hall⟩
    rcases readHeaderSparse_ok hheader with ⟨hcowd, h, hread, hmeta⟩ | ⟨hpos, _⟩
    · obtain rfl := (h.toMeta_ok hmeta).2
      exact ⟨hkind, hcowd, h, hread, UInt32.toNat_inj.mp hcluster, hseek, hall⟩
    · omega

/-- Opening an extent through the headers of sparse files. -/
theorem readSparseExtent_opensSafely_iff (build : Build) (startSector : ℕ)
    (filename : Text) (src : BackingFile) {ed : ExtentDescription}
    (hkind : (∃ filename, ed.kind = .sparse filename) ∨
      ∃ filename, ed.kind = .vmfsSparse filename) :
    OpensSafely build (readSparseExtent build startSector filename src) ↔
      ¬ ZeroGranularity ed src := by
  have hsettles := readHeaderSparse_settles build src
  have hnone : (∀ m, readHeaderSparse build src ≠ .ok m) →
      ¬ ZeroGranularity ed src := by
    intro hnever hzero
    obtain ⟨m, hheader, _⟩ := hzero.readHeaderSparse_eq build
    exact hnever m hheader
  cases hheader : readHeaderSparse build src with
  | ok m =>
      rw [zeroGranularity_iff hkind hheader]
      by_cases hcluster : m.clusterSectors = 0
      · rw [readSparseExtent_of_zero startSector filename hheader hcluster]
        simp [hcluster]
      · have hsafe := readSparseExtent_of_pos startSector filename hheader
          (Nat.pos_of_ne_zero hcluster)
        exact ⟨fun _ hzero => hcluster hzero.1, fun _ => hsafe⟩
  | error e =>
      have hopen : readSparseExtent build startSector filename src =
          .error (.ofKind e) := by
        unfold readSparseExtent
        rw [hheader]
        rfl
      rw [hopen]
      exact ⟨fun _ => hnone (by simp [hheader]), fun _ => ⟨trivial, by simp⟩⟩
  | panic fault =>
      have hopen : readSparseExtent build startSector filename src =
          .panic fault := by
        unfold readSparseExtent
        rw [hheader]
        rfl
      rw [hheader] at hsettles
      rw [hopen]
      exact ⟨fun _ => hnone (by simp [hheader]),
        fun _ => ⟨hsettles, by simp⟩⟩
  | hang =>
      rw [hheader] at hsettles
      exact absurd hsettles id

theorem readSeSparseExtent_opensSafely (build : Build) (startSector : ℕ)
    (filename : Text) (src : BackingFile) :
    OpensSafely build
      (readSeSparseExtent build startSector filename src) := by
  have hpos : ∀ m, readHeaderSeSparse build src = .ok m →
      0 < m.clusterSectors := by
    intro m hheader
    rw [(readHeaderSeSparse_bounded hheader).clusterSectors_eq]
    norm_num
  unfold readSeSparseExtent
  constructor
  · apply ((readHeaderSeSparse_settles build src).mapError _).bind
    intro m hheader
    have hcluster := hpos m (atPathless_eq_ok.mp hheader)
    have htable := readGrainTableSeSparse_settles build hcluster src
    apply ((htable.mapError _).mapError _).bind
    intro grainTable _
    trivial
  · intro storage hstorage
    obtain ⟨m, hheader, hstorage⟩ := Outcome.bind_eq_ok.mp hstorage
    obtain ⟨grainTable, _, hstorage⟩ := Outcome.bind_eq_ok.mp hstorage
    obtain rfl := ExtentStorage.sparse.inj (Outcome.ok.inj hstorage)
    exact hpos m (atPathless_eq_ok.mp hheader)

/-- `Extent::spans` multiplies and adds. -/
theorem spans_settles (build : Build) (ex : Extent) :
    (ex.spans build : Outcome Empty (List (ℕ × ℕ))).Settles
      build.Overflows := by
  have hgrains : ∀ extentEnd grainSize goffs,
      (Extent.grainSpans build ex.startSector extentEnd grainSize goffs :
        Outcome Empty (List (ℕ × ℕ))).Settles build.Overflows := by
    intro extentEnd grainSize goffs
    induction goffs with
    | nil => trivial
    | cons goff rest ih =>
        unfold Extent.grainSpans
        have hspan : (Extent.grainSpan build ex.startSector extentEnd grainSize
            goff : Outcome Empty (Option (ℕ × ℕ))).Settles build.Overflows := by
          unfold Extent.grainSpan
          apply (Build.mul_settles build _ _).bind
          intro rel _
          apply (Build.add_settles build _ _).bind
          intro beg _
          split_ifs
          · trivial
          · apply (Build.add_settles build _ _).bind
            intro grainEnd _
            trivial
        apply hspan.bind
        intro span _
        apply ih.bind
        intro list _
        trivial
  unfold Extent.spans
  cases ex.storage with
  | sparse storage =>
      apply (Build.add_settles build _ _).bind
      intro extentEnd _
      exact hgrains _ _ _
  | flat storage =>
      apply (Build.add_settles build _ _).bind
      intro extentEnd _
      trivial
  | zero =>
      apply (Build.add_settles build _ _).bind
      intro extentEnd _
      trivial

/-- A file opens safely unless it is a COWD file without granularity. -/
theorem readExtent_divides_iff (build : Build) (ed : ExtentDescription)
    (startSector : ℕ) (filename : Text) (src : BackingFile) :
    (OpensSafely build (readExtent build ed startSector filename src) ∧
      ∀ storage sectors,
        readExtent build ed startSector filename src = .ok storage →
          (Extent.spans build ⟨startSector, sectors, storage⟩ :
            Outcome Empty (List (ℕ × ℕ))) ≠ .panic .divideByZero) ↔
      ¬ ZeroGranularity ed src := by
  have hspans : ∀ ex : Extent, (ex.spans build :
      Outcome Empty (List (ℕ × ℕ))) ≠ .panic .divideByZero := by
    intro ex hpanic
    have hsettles := spans_settles build ex
    rw [hpanic] at hsettles
    simp [Outcome.Settles, Build.Overflows] at hsettles
  rw [and_iff_left (fun storage sectors _ => hspans _)]
  have hother : (∀ name, ed.kind ≠ .sparse name) →
      (∀ name, ed.kind ≠ .vmfsSparse name) → ¬ ZeroGranularity ed src := by
    rintro hsparse hvmfs ⟨⟨name, hkind⟩ | ⟨name, hkind⟩, _, _⟩
    · exact hsparse name hkind
    · exact hvmfs name hkind
  unfold readExtent
  cases hkind : ed.kind with
  | sparse name =>
      exact readSparseExtent_opensSafely_iff build startSector filename src
        (Or.inl ⟨name, hkind⟩)
  | vmfsSparse name =>
      exact readSparseExtent_opensSafely_iff build startSector filename src
        (Or.inr ⟨name, hkind⟩)
  | seSparse name =>
      have hsafe := readSeSparseExtent_opensSafely build startSector filename src
      exact ⟨fun _ => hother (by simp [hkind]) (by simp [hkind]), fun _ => hsafe⟩
  | flat name offset =>
      exact ⟨fun _ => hother (by simp [hkind]) (by simp [hkind]),
        fun _ => ⟨trivial, by simp⟩⟩
  | vmfs name =>
      exact ⟨fun _ => hother (by simp [hkind]) (by simp [hkind]),
        fun _ => ⟨trivial, by simp⟩⟩
  | vmfsRaw name =>
      exact ⟨fun _ => hother (by simp [hkind]) (by simp [hkind]),
        fun _ => ⟨trivial, by simp⟩⟩
  | vmfsRdm name =>
      exact ⟨fun _ => hother (by simp [hkind]) (by simp [hkind]),
        fun _ => ⟨trivial, by simp⟩⟩
  | zero =>
      exact ⟨fun _ => hother (by simp [hkind]) (by simp [hkind]),
        fun _ => ⟨trivial, by simp⟩⟩

/-- A COWD file whose header is zero behind the magic. -/
def blankCowd : BackingFile where
  content := VMDK3_MAGIC ++ List.replicate 44 0
  fault := fun _ _ => none

def blankCowdMeta : VmdkSparseMeta where
  compressed := false
  hasZeroGrain := false
  sectors := 0
  l1Offset := 0
  l1Len := 0
  l2Len := 4096
  clusterSectors := 0

theorem readHeaderSparse_blankCowd :
    readHeaderSparse .release blankCowd = .ok blankCowdMeta := by
  decide +kernel

theorem blankCowd_divides :
    ¬ ∀ build ed startSector filename src,
      (∃ e, readExtent build ed startSector filename src = .error e) ∨
        ∃ storage, readExtent build ed startSector filename src = .ok storage ∧
          ∀ sparse, storage = .sparse sparse → 1 ≤ sparse.grainSize := by
  intro hall
  have hreadable : L1Readable blankCowdMeta blankCowd :=
    ⟨Nat.zero_le _, fun i hi => absurd hi (Nat.not_lt_zero i)⟩
  have htable : readGrainTableSparse .release blankCowdMeta blankCowd =
      .panic .divideByZero :=
    (readGrainTableSparse_of_zero .release rfl blankCowd).1 hreadable
  have hread : readExtent .release ⟨8, .sparse ['a']⟩ 0 ['a'] blankCowd =
      .panic .divideByZero := by
    change readSparseExtent .release 0 ['a'] blankCowd = _
    unfold readSparseExtent
    rw [readHeaderSparse_blankCowd, atPathless_ok, Outcome.ok_bind, htable]
    rfl
  have hsafe := hall .release ⟨8, .sparse ['a']⟩ 0 ['a'] blankCowd
  rw [hread] at hsafe
  rcases hsafe with ⟨e, he⟩ | ⟨storage, hok, _⟩
  · simp at he
  · simp at hok

end ReadExtent

end Vmdk
end ImageReader
