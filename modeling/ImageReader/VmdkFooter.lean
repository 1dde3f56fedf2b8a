import ImageReader.VmdkHandleImage
import ImageReader.VmdkTiling

/-!
# The header at the end of a stream-optimized file

Two readers take the header at the end of the file: `readHeaderSparse` refuses
it without the magic, `handleImage` does not look.  What stands there instead
gives the offset of a descriptor, and the file opens as the image which that
descriptor describes.

`FooterStands` is what the bytes of the file and the names in the store have to
be for that.  Without it opening fails; it is enough where the descriptor has
no sparse extents and no parent.
-/

namespace ImageReader
namespace Vmdk

variable {build : Build} {store : Store} {url : Url} {src : BackingFile}

/-- A file whose VMDK4 header says that it ends with another one, which does
not have the magic. -/
structure JunkFooter (src : BackingFile) : Prop where
  signature : checkSignature src 0 = .ok (some .vmdk4)
  secondary : ∃ h, Vmdk4Header.fromReader.readAt src 0 = .ok h ∧
    h.useSecondary = true
  junk : 1024 ≤ src.content.length →
    ¬ VMDK4_MAGIC <+: Slice.window src.content (src.content.length - 1024) 8

/-! ## What the junk points at -/

/-- `desc_offset` of the last 1024 bytes, taken for a header. -/
def footerDescOffset (src : BackingFile) : ℕ :=
  fromLE (Slice.window src.content (src.content.length - 1024 + 28) 8)

/-- The text at this offset; none is named by offset 0. -/
def footerText (src : BackingFile) : Text :=
  if footerDescOffset src = 0 then []
  else textAt src (footerDescOffset src * SECTOR_SIZE % wordLimit)

/-- The store has a file for an extent at `edUrl`; for an only extent, the
image file stands in. -/
def Store.HasExtent (store : Store) (imageUrl edUrl : Url) (alone : Bool)
    (file : BackingFile) : Prop :=
  store.source edUrl = .ok file ∨
    (∃ e, store.source edUrl = .error e) ∧ alone = true ∧ edUrl ≠ imageUrl ∧
      store.source imageUrl = .ok file

/-- A file starts as the kind of its extent demands.  Raw devices are not
read, and a sparse file does not end with junk. -/
def ExtentDescriptionInner.StartsAs (kind : ExtentDescriptionInner)
    (file : BackingFile) : Prop :=
  match kind with
  | .sparse _ | .vmfsSparse _ =>
      (VMDK3_MAGIC <+: file.content ∨ VMDK4_MAGIC <+: file.content) ∧
        ¬ JunkFooter file
  | .seSparse _ => VMDK_SESPARSE_MAGIC <+: file.content
  | .vmfsRaw _ | .vmfsRdm _ => False
  | .flat _ _ | .vmfs _ | .zero => True

/-- The file of a listed extent is there. -/
def ExtentDescription.Stands (store : Store) (imageUrl : Url) (alone : Bool)
    (ed : ExtentDescription) : Prop :=
  ∀ filename, ed.filename = some filename →
    ∃ edUrl file, store.join imageUrl filename = some edUrl ∧
      store.HasExtent imageUrl edUrl alone file ∧ ed.kind.StartsAs file

/-- What the junk has to point at for the file to open. -/
structure FooterStands (build : Build) (store : Store) (url : Url)
    (src : BackingFile) : Prop where
  long : 1024 ≤ src.content.length
  word : build = .dev → footerDescOffset src * SECTOR_SIZE < wordLimit
  inside : footerDescOffset src * SECTOR_SIZE % wordLimit ≤
    src.content.length
  listed : ∃ eds, extractExtentDescriptions (footerText src) = .ok eds ∧
    (∀ ed ∈ eds, ed.Stands store url (eds.length == 1)) ∧
    (eds.map ExtentDescription.sectors).sum * SECTOR_SIZE < wordLimit
  parent : ∀ hint, extractParentFnHint (footerText src) = some hint →
    ∃ parentUrl, store.join url hint = some parentUrl

def ExtentDescriptionInner.IsSparse : ExtentDescriptionInner → Prop
  | .sparse _ | .vmfsSparse _ | .seSparse _ => True
  | .vmfsRaw _ | .vmfsRdm _ | .flat _ _ | .vmfs _ | .zero => False

/-- The junk points at a text without sparse extents and without a parent, and
the store does not fail. -/
structure FooterPlain (src : BackingFile) : Prop where
  unfailing : src.Unfailing
  noSparse : ∀ eds, extractExtentDescriptions (footerText src) = .ok eds →
    ∀ ed ∈ eds, ¬ ed.kind.IsSparse
  noParent : extractParentFnHint (footerText src) = none

/-! ## The other reader -/

theorem checkSignature_eq_ok {pos : ℕ} {ft : Option FileType} :
    checkSignature src pos = .ok ft ↔
      ∃ sig, src.readExact pos 8 = .ok sig ∧ signatureToFileType sig = ft := by
  unfold checkSignature
  rw [Outcome.mapError_eq_ok, openIo_eq_ok]
  cases src.readExact pos 8 with
  | error e => simp [Except.map]
  | ok sig => simp [Except.map]

/-- The magic which a signature that is recognized starts with. -/
def FileType.magic : FileType → Bytes
  | vmdk3 => VMDK3_MAGIC
  | vmdk4 => VMDK4_MAGIC
  | vmdkSeSparse => VMDK_SESPARSE_MAGIC

theorem magic_prefix_of_checkSignature {pos : ℕ} {ft : FileType}
    (h : checkSignature src pos = .ok (some ft)) :
    ft.magic <+: Slice.window src.content pos 8 := by
  obtain ⟨sig, hread, hft⟩ := checkSignature_eq_ok.mp h
  rw [← BackingFile.eq_window_of_readExact hread]
  unfold signatureToFileType at hft
  split_ifs at hft with hvmdk3 hvmdk4 hseSparse
  · obtain rfl := Option.some.inj hft
    exact hvmdk3
  · obtain rfl := Option.some.inj hft
    exact hvmdk4
  · obtain rfl := Option.some.inj hft
    rw [hseSparse]
    exact List.prefix_refl _

theorem magic_prefix_of_checkSignature_start {ft : FileType}
    (h : checkSignature src 0 = .ok (some ft)) : ft.magic <+: src.content :=
  (magic_prefix_of_checkSignature h).trans (List.take_prefix 8 _)

/-- `readHeaderSparse` refuses a file which ends with junk. -/
theorem readHeaderSparse_ne_ok (hjunk : JunkFooter src) (m : VmdkSparseMeta) :
    readHeaderSparse build src ≠ .ok m := by
  intro h
  obtain ⟨first, hfirst, hsecondary⟩ := hjunk.secondary
  unfold readHeaderSparse at h
  simp only [hjunk.signature, Outcome.ok_bind, deserialize_eq_ok.mpr hfirst,
    if_pos hsecondary] at h
  obtain ⟨pos, hpos, h⟩ := Outcome.bind_eq_ok.mp h
  obtain ⟨ft, hft, h⟩ := Outcome.bind_eq_ok.mp h
  rw [Outcome.mapError_eq_ok, openIo_eq_ok] at hpos
  unfold BackingFile.seekEnd at hpos
  split_ifs at hpos with hlong
  obtain rfl := Except.ok.inj hpos
  by_cases hvmdk4 : ft = some .vmdk4
  · subst hvmdk4
    exact hjunk.junk hlong (magic_prefix_of_checkSignature hft)
  · rw [if_pos hvmdk4] at h
    cases h

theorem readHeaderSparse_starts {m : VmdkSparseMeta}
    (h : readHeaderSparse build src = .ok m) :
    (VMDK3_MAGIC <+: src.content ∨ VMDK4_MAGIC <+: src.content) ∧
      ¬ JunkFooter src := by
  refine ⟨?_, fun hjunk => readHeaderSparse_ne_ok hjunk m h⟩
  unfold readHeaderSparse at h
  obtain ⟨ft, hft, h⟩ := Outcome.bind_eq_ok.mp h
  match ft, hft, h with
  | some .vmdk3, hft, _ =>
      exact Or.inl (magic_prefix_of_checkSignature_start hft)
  | some .vmdk4, hft, _ =>
      exact Or.inr (magic_prefix_of_checkSignature_start hft)

theorem readHeaderSeSparse_starts {m : VmdkSeSparseMeta}
    (h : readHeaderSeSparse build src = .ok m) :
    VMDK_SESPARSE_MAGIC <+: src.content := by
  unfold readHeaderSeSparse at h
  obtain ⟨ft, hft, h⟩ := Outcome.bind_eq_ok.mp h
  match ft, hft, h with
  | some .vmdkSeSparse, hft, _ =>
      exact magic_prefix_of_checkSignature_start hft

/-! ## The extents -/

theorem readExtent_starts {ed : ExtentDescription} {startSector : ℕ}
    {filename : Text} {storage : ExtentStorage}
    (h : readExtent build ed startSector filename src = .ok storage) :
    ed.kind.StartsAs src := by
  unfold readExtent at h
  cases hkind : ed.kind <;> simp only [hkind] at h
  case sparse =>
    obtain ⟨m, hm, _⟩ := Outcome.bind_eq_ok.mp h
    exact readHeaderSparse_starts (atPathless_eq_ok.mp hm)
  case vmfsSparse =>
    obtain ⟨m, hm, _⟩ := Outcome.bind_eq_ok.mp h
    exact readHeaderSparse_starts (atPathless_eq_ok.mp hm)
  case seSparse =>
    obtain ⟨m, hm, _⟩ := Outcome.bind_eq_ok.mp h
    exact readHeaderSeSparse_starts (atPathless_eq_ok.mp hm)
  case flat => trivial
  case vmfs => trivial
  all_goals cases h

theorem Store.extentSource_eq_ok {imageUrl edUrl : Url} {alone : Bool}
    {file : BackingFile} :
    (∃ u, store.extentSource imageUrl edUrl alone = .ok (u, file)) ↔
      store.HasExtent imageUrl edUrl alone file := by
  unfold Store.extentSource Store.HasExtent Store.sourceForUrl
  cases hfile : store.source edUrl with
  | ok src => simp [Outcome.ofExcept, Outcome.mapError]
  | error e =>
      by_cases halone : alone = true ∧ edUrl ≠ imageUrl
      · cases himage : store.source imageUrl with
        | ok image => simp [Outcome.ofExcept, Outcome.mapError, halone]
        | error e' => simp [Outcome.ofExcept, Outcome.mapError, halone]
      · simp only [Outcome.ofExcept, Outcome.mapError, if_neg halone]
        simp only [reduceCtorEq, exists_const, false_iff, not_or]
        exact ⟨not_false, fun h => halone ⟨h.2.1, h.2.2.1⟩⟩

section Extents

variable {alone : Bool}

theorem readExtentOf_stands {ed : ExtentDescription} {startSector idx : ℕ}
    {result : OpenedExtent × ℕ}
    (h : (readExtentOf build store url alone ed startSector idx).result =
      .ok result) : ed.Stands store url alone := by
  intro filename hname
  unfold readExtentOf at h
  simp only [hname] at h
  obtain ⟨opened, hopened, _⟩ := Registers.bind_eq_ok.mp h
  unfold readExtentFile at hopened
  obtain ⟨edUrl, hjoin, hopened⟩ := Registers.bind_eq_ok.mp hopened
  obtain ⟨⟨u, file⟩, hsource, hopened⟩ := Registers.bind_eq_ok.mp hopened
  obtain ⟨_, _, hopened⟩ := Registers.bind_eq_ok.mp hopened
  obtain ⟨storage, hstorage, _⟩ := Registers.bind_eq_ok.mp hopened
  refine ⟨edUrl, file, ?_, Store.extentSource_eq_ok.mp ⟨u, hsource⟩,
    readExtent_starts (Outcome.mapError_eq_ok.mp hstorage)⟩
  unfold Store.resolve at hjoin
  cases hurl : store.join url filename with
  | none => simp [hurl] at hjoin
  | some joined =>
      simp only [hurl] at hjoin
      rw [Outcome.ok.inj hjoin]

theorem readExtents_stand {eds : List ExtentDescription}
    {startSector idx : ℕ} {opened : List OpenedExtent}
    (h : (readExtents build store url alone eds startSector idx).result =
      .ok opened) :
    (∀ ed ∈ eds, ed.Stands store url alone) ∧
      totalSectors (opened.map OpenedExtent.extent) =
        (eds.map ExtentDescription.sectors).sum := by
  induction eds generalizing startSector idx opened with
  | nil =>
      obtain rfl := Outcome.ok.inj h
      exact ⟨by simp, rfl⟩
  | cons ed eds ih =>
      unfold readExtents at h
      obtain ⟨⟨first, idx'⟩, hfirst, h⟩ := Registers.bind_eq_ok.mp h
      obtain ⟨startSector', _, h⟩ := Registers.bind_eq_ok.mp h
      obtain ⟨rest, hrest, h⟩ := Registers.bind_eq_ok.mp h
      obtain rfl := Outcome.ok.inj h
      obtain ⟨hstand, hsum⟩ := ih hrest
      obtain ⟨_, _, hsectors⟩ := readExtentOf_extent hfirst
      constructor
      · intro ed' hed
        rcases List.mem_cons.mp hed with rfl | hed
        · exact readExtentOf_stands hfirst
        · exact hstand ed' hed
      · unfold totalSectors at hsum ⊢
        rw [List.map_cons, List.map_cons, List.sum_cons, hsum, hsectors,
          List.map_cons, List.sum_cons]

theorem readExtentOf_of_stands {ed : ExtentDescription}
    (hstands : ed.Stands store url alone) (hflat : ¬ ed.kind.IsSparse)
    (startSector idx : ℕ) :
    ∃ result, (readExtentOf build store url alone ed startSector idx).result =
      .ok result := by
  unfold readExtentOf
  cases hname : ed.filename with
  | none => exact ⟨_, rfl⟩
  | some filename =>
      obtain ⟨edUrl, file, hjoin, hfile, hstarts⟩ := hstands filename hname
      obtain ⟨u, hsource⟩ := Store.extentSource_eq_ok.mpr hfile
      have hresolve : store.resolve url filename = .ok edUrl := by
        unfold Store.resolve
        rw [hjoin]
      have hread : ∃ storage,
          readExtent build ed startSector filename file = .ok storage := by
        unfold readExtent
        cases hkind : ed.kind <;>
          simp only [hkind, ExtentDescriptionInner.StartsAs,
            ExtentDescriptionInner.IsSparse, not_true] at hstarts hflat ⊢
        case flat => exact ⟨_, rfl⟩
        case vmfs => exact ⟨_, rfl⟩
        case zero => simp [ExtentDescription.filename, hkind] at hname
      obtain ⟨storage, hstorage⟩ := hread
      simp only [readExtentFile, Registers.result_bind, Registers.result_lift,
        Registers.result_addSource, Registers.result_pushExtent, hresolve,
        hsource, hstorage, Outcome.ok_bind, Outcome.mapError]
      exact ⟨_, rfl⟩

theorem readExtents_of_stand {eds : List ExtentDescription}
    (hstand : ∀ ed ∈ eds, ed.Stands store url alone)
    (hflat : ∀ ed ∈ eds, ¬ ed.kind.IsSparse) {startSector : ℕ}
    (hword : startSector + (eds.map ExtentDescription.sectors).sum <
      wordLimit) (idx : ℕ) :
    ∃ opened, (readExtents build store url alone eds startSector idx).result =
      .ok opened := by
  induction eds generalizing startSector idx with
  | nil => exact ⟨_, rfl⟩
  | cons ed eds ih =>
      rw [List.map_cons, List.sum_cons] at hword
      obtain ⟨⟨first, idx'⟩, hfirst⟩ : ∃ result, (readExtentOf build store url
          alone ed startSector idx).result = .ok result :=
        readExtentOf_of_stands (hstand ed List.mem_cons_self)
          (hflat ed List.mem_cons_self) startSector idx
      have hword' : startSector + ed.sectors +
          (eds.map ExtentDescription.sectors).sum < wordLimit := by
        omega
      obtain ⟨rest, hrest⟩ := ih
        (fun ed hed => hstand ed (List.mem_cons_of_mem _ hed))
        (fun ed hed => hflat ed (List.mem_cons_of_mem _ hed)) hword' idx'
      unfold readExtents
      simp only [Registers.result_bind, Registers.result_lift, hfirst,
        Outcome.ok_bind, hrest,
        Build.add_of_lt (show startSector + ed.sectors < wordLimit by omega)]
      exact ⟨_, rfl⟩

end Extents

/-! ## Handling the image -/

theorem parentUrl_eq_ok {descriptor : Text} {parent : Option Url} :
    parentUrl store url descriptor = .ok parent ↔
      extractParentFnHint descriptor = none ∧ parent = none ∨
        ∃ hint parentUrl, extractParentFnHint descriptor = some hint ∧
          store.join url hint = some parentUrl ∧
            parent = some parentUrl := by
  unfold parentUrl
  cases hhint : extractParentFnHint descriptor with
  | none => simp [eq_comm]
  | some hint =>
      cases hjoin : store.join url hint with
      | none => simp [hjoin]
      | some resolved => simp [hjoin, eq_comm]

/-- The header of the last 1024 bytes points at the footer's text. -/
theorem namedDescriptor_text {footer : Vmdk4Header} {descriptor : Text}
    (hfooter : Vmdk4Header.fromReader.readAt src (src.content.length - 1024) =
      .ok footer)
    (h : namedDescriptor build src footer = .ok descriptor) :
    (build = .dev → footerDescOffset src * SECTOR_SIZE < wordLimit) ∧
      footerDescOffset src * SECTOR_SIZE % wordLimit ≤ src.content.length ∧
      descriptor = footerText src := by
  have hoffset : footer.descOffset.toNat = footerDescOffset src :=
    footer.descOffset_eq hfooter
  unfold namedDescriptor at h
  unfold footerText
  rw [hoffset] at h
  by_cases hzero : footerDescOffset src = 0
  · rw [hzero, if_neg (Nat.lt_irrefl 0)] at h
    obtain rfl := Outcome.ok.inj h
    simp [hzero, wordLimit]
  · rw [if_pos (Nat.pos_of_ne_zero hzero), atPathless_eq_ok,
      Outcome.mapError_eq_ok] at h
    rw [if_neg hzero]
    exact readDescriptorInternal_text h

theorem namedDescriptor_of_unfailing {footer : Vmdk4Header}
    (hfooter : Vmdk4Header.fromReader.readAt src (src.content.length - 1024) =
      .ok footer) (hsrc : src.Unfailing)
    (hword : build = .dev → footerDescOffset src * SECTOR_SIZE < wordLimit)
    (hinside : footerDescOffset src * SECTOR_SIZE % wordLimit ≤
      src.content.length) :
    namedDescriptor build src footer = .ok (footerText src) := by
  have hoffset : footer.descOffset.toNat = footerDescOffset src :=
    footer.descOffset_eq hfooter
  unfold namedDescriptor footerText
  rw [hoffset]
  by_cases hzero : footerDescOffset src = 0
  · rw [hzero, if_neg (Nat.lt_irrefl 0), if_pos rfl]
    rfl
  · rw [if_pos (Nat.pos_of_ne_zero hzero), if_neg hzero,
      readDescriptorInternal_of_unfailing hsrc hword hinside]
    rfl

theorem vmdk4HeaderAt_eq_ok {pos : ℕ} {h : Vmdk4Header} :
    vmdk4HeaderAt src pos = .ok h ↔
      Vmdk4Header.fromReader.readAt src pos = .ok h := by
  unfold vmdk4HeaderAt
  rw [atPathless_eq_ok, deserialize_eq_ok]

theorem descriptorHeader_eq_ok (hjunk : JunkFooter src) {h : Vmdk4Header} :
    descriptorHeader src = .ok h ↔
      1024 ≤ src.content.length ∧
        Vmdk4Header.fromReader.readAt src (src.content.length - 1024) =
          .ok h := by
  obtain ⟨first, hfirst, hsecondary⟩ := hjunk.secondary
  unfold descriptorHeader
  rw [vmdk4HeaderAt_eq_ok.mpr hfirst, Outcome.ok_bind, if_pos hsecondary]
  unfold BackingFile.seekEnd
  by_cases hlong : 1024 ≤ src.content.length
  · rw [if_pos hlong]
    change vmdk4HeaderAt src (src.content.length - 1024) = .ok h ↔ _
    rw [vmdk4HeaderAt_eq_ok]
    simp [hlong]
  · rw [if_neg hlong]
    constructor
    · intro hread
      obtain ⟨_, hpos, _⟩ := Outcome.bind_eq_ok.mp hread
      simp [openIo, Outcome.mapError, atPathless] at hpos
    · rintro ⟨hge, _⟩
      exact absurd hge hlong

theorem describedImage_eq_ok {isBinary : Bool} {idx : ℕ} {descriptor : Text}
    {opened : List OpenedExtent} {parent : Option Url} :
    (describedImage build store url isBinary idx descriptor).result =
        .ok (opened, parent) ↔
      ∃ eds, extractExtentDescriptions descriptor = .ok eds ∧
        (readExtents build store url (isBinary && eds.length == 1) eds 0
          idx).result = .ok opened ∧
        parentUrl store url descriptor = .ok parent := by
  unfold describedImage
  simp only [Registers.bind_eq_ok, Registers.result_lift,
    Registers.result_pure, atPathless_eq_ok, Outcome.mapError_eq_ok,
    Outcome.ofExcept_eq_ok, Outcome.ok.injEq, Prod.mk.injEq]
  constructor
  · rintro ⟨eds, heds, exs, hexs, p, hp, rfl, rfl⟩
    exact ⟨eds, heds, hexs, hp⟩
  · rintro ⟨eds, heds, hexs, hp⟩
    exact ⟨eds, heds, opened, hexs, parent, hp, rfl, rfl⟩

theorem handleImageFiles_eq (hsrc : store.source url = .ok src)
    (hjunk : JunkFooter src) :
    (handleImageFiles build store url 0).result =
      (descriptorHeader src >>= namedDescriptor build src) >>=
        fun descriptor =>
          (describedImage build store url true 1 descriptor).result := by
  have hopened : store.sourceForUrl url = .ok src := by
    unfold Store.sourceForUrl
    rw [hsrc]
    rfl
  unfold handleImageFiles
  simp only [Registers.result_bind, Registers.result_lift,
    Registers.result_addSource, hopened, Outcome.ok_bind,
    atPathless_eq_ok.mpr hjunk.signature]
  rfl

theorem handleImageFiles_junk (hsrc : store.source url = .ok src)
    (hjunk : JunkFooter src) {opened : List OpenedExtent}
    {parent : Option Url}
    (h : (handleImageFiles build store url 0).result = .ok (opened, parent))
    (hsize : totalSectors (opened.map OpenedExtent.extent) * SECTOR_SIZE <
      wordLimit) : FooterStands build store url src := by
  rw [handleImageFiles_eq hsrc hjunk] at h
  obtain ⟨descriptor, hdescriptor, himage⟩ := Outcome.bind_eq_ok.mp h
  obtain ⟨footer, hfooter, hnamed⟩ := Outcome.bind_eq_ok.mp hdescriptor
  obtain ⟨hlong, hheader⟩ := (descriptorHeader_eq_ok hjunk).mp hfooter
  obtain ⟨hword, hinside, rfl⟩ := namedDescriptor_text hheader hnamed
  obtain ⟨eds, hlines, hextents, hparent⟩ := describedImage_eq_ok.mp himage
  obtain ⟨hstand, hsum⟩ := readExtents_stand hextents
  refine ⟨hlong, hword, hinside, ⟨eds, hlines, hstand, hsum ▸ hsize⟩, ?_⟩
  intro hint hhint
  rcases parentUrl_eq_ok.mp hparent with ⟨hnone, _⟩ |
    ⟨hint', parentUrl, hhint', hjoin, _⟩
  · rw [hhint] at hnone
    cases hnone
  · rw [hhint] at hhint'
    obtain rfl := Option.some.inj hhint'
    exact ⟨parentUrl, hjoin⟩

theorem handleImageFiles_of_plain (hsrc : store.source url = .ok src)
    (hjunk : JunkFooter src) (hplain : FooterPlain src)
    (hstands : FooterStands build store url src) :
    ∃ opened, (handleImageFiles build store url 0).result =
        .ok (opened, none) ∧
      totalSectors (opened.map OpenedExtent.extent) * SECTOR_SIZE <
        wordLimit := by
  obtain ⟨eds, hlines, hstand, hsize⟩ := hstands.listed
  obtain ⟨footer, _, hfooter⟩ : ∃ footer p, Vmdk4Header.fromReader src
      (src.content.length - 1024) = .ok (footer, p) := by
    have hlong := hstands.long
    have hinside : src.content.length - 1024 + 79 ≤ src.content.length := by
      omega
    obtain ⟨footer, hread⟩ :=
      Vmdk4Header.takes_fromReader.succeeds hplain.unfailing hinside
    exact ⟨footer, _, hread⟩
  have hheader := CursorM.readAt_eq_ok.mpr ⟨_, hfooter⟩
  have hword : 0 + (eds.map ExtentDescription.sectors).sum < wordLimit := by
    rw [sectorSize_eq] at hsize
    omega
  obtain ⟨opened, hopened⟩ : ∃ opened, (readExtents build store url
      (eds.length == 1) eds 0 1).result = .ok opened :=
    readExtents_of_stand hstand (hplain.noSparse eds hlines) hword 1
  refine ⟨opened, ?_, (readExtents_stand hopened).2 ▸ hsize⟩
  rw [handleImageFiles_eq hsrc hjunk,
    (descriptorHeader_eq_ok hjunk).mpr ⟨hstands.long, hheader⟩,
    Outcome.ok_bind, namedDescriptor_of_unfailing hheader hplain.unfailing
      hstands.word hstands.inside, Outcome.ok_bind]
  exact describedImage_eq_ok.mpr ⟨eds, hlines, hopened,
    parentUrl_eq_ok.mpr (Or.inl ⟨hplain.noParent, rfl⟩)⟩

/-! ## Opening the chain -/

section Chain

variable {handleImage : HandleImage}

theorem foldlM_checkedAdd_of_lt {extents : List Extent} {acc : ℕ}
    (h : acc + totalSectors extents < wordLimit) :
    extents.foldlM (fun acc ex => checkedAdd acc ex.sectors) acc =
      some (acc + totalSectors extents) := by
  induction extents generalizing acc with
  | nil => simp [totalSectors]
  | cons ex rest ih =>
      simp only [totalSectors, List.map_cons, List.sum_cons] at h ih ⊢
      rw [List.foldlM_cons,
        checkedAdd_eq_some.mpr ⟨show acc + ex.sectors < _ by omega, rfl⟩]
      simp only [Option.bind_eq_bind, Option.bind_some]
      rw [ih (by omega), Nat.add_assoc]

theorem imageBytes_of_lt {extents : List Extent}
    (h : totalSectors extents * SECTOR_SIZE < wordLimit) :
    imageBytes extents = some (totalSectors extents * SECTOR_SIZE) := by
  have hword : 0 + totalSectors extents < wordLimit := by
    rw [sectorSize_eq] at h
    omega
  have hsum := foldlM_checkedAdd_of_lt hword
  rw [Nat.zero_add] at hsum
  unfold imageBytes
  rw [hsum]
  exact checkedMul_eq_some.mpr ⟨h, rfl⟩

/-- The walk in front of the extents of the first image. -/
def Walk.first (url : Url) (size : ℕ) : Walk :=
  { Walk.start url with
    visited := [url]
    idx := 1
    imageSize := some size
    uncovered := OrdMap.empty.insert 0
      ((size + (SECTOR_SIZE - 1)) / SECTOR_SIZE) }

theorem imageLoopBody_start (url : Url) :
    imageLoopBody build handleImage (Walk.start url) =
      ((handleImage url 0).mapError fun e =>
        if e.path = "" then e.withPath url else e) >>= fun r =>
          match imageBytes r.1.extents with
          | none => .error ⟨url, .imageSizeOverflow⟩
          | some size =>
              enterImage build r.1 r.2 size (Walk.first url size) := rfl

theorem addExtents_first (build : Build) (url : Url) {img : ImageExtents}
    {size : ℕ} (hbytes : imageBytes img.extents = some size) :
    ∃ step, (addExtents build img.extents (Walk.first url size) :
      Outcome OpenError (Step Walk Walk)) = .ok step := by
  obtain ⟨rfl, hlt⟩ := imageBytes_eq_some hbytes
  have hend : ∀ ex ∈ img.extents,
      ex.startSector + ex.sectors ≤ totalSectors img.extents := by
    apply img.laid.end_le (by omega)
    rw [sectorSize_eq] at hlt
    omega
  have hsectors : (totalSectors img.extents * SECTOR_SIZE +
      (SECTOR_SIZE - 1)) / SECTOR_SIZE = totalSectors img.extents := by
    rw [sectorSize_eq]
    omega
  have hcharted : Charted (Walk.first url (totalSectors img.extents *
      SECTOR_SIZE)).extents (totalSectors img.extents)
      (Walk.first url (totalSectors img.extents * SECTOR_SIZE)).spans
      (Walk.first url (totalSectors img.extents * SECTOR_SIZE)).uncovered := by
    unfold Walk.first
    simp only [hsectors]
    exact charted_start _
  obtain ⟨step, hstep, _⟩ := addExtents_spec (ε := OpenError) build
    img.extents img.regular hend hlt _ hcharted
  exact ⟨step, hstep⟩

/-- A chain which opens begins with an image which has been handled. -/
theorem handled_of_loop {fuel : ℕ} {result : ℕ × Walk}
    (h : loop (imageLoopBody build handleImage) (fuel + 1) (Walk.start url) =
      .ok result) :
    ∃ img parent, handleImage url 0 = .ok (img, parent) ∧
      totalSectors img.extents * SECTOR_SIZE < wordLimit := by
  obtain ⟨step, hstep⟩ : ∃ step,
      imageLoopBody build handleImage (Walk.start url) = .ok step := by
    rcases loop_succ_eq_ok.mp h with hdone | ⟨state, hnext, _⟩
    · exact ⟨_, hdone⟩
    · exact ⟨_, hnext⟩
  rw [imageLoopBody_start] at hstep
  obtain ⟨⟨img, parent⟩, hhandle, hstep⟩ := Outcome.bind_eq_ok.mp hstep
  refine ⟨img, parent, Outcome.mapError_eq_ok.mp hhandle, ?_⟩
  cases hbytes : imageBytes img.extents with
  | none => simp [hbytes] at hstep
  | some size =>
      obtain ⟨rfl, hlt⟩ := imageBytes_eq_some hbytes
      exact hlt

/-- An image without a parent is a chain. -/
theorem loop_of_handled {img : ImageExtents} (fuel : ℕ)
    (hhandle : handleImage url 0 = .ok (img, none))
    (hsize : totalSectors img.extents * SECTOR_SIZE < wordLimit) :
    ∃ result, loop (imageLoopBody build handleImage) (fuel + 1)
      (Walk.start url) = .ok result := by
  have hbytes := imageBytes_of_lt hsize
  obtain ⟨step, hstep⟩ := addExtents_first build url hbytes
  have hbody : ∃ result, imageLoopBody build handleImage (Walk.start url) =
      .ok (.done result) := by
    rw [imageLoopBody_start, hhandle]
    simp only [Outcome.mapError, Outcome.ok_bind, hbytes, enterImage, hstep]
    cases step with
    | done walk => exact ⟨_, rfl⟩
    | next walk => exact ⟨_, rfl⟩
  obtain ⟨result, hdone⟩ := hbody
  exact ⟨result, loop_succ_eq_ok.mpr (Or.inl hdone)⟩

end Chain

theorem footerStands_of_open {imagePath : String} {fuel : ℕ}
    {reader : VmdkReader} (hsrc : store.source url = .ok src)
    (hjunk : JunkFooter src)
    (h : openWithOptions build (handleImage build store) (fuel + 1) imagePath
      url = .ok reader) : FooterStands build store url src := by
  obtain ⟨result, hloop⟩ := (openWithOptions_ok_iff ..).mp ⟨reader, h⟩
  obtain ⟨img, parent, hhandle, hsize⟩ := handled_of_loop hloop
  obtain ⟨opened, hhandled, hextents⟩ := handleImage_eq_ok.mp hhandle
  rw [← hextents] at hsize
  exact handleImageFiles_junk hsrc hjunk hhandled hsize

theorem opens_of_footerPlain (imagePath : String) (fuel : ℕ)
    (hsrc : store.source url = .ok src) (hjunk : JunkFooter src)
    (hplain : FooterPlain src) (hstands : FooterStands build store url src) :
    ∃ reader, openWithOptions build (handleImage build store) (fuel + 1)
      imagePath url = .ok reader := by
  obtain ⟨opened, hhandled, hsize⟩ :=
    handleImageFiles_of_plain hsrc hjunk hplain hstands
  obtain ⟨hregular, hlaid⟩ := handleImageFiles_laid hhandled
  let img : ImageExtents := ⟨opened.map OpenedExtent.extent, hregular, hlaid⟩
  have hhandle : handleImage build store url 0 = .ok (img, none) :=
    handleImage_eq_ok.mpr ⟨opened, hhandled, rfl⟩
  apply (openWithOptions_ok_iff ..).mpr
  exact loop_of_handled fuel hhandle hsize

/-- A file with junk at its end fails to open unless the junk points at a
descriptor of which everything is there; and that is all, where the descriptor
has no sparse extents and no parent. -/
theorem junkFooter_fails (build : Build) (store : Store) (url : Url)
    (imagePath : String) (fuel : ℕ) {src : BackingFile}
    (hsrc : store.source url = .ok src) (hjunk : JunkFooter src) :
    (¬ FooterStands build store url src →
      ∀ reader, openWithOptions build (handleImage build store) (fuel + 1)
        imagePath url ≠ .ok reader) ∧
    (FooterPlain src → FooterStands build store url src →
      ∃ reader, openWithOptions build (handleImage build store) (fuel + 1)
        imagePath url = .ok reader) :=
  ⟨fun hnot _ hopen => hnot (footerStands_of_open hsrc hjunk hopen),
    opens_of_footerPlain imagePath fuel hsrc hjunk⟩

section ZeroFooter

/-- A header which points at the end of the file, and zeros behind it. -/
def zeroFooterFile : BackingFile where
  content :=
    VMDK4_MAGIC ++ List.replicate 52 0 ++ List.replicate 8 0xFF ++
      List.replicate 13 0 ++ [1, 0] ++ List.replicate 1024 0
  fault := fun _ _ => none

def zeroFooterStore : Store where
  source := fun _ => .ok zeroFooterFile
  join := fun _ _ => none

theorem zeroFooterFile_junk : JunkFooter zeroFooterFile where
  signature := by decide +kernel
  secondary := exists_of_map_eq_ok (by decide +kernel)
  junk := by decide +kernel

theorem zeroFooterFile_text : footerText zeroFooterFile = [] := by
  decide +kernel

theorem zeroFooterFile_plain : FooterPlain zeroFooterFile where
  unfailing := fun _ _ => rfl
  noSparse := by
    intro eds heds
    rw [zeroFooterFile_text] at heds
    obtain rfl := Except.ok.inj heds
    simp
  noParent := by
    rw [zeroFooterFile_text]
    rfl

theorem zeroFooterFile_stands :
    FooterStands .dev zeroFooterStore "a.vmdk" zeroFooterFile where
  long := by decide +kernel
  word := by decide +kernel
  inside := by decide +kernel
  listed := by
    rw [zeroFooterFile_text]
    exact ⟨[], rfl, by simp, by decide⟩
  parent := by
    rw [zeroFooterFile_text]
    intro hint hhint
    cases hhint

/-- Two extents, the file of the first one on sector 1. -/
def lostExtentText : Text := "RW 1 FLAT \"b\" 0\nRW 1 ZERO".toList

/-- Junk at the end which points at a descriptor. -/
def lostExtentFile : BackingFile where
  content :=
    VMDK4_MAGIC ++ List.replicate 52 0 ++ List.replicate 8 0xFF ++
      List.replicate 13 0 ++ [1, 0] ++ List.replicate 433 0 ++
      lostExtentText.map (fun c => UInt8.ofNat c.toNat) ++
      List.replicate 28 0 ++ [1] ++ List.replicate 995 0
  fault := fun _ _ => none

/-- The image file is all there is. -/
def lostExtentStore : Store where
  source := fun url => if url = "a.vmdk" then .ok lostExtentFile
    else .error (url, 2)
  join := fun _ path => some (String.ofList path)

theorem lostExtentFile_junk : JunkFooter lostExtentFile where
  signature := by decide +kernel
  secondary := exists_of_map_eq_ok (by decide +kernel)
  junk := by decide +kernel

theorem lostExtentFile_not_stands :
    ¬ FooterStands .dev lostExtentStore "a.vmdk" lostExtentFile := by
  intro hstands
  obtain ⟨eds, heds, hstand, _⟩ := hstands.listed
  have htext : footerText lostExtentFile = lostExtentText := by
    decide +kernel
  have hlines : extractExtentDescriptions lostExtentText =
      .ok [⟨1, .flat ['b'] 0⟩, ⟨1, .zero⟩] := by decide +kernel
  rw [htext, hlines] at heds
  obtain rfl := Except.ok.inj heds
  obtain ⟨edUrl, file, hjoin, hfile, _⟩ :=
    hstand _ List.mem_cons_self ['b'] rfl
  obtain rfl := Option.some.inj hjoin
  rcases hfile with hsource | ⟨_, halone, _⟩
  · have hother : String.ofList ['b'] ≠ "a.vmdk" := by decide
    simp only [lostExtentStore, if_neg hother] at hsource
    cases hsource
  · cases halone

theorem junkFooter_fails_lostExtent :
    (∀ reader, openWithOptions .dev (handleImage .dev lostExtentStore) 1
        "a.vmdk" "a.vmdk" ≠ .ok reader) ∧
      ∃ reader, openWithOptions .dev (handleImage .dev zeroFooterStore) 1
        "a.vmdk" "a.vmdk" = .ok reader :=
  ⟨(junkFooter_fails .dev lostExtentStore "a.vmdk" "a.vmdk" 0 rfl
      lostExtentFile_junk).1 lostExtentFile_not_stands,
    (junkFooter_fails .dev zeroFooterStore "a.vmdk" "a.vmdk" 0 rfl
      zeroFooterFile_junk).2 zeroFooterFile_plain zeroFooterFile_stands⟩

theorem zeroFooter_opens :
    ¬ ∀ (build : Build) (store : Store) (url : Url) (imagePath : String)
      (fuel : ℕ) (src : BackingFile),
      store.source url = .ok src → JunkFooter src →
      ∀ reader, openWithOptions build (handleImage build store) (fuel + 1)
        imagePath url ≠ .ok reader := by
  intro hall
  have hsrc : zeroFooterStore.source "a.vmdk" = .ok zeroFooterFile := rfl
  obtain ⟨reader, hreader⟩ := opens_of_footerPlain "a.vmdk" 0 hsrc
    zeroFooterFile_junk zeroFooterFile_plain zeroFooterFile_stands
  exact hall .dev zeroFooterStore "a.vmdk" "a.vmdk" 0 zeroFooterFile hsrc
    zeroFooterFile_junk reader hreader

end ZeroFooter

end Vmdk
end ImageReader
