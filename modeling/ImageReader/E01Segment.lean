import ImageReader.E01Table

/-!
# The walk over a segment

Which sections a position can hold, when one parses, and what the iterator
makes of the chain of next offsets.  `sectionChain` is that chain as it stands
in the file; it goes forward, so it ends.
-/

namespace ImageReader
namespace E01

open StreamM

/-! ## The fixed parts -/

theorem EwfHashSection.reads :
    EwfHashSection.read.Reads 36 fun content pos =>
      ⟨Slice.window content pos 16, u4At content (pos + 32)⟩ :=
  (reads_bytes 15).bind fun _ => (reads_bytes 15).bind fun _ =>
    reads_u4le.bind fun _ => reads_pure _

theorem EwfDigestSection.reads :
    EwfDigestSection.read.Reads 80 fun content pos =>
      ⟨Slice.window content pos 16, Slice.window content (pos + 16) 20,
        u4At content (pos + 76)⟩ :=
  (reads_bytes 15).bind fun _ => (reads_bytes 19).bind fun _ =>
    (reads_bytes 39).bind fun _ => reads_u4le.bind fun _ => reads_pure _

theorem EwfVolume.reads :
    EwfVolume.read.Reads 1052 fun content pos =>
      ⟨u4At content (pos + 4), u4At content (pos + 8), u4At content (pos + 12),
        u8At content (pos + 16), u4At content (pos + 1048)⟩ :=
  reads_u1.bind fun _ => (reads_bytes 2).bind fun _ =>
    reads_u4le.bind fun _ => reads_u4le.bind fun _ => reads_u4le.bind fun _ =>
    reads_u8le.bind fun _ =>
    reads_u4le.bind fun _ => reads_u4le.bind fun _ => reads_u4le.bind fun _ =>
    reads_u1.bind fun _ => (reads_bytes 2).bind fun _ =>
    reads_u4le.bind fun _ => (reads_bytes 3).bind fun _ =>
    reads_u4le.bind fun _ =>
    reads_u1.bind fun _ => (reads_bytes 2).bind fun _ =>
    reads_u4le.bind fun _ => (reads_bytes 3).bind fun _ =>
    (reads_bytes 15).bind fun _ => (reads_bytes 962).bind fun _ =>
    (reads_bytes 4).bind fun _ => reads_u4le.bind fun _ => reads_pure _

theorem EwfVolumeSmart.reads :
    EwfVolumeSmart.read.Reads 94 fun content pos =>
      ⟨u4At content (pos + 4), u4At content (pos + 8), u4At content (pos + 12),
        u4At content (pos + 16), u4At content (pos + 90)⟩ :=
  reads_u4le.bind fun _ =>
    reads_u4le.bind fun _ => reads_u4le.bind fun _ => reads_u4le.bind fun _ =>
    reads_u4le.bind fun _ => (reads_bytes 19).bind fun _ =>
    (reads_bytes 44).bind fun _ => (reads_bytes 4).bind fun _ =>
    reads_u4le.bind fun _ => reads_pure _

section Parts

variable {io : BytesReader} {ignoreChecksums : Bool} {pos : ℕ}

/-- The `n` bytes at `pos`. -/
def vectorAt (content : Bytes) (pos n : ℕ) : Vector UInt8 n :=
  .ofFn fun i => content.getD (pos + i) 0

theorem toVector_window {content : Bytes} {n : ℕ}
    (h : pos + n ≤ content.length) :
    toVector n (Slice.window content pos n) = .ok (vectorAt content pos n) := by
  have hlen := Slice.length_window_of_le h
  unfold toVector
  rw [dif_pos hlen]
  congr 1
  apply Vector.ext
  intro i hi
  have hget : (Slice.window content pos n)[i]? = content[pos + i]? :=
    Slice.getElem?_window hi
  simp [vectorAt, ← hget, hlen, hi]

theorem readHashSection_eq_ok {md5 : Vector UInt8 16} :
    readHashSection io ignoreChecksums pos = .ok md5 ↔
      ValidPart io.content ignoreChecksums pos 36 ∧
        md5 = vectorAt io.content pos 16 := by
  unfold readHashSection
  refine Iff.trans (readPart_eq_ok EwfHashSection.checksum EwfHashSection.reads
    (by omega) (fun _ _ => rfl) rfl) ?_
  apply and_congr_right
  intro hvalid
  have hpresent := hvalid.present
  rw [toVector_window (by omega)]
  simp [eq_comm]

theorem readDigestSection_eq_ok {digest : Vector UInt8 16 × Vector UInt8 20} :
    readDigestSection io ignoreChecksums pos = .ok digest ↔
      ValidPart io.content ignoreChecksums pos 80 ∧
        digest =
          (vectorAt io.content pos 16, vectorAt io.content (pos + 16) 20) := by
  unfold readDigestSection
  refine Iff.trans (readPart_eq_ok EwfDigestSection.checksum
    EwfDigestSection.reads (by omega) (fun _ _ => rfl) rfl) ?_
  apply and_congr_right
  intro hvalid
  have hpresent := hvalid.present
  dsimp only
  rw [toVector_window (by omega), toVector_window (by omega)]
  simp [eq_comm]

def volumeAt (content : Bytes) (size pos : ℕ) : VolumeSection :=
  ⟨u4At content (pos + 4), u4At content (pos + 8), u4At content (pos + 12),
    if size = 1052 then u8At content (pos + 16)
    else (u4At content (pos + 16)).toUInt64⟩

theorem volumeSection_eq_ok {size : ℕ} {volume : VolumeSection} :
    VolumeSection.new io ignoreChecksums pos size = .ok volume ↔
      ((size = 1052 ∨ size = 94) ∧
        ValidPart io.content ignoreChecksums pos size) ∧
        volume = volumeAt io.content size pos := by
  unfold VolumeSection.new
  by_cases hnormal : size = 1052
  · subst hnormal
    rw [if_pos rfl]
    refine Iff.trans (readPart_eq_ok EwfVolume.checksum EwfVolume.reads
      (by omega) (fun _ _ => rfl) rfl) ?_
    simp [volumeAt, eq_comm]
  rw [if_neg hnormal]
  by_cases hsmart : size = 94
  · subst hsmart
    rw [if_pos rfl]
    refine Iff.trans (readPart_eq_ok EwfVolumeSmart.checksum
      EwfVolumeSmart.reads (by omega) (fun _ _ => rfl) rfl) ?_
    simp [volumeAt, eq_comm]
  · simp [hnormal, hsmart]

end Parts

/-! ## Sections at a position -/

inductive SectionKind where
  | volume
  | table
  | sectors
  | hash
  | digest
  | done
  | other
  deriving DecidableEq, Repr

def sectionKind (sectionType : Text) : SectionKind :=
  if sectionType = "disk".toList ∨ sectionType = "volume".toList then .volume
  else if sectionType = "table".toList then .table
  else if sectionType = "sectors".toList then .sectors
  else if sectionType = "hash".toList then .hash
  else if sectionType = "digest".toList then .digest
  else if sectionType = "done".toList then .done
  else .other

/-- What stands behind the descriptor is a section of this kind; `pos` is the
position behind the descriptor. -/
def ValidBody (content : Bytes) (ignoreChecksums : Bool) (size pos : ℕ) :
    SectionKind → Prop
  | .volume =>
      (size = 1052 ∨ size = 94) ∧ ValidPart content ignoreChecksums pos size
  | .table => ValidTable content ignoreChecksums pos
  | .hash => ValidPart content ignoreChecksums pos 36
  | .digest => ValidPart content ignoreChecksums pos 80
  | .sectors | .done | .other => True

/-- The offsets out of a section are words. -/
def ExactBody (content : Bytes) (size pos : ℕ) : SectionKind → Prop
  | .table => ∀ i < entryCount content pos, exactOffset content pos i < wordLimit
  | .sectors => pos + size < wordLimit
  | .volume | .hash | .digest | .done | .other => True

def bodySection (content : Bytes) (size pos : ℕ) : SectionKind → Section
  | .volume => .volume (volumeAt content size pos)
  | .table => .table (tableChunks content pos)
  | .sectors => .sectors ((pos + size) % wordLimit)
  | .hash => .hash (vectorAt content pos 16)
  | .digest => .digest (vectorAt content pos 16) (vectorAt content (pos + 16) 20)
  | .done => .done
  | .other => .other

def nextOffset (content : Bytes) (pos : ℕ) : ℕ :=
  (u8At content (pos + 16)).toNat

/-- The size in the descriptor at `pos`, without the descriptor. -/
def declaredSize (content : Bytes) (pos : ℕ) : ℕ :=
  sectionSize (u8At content (pos + 24))

/-- A section of this kind at `pos`. -/
structure ValidSection (io : BytesReader) (ignoreChecksums : Bool) (pos : ℕ)
    (kind : SectionKind) : Prop where
  present : pos + 76 ≤ io.size
  typed : ∃ text, io.bytesToStr (Slice.window io.content pos 16) = .ok text ∧
    sectionKind (trimNuls text) = kind
  body : ValidBody io.content ignoreChecksums (declaredSize io.content pos)
    (pos + 76) kind

section Sections

variable {build : Build} {io : BytesReader} {ignoreChecksums : Bool} {pos : ℕ}

/-- Forms a section out of its parsed body. -/
theorem bind_eq_ok_of {ε α β : Type} {x : Outcome ε α} {a : α} {P : Prop}
    {next : α → Outcome ε β} {b b' : β} (hx : ∀ a', x = .ok a' ↔ P ∧ a' = a)
    (hnext : next a = .ok b') :
    (x >>= next) = .ok b ↔ P ∧ b = b' := by
  rw [Outcome.bind_eq_ok]
  constructor
  · rintro ⟨a', ha', h⟩
    obtain ⟨hP, rfl⟩ := (hx a').mp ha'
    rw [hnext] at h
    exact ⟨hP, (Outcome.ok.inj h).symm⟩
  · rintro ⟨hP, rfl⟩
    exact ⟨a, (hx a).mpr ⟨hP, rfl⟩, hnext⟩

theorem readSectionBody_eq_ok {sectionType : Text} {size : ℕ} {found : Section} :
    readSectionBody build io ignoreChecksums sectionType size pos = .ok found ↔
      (ValidBody io.content ignoreChecksums size pos (sectionKind sectionType) ∧
        (build = .dev →
          ExactBody io.content size pos (sectionKind sectionType))) ∧
        found = bodySection io.content size pos (sectionKind sectionType) := by
  unfold readSectionBody sectionKind
  split_ifs
  · refine bind_eq_ok_of (fun _ => volumeSection_eq_ok.trans
      (and_congr_left' ?_)) rfl
    simp [ValidBody, ExactBody]
  · refine bind_eq_ok_of (fun _ => readTable_eq_ok.trans ?_) rfl
    rw [← and_assoc]
    apply and_congr_left'
    exact and_congr_right' ⟨fun h hdev i hi => h i hi hdev,
      fun h i hi hdev => h hdev i hi⟩
  · refine bind_eq_ok_of (fun _ => Build.add_eq_ok_iff.trans ?_) rfl
    simp [ValidBody, ExactBody, Build.Fits]
  · refine bind_eq_ok_of (fun _ => readHashSection_eq_ok.trans
      (and_congr_left' ?_)) rfl
    simp [ValidBody, ExactBody]
  · refine bind_eq_ok_of (fun _ => readDigestSection_eq_ok.trans
      (and_congr_left' ?_)) rfl
    simp [ValidBody, ExactBody]
  · simp [ValidBody, ExactBody, bodySection, eq_comm]
  · simp [ValidBody, ExactBody, bodySection, eq_comm]

theorem str_eq_ok {len : ℕ} {r : Text × ℕ} :
    StreamM.str len io pos = .ok r ↔
      pos + len ≤ io.size ∧ ∃ text,
        io.bytesToStr (Slice.window io.content pos len) = .ok text ∧
          r = (text, pos + len) := by
  unfold StreamM.str
  constructor
  · intro h
    obtain ⟨bytes, hread, h⟩ := except_bind_eq_ok.mp h
    obtain ⟨hinside, rfl⟩ := BytesReader.readBytes_eq_ok.mp hread
    obtain ⟨text, htext, h⟩ := except_bind_eq_ok.mp h
    exact ⟨hinside, text, htext, (Except.ok.inj h).symm⟩
  · rintro ⟨hinside, text, htext, rfl⟩
    exact except_bind_eq_ok.mpr
      ⟨_, BytesReader.readBytes_eq_ok.mpr ⟨hinside, rfl⟩,
        except_bind_eq_ok.mpr ⟨text, htext, rfl⟩⟩

theorem sectionDescriptor_eq_ok {r : EwfSectionDescriptorV1 × ℕ} :
    EwfSectionDescriptorV1.read io pos = .ok r ↔
      pos + 76 ≤ io.size ∧ ∃ text,
        io.bytesToStr (Slice.window io.content pos 16) = .ok text ∧
          r = (⟨text, u8At io.content (pos + 16), u8At io.content (pos + 24)⟩,
            pos + 76) := by
  have hrest : ∀ typeString : Text,
      (do
        let nextOffset ← StreamM.u8le
        let size ← StreamM.u8le
        let _padding ← StreamM.bytes 40
        let _checksum ← StreamM.u4le
        return (⟨typeString, nextOffset, size⟩ : EwfSectionDescriptorV1) :
          StreamM EwfSectionDescriptorV1).Reads 60
        fun content pos =>
          ⟨typeString, u8At content pos, u8At content (pos + 8)⟩ :=
    fun _ => reads_u8le.bind fun _ => reads_u8le.bind fun _ =>
      (reads_bytes 39).bind fun _ => reads_u4le.bind fun _ => reads_pure _
  constructor
  · intro h
    obtain ⟨_, hstr, h⟩ := except_bind_eq_ok.mp h
    obtain ⟨-, text, htext, rfl⟩ := str_eq_ok.mp hstr
    obtain ⟨hinside, rfl⟩ := ((hrest text).eq_ok_iff (by omega)).mp h
    exact ⟨hinside, text, htext, rfl⟩
  · rintro ⟨hinside, text, htext, rfl⟩
    exact except_bind_eq_ok.mpr
      ⟨_, str_eq_ok.mpr ⟨by omega, text, htext, rfl⟩,
        ((hrest text).eq_ok_iff (by omega)).mpr ⟨hinside, rfl⟩⟩

/-- A section parses exactly when there is one of some kind, and the profile
can compute its offsets. -/
theorem readSection_eq_ok {next : ℕ} {found : Section} :
    readSection build io ignoreChecksums pos = .ok (next, found) ↔
      ∃ kind, ValidSection io ignoreChecksums pos kind ∧
        (build = .dev → ExactBody io.content (declaredSize io.content pos)
          (pos + 76) kind) ∧
        next = nextOffset io.content pos ∧
        found = bodySection io.content (declaredSize io.content pos)
          (pos + 76) kind := by
  unfold readSection
  constructor
  · intro h
    obtain ⟨_, hread, h⟩ := Outcome.bind_eq_ok.mp h
    unfold readInto at hread
    rw [Outcome.mapError_eq_ok, Outcome.ofExcept_eq_ok] at hread
    obtain ⟨hinside, text, htext, rfl⟩ := sectionDescriptor_eq_ok.mp hread
    obtain ⟨_, hbody, h⟩ := Outcome.bind_eq_ok.mp h
    obtain ⟨⟨hvalid, hexact⟩, rfl⟩ := readSectionBody_eq_ok.mp hbody
    obtain ⟨rfl, rfl⟩ := Prod.mk.inj (Outcome.ok.inj h)
    exact ⟨_, ⟨hinside, ⟨text, htext, rfl⟩, hvalid⟩, hexact, rfl, rfl⟩
  · rintro ⟨_, ⟨hinside, ⟨text, htext, rfl⟩, hvalid⟩, hexact, rfl, rfl⟩
    refine Outcome.bind_eq_ok.mpr ⟨(⟨text, u8At io.content (pos + 16),
      u8At io.content (pos + 24)⟩, pos + 76), ?_, ?_⟩
    · unfold readInto
      rw [Outcome.mapError_eq_ok, Outcome.ofExcept_eq_ok]
      exact sectionDescriptor_eq_ok.mpr ⟨hinside, text, htext, rfl⟩
    · exact Outcome.bind_eq_ok.mpr
        ⟨_, readSectionBody_eq_ok.mpr ⟨⟨hvalid, hexact⟩, rfl⟩, rfl⟩

/-- In the `release` profile only the validity of the section counts. -/
theorem readSection_release_eq_ok {next : ℕ} {found : Section} :
    readSection .release io ignoreChecksums pos = .ok (next, found) ↔
      ∃ kind, ValidSection io ignoreChecksums pos kind ∧
        next = nextOffset io.content pos ∧
        found = bodySection io.content (declaredSize io.content pos)
          (pos + 76) kind := by
  rw [readSection_eq_ok]
  simp

end Sections

/-! ## A section ends with a value, an error or an overflow -/

section Settling

variable (build : Build) (io : BytesReader) (ignoreChecksums : Bool)
  (name : String)

theorem readInto_settles {α : Type} {P : Fault → Prop} (x : StreamM α)
    (pos : ℕ) : (readInto io name x pos).Settles P :=
  (Outcome.settles_ofExcept _).mapError _

theorem readU4le_settles {P : Fault → Prop} (pos : ℕ) :
    (readU4le io pos).Settles P :=
  (Outcome.settles_ofExcept _).mapError _

theorem checksumReader_settles {P : Fault → Prop} (pos len : ℕ) :
    (checksumReader io pos len).Settles P := by
  unfold checksumReader
  cases io.readBytes pos len <;> trivial

theorem checksumUnlessIgnored_settles {P : Fault → Prop}
    (pos sectionPos : ℕ) (crcStored : UInt32) :
    (checksumUnlessIgnored io ignoreChecksums name pos sectionPos
      crcStored).Settles P := by
  unfold checksumUnlessIgnored checksumOk
  split_ifs
  · trivial
  · apply (checksumReader_settles io _ _).bind
    intro crc _
    split_ifs <;> trivial

theorem readHashSection_settles {P : Fault → Prop} (pos : ℕ) :
    (readHashSection io ignoreChecksums pos).Settles P := by
  unfold readHashSection
  apply (readInto_settles io _ _ pos).bind
  intro _ hread
  obtain ⟨hinside, rfl⟩ :=
    (readInto_eq_ok EwfHashSection.reads (by omega)).mp hread
  apply (checksumUnlessIgnored_settles io ignoreChecksums _ _ _ _).bind
  intro _ _
  rw [toVector_window (le_trans (by omega) hinside)]
  trivial

theorem readDigestSection_settles {P : Fault → Prop} (pos : ℕ) :
    (readDigestSection io ignoreChecksums pos).Settles P := by
  unfold readDigestSection
  apply (readInto_settles io _ _ pos).bind
  intro _ hread
  obtain ⟨hinside, rfl⟩ :=
    (readInto_eq_ok EwfDigestSection.reads (by omega)).mp hread
  apply (checksumUnlessIgnored_settles io ignoreChecksums _ _ _ _).bind
  intro _ _
  rw [toVector_window (le_trans (by omega) hinside),
    toVector_window (le_trans (by omega) hinside)]
  trivial

theorem volumeSection_settles {P : Fault → Prop} (pos size : ℕ) :
    (VolumeSection.new io ignoreChecksums pos size).Settles P := by
  unfold VolumeSection.new
  split_ifs
  · exact (readInto_settles io _ _ pos).bind fun _ _ =>
      (checksumUnlessIgnored_settles io _ _ _ _ _).bind fun _ _ => trivial
  · exact (readInto_settles io _ _ pos).bind fun _ _ =>
      (checksumUnlessIgnored_settles io _ _ _ _ _).bind fun _ _ => trivial
  · trivial

theorem readTableEntry_settles (tableOffset pos : ℕ) :
    (readTableEntry build io tableOffset pos).Settles build.Overflows :=
  (readU4le_settles io pos).bind fun _ _ =>
    (Build.add_settles build _ _).bind fun _ _ => trivial

theorem readTableEntries_settles (tableOffset n : ℕ) (before : List Chunk)
    (last : Chunk) (pos : ℕ) :
    (readTableEntries build io tableOffset n before last pos).Settles
      build.Overflows := by
  induction n generalizing before last pos with
  | zero => trivial
  | succ n ih =>
      apply (readTableEntry_settles build io tableOffset pos).bind
      intro r _
      dsimp only
      split_ifs
      · trivial
      · exact ih _ _ _

theorem readTable_settles (pos : ℕ) :
    (readTable build io ignoreChecksums pos).Settles build.Overflows := by
  unfold readTable
  refine (readInto_settles io _ _ pos).bind fun header _ =>
    (checksumUnlessIgnored_settles io _ _ _ _ _).bind fun _ _ => ?_
  dsimp only
  split_ifs
  · trivial
  · trivial
  · exact (readTableEntry_settles build io _ _).bind fun _ _ =>
      (readTableEntries_settles build io _ _ _ _ _).bind fun _ _ => trivial
  · refine (readTableEntry_settles build io _ _).bind fun _ _ =>
      (readTableEntries_settles build io _ _ _ _ _).bind fun _ _ =>
        Outcome.Settles.bind ?_ fun _ _ => trivial
    refine (readU4le_settles io _).bind fun _ _ =>
      (checksumReader_settles io _ _).bind fun _ _ => ?_
    split_ifs <;> trivial

theorem readSection_settles (pos : ℕ) :
    (readSection build io ignoreChecksums pos).Settles build.Overflows := by
  refine (readInto_settles io _ _ pos).bind fun descriptor _ =>
    Outcome.Settles.bind ?_ fun _ _ => trivial
  unfold readSectionBody
  split_ifs
  · exact (volumeSection_settles io _ _ _).bind fun _ _ => trivial
  · exact (readTable_settles build io _ _).bind fun _ _ => trivial
  · exact (Build.add_settles build _ _).bind fun _ _ => trivial
  · exact (readHashSection_settles io _ _).bind fun _ _ => trivial
  · exact (readDigestSection_settles io _ _).bind fun _ _ => trivial
  · trivial
  · trivial

end Settling

/-! ## The chain of sections -/

/-- Where the iterator goes behind a section: forward, or to the end. -/
def follow (io : BytesReader) (pos : ℕ) : ℕ :=
  if pos < nextOffset io.content pos then nextOffset io.content pos
  else io.size

theorem lt_follow {io : BytesReader} {pos : ℕ} (h : pos < io.size) :
    pos < follow io pos := by
  unfold follow
  split_ifs with hforward
  · exact hforward
  · exact h

/-- The offsets which the next offsets in the file lead to. -/
def sectionChain (io : BytesReader) (pos : ℕ) : List ℕ :=
  if pos < io.size then pos :: sectionChain io (follow io pos) else []
termination_by io.size - pos
decreasing_by
  have := lt_follow ‹pos < io.size›
  omega

/-- The iterator yields the section at `pos`. -/
def Parses (io : BytesReader) (ignoreChecksums : Bool) (pos : ℕ) : Prop :=
  io.seek pos = .ok () ∧ ∃ kind, ValidSection io ignoreChecksums pos kind

section Chain

variable {build : Build} {io : BytesReader} {ignoreChecksums : Bool}
  {cur cur' : ℕ} {item : Option (Except LibError Section)}

theorem sectionChain_of_lt (h : cur < io.size) :
    sectionChain io cur = cur :: sectionChain io (follow io cur) := by
  rw [sectionChain, if_pos h]

theorem sectionChain_of_ge (h : io.size ≤ cur) : sectionChain io cur = [] := by
  rw [sectionChain, if_neg (not_lt.mpr h)]

theorem nextSection_of_ge (h : io.size ≤ cur) :
    nextSection build io ignoreChecksums cur = .ok (none, cur) :=
  if_neg (not_lt.mpr h)

/-- What one call on the iterator can return. -/
theorem nextSection_cases
    (hnext : nextSection build io ignoreChecksums cur = .ok (item, cur')) :
    (item = none ∧ io.size ≤ cur ∧ cur' = cur) ∨
    (cur < io.size ∧ io.seek cur = .ok () ∧ ∃ found,
      readSection build io ignoreChecksums cur =
        .ok (nextOffset io.content cur, found) ∧
      item = some (.ok found) ∧ cur' = follow io cur) ∨
    (cur < io.size ∧ (∃ e, item = some (.error e)) ∧ cur' = cur) := by
  unfold nextSection at hnext
  split_ifs at hnext with hlt
  · right
    cases hseek : io.seek cur with
    | error e =>
        simp only [hseek, Outcome.ok.injEq, Prod.mk.injEq] at hnext
        exact Or.inr ⟨hlt, ⟨_, hnext.1.symm⟩, hnext.2.symm⟩
    | ok _ =>
        cases hread : readSection build io ignoreChecksums cur with
        | ok r =>
            obtain ⟨next, found⟩ := r
            simp only [hseek, hread, Outcome.ok.injEq, Prod.mk.injEq] at hnext
            obtain ⟨rfl, rfl⟩ := hnext
            obtain ⟨_, _, _, rfl, _⟩ := readSection_eq_ok.mp hread
            exact Or.inl ⟨hlt, rfl, found, rfl, rfl, rfl⟩
        | error e =>
            simp only [hseek, hread, Outcome.ok.injEq, Prod.mk.injEq] at hnext
            exact Or.inr ⟨hlt, ⟨_, hnext.1.symm⟩, hnext.2.symm⟩
        | panic fault => simp [hseek, hread] at hnext
        | hang => simp [hseek, hread] at hnext
  · obtain ⟨rfl, rfl⟩ := Prod.mk.inj (Outcome.ok.inj hnext)
    exact Or.inl ⟨rfl, not_lt.mp hlt, rfl⟩

theorem nextSection_settles (build : Build) (io : BytesReader)
    (ignoreChecksums : Bool) (cur : ℕ) :
    (nextSection build io ignoreChecksums cur).Settles build.Overflows := by
  have hsection := readSection_settles build io ignoreChecksums cur
  unfold nextSection
  split_ifs
  · cases io.seek cur with
    | error e => trivial
    | ok _ =>
        cases hread : readSection build io ignoreChecksums cur with
        | ok r => trivial
        | error e => trivial
        | panic fault => rwa [hread] at hsection
        | hang => rwa [hread] at hsection
  · trivial

theorem release_returns {ε α : Type} {x : Outcome ε α}
    (h : x.Settles Build.release.Overflows) : x.Returns := by
  cases x with
  | ok a => exact Outcome.returns_ok a
  | error e => exact Outcome.returns_error e
  | panic fault => exact Build.noConfusion h.1
  | hang => exact h.elim

/-- A section which parses is an item, and the iterator follows its next
offset. -/
theorem nextSection_of_parses (hlt : cur < io.size)
    (hparses : Parses io ignoreChecksums cur) :
    ∃ found, nextSection .release io ignoreChecksums cur =
      .ok (some (.ok found), follow io cur) := by
  obtain ⟨hseek, kind, hvalid⟩ := hparses
  have hread := readSection_release_eq_ok.mpr ⟨kind, hvalid, rfl, rfl⟩
  refine ⟨bodySection io.content (declaredSize io.content cur) (cur + 76) kind,
    ?_⟩
  unfold nextSection
  rw [if_pos hlt, hseek]
  dsimp only
  rw [hread]
  rfl

/-- A section which does not parse is an error, and the iterator stays. -/
theorem nextSection_of_not_parses (hlt : cur < io.size)
    (hparses : ¬ Parses io ignoreChecksums cur) :
    ∃ e, nextSection .release io ignoreChecksums cur =
      .ok (some (.error e), cur) := by
  obtain ⟨⟨item, cur'⟩, hnext⟩ | ⟨e, -⟩ :=
    release_returns (nextSection_settles .release io ignoreChecksums cur)
  · obtain ⟨-, hge, -⟩ | ⟨-, hseek, found, hread, -⟩ | ⟨-, ⟨e, rfl⟩, rfl⟩ :=
      nextSection_cases hnext
    · omega
    · obtain ⟨kind, hvalid, -⟩ := readSection_release_eq_ok.mp hread
      exact absurd ⟨hseek, kind, hvalid⟩ hparses
    · exact ⟨e, hnext⟩
  · exact e.elim

end Chain

/-! ## Draining the iterator -/

/-- `fuel` calls on the iterator: the items, if the last call was the end. -/
def drain (build : Build) (io : BytesReader) (ignoreChecksums : Bool) :
    ℕ → ℕ → Outcome Empty (Option (List (Except LibError Section)))
  | 0, _ => .ok none
  | fuel + 1, cur => do
      let (item, cur) ← nextSection build io ignoreChecksums cur
      match item with
      | none => pure (some [])
      | some item => do
          let rest ← drain build io ignoreChecksums fuel cur
          pure (rest.map (item :: ·))

section Drain

variable {io : BytesReader} {ignoreChecksums : Bool} {cur fuel : ℕ}

theorem drain_of_parses
    (hparses : ∀ pos ∈ sectionChain io cur, Parses io ignoreChecksums pos)
    (hfuel : io.size - cur < fuel) :
    ∃ items, drain .release io ignoreChecksums fuel cur = .ok (some items) := by
  induction fuel generalizing cur with
  | zero => omega
  | succ fuel ih =>
      unfold drain
      rcases Nat.lt_or_ge cur io.size with hlt | hge
      · rw [sectionChain_of_lt hlt] at hparses
        obtain ⟨found, hnext⟩ :=
          nextSection_of_parses hlt (hparses cur List.mem_cons_self)
        have hforward := lt_follow hlt
        obtain ⟨items, hrest⟩ := ih
          (fun pos hpos => hparses pos (List.mem_cons_of_mem cur hpos))
          (by omega)
        rw [hnext]
        simp [hrest]
      · rw [nextSection_of_ge hge]
        exact ⟨[], rfl⟩

/-- Behind an error the iterator yields it again, for ever. -/
theorem drain_of_not_parses (hlt : cur < io.size)
    (hparses : ¬ Parses io ignoreChecksums cur) (fuel : ℕ) :
    drain .release io ignoreChecksums fuel cur = .ok none := by
  induction fuel with
  | zero => rfl
  | succ fuel ih =>
      obtain ⟨e, hnext⟩ := nextSection_of_not_parses hlt hparses
      unfold drain
      rw [hnext]
      simp [ih]

theorem drain_endless
    (hparses : ∃ pos ∈ sectionChain io cur, ¬ Parses io ignoreChecksums pos)
    (fuel : ℕ) : drain .release io ignoreChecksums fuel cur = .ok none := by
  induction fuel generalizing cur with
  | zero => rfl
  | succ fuel ih =>
      obtain ⟨pos, hmem, hpos⟩ := hparses
      rcases Nat.lt_or_ge cur io.size with hlt | hge
      · by_cases hcur : Parses io ignoreChecksums cur
        · rw [sectionChain_of_lt hlt] at hmem
          rcases List.mem_cons.mp hmem with rfl | hmem
          · exact absurd hcur hpos
          obtain ⟨found, hnext⟩ := nextSection_of_parses hlt hcur
          unfold drain
          rw [hnext]
          simp [ih ⟨pos, hmem, hpos⟩]
        · exact drain_of_not_parses hlt hcur (fuel + 1)
      · simp [sectionChain_of_ge hge] at hmem

/-- The iterator ends, and then within `size + 1` calls, exactly when every
section on the chain parses.  A section moves it forward; an error leaves it
where it is. -/
theorem drain_ends_iff (io : BytesReader) (ignoreChecksums : Bool) (cur : ℕ) :
    ((∃ items, drain .release io ignoreChecksums (io.size + 1) cur =
        .ok (some items)) ↔
      ∀ pos ∈ sectionChain io cur, Parses io ignoreChecksums pos) ∧
    ((∃ fuel items, drain .release io ignoreChecksums fuel cur =
        .ok (some items)) ↔
      ∀ pos ∈ sectionChain io cur, Parses io ignoreChecksums pos) ∧
    (∀ build pos found pos', nextSection build io ignoreChecksums pos =
      .ok (some (.ok found), pos') → pos < pos') ∧
    ∀ build pos e pos', nextSection build io ignoreChecksums pos =
      .ok (some (.error e), pos') → pos' = pos ∧ pos < io.size := by
  have hends : ∀ fuel items,
      drain .release io ignoreChecksums fuel cur = .ok (some items) →
      ∀ pos ∈ sectionChain io cur, Parses io ignoreChecksums pos := by
    intro fuel items hdrain pos hmem
    by_contra hpos
    have hendless := drain_endless ⟨pos, hmem, hpos⟩ fuel
    rw [hdrain] at hendless
    simp at hendless
  refine ⟨⟨fun ⟨items, h⟩ => hends _ items h, fun h => drain_of_parses h ?_⟩,
    ⟨fun ⟨fuel, items, h⟩ => hends fuel items h,
      fun h => ⟨_, drain_of_parses h (Nat.lt_succ_self _)⟩⟩, ?_, ?_⟩
  · omega
  · intro build pos found pos' hnext
    obtain ⟨h, -⟩ | ⟨hlt, -, -, -, -, rfl⟩ | ⟨-, ⟨e, h⟩, -⟩ :=
      nextSection_cases hnext
    · simp at h
    · exact lt_follow hlt
    · simp at h
  · intro build pos e pos' hnext
    obtain ⟨h, -⟩ | ⟨-, -, found, -, h, -⟩ | ⟨hlt, -, heq⟩ :=
      nextSection_cases hnext
    · simp at h
    · simp at h
    · exact ⟨heq, hlt⟩

end Drain

/-- The signature of a segment file, and the fields of a first segment. -/
def firstSegment : Bytes := EWF_SIGNATURE ++ [1, 1, 0, 0, 0]

/-- A first segment which is cut behind one byte of its first section. -/
def cutSegment : BytesReader := .ofBytes (firstSegment ++ [0])

/-- The iterator over a truncated section yields its error for ever. -/
theorem cutSegment_never_ends :
    segmentFileHeader cutSegment = .ok (1, 13) ∧
      ¬ ∃ fuel items, drain .release cutSegment true fuel 13 =
        .ok (some items) := by
  refine ⟨rfl, ?_⟩
  rintro ⟨fuel, items, hdrain⟩
  have hparses : ¬ Parses cutSegment true 13 := by
    rintro ⟨-, kind, hvalid⟩
    exact absurd hvalid.present (by decide)
  rw [drain_of_not_parses (by decide) hparses fuel] at hdrain
  simp at hdrain

/-! ## Exact offsets -/

/-- The offsets in the section found at `pos` are the exact sums. -/
def OffsetsExact (content : Bytes) (pos : ℕ) : Section → Prop
  | .table chunks => ∀ i ch, chunks[i]? = some ch →
      ch.dataOffset = exactOffset content (pos + 76) i
  | .sectors endOfSectors =>
      endOfSectors = pos + 76 + declaredSize content pos
  | .volume _ | .hash _ | .digest _ _ | .done | .other => True

theorem mod_wordLimit_eq_iff {n : ℕ} : n % wordLimit = n ↔ n < wordLimit :=
  Nat.mod_eq_iff_lt (by decide)

theorem offsetsExact_iff {content : Bytes} {pos : ℕ} {kind : SectionKind} :
    OffsetsExact content pos
        (bodySection content (declaredSize content pos) (pos + 76) kind) ↔
      ExactBody content (declaredSize content pos) (pos + 76) kind := by
  cases kind with
  | table =>
      constructor
      · intro hexact i hi
        exact mod_wordLimit_eq_iff.mp
          (hexact i _ (getElem?_tableChunks hi))
      · intro hexact i ch hch
        have hi : i < entryCount content (pos + 76) := by
          rw [← length_tableChunks]
          exact (List.getElem?_eq_some_iff.mp hch).1
        rw [getElem?_tableChunks hi] at hch
        obtain rfl := Option.some.inj hch
        exact mod_wordLimit_eq_iff.mpr (hexact i hi)
  | sectors => exact mod_wordLimit_eq_iff
  | volume => exact Iff.rfl
  | hash => exact Iff.rfl
  | digest => exact Iff.rfl
  | done => exact Iff.rfl
  | other => exact Iff.rfl

/-- A section is rejected or has exact offsets, exactly when the sums of the
valid sections are words.  In the `dev` profile no other sum is returned. -/
theorem readSection_offsets_exact_iff (io : BytesReader) (ignoreChecksums : Bool)
    (pos : ℕ) :
    ((∀ next found, readSection .release io ignoreChecksums pos =
        .ok (next, found) → OffsetsExact io.content pos found) ↔
      ∀ kind, ValidSection io ignoreChecksums pos kind →
        ExactBody io.content (declaredSize io.content pos) (pos + 76) kind) ∧
    ∀ next found, readSection .dev io ignoreChecksums pos =
      .ok (next, found) → OffsetsExact io.content pos found := by
  refine ⟨⟨?_, ?_⟩, ?_⟩
  · intro hexact kind hvalid
    exact offsetsExact_iff.mp (hexact _ _
      (readSection_release_eq_ok.mpr ⟨kind, hvalid, rfl, rfl⟩))
  · intro hexact next found hread
    obtain ⟨kind, hvalid, -, rfl⟩ := readSection_release_eq_ok.mp hread
    exact offsetsExact_iff.mpr (hexact kind hvalid)
  · intro next found hread
    obtain ⟨kind, -, hexact, -, rfl⟩ := readSection_eq_ok.mp hread
    exact offsetsExact_iff.mpr (hexact rfl)

/-- A section descriptor, with zeros for its checksum. -/
def descriptorBytes (sectionType : String) (next size : ℕ) : Bytes :=
  asciiBytes sectionType ++ List.replicate (16 - sectionType.length) 0 ++
    (toBE 8 next).reverse ++ (toBE 8 size).reverse ++ List.replicate 44 0

/-- A sectors section of nearly all words. -/
def hugeSectors : BytesReader :=
  .ofBytes (firstSegment ++ descriptorBytes "sectors" 13 (wordLimit - 1))

/-- A table of one entry, based on the last word. -/
def lastWordTable : BytesReader :=
  .ofBytes (firstSegment ++ descriptorBytes "table" 13 104 ++
    [1, 0, 0, 0, 0, 0, 0, 0] ++ List.replicate 8 255 ++
    List.replicate 8 0 ++ [1, 0, 0, 0])

/-- The sectors end before they begin, and the data of the entry lie at the
beginning of the file. -/
theorem offsets_wrap :
    ¬ (∀ next found, readSection .release hugeSectors false 13 =
      .ok (next, found) → OffsetsExact hugeSectors.content 13 found) ∧
    ¬ (∀ next found, readSection .release lastWordTable true 13 =
      .ok (next, found) → OffsetsExact lastWordTable.content 13 found) := by
  constructor
  · intro hexact
    have hread : readSection .release hugeSectors false 13 =
      .ok (13, .sectors 12) := rfl
    have hend : 12 = 13 + 76 + declaredSize hugeSectors.content 13 :=
      hexact _ _ hread
    exact absurd hend (by decide)
  · intro hexact
    have hread : readSection .release lastWordTable true 13 =
      .ok (13, .table [⟨0, 0, 0, false⟩]) := by decide +kernel
    have hdata : 0 = exactOffset lastWordTable.content 89 0 :=
      hexact _ _ hread 0 _ rfl
    exact absurd hdata (by decide +kernel)

end E01
end ImageReader
