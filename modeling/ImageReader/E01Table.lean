import ImageReader.E01Sections
import Mathlib.Data.Nat.Bitwise

/-!
# Valid tables

`ValidTable` says when the bytes at a position are a table section, and
`tableChunks` which chunks it lists.  `readTable` accepts the valid tables and
no others, and returns their chunks.

In the `dev` profile an offset which is no word is a panic; `Fits` is the side
condition which leaves that case out, and holds of every sum in the `release`
profile.
-/

namespace ImageReader

/-- A sum which the profile can compute. -/
def Build.Fits (build : Build) (sum : ℕ) : Prop :=
  build = .dev → sum < wordLimit

theorem Build.fits_release (sum : ℕ) : Build.release.Fits sum :=
  fun h => Build.noConfusion h

theorem Build.add_eq_ok_iff {ε : Type} {build : Build} {a b c : ℕ} :
    (build.add a b : Outcome ε ℕ) = .ok c ↔
      build.Fits (a + b) ∧ c = (a + b) % wordLimit := by
  constructor
  · intro h
    refine ⟨?_, Build.add_eq_ok h⟩
    rintro rfl
    by_contra hlt
    simp [Build.dev_add hlt] at h
  · rintro ⟨hfits, rfl⟩
    cases build with
    | dev =>
        have hlt := hfits rfl
        rw [Build.add_of_lt hlt, Nat.mod_eq_of_lt hlt]
    | release => exact Build.release_add_mod a b

theorem BytesReader.readBytes_eq_ok {io : BytesReader} {pos len : ℕ}
    {bytes : Bytes} :
    io.readBytes pos len = .ok bytes ↔
      pos + len ≤ io.size ∧ bytes = Slice.window io.content pos len := by
  rcases Nat.lt_or_ge io.size (pos + len) with hpast | hinside
  · obtain ⟨e, he⟩ := io.readBytes_past pos len hpast
    simp [he, not_le.mpr hpast]
  · rw [io.readBytes_inside pos len hinside]
    simp [hinside, eq_comm]

namespace E01

open StreamM

/-! ## Parts with a checksum -/

/-- `len` bytes at `pos`, the last four of which are the checksum over the
others. -/
structure ValidPart (content : Bytes) (ignoreChecksums : Bool) (pos len : ℕ) :
    Prop where
  present : pos + len ≤ content.length
  checksum : ignoreChecksums = false →
    adler32 (Slice.window content pos (len - 4)) =
      (u4At content (pos + (len - 4))).toNat

section Parts

variable {build : Build} {io : BytesReader} {ignoreChecksums : Bool}
  {name sectionType : String} {pos len : ℕ}

theorem readInto_eq_ok {α : Type} {x : StreamM α} {value : Bytes → ℕ → α}
    (hx : x.Reads len value) (hlen : 0 < len) {r : α × ℕ} :
    readInto io name x pos = .ok r ↔
      pos + len ≤ io.size ∧ r = (value io.content pos, pos + len) := by
  unfold readInto
  rw [Outcome.mapError_eq_ok, Outcome.ofExcept_eq_ok]
  exact hx.eq_ok_iff hlen

theorem readU4le_eq_ok {r : UInt32 × ℕ} :
    readU4le io pos = .ok r ↔
      pos + 4 ≤ io.size ∧ r = (u4At io.content pos, pos + 4) := by
  unfold readU4le
  rw [Outcome.mapError_eq_ok, Outcome.ofExcept_eq_ok]
  exact reads_u4le.eq_ok_iff (by omega)

theorem checksumReader_eq_ok {crc : ℕ} :
    checksumReader io pos len = .ok crc ↔
      pos + len ≤ io.size ∧ crc = adler32 (Slice.window io.content pos len) := by
  unfold checksumReader
  cases hread : io.readBytes pos len with
  | ok bytes =>
      obtain ⟨hinside, rfl⟩ := BytesReader.readBytes_eq_ok.mp hread
      simp [hinside, eq_comm]
  | error e =>
      have hpast : ¬ pos + len ≤ io.size := by
        intro hinside
        simp [io.readBytes_inside pos len hinside] at hread
      simp [hpast]

theorem checksumOk_eq_ok {pos' : ℕ} {crcStored : UInt32} :
    checksumOk io sectionType pos' pos crcStored = .ok () ↔
      pos + (pos' - pos - 4) ≤ io.size ∧
        adler32 (Slice.window io.content pos (pos' - pos - 4)) =
          crcStored.toNat := by
  unfold checksumOk
  rw [Outcome.bind_eq_ok]
  constructor
  · rintro ⟨crc, hcrc, hcheck⟩
    obtain ⟨hinside, rfl⟩ := checksumReader_eq_ok.mp hcrc
    split_ifs at hcheck with heq
    exact ⟨hinside, heq⟩
  · rintro ⟨hinside, heq⟩
    exact ⟨_, checksumReader_eq_ok.mpr ⟨hinside, rfl⟩, if_pos heq⟩

/-- Reading a part and checking it succeeds exactly on the valid ones; `next`
is what is done with the part, and `rest` what comes behind the check. -/
theorem readPart_eq_ok {α β : Type} {x : StreamM α} {value : Bytes → ℕ → α}
    (checksum : α → UInt32) (hx : x.Reads len value) (hlen : 4 < len)
    (hchecksum : ∀ content pos,
      checksum (value content pos) = u4At content (pos + (len - 4)))
    {next : α × ℕ → Outcome LibError β} {rest : Outcome LibError β}
    (hnext : next (value io.content pos, pos + len) = do
      checksumUnlessIgnored io ignoreChecksums sectionType (pos + len) pos
        (checksum (value io.content pos))
      rest)
    {b : β} :
    (readInto io name x pos >>= next) = .ok b ↔
      ValidPart io.content ignoreChecksums pos len ∧ rest = .ok b := by
  have hwindow : pos + len - pos - 4 = len - 4 := by omega
  constructor
  · intro h
    obtain ⟨r, hread, h⟩ := Outcome.bind_eq_ok.mp h
    obtain ⟨hpresent, rfl⟩ := (readInto_eq_ok hx (by omega)).mp hread
    rw [hnext] at h
    obtain ⟨_, hcheck, hrest⟩ := Outcome.bind_eq_ok.mp h
    refine ⟨⟨hpresent, ?_⟩, hrest⟩
    rintro rfl
    obtain ⟨_, hcrc⟩ := checksumOk_eq_ok.mp hcheck
    rwa [hwindow, hchecksum] at hcrc
  · rintro ⟨⟨hpresent, hcrc⟩, hrest⟩
    refine Outcome.bind_eq_ok.mpr
      ⟨_, (readInto_eq_ok hx (by omega)).mpr ⟨hpresent, rfl⟩, ?_⟩
    rw [hnext]
    refine Outcome.bind_eq_ok.mpr ⟨(), ?_, hrest⟩
    cases ignoreChecksums with
    | true => rfl
    | false =>
        refine checksumOk_eq_ok.mpr ⟨?_, ?_⟩
        · rw [hwindow]
          exact le_trans (by omega) hpresent
        · rw [hwindow, hchecksum]
          exact hcrc rfl

end Parts

/-! ## Table entries -/

/-- The number of entries in the header at `pos`. -/
def entryCount (content : Bytes) (pos : ℕ) : ℕ := (u4At content pos).toNat

def tableBaseOffset (content : Bytes) (pos : ℕ) : ℕ :=
  (u8At content (pos + 8)).toNat

/-- Entry `i` of the table at `pos`. -/
def tableEntry (content : Bytes) (pos i : ℕ) : UInt32 :=
  u4At content (pos + 24 + 4 * i)

/-- The offset of the data of entry `i`, as an exact number. -/
def exactOffset (content : Bytes) (pos i : ℕ) : ℕ :=
  tableBaseOffset content pos + (tableEntry content pos i &&& 0x7fffffff).toNat

/-- The offset of the data of entry `i`, as a word. -/
def entryOffset (content : Bytes) (pos i : ℕ) : ℕ :=
  exactOffset content pos i % wordLimit

/-- The chunk of entry `i` before its end is known. -/
def openChunk (content : Bytes) (pos i : ℕ) : Chunk :=
  ⟨0, entryOffset content pos i, 0, (tableEntry content pos i).toNat.testBit 31⟩

/-- The chunk of entry `i`, which ends where the next one starts. -/
def closedChunk (content : Bytes) (pos i : ℕ) : Chunk :=
  { openChunk content pos i with endOffset := entryOffset content pos (i + 1) }

def closedChunks (content : Bytes) (pos n : ℕ) : List Chunk :=
  (List.range n).map (closedChunk content pos)

/-- The chunks of the table at `pos`. -/
def tableChunks (content : Bytes) (pos : ℕ) : List Chunk :=
  match entryCount content pos with
  | 0 => []
  | n + 1 => closedChunks content pos n ++ [openChunk content pos n]

@[simp] theorem length_closedChunks (content : Bytes) (pos n : ℕ) :
    (closedChunks content pos n).length = n := by
  simp [closedChunks]

theorem closedChunks_succ (content : Bytes) (pos n : ℕ) :
    closedChunks content pos (n + 1) =
      closedChunks content pos n ++ [closedChunk content pos n] := by
  simp [closedChunks, List.range_succ]

theorem length_tableChunks (content : Bytes) (pos : ℕ) :
    (tableChunks content pos).length = entryCount content pos := by
  unfold tableChunks
  cases entryCount content pos <;> simp

theorem getElem?_tableChunks {content : Bytes} {pos i : ℕ}
    (hi : i < entryCount content pos) :
    (tableChunks content pos)[i]? = some
      ⟨0, entryOffset content pos i,
        if i + 1 < entryCount content pos then entryOffset content pos (i + 1)
        else 0,
        (tableEntry content pos i).toNat.testBit 31⟩ := by
  unfold tableChunks
  cases hcount : entryCount content pos with
  | zero => omega
  | succ n =>
      rcases Nat.lt_or_ge i n with hlt | hge
      · rw [List.getElem?_append_left (by simpa using hlt),
          if_pos (by omega)]
        simp [closedChunks, hlt, closedChunk, openChunk]
      · obtain rfl : i = n := by omega
        rw [List.getElem?_append_right (by simp), if_neg (by omega)]
        simp [openChunk]

theorem topBit (entry : UInt32) :
    decide (entry &&& 0x80000000 > 0) = entry.toNat.testBit 31 := by
  have hand : (entry &&& 0x80000000).toNat =
      (entry.toNat.testBit 31).toNat * 2 ^ 31 := by
    rw [UInt32.toNat_and]
    exact Nat.and_two_pow entry.toNat 31
  rw [Bool.eq_iff_iff, decide_eq_true_iff]
  refine UInt32.lt_iff_toNat_lt.trans ?_
  rw [hand]
  cases entry.toNat.testBit 31 with
  | true => exact iff_of_true (by decide) rfl
  | false => exact iff_of_false (by decide) (by decide)

/-! ## Reading the entries -/

section Entries

variable {build : Build} {io : BytesReader} {pos : ℕ}

theorem readTableEntry_eq_ok {i : ℕ} {r : Chunk × ℕ} :
    readTableEntry build io (tableBaseOffset io.content pos)
        (pos + 24 + 4 * i) = .ok r ↔
      pos + 24 + 4 * (i + 1) ≤ io.size ∧
        build.Fits (exactOffset io.content pos i) ∧
        r = (openChunk io.content pos i, pos + 24 + 4 * (i + 1)) := by
  unfold readTableEntry
  constructor
  · intro h
    obtain ⟨r, hread, h⟩ := Outcome.bind_eq_ok.mp h
    obtain ⟨hinside, rfl⟩ := readU4le_eq_ok.mp hread
    obtain ⟨offset, hadd, h⟩ := Outcome.bind_eq_ok.mp h
    obtain ⟨hfits, rfl⟩ := Build.add_eq_ok_iff.mp hadd
    rw [topBit] at h
    exact ⟨hinside, hfits, (Outcome.ok.inj h).symm⟩
  · rintro ⟨hinside, hfits, rfl⟩
    refine Outcome.bind_eq_ok.mpr ⟨_, readU4le_eq_ok.mpr ⟨hinside, rfl⟩,
      Outcome.bind_eq_ok.mpr
        ⟨_, Build.add_eq_ok_iff.mpr ⟨hfits, rfl⟩, ?_⟩⟩
    rw [topBit]
    rfl

/-- The loop behind entry `k`: the entries are there, no offset lies before
its predecessor, and every chunk is closed by the next one. -/
theorem readTableEntries_eq_ok {n k : ℕ} {r : List Chunk × ℕ}
    (hstart : pos + 24 + 4 * (k + 1) ≤ io.size) :
    readTableEntries build io (tableBaseOffset io.content pos) n
        (closedChunks io.content pos k) (openChunk io.content pos k)
        (pos + 24 + 4 * (k + 1)) = .ok r ↔
      pos + 24 + 4 * (k + n + 1) ≤ io.size ∧
        (∀ i, k < i → i ≤ k + n → build.Fits (exactOffset io.content pos i)) ∧
        (∀ i, k ≤ i → i < k + n →
          entryOffset io.content pos i ≤ entryOffset io.content pos (i + 1)) ∧
        r = (closedChunks io.content pos (k + n) ++
          [openChunk io.content pos (k + n)], pos + 24 + 4 * (k + n + 1)) := by
  induction n generalizing k with
  | zero =>
      unfold readTableEntries
      constructor
      · intro h
        refine ⟨hstart, ?_, ?_, (Outcome.ok.inj h).symm⟩ <;> intro i _ _ <;> omega
      · rintro ⟨-, -, -, rfl⟩
        rfl
  | succ n ih =>
      have hshift : k + (n + 1) = k + 1 + n := by omega
      rw [hshift]
      unfold readTableEntries
      constructor
      · intro h
        obtain ⟨r', hread, h⟩ := Outcome.bind_eq_ok.mp h
        obtain ⟨hinside, hfits, rfl⟩ := readTableEntry_eq_ok.mp hread
        dsimp only at h
        split_ifs at h with hback
        have hle : entryOffset io.content pos k ≤
            entryOffset io.content pos (k + 1) := not_lt.mp hback
        obtain ⟨hend, hrest, hmono, rfl⟩ := (ih hinside).mp
          ((congrArg (readTableEntries build io _ n · _ _)
            (closedChunks_succ io.content pos k)).trans h)
        refine ⟨hend, ?_, ?_, rfl⟩
        · intro i hlt hi
          rcases Nat.eq_or_lt_of_le hlt with rfl | hlt
          · exact hfits
          · exact hrest i hlt hi
        · intro i hge hi
          rcases Nat.eq_or_lt_of_le hge with rfl | hlt
          · exact hle
          · exact hmono i hlt hi
      · rintro ⟨hend, hfits, hmono, rfl⟩
        have hinside : pos + 24 + 4 * (k + 1 + 1) ≤ io.size := by omega
        refine Outcome.bind_eq_ok.mpr ⟨_, readTableEntry_eq_ok.mpr
          ⟨hinside, hfits (k + 1) (by omega) (by omega), rfl⟩, ?_⟩
        have hforth : ¬ (openChunk io.content pos (k + 1)).dataOffset <
            (openChunk io.content pos k).dataOffset :=
          not_lt.mpr (hmono k le_rfl (by omega))
        dsimp only
        rw [if_neg hforth]
        refine (congrArg (readTableEntries build io _ n · _ _)
          (closedChunks_succ io.content pos k)).symm.trans
          ((ih hinside).mpr ⟨hend, ?_, ?_, rfl⟩)
        · exact fun i hlt hi => hfits i (by omega) hi
        · exact fun i hge hi => hmono i (by omega) hi

end Entries

/-! ## Reading a table -/

/-- A table section at `pos`. -/
structure ValidTable (content : Bytes) (ignoreChecksums : Bool) (pos : ℕ) :
    Prop where
  header : ValidPart content ignoreChecksums pos 24
  count_le : entryCount content pos ≤ MAX_TABLE_ENTRIES
  present : pos + 24 + 4 * entryCount content pos ≤ content.length
  monotone : ∀ i, i + 1 < entryCount content pos →
    entryOffset content pos i ≤ entryOffset content pos (i + 1)
  footer : ignoreChecksums = false → 0 < entryCount content pos →
    pos + 24 + 4 * entryCount content pos + 4 ≤ content.length ∧
      adler32 (Slice.window content (pos + 24) (4 * entryCount content pos)) =
        (u4At content (pos + 24 + 4 * entryCount content pos)).toNat

theorem EwfTableHeader.reads :
    EwfTableHeader.read.Reads 24 fun content pos =>
      ⟨u4At content pos, u8At content (pos + 8), u4At content (pos + 20)⟩ :=
  reads_u4le.bind fun _ => (reads_bytes 3).bind fun _ => reads_u8le.bind fun _ =>
    (reads_bytes 3).bind fun _ => reads_u4le.bind fun _ => reads_pure _

section Table

variable {build : Build} {io : BytesReader} {ignoreChecksums : Bool} {pos : ℕ}

theorem readTableFooter_eq_ok {entriesPos count : ℕ} :
    readTableFooter io entriesPos count pos = .ok () ↔
      pos + 4 ≤ io.size ∧ entriesPos + count * 4 ≤ io.size ∧
        adler32 (Slice.window io.content entriesPos (count * 4)) =
          (u4At io.content pos).toNat := by
  unfold readTableFooter
  constructor
  · intro h
    obtain ⟨_, hread, h⟩ := Outcome.bind_eq_ok.mp h
    obtain ⟨hinside, rfl⟩ := readU4le_eq_ok.mp hread
    obtain ⟨crc, hcrc, h⟩ := Outcome.bind_eq_ok.mp h
    obtain ⟨hentries, rfl⟩ := checksumReader_eq_ok.mp hcrc
    split_ifs at h with heq
    exact ⟨hinside, hentries, heq⟩
  · rintro ⟨hinside, hentries, heq⟩
    exact Outcome.bind_eq_ok.mpr ⟨_, readU4le_eq_ok.mpr ⟨hinside, rfl⟩,
      Outcome.bind_eq_ok.mpr
        ⟨_, checksumReader_eq_ok.mpr ⟨hentries, rfl⟩, if_pos heq⟩⟩

theorem unlessIgnored_eq_ok {α : Type} {check : Outcome LibError Unit}
    {a b : α} :
    (if ignoreChecksums then pure a else do
      check
      pure a) = .ok b ↔ (ignoreChecksums = false → check = .ok ()) ∧ b = a := by
  cases ignoreChecksums with
  | true => simp [eq_comm]
  | false =>
      refine Outcome.bind_eq_ok.trans ?_
      constructor
      · rintro ⟨_, hcheck, h⟩
        exact ⟨fun _ => hcheck, (Outcome.ok.inj h).symm⟩
      · rintro ⟨hcheck, rfl⟩
        exact ⟨(), hcheck rfl, rfl⟩

/-- What comes behind the header of a table with entries. -/
theorem readEntriesAndFooter_eq_ok {n : ℕ} {chunks : List Chunk} :
    (do
      let (first, pos') ← readTableEntry build io
        (tableBaseOffset io.content pos) (pos + 24)
      let (chunks, pos') ← readTableEntries build io
        (tableBaseOffset io.content pos) n [] first pos'
      if ignoreChecksums then pure chunks
      else do
        readTableFooter io (pos + 24) (n + 1) pos'
        pure chunks) = .ok chunks ↔
      pos + 24 + 4 * (n + 1) ≤ io.size ∧
        (∀ i ≤ n, build.Fits (exactOffset io.content pos i)) ∧
        (∀ i < n,
          entryOffset io.content pos i ≤ entryOffset io.content pos (i + 1)) ∧
        (ignoreChecksums = false →
          readTableFooter io (pos + 24) (n + 1) (pos + 24 + 4 * (n + 1)) =
            .ok ()) ∧
        chunks =
          closedChunks io.content pos n ++ [openChunk io.content pos n] := by
  constructor
  · intro h
    obtain ⟨_, hfirst, h⟩ := Outcome.bind_eq_ok.mp h
    obtain ⟨hinside, hfits, rfl⟩ := (readTableEntry_eq_ok (i := 0)).mp hfirst
    obtain ⟨_, hrest, h⟩ := Outcome.bind_eq_ok.mp h
    obtain ⟨hend, hfits', hmono, rfl⟩ :=
      (readTableEntries_eq_ok (k := 0) hinside).mp hrest
    simp only [Nat.zero_add] at hend hfits' hmono h
    obtain ⟨hfooter, rfl⟩ := unlessIgnored_eq_ok.mp h
    refine ⟨hend, ?_, fun i hi => hmono i i.zero_le hi, hfooter, rfl⟩
    intro i hi
    rcases Nat.eq_zero_or_pos i with rfl | hpos
    · exact hfits
    · exact hfits' i hpos hi
  · rintro ⟨hend, hfits, hmono, hfooter, rfl⟩
    have hinside : pos + 24 + 4 * (0 + 1) ≤ io.size := by omega
    refine Outcome.bind_eq_ok.mpr ⟨_, (readTableEntry_eq_ok (i := 0)).mpr
      ⟨hinside, hfits 0 n.zero_le, rfl⟩, ?_⟩
    refine Outcome.bind_eq_ok.mpr
      ⟨_, (readTableEntries_eq_ok (k := 0) hinside).mpr ⟨?_, ?_, ?_, rfl⟩, ?_⟩
    · simpa using hend
    · exact fun i _ hi => hfits i (by omega)
    · exact fun i _ hi => hmono i (by omega)
    · simp only [Nat.zero_add]
      exact unlessIgnored_eq_ok.mpr ⟨hfooter, rfl⟩

/-- A table is read exactly when it is valid and the profile can compute its
offsets. -/
theorem readTable_eq_ok {chunks : List Chunk} :
    readTable build io ignoreChecksums pos = .ok chunks ↔
      ValidTable io.content ignoreChecksums pos ∧
        (∀ i < entryCount io.content pos,
          build.Fits (exactOffset io.content pos i)) ∧
        chunks = tableChunks io.content pos := by
  unfold readTable
  refine Iff.trans (readPart_eq_ok EwfTableHeader.checksum
    EwfTableHeader.reads (by omega) (fun _ _ => rfl) rfl) ?_
  rw [show (u4At io.content pos).toNat = entryCount io.content pos from rfl,
    show (u8At io.content (pos + 8)).toNat =
      tableBaseOffset io.content pos from rfl]
  by_cases hmax : MAX_TABLE_ENTRIES < entryCount io.content pos
  · rw [if_pos hmax]
    constructor
    · rintro ⟨-, h⟩
      simp at h
    · rintro ⟨hvalid, -⟩
      exact absurd hvalid.count_le (not_le.mpr hmax)
  rw [if_neg hmax]
  have hcount_le := not_lt.mp hmax
  unfold tableChunks
  cases hcount : entryCount io.content pos with
  | zero =>
      rw [if_pos rfl]
      constructor
      · rintro ⟨hheader, h⟩
        refine ⟨⟨hheader, hcount_le, ?_, ?_, ?_⟩, ?_, (Outcome.ok.inj h).symm⟩
        · simpa [hcount] using hheader.present
        · intro i hi
          omega
        · intro _ hpos
          omega
        · intro i hi
          omega
      · rintro ⟨hvalid, -, rfl⟩
        exact ⟨hvalid.header, rfl⟩
  | succ n =>
      rw [if_neg n.succ_ne_zero]
      refine (and_congr_right' readEntriesAndFooter_eq_ok).trans ?_
      constructor
      · rintro ⟨hheader, hend, hfits, hmono, hfooter, rfl⟩
        refine ⟨⟨hheader, hcount_le, ?_, ?_, ?_⟩,
          fun i hi => hfits i (by omega), rfl⟩
        · rwa [hcount]
        · exact fun i hi => hmono i (by omega)
        · intro hchecked _
          obtain ⟨hinside, -, heq⟩ :=
            readTableFooter_eq_ok.mp (hfooter hchecked)
          rw [hcount, Nat.mul_comm 4]
          rw [Nat.mul_comm 4] at hinside heq
          exact ⟨hinside, heq⟩
      · rintro ⟨hvalid, hfits, rfl⟩
        have hpresent := hvalid.present
        have hmono := hvalid.monotone
        have hfooter := hvalid.footer
        rw [hcount] at hpresent hmono hfooter
        refine ⟨hvalid.header, hpresent, fun i hi => hfits i (by omega),
          fun i hi => hmono i (by omega), ?_, rfl⟩
        intro hchecked
        obtain ⟨hinside, heq⟩ := hfooter hchecked (by omega)
        refine readTableFooter_eq_ok.mpr ⟨hinside, ?_, ?_⟩
        · rw [Nat.mul_comm]
          exact hpresent
        · rw [Nat.mul_comm]
          exact heq

end Table

/-- `read_table` accepts exactly the valid tables, and returns one chunk for
each entry. -/
theorem readTable_exact (io : BytesReader) (ignoreChecksums : Bool) (pos : ℕ) :
    ((∃ chunks, readTable .release io ignoreChecksums pos = .ok chunks) ↔
      ValidTable io.content ignoreChecksums pos) ∧
    ∀ chunks, readTable .release io ignoreChecksums pos = .ok chunks →
      chunks.length = entryCount io.content pos ∧
      ∀ i < entryCount io.content pos, chunks[i]? = some
        ⟨0, entryOffset io.content pos i,
          if i + 1 < entryCount io.content pos then
            entryOffset io.content pos (i + 1)
          else 0,
          (tableEntry io.content pos i).toNat.testBit 31⟩ := by
  refine ⟨⟨?_, ?_⟩, ?_⟩
  · rintro ⟨chunks, h⟩
    exact (readTable_eq_ok.mp h).1
  · intro hvalid
    exact ⟨_, readTable_eq_ok.mpr
      ⟨hvalid, fun _ _ => Build.fits_release _, rfl⟩⟩
  · intro chunks h
    obtain ⟨-, -, rfl⟩ := readTable_eq_ok.mp h
    exact ⟨length_tableChunks io.content pos,
      fun _ hi => getElem?_tableChunks hi⟩

end E01
end ImageReader
