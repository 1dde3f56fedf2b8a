import ImageReader.VmdkHeader

/-!
# Grain tables

The grains of a sparse extent are found through two levels of tables.  The
code never divides a grain index: it walks over the entries of level 1 with a
running grain counter, which it advances by the length of a level 2 table
whether the table is there or not.  `walkTables` is that loop for both kinds of
sparse files; a `TableFormat` says what they do differently.

The result is described by indices: grain `g` is entry `g % l2Len` of the table
which entry `g / l2Len` of level 1 points at.
-/

namespace ImageReader
namespace Vmdk

abbrev GrainTable := AList fun _ : ℕ => ℕ

/-- Entry number `i` of a table of little-endian numbers at `pos`. -/
def entryAt (file : BackingFile) (width pos i : ℕ) : ℕ :=
  fromLE (Slice.window file.content (pos + i * width) width)

/-- `(0..count).map(|_| src.read()).collect()?` with the cursor at `pos`. -/
def collectEntries (file : BackingFile) (width : ℕ)
    (entry : ℕ → Outcome OpenIoError ℕ) :
    ℕ → ℕ → Outcome OpenIoError (List ℕ)
  | _, 0 => .ok []
  | pos, count + 1 => do
      let bytes ← openIo (file.readExact pos width)
      let e ← entry (fromLE bytes)
      let rest ← collectEntries file width entry (pos + width) count
      pure (e :: rest)

/-- What the two kinds of sparse files do with the entries of their tables. -/
structure TableFormat where
  /-- the bytes of an entry -/
  width : ℕ
  /-- where the level 2 table of a level 1 entry is -/
  l2Offset : ℕ → Outcome OpenIoError ℕ
  /-- the sector of the grain, unless the grain is in the parent -/
  decode : ℕ → Outcome OpenIoError (Option ℕ)

/-- The entries of one level 2 table enter the map, from grain `curGrain`
on. -/
def enterGrains (build : Build) (format : TableFormat) (curGrain : ℕ) :
    List ℕ → ℕ → GrainTable → Outcome OpenIoError GrainTable
  | [], _, table => .ok table
  | e :: rest, i, table => do
      match ← format.decode e with
      | none => enterGrains build format curGrain rest (i + 1) table
      | some sector =>
          let key ← build.add curGrain i
          enterGrains build format curGrain rest (i + 1)
            (table.insert key sector)

/-- The level 2 table of one level 1 entry enters the map; without a table
the grains are in the parent. -/
def enterTable (build : Build) (file : BackingFile) (format : TableFormat)
    (curGrain len l1Entry : ℕ) (table : GrainTable) :
    Outcome OpenIoError GrainTable :=
  if l1Entry = 0 then .ok table
  else do
    let pos ← format.l2Offset l1Entry
    openIo (file.seek pos)
    let entries ← collectEntries file format.width .ok pos len
    enterGrains build format curGrain entries 0 table

/-- The loop over the entries of level 1. -/
def walkTables (build : Build) (file : BackingFile) (format : TableFormat)
    (l2Len totalGrains : ℕ) :
    List ℕ → ℕ → GrainTable → Outcome OpenIoError GrainTable
  | [], _, table => .ok table
  | l1Entry :: rest, curGrain, table =>
      -- with every grain mapped the entries left over are not looked at
      if totalGrains ≤ curGrain then .ok table
      else do
        let left ← build.sub totalGrains curGrain
        let len := min l2Len left
        let table ← enterTable build file format curGrain len l1Entry table
        let curGrain ← build.add curGrain len
        walkTables build file format l2Len totalGrains rest curGrain table

/-! ## The two formats -/

/-- COWD and VMDK4: level 1 holds sectors, which are bytes by the time they
are walked over, and entry 0 of level 2 is a grain in the parent. -/
def sparseFormat : TableFormat where
  width := 4
  l2Offset := .ok
  decode := fun e => .ok (if e = 0 then none else some e)

def readGrainTableSparse (build : Build) (h : VmdkSparseMeta)
    (file : BackingFile) : Outcome OpenIoError GrainTable := do
  openIo (file.seek h.l1Offset)
  let l1Entries ← collectEntries file 4 (fun e => build.mul e SECTOR_SIZE)
    h.l1Offset h.l1Len
  let totalGrains ← Build.divCeil h.sectors h.clusterSectors
  walkTables build file sparseFormat h.l2Len totalGrains l1Entries 0 ∅

/-- The high nibble of an entry. -/
def highNibble (e : ℕ) : ℕ := e &&& 0xF000000000000000

/-- The index of a grain in a SESPARSE entry; its parts are stored swapped. -/
def seSparseIndex (e : ℕ) : ℕ :=
  (e &&& 0x0FFF000000000000) >>> 48 ||| (e &&& 0x0000FFFFFFFFFFFF) <<< 12

/-- SESPARSE: level 1 holds indices of level 2 tables, level 2 indices of
grains, and the high nibbles say what is allocated. -/
def seSparseFormat (build : Build) (h : VmdkSeSparseMeta) (l2Size : ℕ) :
    TableFormat where
  width := 8
  l2Offset := fun e =>
    if highNibble e ≠ 0x1000000000000000 then .error .badL1Entry
    else do
      let rel ← build.mul (e &&& 0x0FFFFFFFFFFFFFFF) l2Size
      build.add h.l2TablesOffset rel
  decode := fun e =>
    if e = 0 then .ok none
    else if highNibble e = 0x1000000000000000 ∨
        highNibble e = 0x2000000000000000 then
      -- a zeroed grain
      .ok (some 1)
    else if highNibble e = 0x3000000000000000 then do
      let rel ← build.mul (seSparseIndex e) h.clusterSectors
      let sector ← build.add h.clustersOffset rel
      pure (some sector)
    else .error .badL2Entry

def readGrainTableSeSparse (build : Build) (h : VmdkSeSparseMeta)
    (file : BackingFile) : Outcome OpenIoError GrainTable := do
  openIo (file.seek h.l1Offset)
  let l1Entries ← collectEntries file 8 .ok h.l1Offset h.l1Len
  let totalGrains ← Build.divCeil h.sectors h.clusterSectors
  let l2Size ← build.mul h.l2Len 8
  walkTables build file (seSparseFormat build h l2Size) h.l2Len totalGrains
    l1Entries 0 ∅

/-! ## Collecting entries -/

/-- The outcome of a failing store. -/
def StoreFails {α : Type} (file : BackingFile)
    (outcome : Outcome OpenIoError α) : Prop :=
  ∃ pos len code, file.fault pos len = some code ∧
    outcome = .error (.source (.backing code))

section Tables

variable {file : BackingFile} {width pos : ℕ}
  {entry : ℕ → Outcome OpenIoError ℕ}

theorem StoreFails.bind {α β : Type} {x : Outcome OpenIoError α}
    (h : StoreFails file x) (f : α → Outcome OpenIoError β) :
    StoreFails file (x >>= f) := by
  obtain ⟨pos, len, code, hfault, rfl⟩ := h
  exact ⟨pos, len, code, hfault, rfl⟩

theorem openIo_readExact (h : pos + width ≤ file.content.length) :
    openIo (file.readExact pos width) =
        .ok (Slice.window file.content pos width) ∨
      StoreFails file (openIo (file.readExact pos width)) := by
  rcases BackingFile.readExact_cases h with hread | ⟨code, hfault, hread⟩
  · rw [hread]
    exact Or.inl rfl
  · rw [hread]
    exact Or.inr ⟨pos, width, code, hfault, rfl⟩

theorem openIo_seek (h : pos ≤ file.content.length) :
    openIo (file.seek pos) = .ok () := by
  unfold BackingFile.seek
  rw [if_pos h]
  rfl

theorem entryAt_zero (file : BackingFile) (width pos : ℕ) :
    entryAt file width pos 0 = fromLE (Slice.window file.content pos width) := by
  simp [entryAt]

theorem entryAt_succ (file : BackingFile) (width pos i : ℕ) :
    entryAt file width pos (i + 1) = entryAt file width (pos + width) i := by
  have hpos : pos + (i + 1) * width = pos + width + i * width := by ring
  rw [entryAt, entryAt, hpos]

/-- The entries which a table delivers. -/
theorem collectEntries_ok {count : ℕ} {es : List ℕ}
    (h : collectEntries file width entry pos count = .ok es) :
    es.length = count ∧
      ∀ i < count, ∃ e, es[i]? = some e ∧
        entry (entryAt file width pos i) = .ok e := by
  induction count generalizing pos es with
  | zero =>
      obtain rfl : [] = es := by simpa [collectEntries] using h
      simp
  | succ count ih =>
      unfold collectEntries at h
      obtain ⟨bytes, hread, h⟩ := Outcome.bind_eq_ok.mp h
      obtain ⟨e, hentry, h⟩ := Outcome.bind_eq_ok.mp h
      obtain ⟨rest, hrest, h⟩ := Outcome.bind_eq_ok.mp h
      obtain rfl : e :: rest = es := by simpa using h
      obtain ⟨hlen, hmem⟩ := ih hrest
      refine ⟨by simp [hlen], ?_⟩
      intro i hi
      cases i with
      | zero =>
          have hbytes : bytes = Slice.window file.content pos width :=
            BackingFile.eq_window_of_readExact (openIo_eq_ok.mp hread)
          refine ⟨e, rfl, ?_⟩
          rw [entryAt_zero, ← hbytes]
          exact hentry
      | succ i =>
          rw [entryAt_succ, List.getElem?_cons_succ]
          exact hmem i (by omega)

/-- A table inside the file is read, unless the store fails. -/
theorem collectEntries_returns (entry : ℕ → Outcome OpenIoError ℕ)
    {count : ℕ}
    (hfits : pos + count * width ≤ file.content.length)
    (hentry : ∀ i < count, ∃ e, entry (entryAt file width pos i) = .ok e) :
    (∃ es, collectEntries file width entry pos count = .ok es) ∨
      StoreFails file (collectEntries file width entry pos count) := by
  induction count generalizing pos with
  | zero => exact Or.inl ⟨[], rfl⟩
  | succ count ih =>
      rw [Nat.add_mul, Nat.one_mul] at hfits
      unfold collectEntries
      have hone : pos + width ≤ file.content.length := by omega
      rcases openIo_readExact hone with hread | hfail
      · rw [hread, Outcome.ok_bind]
        obtain ⟨e, he⟩ := hentry 0 (Nat.succ_pos count)
        rw [entryAt_zero] at he
        rw [he, Outcome.ok_bind]
        have hrest : ∀ i < count,
            ∃ e, entry (entryAt file width (pos + width) i) = .ok e := by
          intro i hi
          rw [← entryAt_succ]
          exact hentry (i + 1) (by omega)
        rcases ih (by omega) hrest with ⟨es, hes⟩ | hfail
        · rw [hes]
          exact Or.inl ⟨e :: es, rfl⟩
        · exact Or.inr (hfail.bind _)
      · exact Or.inr (hfail.bind _)

end Tables

/-! ## The walk over level 1 -/

/-- Grain `g` is at sector `v`, as the entries of level 1 and the level 2
tables they point at say. -/
def InTables (file : BackingFile) (format : TableFormat)
    (l2Len totalGrains : ℕ) (l1Entries : List ℕ) (g v : ℕ) : Prop :=
  g < totalGrains ∧ ∃ l1Entry, l1Entries[g / l2Len]? = some l1Entry ∧
    l1Entry ≠ 0 ∧ ∃ pos, format.l2Offset l1Entry = .ok pos ∧
      format.decode (entryAt file format.width pos (g % l2Len)) =
        .ok (some v)

/-- The part of a level 2 table which is needed can be read and decoded. -/
def TableReadable (file : BackingFile) (format : TableFormat)
    (len l1Entry : ℕ) : Prop :=
  ∃ pos, format.l2Offset l1Entry = .ok pos ∧
    pos + len * format.width ≤ file.content.length ∧
    ∀ j < len, ∃ r, format.decode (entryAt file format.width pos j) = .ok r

section Walk

variable {build : Build} {file : BackingFile} {format : TableFormat}
  {curGrain l2Len totalGrains : ℕ} {table table' : GrainTable}

theorem decoded_cons_iff {e : ℕ} {r : Option ℕ}
    (hdecode : format.decode e = .ok r) (rest : List ℕ) (k g v : ℕ) :
    (∃ j e', (e :: rest)[j]? = some e' ∧
      format.decode e' = .ok (some v) ∧ g = k + j) ↔
      (r = some v ∧ g = k) ∨ ∃ j e', rest[j]? = some e' ∧
        format.decode e' = .ok (some v) ∧ g = k + 1 + j := by
  constructor
  · rintro ⟨j, e', hget, hdec, hg⟩
    cases j with
    | zero =>
        obtain rfl : e = e' := by simpa using hget
        left
        exact ⟨by simpa [hdecode] using hdec, hg⟩
    | succ j => exact Or.inr ⟨j, e', hget, hdec, by omega⟩
  · rintro (⟨rfl, hg⟩ | ⟨j, e', hget, hdec, hg⟩)
    · exact ⟨0, e, rfl, hdecode, hg⟩
    · exact ⟨j + 1, e', hget, hdec, by omega⟩

theorem lookup_insert_fresh {k : ℕ} (hfresh : ∀ v, table.lookup k ≠ some v)
    (sector g v : ℕ) :
    (table.insert k sector).lookup g = some v ↔
      table.lookup g = some v ∨ some sector = some v ∧ g = k := by
  by_cases hg : g = k
  · subst hg
    simp [AList.lookup_insert, hfresh v]
  · rw [AList.lookup_insert_ne hg]
    simp [hg]

theorem enterGrains_ok {es : List ℕ} {i : ℕ}
    (hbelow : ∀ g v, table.lookup g = some v → g < curGrain + i)
    (hword : curGrain + i + es.length < wordLimit)
    (h : enterGrains build format curGrain es i table = .ok table') (g v : ℕ) :
    table'.lookup g = some v ↔
      table.lookup g = some v ∨
        ∃ j e, es[j]? = some e ∧ format.decode e = .ok (some v) ∧
          g = curGrain + i + j := by
  induction es generalizing i table with
  | nil =>
      obtain rfl : table = table' := by simpa [enterGrains] using h
      simp
  | cons e rest ih =>
      rw [List.length_cons] at hword
      unfold enterGrains at h
      obtain ⟨r, hdecode, h⟩ := Outcome.bind_eq_ok.mp h
      rw [decoded_cons_iff hdecode]
      cases r with
      | none =>
          have hbelow' : ∀ g v, table.lookup g = some v →
              g < curGrain + (i + 1) := by
            intro g v hlookup
            have := hbelow g v hlookup
            omega
          rw [ih hbelow' (by omega) h]
          simp [Nat.add_assoc]
      | some sector =>
          simp only at h
          rw [Build.add_of_lt (by omega), Outcome.ok_bind] at h
          have hfresh : ∀ v, table.lookup (curGrain + i) ≠ some v := by
            intro v hlookup
            have := hbelow _ v hlookup
            omega
          have hbelow' : ∀ g v,
              (table.insert (curGrain + i) sector).lookup g = some v →
                g < curGrain + (i + 1) := by
            intro g v hlookup
            rcases (lookup_insert_fresh hfresh sector g v).mp hlookup with
              hold | ⟨-, rfl⟩
            · have := hbelow g v hold
              omega
            · omega
          rw [ih hbelow' (by omega) h, lookup_insert_fresh hfresh, or_assoc,
            Nat.add_assoc curGrain i 1]

theorem enterGrains_returns {es : List ℕ} {i : ℕ}
    (hword : curGrain + i + es.length < wordLimit)
    (hdecode : ∀ e ∈ es, ∃ r, format.decode e = .ok r) :
    ∃ table', enterGrains build format curGrain es i table = .ok table' := by
  induction es generalizing i table with
  | nil => exact ⟨table, rfl⟩
  | cons e rest ih =>
      rw [List.length_cons] at hword
      have hrest : ∀ e ∈ rest, ∃ r, format.decode e = .ok r :=
        fun e' he' => hdecode e' (List.mem_cons_of_mem _ he')
      obtain ⟨r, hr⟩ := hdecode e List.mem_cons_self
      unfold enterGrains
      rw [hr, Outcome.ok_bind]
      cases r with
      | none => exact ih (by omega) hrest
      | some sector =>
          simp only
          rw [Build.add_of_lt (by omega), Outcome.ok_bind]
          exact ih (by omega) hrest

/-- The map holds the grains below `bound`, and no others. -/
def MappedBelow (file : BackingFile) (format : TableFormat)
    (l2Len totalGrains : ℕ) (l1Entries : List ℕ) (bound : ℕ)
    (table : GrainTable) : Prop :=
  ∀ g v, table.lookup g = some v ↔
    g < bound ∧ InTables file format l2Len totalGrains l1Entries g v

theorem div_mod_of_table {n size g : ℕ} (hle : n * size ≤ g)
    (hlt : g < n * size + size) : g / size = n ∧ g % size = g - n * size := by
  have hdiv : g / size = n := by
    rw [Nat.div_eq_iff (by omega)]
    omega
  refine ⟨hdiv, ?_⟩
  have := Nat.div_add_mod' g size
  rw [hdiv] at this
  omega

/-- Entry `n` of level 1 extends the map by the grains of its table. -/
theorem enterTable_ok {l1Entries : List ℕ} {n l1Entry : ℕ}
    (hentry : l1Entries[n]? = some l1Entry)
    (hstart : n * l2Len < totalGrains) (hword : totalGrains < wordLimit)
    (hmapped : MappedBelow file format l2Len totalGrains l1Entries
      (n * l2Len) table)
    (h : enterTable build file format (n * l2Len)
      (min l2Len (totalGrains - n * l2Len)) l1Entry table = .ok table') :
    MappedBelow file format l2Len totalGrains l1Entries
      (n * l2Len + min l2Len (totalGrains - n * l2Len)) table' := by
  set len := min l2Len (totalGrains - n * l2Len) with hlen
  have hmin : len ≤ l2Len := Nat.min_le_left _ _
  have hleft : len ≤ totalGrains - n * l2Len := Nat.min_le_right _ _
  unfold enterTable at h
  by_cases hzero : l1Entry = 0
  · rw [if_pos hzero] at h
    obtain rfl : table = table' := by simpa using h
    intro g v
    rw [hmapped g v]
    constructor
    · rintro ⟨hg, hin⟩
      exact ⟨by omega, hin⟩
    · rintro ⟨hg, hin⟩
      refine ⟨?_, hin⟩
      by_contra hge
      obtain ⟨_, l1, hl1, hne, _⟩ := hin
      rw [(div_mod_of_table (n := n) (by omega) (by omega)).1, hentry] at hl1
      exact hne (by rw [← Option.some.inj hl1]; exact hzero)
  · rw [if_neg hzero] at h
    obtain ⟨pos, hpos, h⟩ := Outcome.bind_eq_ok.mp h
    obtain ⟨_, _, h⟩ := Outcome.bind_eq_ok.mp h
    obtain ⟨entries, hcollect, h⟩ := Outcome.bind_eq_ok.mp h
    obtain ⟨hcount, hentries⟩ := collectEntries_ok hcollect
    have hbelow : ∀ g v, table.lookup g = some v → g < n * l2Len + 0 :=
      fun g v hlookup => ((hmapped g v).mp hlookup).1
    have henter := enterGrains_ok hbelow (by omega) h
    -- the grains of this table, by their place in it
    have hhere : ∀ g v, n * l2Len ≤ g → g < n * l2Len + len →
        (InTables file format l2Len totalGrains l1Entries g v ↔
          format.decode (entryAt file format.width pos (g - n * l2Len)) =
            .ok (some v)) := by
      intro g v hge hlt
      obtain ⟨hdiv, hmod⟩ := div_mod_of_table hge (by omega)
      unfold InTables
      rw [hdiv, hmod, hentry]
      constructor
      · rintro ⟨_, l1, hl1, _, pos', hpos', hdec⟩
        obtain rfl := Option.some.inj hl1
        obtain rfl : pos = pos' := by simpa [hpos] using hpos'
        exact hdec
      · intro hdec
        exact ⟨by omega, l1Entry, rfl, hzero, pos, hpos, hdec⟩
    intro g v
    rw [henter g v, hmapped g v, Nat.add_zero]
    constructor
    · rintro (⟨hg, hin⟩ | ⟨j, e, hget, hdec, rfl⟩)
      · exact ⟨by omega, hin⟩
      · have hj : j < len := by
          rw [← hcount]
          exact (List.getElem?_eq_some_iff.mp hget).1
        obtain ⟨e', hget', hread⟩ := hentries j hj
        obtain rfl : e = e' := by simpa [hget] using hget'
        refine ⟨by omega, (hhere _ v (by omega) (by omega)).mpr ?_⟩
        rw [Nat.add_sub_cancel_left, Outcome.ok.inj hread]
        exact hdec
    · rintro ⟨hg, hin⟩
      by_cases hlow : g < n * l2Len
      · exact Or.inl ⟨hlow, hin⟩
      · obtain ⟨e, hget, hread⟩ := hentries (g - n * l2Len) (by omega)
        have hdec := (hhere g v (by omega) hg).mp hin
        rw [Outcome.ok.inj hread] at hdec
        exact Or.inr ⟨g - n * l2Len, e, hget, hdec, by omega⟩

/-- Where the counter stands behind `n` entries of level 1. -/
theorem counter_step {n : ℕ} (hstart : n * l2Len < totalGrains) :
    n * l2Len + min l2Len (totalGrains - n * l2Len) =
      min ((n + 1) * l2Len) totalGrains := by
  rw [Nat.add_mul, Nat.one_mul]
  omega

theorem walkTables_ok {before rest : List ℕ} (hl2 : 0 < l2Len)
    (hword : totalGrains < wordLimit)
    (hmapped : MappedBelow file format l2Len totalGrains (before ++ rest)
      (min (before.length * l2Len) totalGrains) table)
    (h : walkTables build file format l2Len totalGrains rest
      (min (before.length * l2Len) totalGrains) table = .ok table') (g v : ℕ) :
    table'.lookup g = some v ↔
      InTables file format l2Len totalGrains (before ++ rest) g v := by
  induction rest generalizing before table with
  | nil =>
      obtain rfl : table = table' := by simpa [walkTables] using h
      rw [hmapped g v, and_iff_right_iff_imp, List.append_nil]
      rintro ⟨hg, l1, hl1, _⟩
      have hindex := (List.getElem?_eq_some_iff.mp hl1).1
      rw [Nat.div_lt_iff_lt_mul hl2] at hindex
      omega
  | cons l1Entry rest ih =>
      unfold walkTables at h
      by_cases hdone : totalGrains ≤ before.length * l2Len
      · rw [if_pos (by omega)] at h
        obtain rfl : table = table' := by simpa using h
        rw [hmapped g v, and_iff_right_iff_imp]
        rintro ⟨hg, _⟩
        omega
      · have hcur : min (before.length * l2Len) totalGrains =
            before.length * l2Len := by omega
        rw [hcur] at h hmapped
        rw [if_neg (by omega), Build.sub_of_le (by omega),
          Outcome.ok_bind] at h
        obtain ⟨table₁, henter, h⟩ := Outcome.bind_eq_ok.mp h
        have hentry : (before ++ l1Entry :: rest)[before.length]? =
            some l1Entry := by simp
        have hmapped₁ := enterTable_ok hentry (by omega) hword hmapped henter
        have hstep : before.length * l2Len +
            min l2Len (totalGrains - before.length * l2Len) =
              min ((before ++ [l1Entry]).length * l2Len) totalGrains := by
          rw [counter_step (by omega), List.length_append, List.length_singleton]
        rw [Build.add_of_lt (by omega), Outcome.ok_bind, hstep] at h
        rw [hstep] at hmapped₁
        have hsplit : before ++ l1Entry :: rest =
            before ++ [l1Entry] ++ rest := by simp
        rw [hsplit] at hmapped₁ ⊢
        exact ih hmapped₁ h

theorem walkTables_start_ok {entries : List ℕ} (hl2 : 0 < l2Len)
    (hword : totalGrains < wordLimit)
    (h : walkTables build file format l2Len totalGrains entries 0 ∅ =
      .ok table) (g v : ℕ) :
    table.lookup g = some v ↔
      InTables file format l2Len totalGrains entries g v := by
  have hempty : MappedBelow file format l2Len totalGrains ([] ++ entries)
      (min (([] : List ℕ).length * l2Len) totalGrains) ∅ := by
    intro g v
    simp
  apply walkTables_ok hl2 hword hempty
  rw [List.length_nil, Nat.zero_mul, Nat.zero_min]
  exact h

/-- The walk returns where every table it needs can be read. -/
theorem walkTables_returns (build : Build) (table : GrainTable)
    {rest : List ℕ} {n : ℕ}
    (hword : totalGrains < wordLimit)
    (hready : ∀ i l1Entry, rest[i]? = some l1Entry →
      (n + i) * l2Len < totalGrains → l1Entry ≠ 0 →
        TableReadable file format
          (min l2Len (totalGrains - (n + i) * l2Len)) l1Entry) :
    (∃ table', walkTables build file format l2Len totalGrains rest
        (min (n * l2Len) totalGrains) table = .ok table') ∨
      StoreFails file (walkTables build file format l2Len totalGrains rest
        (min (n * l2Len) totalGrains) table) := by
  induction rest generalizing n table with
  | nil => exact Or.inl ⟨table, rfl⟩
  | cons l1Entry rest ih =>
      unfold walkTables
      by_cases hdone : totalGrains ≤ n * l2Len
      · rw [if_pos (by omega)]
        exact Or.inl ⟨table, rfl⟩
      · have hcur : min (n * l2Len) totalGrains = n * l2Len := by omega
        rw [hcur, if_neg (by omega), Build.sub_of_le (by omega),
          Outcome.ok_bind]
        simp only
        set len := min l2Len (totalGrains - n * l2Len) with hlen
        have htable : (∃ table', enterTable build file format (n * l2Len) len
            l1Entry table = .ok table') ∨
            StoreFails file (enterTable build file format (n * l2Len) len
              l1Entry table) := by
          unfold enterTable
          by_cases hzero : l1Entry = 0
          · exact Or.inl ⟨table, if_pos hzero⟩
          · rw [if_neg hzero]
            obtain ⟨pos, hpos, hfits, hdecode⟩ :=
              hready 0 l1Entry rfl (by simpa using hdone) hzero
            rw [Nat.add_zero, ← hlen] at hfits hdecode
            rw [hpos, Outcome.ok_bind, openIo_seek (by omega), Outcome.ok_bind]
            rcases collectEntries_returns .ok hfits
              (fun i _ => ⟨_, rfl⟩) with ⟨es, hes⟩ | hfail
            · left
              rw [hes, Outcome.ok_bind]
              obtain ⟨hcount, hentries⟩ := collectEntries_ok hes
              apply enterGrains_returns (by omega)
              intro e he
              obtain ⟨j, hj⟩ := List.mem_iff_getElem?.mp he
              have hjlt := (List.getElem?_eq_some_iff.mp hj).1
              obtain ⟨e', hget, hread⟩ := hentries j (by omega)
              obtain rfl : e = e' := by simpa [hj] using hget
              rw [← Outcome.ok.inj hread]
              exact hdecode j (by omega)
            · exact Or.inr (hfail.bind _)
        rcases htable with ⟨table₁, htable⟩ | hfail
        · rw [htable, Outcome.ok_bind, Build.add_of_lt (by omega),
            Outcome.ok_bind, hlen, counter_step (by omega)]
          apply ih
          intro i e hget hstart hne
          have := hready (i + 1) e hget (by rwa [← Nat.add_assoc,
            Nat.add_right_comm])
          rw [← Nat.add_assoc, Nat.add_right_comm] at this
          exact this hne
        · exact Or.inr (hfail.bind _)

end Walk

/-! ## COWD and VMDK4 -/

namespace VmdkSparseMeta

variable (m : VmdkSparseMeta) (file : BackingFile)

/-- The header of some file has been converted to `m`. -/
def Accepted : Prop :=
  ∃ build, (∃ h : Vmdk3Header, h.toMeta build = .ok m) ∨
    ∃ h : Vmdk4Header, h.toMeta build = .ok m

def totalGrains : ℕ := (m.sectors + (m.clusterSectors - 1)) / m.clusterSectors

/-- Entry number `i` of level 1: the sector of a level 2 table, or 0. -/
def l1Entry (i : ℕ) : ℕ := entryAt file 4 m.l1Offset i

/-- Grain `g` is at sector `v`, as the two levels of tables say. -/
def GrainAt (g v : ℕ) : Prop :=
  g < m.totalGrains ∧ g / m.l2Len < m.l1Len ∧
    m.l1Entry file (g / m.l2Len) ≠ 0 ∧ v ≠ 0 ∧
    entryAt file 4 (SECTOR_SIZE * m.l1Entry file (g / m.l2Len))
      (g % m.l2Len) = v

/-- The file holds the entries which are read. -/
structure LongEnough : Prop where
  l1 : m.l1Offset + m.l1Len * 4 ≤ file.content.length
  l2 : ∀ i < m.l1Len, i * m.l2Len < m.totalGrains →
    m.l1Entry file i ≠ 0 →
      SECTOR_SIZE * m.l1Entry file i +
        min m.l2Len (m.totalGrains - i * m.l2Len) * 4 ≤ file.content.length

variable {m file}

theorem Accepted.bounded (h : m.Accepted) : m.Bounded := by
  obtain ⟨build, ⟨h3, hmeta⟩ | ⟨h4, hmeta⟩⟩ := h
  · exact (h3.toMeta_ok hmeta).1
  · exact (h4.toMeta_ok hmeta).1

theorem Bounded.totalGrains_lt (h : m.Bounded) (hpos : 0 < m.clusterSectors) :
    m.totalGrains < wordLimit := by
  have hle : m.totalGrains ≤ m.sectors := by
    unfold totalGrains
    rw [Nat.div_le_iff_le_mul_add_pred hpos]
    have := Nat.le_mul_of_pos_left m.sectors hpos
    omega
  have := h.sectors_lt
  omega

end VmdkSparseMeta

section Sparse

variable {build : Build} {m : VmdkSparseMeta} {file : BackingFile}

theorem entryAt_four_lt (file : BackingFile) (pos i : ℕ) :
    entryAt file 4 pos i < 2 ^ 32 := by
  have hbytes := fromBE_lt (Slice.window file.content (pos + i * 4) 4).reverse
  have hlen : (Slice.window file.content (pos + i * 4) 4).reverse.length ≤ 4 := by
    rw [List.length_reverse, Slice.length_window]
    omega
  have hpow : 256 ^ (Slice.window file.content (pos + i * 4) 4).reverse.length ≤
      256 ^ 4 := Nat.pow_le_pow_right (by decide) hlen
  unfold entryAt fromLE
  omega

/-- The entries of level 1 as bytes: a `u32` of sectors is a word of bytes. -/
theorem mul_entryAt (build : Build) (file : BackingFile) (pos i : ℕ) :
    (build.mul (entryAt file 4 pos i) SECTOR_SIZE : Outcome OpenIoError ℕ) =
      .ok (entryAt file 4 pos i * SECTOR_SIZE) := by
  apply Build.mul_of_lt
  have hlt := entryAt_four_lt file pos i
  rw [sectorSize_eq, wordLimit_eq]
  omega

theorem inTables_sparse {entries : List ℕ} (hcount : entries.length = m.l1Len)
    (hentries : ∀ i < m.l1Len,
      entries[i]? = some (m.l1Entry file i * SECTOR_SIZE)) (g v : ℕ) :
    InTables file sparseFormat m.l2Len m.totalGrains entries g v ↔
      m.GrainAt file g v := by
  have hdecode : ∀ e, sparseFormat.decode e = .ok (some v) ↔
      e ≠ 0 ∧ e = v := by
    intro e
    unfold sparseFormat
    by_cases he : e = 0
    · simp [he]
    · simp [he]
  constructor
  · rintro ⟨hg, l1, hl1, hne, pos, hpos, hdec⟩
    have hindex : g / m.l2Len < m.l1Len := by
      rw [← hcount]
      exact (List.getElem?_eq_some_iff.mp hl1).1
    obtain rfl := Option.some.inj ((hentries _ hindex).symm.trans hl1)
    obtain rfl : m.l1Entry file (g / m.l2Len) * SECTOR_SIZE = pos :=
      Outcome.ok.inj hpos
    obtain ⟨hv, rfl⟩ := (hdecode _).mp hdec
    refine ⟨hg, hindex, Nat.ne_zero_of_mul_ne_zero_left hne, hv, ?_⟩
    rw [Nat.mul_comm]
    rfl
  · rintro ⟨hg, hindex, hne, hv, rfl⟩
    refine ⟨hg, _, hentries _ hindex,
      Nat.mul_ne_zero hne (by norm_num), _, rfl, (hdecode _).mpr ?_⟩
    rw [Nat.mul_comm SECTOR_SIZE] at hv ⊢
    exact ⟨hv, rfl⟩

theorem entries_sparse {entries : List ℕ} {count : ℕ}
    (hcollect : collectEntries file 4 (fun e => build.mul e SECTOR_SIZE)
      m.l1Offset count = .ok entries) :
    entries.length = count ∧
      ∀ i < count, entries[i]? = some (m.l1Entry file i * SECTOR_SIZE) := by
  obtain ⟨hcount, hmem⟩ := collectEntries_ok hcollect
  refine ⟨hcount, ?_⟩
  intro i hi
  obtain ⟨e, hget, he⟩ := hmem i hi
  rw [mul_entryAt] at he
  rw [hget, ← Outcome.ok.inj he]
  rfl

/-- A grain table which is read says what the two levels of tables say. -/
theorem readGrainTableSparse_lookup {table : GrainTable}
    (hbounded : m.Bounded)
    (hread : readGrainTableSparse build m file = .ok table) :
    0 < m.clusterSectors ∧
      ∀ g v, table.lookup g = some v ↔ m.GrainAt file g v := by
  unfold readGrainTableSparse at hread
  obtain ⟨_, _, hread⟩ := Outcome.bind_eq_ok.mp hread
  obtain ⟨entries, hcollect, hread⟩ := Outcome.bind_eq_ok.mp hread
  obtain ⟨total, htotal, hread⟩ := Outcome.bind_eq_ok.mp hread
  have hpos : 0 < m.clusterSectors := by
    by_contra hzero
    unfold Build.divCeil at htotal
    rw [if_pos (by omega)] at htotal
    simp at htotal
  rw [Build.divCeil_of_pos hpos] at htotal
  obtain rfl : m.totalGrains = total := Outcome.ok.inj htotal
  obtain ⟨hcount, hentries⟩ := entries_sparse hcollect
  refine ⟨hpos, ?_⟩
  intro g v
  rw [← inTables_sparse hcount hentries]
  exact walkTables_start_ok hbounded.l2Len_pos (hbounded.totalGrains_lt hpos)
    hread g v

/-- The table is read where the file is long enough, unless the store
fails. -/
theorem readGrainTableSparse_returns (build : Build) (hbounded : m.Bounded)
    (hpos : 0 < m.clusterSectors) (hlong : m.LongEnough file) :
    (∃ table, readGrainTableSparse build m file = .ok table) ∨
      StoreFails file (readGrainTableSparse build m file) := by
  have hword := hbounded.totalGrains_lt hpos
  have hl1 := hlong.l1
  unfold readGrainTableSparse
  rw [openIo_seek (by omega), Outcome.ok_bind]
  rcases collectEntries_returns (fun e => build.mul e SECTOR_SIZE) hl1
    (fun i _ => ⟨_, mul_entryAt build file m.l1Offset i⟩) with
    ⟨entries, hcollect⟩ | hfail
  · rw [hcollect, Outcome.ok_bind, Build.divCeil_of_pos hpos, Outcome.ok_bind]
    obtain ⟨hcount, hentries⟩ := entries_sparse hcollect
    have hready : ∀ i l1, entries[i]? = some l1 →
        (0 + i) * m.l2Len < m.totalGrains → l1 ≠ 0 →
          TableReadable file sparseFormat
            (min m.l2Len (m.totalGrains - (0 + i) * m.l2Len)) l1 := by
      intro i l1 hl1 hstart hne
      rw [Nat.zero_add] at hstart ⊢
      have hindex : i < m.l1Len := by
        rw [← hcount]
        exact (List.getElem?_eq_some_iff.mp hl1).1
      obtain rfl := Option.some.inj ((hentries i hindex).symm.trans hl1)
      have hfits := hlong.l2 i hindex hstart
        (Nat.ne_zero_of_mul_ne_zero_left hne)
      rw [Nat.mul_comm SECTOR_SIZE] at hfits
      exact ⟨_, rfl, hfits, fun j _ => ⟨_, rfl⟩⟩
    have hwalk := walkTables_returns build ∅ hword hready
    rw [Nat.zero_mul, Nat.zero_min] at hwalk
    exact hwalk
  · exact Or.inr (hfail.bind _)

/-- The grain table is what the two levels of tables say. -/
theorem readGrainTableSparse_exact (build : Build) (haccepted : m.Accepted)
    (hpos : 0 < m.clusterSectors) (hlong : m.LongEnough file) :
    (∃ table, readGrainTableSparse build m file = .ok table ∧
      ∀ g v, table.lookup g = some v ↔ m.GrainAt file g v) ∨
    StoreFails file (readGrainTableSparse build m file) := by
  rcases readGrainTableSparse_returns build haccepted.bounded hpos hlong with
    ⟨table, htable⟩ | hfail
  · exact Or.inl ⟨table, htable,
      (readGrainTableSparse_lookup haccepted.bounded htable).2⟩
  · exact Or.inr hfail

/-- Four grains of eight sectors, in two tables. -/
def fourGrains : VmdkSparseMeta where
  compressed := false
  hasZeroGrain := false
  sectors := 32
  l1Offset := 0
  l1Len := 2
  l2Len := 2
  clusterSectors := 8

/-- A level 1 table in front, and a level 2 table at sector 1. -/
def tablesFile (l1 l2 : Bytes) : BackingFile where
  content := l1 ++ List.replicate (SECTOR_SIZE - l1.length) 0 ++ l2
  fault := fun _ _ => none

/-- There is no table for the first two grains; of the others the last is in
the parent. -/
def fourGrainsFile : BackingFile :=
  tablesFile [0, 0, 0, 0, 1, 0, 0, 0] [3, 0, 0, 0, 0, 0, 0, 0]

theorem fourGrains_accepted : fourGrains.Accepted :=
  ⟨.release, Or.inr ⟨{
    magic := VMDK4_MAGIC
    version := 1
    flags := 0
    capacity := 32
    granularity := 8
    descOffset := 0
    descSize := 0
    numGtesPerGt := 2
    rgdOffset := 0
    gdOffset := 0
    grainOffset := 0
    filler := 0
    checkBytes := [0, 0, 0, 0]
    compressAlgorithm := 0 }, by decide +kernel⟩⟩

theorem readGrainTableSparse_exact_four :
    (∃ table, readGrainTableSparse .dev fourGrains fourGrainsFile =
        .ok table ∧
      ∀ g v, table.lookup g = some v ↔
        fourGrains.GrainAt fourGrainsFile g v) ∨
    StoreFails fourGrainsFile
      (readGrainTableSparse .dev fourGrains fourGrainsFile) := by
  apply readGrainTableSparse_exact .dev fourGrains_accepted (by decide)
  have hskipped : fourGrains.l1Entry fourGrainsFile 0 = 0 := by decide +kernel
  have hentry : fourGrains.l1Entry fourGrainsFile 1 = 1 := by decide +kernel
  have hlength : fourGrainsFile.content.length = 520 := by decide +kernel
  refine ⟨by rw [hlength]; decide, ?_⟩
  intro i hi _ hne
  have hcases : i = 0 ∨ i = 1 := by
    have : i < 2 := hi
    omega
  rcases hcases with rfl | rfl
  · exact absurd hskipped hne
  · rw [hentry, hlength]
    decide

end Sparse

/-! ## SESPARSE -/

section SeSparse

variable {build : Build} {m : VmdkSeSparseMeta} {file : BackingFile}

def VmdkSeSparseMeta.totalGrains (m : VmdkSeSparseMeta) : ℕ :=
  (m.sectors + (m.clusterSectors - 1)) / m.clusterSectors

/-- A grain table which is read says what the entries of level 1 and the tables
they point at say. -/
theorem readGrainTableSeSparse_inTables {table : GrainTable}
    (hbounded : m.Bounded)
    (hread : readGrainTableSeSparse build m file = .ok table) :
    ∃ entries : List ℕ, entries.length = m.l1Len ∧
      (∀ i < m.l1Len, entries[i]? = some (entryAt file 8 m.l1Offset i)) ∧
      ∀ g v, table.lookup g = some v ↔
        InTables file (seSparseFormat build m (m.l2Len * 8)) m.l2Len
          m.totalGrains entries g v := by
  have hcluster := hbounded.clusterSectors_eq
  have hl2Len := hbounded.l2Len_eq
  have htotal_lt : m.totalGrains < wordLimit := by
    have := hbounded.sectors_lt
    unfold VmdkSeSparseMeta.totalGrains
    rw [hcluster, wordLimit_eq] at *
    omega
  unfold readGrainTableSeSparse at hread
  obtain ⟨_, _, hread⟩ := Outcome.bind_eq_ok.mp hread
  obtain ⟨entries, hcollect, hread⟩ := Outcome.bind_eq_ok.mp hread
  rw [Build.divCeil_of_pos (by omega), Outcome.ok_bind,
    Build.mul_of_lt (by rw [hl2Len]; decide), Outcome.ok_bind] at hread
  obtain ⟨hcount, hmem⟩ := collectEntries_ok hcollect
  refine ⟨entries, hcount, ?_, walkTables_start_ok (by omega) htotal_lt hread⟩
  intro i hi
  obtain ⟨e, hget, he⟩ := hmem i hi
  rw [hget, ← Outcome.ok.inj he]

end SeSparse

end Vmdk
end ImageReader
