import ImageReader.CApi
import ImageReader.E01ReadWorker

/-!
# What the handles are made of

A handle of a raw disk or of a VMDK image has its reader and the path of the
image.  One of an E01 image has the paths of all segments, as an array of
pointers, and the hashes which are stored in the image, if there are any.
-/

namespace ImageReader
namespace CApi

open MemoryAction
open E01 (CorruptChunkPolicy)

variable {ρ : Type}

section Shared

variable {η : Type} (allocator : Allocator (Block ρ η))

theorem owning_dropText (a : ℕ) (s : CString) :
    Owning (dropText a : MemoryAction (Block ρ η) PUnit) [(a, .text s)]
      fun _ own => own = [] := by
  refine (owning_release a _).bind ?_
  rintro b own ⟨rfl, rfl⟩
  exact owning_pure _ rfl

theorem owning_dropReader (a : ℕ) (r : ρ) :
    Owning (dropReader a : MemoryAction (Block ρ η) PUnit) [(a, .reader r)]
      fun _ own => own = [] := by
  refine (owning_release a _).bind ?_
  rintro b own ⟨rfl, rfl⟩
  exact owning_pure _ rfl

end Shared

/-! ## Raw disks and VMDK images -/

/-- What a handle shows of a reader; a path is `none` if it is not UTF-8. -/
structure PathFacts where
  imagePath : Option Text
  imageSize : ℕ
  deriving DecidableEq, Repr

/-- `RawdiskHandle` and `VmdkHandle` -/
structure PathHandle where
  reader : ℕ
  imagePath : ℕ
  imageSize : ℕ
  deriving DecidableEq, Repr

def pathToCString (path : Option Text) : Except Text CString :=
  match path with
  | none => .error "path is not UTF-8".toList
  | some text =>
      match CString.new? text with
      | none => .error "path contains an internal null".toList
      | some s => .ok s

namespace PathHandle

variable (facts : ρ → PathFacts)

def new (allocator : Allocator (Block ρ PathHandle)) (r : ρ) :
    MemoryAction (Block ρ PathHandle) (Except Text PathHandle) :=
  match pathToCString (facts r).imagePath with
  | .error e => pure (.error e)
  | .ok s => do
      let imagePath ← alloc allocator (.text s)
      let reader ← alloc allocator (.reader r)
      pure (.ok { reader, imagePath, imageSize := (facts r).imageSize })

def drop (h : PathHandle) : MemoryAction (Block ρ PathHandle) PUnit := do
  dropReader h.reader
  dropText h.imagePath

structure Owned (r : ρ) (h : PathHandle)
    (own : List (ℕ × Block ρ PathHandle)) (s : CString) : Prop where
  path : pathToCString (facts r).imagePath = .ok s
  size : h.imageSize = (facts r).imageSize
  cells : own = [(h.reader, .reader r), (h.imagePath, .text s)]

variable {facts} {r : ρ} {h : PathHandle} {e : Text} {s : CString}
variable {own : List (ℕ × Block ρ PathHandle)}

theorem owning_new (allocator : Allocator (Block ρ PathHandle))
    (hpath : pathToCString (facts r).imagePath = .ok s) :
    Owning (new facts allocator r) [] fun result own =>
      ∃ h, result = .ok h ∧ Owned facts r h own s := by
  unfold new
  rw [hpath]
  refine (owning_alloc allocator _).bind ?_
  rintro imagePath own ⟨-, rfl⟩
  refine (owning_alloc allocator _).step (.refl _) ?_
  rintro reader own ⟨-, rfl⟩
  exact owning_pure _ ⟨_, rfl, hpath, rfl, rfl⟩

theorem owning_new_error (allocator : Allocator (Block ρ PathHandle))
    (hpath : pathToCString (facts r).imagePath = .error e) :
    Owning (new facts allocator r) [] fun result own =>
      result = .error e ∧ own = [] := by
  unfold new
  rw [hpath]
  exact owning_pure _ ⟨rfl, rfl⟩

theorem Owned.owning_drop (hown : Owned facts r h own s) :
    Owning (drop h) own fun _ own' => own' = [] := by
  rw [hown.cells]
  refine (owning_dropReader h.reader r).step (.refl _) ?_
  rintro - mine rfl
  exact owning_dropText h.imagePath s

end PathHandle

/-- The interfaces to raw disks and to VMDK images. -/
def pathApi (facts : ρ → PathFacts) : HandleApi ρ PathHandle where
  newHandle := PathHandle.new facts
  dropHandle := PathHandle.drop
  reader := PathHandle.reader
  refusal := fun r =>
    match pathToCString (facts r).imagePath with
    | .error e => some e
    | .ok _ => none
  Footprint := fun r h own => ∃ s, PathHandle.Owned facts r h own s
  newHandle_ok := by
    intro allocator r hnone
    cases hpath : pathToCString (facts r).imagePath with
    | error e => simp [hpath] at hnone
    | ok s =>
        refine (PathHandle.owning_new allocator hpath).weaken ?_
        rintro result own ⟨h, hresult, hown⟩
        exact ⟨h, hresult, s, hown⟩
  newHandle_error := by
    intro allocator r e hsome
    cases hpath : pathToCString (facts r).imagePath with
    | ok s => simp [hpath] at hsome
    | error e' =>
        obtain rfl : e' = e := by simpa [hpath] using hsome
        exact PathHandle.owning_new_error allocator hpath
  dropHandle_owning := by
    rintro r h own ⟨s, hown⟩
    exact hown.owning_drop
  reader_mem := by
    rintro r h own ⟨s, hown⟩
    rw [hown.cells]
    exact List.mem_cons_self

/-- The argument of `rawdisk_open` and `vmdk_open`: null, not UTF-8, or a
path. -/
def pathArguments (imagePath : Option (Option Text)) : Except Text Text :=
  match imagePath with
  | none => .error "image_path is null".toList
  | some none => .error "image_path is not UTF-8".toList
  | some (some path) => .ok path

/-! ## E01 images -/

structure E01Facts where
  segmentPaths : List (Option Text)
  chunkSize : ℕ
  chunkCount : ℕ
  sectorCount : ℕ
  sectorSize : ℕ
  imageSize : ℕ
  storedMd5 : Option { md5 : Bytes // md5.length = 16 }
  storedSha1 : Option { sha1 : Bytes // sha1.length = 20 }
  deriving DecidableEq

structure E01Handle where
  reader : ℕ
  segmentPaths : ℕ
  segmentPathsCount : ℕ
  chunkSize : ℕ
  chunkCount : ℕ
  sectorCount : ℕ
  sectorSize : ℕ
  imageSize : ℕ
  storedMd5 : ℕ
  storedSha1 : ℕ
  deriving DecidableEq, Repr

/-- `paths_to_cstring_vec`, for the paths from the `i`-th on -/
def pathsToCStrings (i : ℕ) : List (Option Text) → Except Text (List CString)
  | [] => .ok []
  | none :: _ =>
      .error ("path ".toList ++ (toString i).toList ++
        " is not UTF-8".toList)
  | some text :: rest =>
      match CString.new? text with
      | none =>
          .error ("path ".toList ++ (toString i).toList ++
            " contains an internal null".toList)
      | some s => (pathsToCStrings (i + 1) rest).map (s :: ·)

/-- What `as_ptr` is for an empty vector of pointers. -/
def dangling : ℕ := 8

section Vectors

variable (allocator : Allocator (Block ρ E01Handle))

/-- The buffer of a vector of pointers; an empty vector has none. -/
def vecIntoRaw (xs : List ℕ) : MemoryAction (Block ρ E01Handle) ℕ :=
  if xs = [] then pure dangling else alloc allocator (.addresses xs)

/-- `Vec::from_raw_parts(ptr, len, len)` -/
def vecFromRaw (a len : ℕ) : MemoryAction (Block ρ E01Handle) (List ℕ) :=
  if len = 0 then pure []
  else do
    match ← release a with
    | .addresses xs => if xs.length = len then pure xs else undefined
    | _ => undefined

def freeCStrArray (a len : ℕ) : MemoryAction (Block ρ E01Handle) PUnit := do
  let xs ← vecFromRaw a len
  forM xs dropText

def optArrayToPtr (data : Option Bytes) : MemoryAction (Block ρ E01Handle) ℕ :=
  match data with
  | none => pure 0
  | some data => alloc allocator (.bytes data)

/-- The vector of a stored hash, whose length must be the one of the hash. -/
def dropBytes (a len : ℕ) : MemoryAction (Block ρ E01Handle) PUnit :=
  if a = 0 then pure ⟨⟩
  else do
    match ← release a with
    | .bytes data => if data.length = len then pure ⟨⟩ else undefined
    | _ => undefined

def vecCells (a : ℕ) (xs : List ℕ) : List (ℕ × Block ρ E01Handle) :=
  if xs = [] then [] else [(a, .addresses xs)]

def textCells (addrs : List ℕ) (texts : List CString) :
    List (ℕ × Block ρ E01Handle) := addrs.zip (texts.map .text)

/-- A null pointer for no hash. -/
structure HashCells (a : ℕ) (data : Option Bytes)
    (own : List (ℕ × Block ρ E01Handle)) : Prop where
  null : data = none → a = 0
  nonnull : data ≠ none → a ≠ 0
  cells : own = (data.map fun data => (a, Block.bytes data)).toList

theorem owning_vecIntoRaw (xs : List ℕ) :
    Owning (vecIntoRaw allocator xs) [] fun a own => own = vecCells a xs := by
  unfold vecIntoRaw vecCells
  split_ifs with hempty
  · exact owning_pure _ rfl
  · exact (owning_alloc allocator _).weaken fun a own h => h.2

theorem owning_vecFromRaw (a : ℕ) (xs : List ℕ) :
    Owning (vecFromRaw a xs.length) (vecCells a xs : List (ℕ × Block ρ _))
      fun ys own => ys = xs ∧ own = [] := by
  unfold vecFromRaw vecCells
  by_cases hempty : xs = []
  · subst hempty
    exact owning_pure _ ⟨rfl, rfl⟩
  · rw [if_neg hempty, if_neg (by simpa using hempty)]
    refine (owning_release a _).bind ?_
    rintro b own ⟨rfl, rfl⟩
    simp only [if_true]
    exact owning_pure _ ⟨rfl, rfl⟩

theorem owning_forM_dropText {addrs : List ℕ} {texts : List CString}
    (hlength : addrs.length = texts.length) :
    Owning (forM addrs dropText) (textCells addrs texts : List (ℕ × Block ρ _))
      fun _ own => own = [] := by
  induction addrs generalizing texts with
  | nil => exact owning_pure _ rfl
  | cons a rest ih =>
      cases texts with
      | nil => simp at hlength
      | cons s texts =>
          rw [List.forM_cons]
          refine (owning_dropText a s).step (.refl _) ?_
          rintro - mine rfl
          exact ih (Nat.succ.inj hlength)

theorem owning_freeCStrArray {addrs : List ℕ} {texts : List CString} (a : ℕ)
    (hlength : addrs.length = texts.length) :
    Owning (freeCStrArray a addrs.length)
      (vecCells a addrs ++ textCells addrs texts : List (ℕ × Block ρ _))
      fun _ own => own = [] := by
  refine (owning_vecFromRaw a addrs).step (.refl _) ?_
  rintro xs mine ⟨rfl, rfl⟩
  exact owning_forM_dropText hlength

theorem owning_optArrayToPtr (data : Option Bytes) :
    Owning (optArrayToPtr allocator data) [] fun a own =>
      HashCells a data own := by
  cases data with
  | none => exact owning_pure _ ⟨fun _ => rfl, fun h => absurd rfl h, rfl⟩
  | some data =>
      refine (owning_alloc allocator _).weaken ?_
      rintro a own ⟨hnonnull, rfl⟩
      exact ⟨by simp, fun _ => hnonnull, rfl⟩

theorem HashCells.owning_dropBytes {a len : ℕ} {data : Option Bytes}
    {own : List (ℕ × Block ρ E01Handle)} (h : HashCells a data own)
    (hlength : ∀ v, data = some v → v.length = len) :
    Owning (dropBytes a len) own fun _ own' => own' = [] := by
  unfold dropBytes
  rw [h.cells]
  cases data with
  | none =>
      rw [if_pos (h.null rfl)]
      exact owning_pure _ rfl
  | some data =>
      rw [if_neg (h.nonnull (by simp))]
      refine (owning_release a _).bind ?_
      rintro b own ⟨rfl, rfl⟩
      simp only [hlength data rfl, if_true]
      exact owning_pure _ rfl

end Vectors

namespace E01Handle

variable (facts : ρ → E01Facts)

def new (allocator : Allocator (Block ρ E01Handle)) (r : ρ) :
    MemoryAction (Block ρ E01Handle) (Except Text E01Handle) :=
  match pathsToCStrings 0 (facts r).segmentPaths with
  | .error e => pure (.error e)
  | .ok texts => do
      let addrs ← texts.mapM fun s => alloc allocator (.text s)
      let segmentPaths ← vecIntoRaw allocator addrs
      let storedMd5 ← optArrayToPtr allocator
        ((facts r).storedMd5.map Subtype.val)
      let storedSha1 ← optArrayToPtr allocator
        ((facts r).storedSha1.map Subtype.val)
      let reader ← alloc allocator (.reader r)
      pure (.ok
        { reader, segmentPaths, storedMd5, storedSha1
          segmentPathsCount := (facts r).segmentPaths.length
          chunkSize := (facts r).chunkSize
          chunkCount := (facts r).chunkCount
          sectorCount := (facts r).sectorCount
          sectorSize := (facts r).sectorSize
          imageSize := (facts r).imageSize })

def drop (h : E01Handle) : MemoryAction (Block ρ E01Handle) PUnit := do
  freeCStrArray h.segmentPaths h.segmentPathsCount
  dropBytes h.storedMd5 16
  dropBytes h.storedSha1 20
  dropReader h.reader

/-- What a caller sees in the handle is what the reader says. -/
structure Shows (r : ρ) (h : E01Handle) : Prop where
  segmentPathsCount : h.segmentPathsCount = (facts r).segmentPaths.length
  chunkSize : h.chunkSize = (facts r).chunkSize
  chunkCount : h.chunkCount = (facts r).chunkCount
  sectorCount : h.sectorCount = (facts r).sectorCount
  sectorSize : h.sectorSize = (facts r).sectorSize
  imageSize : h.imageSize = (facts r).imageSize

structure Owned (r : ρ) (h : E01Handle) (own : List (ℕ × Block ρ E01Handle))
    (texts : List CString) (addrs : List ℕ) : Prop where
  paths : pathsToCStrings 0 (facts r).segmentPaths = .ok texts
  shows : Shows facts r h
  length : addrs.length = texts.length
  cells : ∃ md5 sha1,
    HashCells h.storedMd5 ((facts r).storedMd5.map Subtype.val) md5 ∧
      HashCells h.storedSha1 ((facts r).storedSha1.map Subtype.val) sha1 ∧
      own.Perm ((h.reader, .reader r) :: (sha1 ++ (md5 ++
        (vecCells h.segmentPaths addrs ++ textCells addrs texts))))

variable {facts} {r : ρ} {h : E01Handle} {e : Text} {texts : List CString}
variable {addrs : List ℕ} {own : List (ℕ × Block ρ E01Handle)}

theorem length_pathsToCStrings {paths : List (Option Text)} {i : ℕ}
    (hpaths : pathsToCStrings i paths = .ok texts) :
    texts.length = paths.length := by
  induction paths generalizing i texts with
  | nil =>
      obtain rfl : [] = texts := by simpa [pathsToCStrings] using hpaths
      rfl
  | cons path rest ih =>
      cases path with
      | none => simp [pathsToCStrings] at hpaths
      | some text =>
          unfold pathsToCStrings at hpaths
          cases hs : CString.new? text with
          | none => simp [hs] at hpaths
          | some s =>
              cases hrest : pathsToCStrings (i + 1) rest with
              | error e => simp [hs, hrest, Except.map] at hpaths
              | ok found =>
                  obtain rfl : s :: found = texts := by
                    simpa [hs, hrest, Except.map] using hpaths
                  rw [List.length_cons, List.length_cons, ih hrest]

theorem owning_new (allocator : Allocator (Block ρ E01Handle))
    (hpaths : pathsToCStrings 0 (facts r).segmentPaths = .ok texts) :
    Owning (new facts allocator r) [] fun result own =>
      ∃ h, result = .ok h ∧ ∃ texts addrs, Owned facts r h own texts addrs := by
  unfold new
  rw [hpaths]
  refine (owning_mapM_alloc allocator Block.text texts).bind ?_
  rintro addrs own ⟨hlength, hown⟩
  refine (owning_vecIntoRaw allocator addrs).step (.refl _) ?_
  rintro segmentPaths mine rfl
  refine (owning_optArrayToPtr allocator _).step (.refl _) ?_
  rintro storedMd5 md5 hmd5
  refine (owning_optArrayToPtr allocator _).step (.refl _) ?_
  rintro storedSha1 sha1 hsha1
  refine (owning_alloc allocator _).step (.refl _) ?_
  rintro reader mine ⟨-, rfl⟩
  refine owning_pure _ ⟨_, rfl, texts, addrs, hpaths,
    ⟨rfl, rfl, rfl, rfl, rfl, rfl⟩, hlength, md5, sha1, hmd5, hsha1, ?_⟩
  exact ((((hown.append_left _).append_left _).append_left _).cons _)

theorem owning_new_error (allocator : Allocator (Block ρ E01Handle))
    (hpaths : pathsToCStrings 0 (facts r).segmentPaths = .error e) :
    Owning (new facts allocator r) [] fun result own =>
      result = .error e ∧ own = [] := by
  unfold new
  rw [hpaths]
  exact owning_pure _ ⟨rfl, rfl⟩

/-- The array goes first, with the paths, then the hashes and the reader. -/
theorem Owned.owning_drop (hown : Owned facts r h own texts addrs) :
    Owning (drop h) own fun _ own' => own' = [] := by
  obtain ⟨md5, sha1, hmd5, hsha1, hcells⟩ := hown.cells
  have hcount : h.segmentPathsCount = addrs.length := by
    rw [hown.shows.segmentPathsCount, hown.length,
      length_pathsToCStrings hown.paths]
  unfold drop
  rw [hcount]
  have harray : own.Perm ((vecCells h.segmentPaths addrs ++
      textCells addrs texts) ++ (md5 ++ (sha1 ++ [(h.reader, .reader r)]))) := by
    refine hcells.trans ?_
    rw [← List.append_assoc, ← List.cons_append]
    refine List.perm_append_comm.trans (List.Perm.append_left _ ?_)
    calc (h.reader, Block.reader r) :: (sha1 ++ md5)
        = [(h.reader, .reader r)] ++ (sha1 ++ md5) := rfl
      _ |>.Perm ((sha1 ++ md5) ++ [(h.reader, .reader r)]) :=
          List.perm_append_comm
      _ |>.Perm ((md5 ++ sha1) ++ [(h.reader, .reader r)]) :=
          List.perm_append_comm.append_right _
      _ = md5 ++ (sha1 ++ [(h.reader, .reader r)]) := List.append_assoc _ _ _
  refine (owning_freeCStrArray h.segmentPaths hown.length).step harray ?_
  rintro - mine rfl
  refine (hmd5.owning_dropBytes ?_).step (.refl _) ?_
  · rintro v hv
    obtain ⟨md5, -, rfl⟩ := Option.map_eq_some_iff.mp hv
    exact md5.2
  rintro - mine rfl
  refine (hsha1.owning_dropBytes ?_).step (.refl _) ?_
  · rintro v hv
    obtain ⟨sha1, -, rfl⟩ := Option.map_eq_some_iff.mp hv
    exact sha1.2
  rintro - mine rfl
  exact owning_dropReader h.reader r

end E01Handle

/-- The interface to E01 images. -/
def e01Api (facts : ρ → E01Facts) : HandleApi ρ E01Handle where
  newHandle := E01Handle.new facts
  dropHandle := E01Handle.drop
  reader := E01Handle.reader
  refusal := fun r =>
    match pathsToCStrings 0 (facts r).segmentPaths with
    | .error e => some e
    | .ok _ => none
  Footprint := fun r h own =>
    ∃ texts addrs, E01Handle.Owned facts r h own texts addrs
  newHandle_ok := by
    intro allocator r hnone
    cases hpaths : pathsToCStrings 0 (facts r).segmentPaths with
    | error e => simp [hpaths] at hnone
    | ok texts => exact E01Handle.owning_new allocator hpaths
  newHandle_error := by
    intro allocator r e hsome
    cases hpaths : pathsToCStrings 0 (facts r).segmentPaths with
    | ok texts => simp [hpaths] at hsome
    | error e' =>
        obtain rfl : e' = e := by simpa [hpaths] using hsome
        exact E01Handle.owning_new_error allocator hpaths
  dropHandle_owning := by
    rintro r h own ⟨texts, addrs, hown⟩
    exact hown.owning_drop
  reader_mem := by
    rintro r h own ⟨texts, addrs, hown⟩
    obtain ⟨md5, sha1, -, -, hcells⟩ := hown.cells
    exact hcells.mem_iff.mpr List.mem_cons_self

/-! ### The arguments -/

inductive CorruptSectionPolicy where
  | error
  | damnTheTorpedoes
  deriving DecidableEq, Repr

/-- The policies as a caller has stored them, in fields which hold any
`c_int`. -/
structure RawOptions where
  corruptSectionPolicy : ℤ
  corruptChunkPolicy : ℤ
  deriving DecidableEq, Repr

def rustOptions (options : RawOptions) :
    Except Text (CorruptSectionPolicy × CorruptChunkPolicy) := do
  let corruptSectionPolicy ← match options.corruptSectionPolicy with
    | 0 => .ok .error
    | 1 => .ok .damnTheTorpedoes
    | n => .error ("invalid corrupt_section_policy value ".toList ++
        (toString n).toList)
  let corruptChunkPolicy ← match options.corruptChunkPolicy with
    | 0 => .ok .error
    | 1 => .ok .zero
    | 2 => .ok .rawIfPossible
    | n => .error ("invalid corrupt_chunk_policy value ".toList ++
        (toString n).toList)
  pure (corruptSectionPolicy, corruptChunkPolicy)

/-- The loop over `segment_paths`, from the `i`-th on; each is null, not UTF-8,
or a path. -/
def segmentPathsFrom (i : ℕ) :
    List (Option (Option Text)) → Except Text (List Text)
  | [] => .ok []
  | none :: _ =>
      .error ("segment_paths[".toList ++ (toString i).toList ++
        "] is null".toList)
  | some none :: _ =>
      .error ("segment_paths[".toList ++ (toString i).toList ++
        "] is not UTF-8".toList)
  | some (some path) :: rest => (segmentPathsFrom (i + 1) rest).map (path :: ·)

abbrev Policies := CorruptSectionPolicy × CorruptChunkPolicy

/-- The arguments of `e01_open`. -/
def e01Arguments (segmentPaths : Option (List (Option (Option Text))))
    (options : Option RawOptions) : Except Text (List Text × Policies) := do
  let options ← match options with
    | none => .error "options is null".toList
    | some options => rustOptions options
  let segmentPaths ← match segmentPaths with
    | none => .error "segment_paths is null".toList
    | some [] => .error "segment_paths_count is zero".toList
    | some paths => segmentPathsFrom 0 paths
  pure (segmentPaths, options)

/-- The arguments of `e01_open_glob`. -/
def e01GlobArguments (exampleSegmentPath : Option (Option Text))
    (options : Option RawOptions) : Except Text (Text × Policies) := do
  let options ← match options with
    | none => .error "options is null".toList
    | some options => rustOptions options
  match exampleSegmentPath with
  | none => .error "example_segment_path is null".toList
  | some none => .error "example_segment_path is not UTF-8".toList
  | some (some path) => pure (path, options)

theorem segmentPathsFrom_eq_ok {i : ℕ} {paths : List (Option (Option Text))}
    {texts : List Text} :
    segmentPathsFrom i paths = .ok texts ↔
      paths = texts.map fun text => some (some text) := by
  induction paths generalizing i texts with
  | nil =>
      unfold segmentPathsFrom
      rw [Except.ok.injEq, eq_comm (a := []), eq_comm (a := []),
        List.map_eq_nil_iff]
  | cons path rest ih =>
      match path with
      | none => cases texts <;> simp [segmentPathsFrom]
      | some none => cases texts <;> simp [segmentPathsFrom]
      | some (some text) =>
          have hrest : segmentPathsFrom i (some (some text) :: rest) =
              (segmentPathsFrom (i + 1) rest).map (text :: ·) := rfl
          rw [hrest]
          cases texts with
          | nil => cases segmentPathsFrom (i + 1) rest <;> simp [Except.map]
          | cons first others =>
              have hother := @ih (i + 1) others
              cases hfrom : segmentPathsFrom (i + 1) rest with
              | error e =>
                  rw [hfrom] at hother
                  simp only [reduceCtorEq, false_iff] at hother
                  simp [Except.map, hother]
              | ok found =>
                  rw [hfrom, Except.ok.injEq] at hother
                  simp [Except.map, hother]

/-- The reader is opened with all the paths, at least one, and with policies
that exist. -/
theorem e01Arguments_eq_ok {segmentPaths : Option (List (Option (Option Text)))}
    {options : Option RawOptions} {texts : List Text} {policies : Policies} :
    e01Arguments segmentPaths options = .ok (texts, policies) ↔
      texts ≠ [] ∧
      segmentPaths = some (texts.map fun text => some (some text)) ∧
      ∃ raw, options = some raw ∧ rustOptions raw = .ok policies := by
  unfold e01Arguments
  cases options with
  | none => simp [bind, Except.bind]
  | some raw =>
      cases hraw : rustOptions raw with
      | error e => simp [bind, Except.bind, hraw]
      | ok found =>
          match segmentPaths with
          | none => simp [bind, Except.bind, hraw]
          | some [] =>
              cases texts <;> simp [bind, Except.bind, hraw]
          | some (path :: rest) =>
              have hpaths := @segmentPathsFrom_eq_ok 0 (path :: rest) texts
              cases hfrom : segmentPathsFrom 0 (path :: rest) with
              | error e =>
                  rw [hfrom] at hpaths
                  simp only [reduceCtorEq, false_iff] at hpaths
                  simp [bind, Except.bind, hraw, hfrom, hpaths]
              | ok ready =>
                  rw [hfrom, Except.ok.injEq] at hpaths
                  have hne : path :: rest = texts.map (fun text =>
                      some (some text)) → texts ≠ [] := by
                    rintro hmap rfl
                    simp at hmap
                  simp [bind, Except.bind, pure, Except.pure, hraw, hfrom,
                    hpaths]
                  tauto

end CApi
end ImageReader
