import ImageReader.Existence
import ImageReader.RawdiskFailures
import ImageReader.RawdiskMembers

/-!
# Opening a raw image by name

Opening discovers the segments of the image, asks each of them for its length
and refuses an empty one among several.  A checker may fail to answer; what is
opened then rests on answers alone: each listed segment was found, and the two
names behind the last one were found to be absent.
-/

namespace ImageReader
namespace Rawdisk

open Outcome (AgreesUnless)

/-! ## Discovery by a checker which may fail -/

section Answers

variable {build : Build} {checker : ExistsChecker} {stem : Path}
  {width fuel : ℕ}

/-- The set agrees with every answer of the checker. -/
def World (checker : ExistsChecker) (world : Finset Path) : Prop :=
  ∀ path found, checker path = .ok found → (path ∈ world ↔ found = true)

/-- A name which the checker has answered for is not there. -/
def Absent (checker : ExistsChecker) (path : Path) : Prop :=
  checker path = .ok false

/-- The segments from the start of the sequence on were found, up to a gap of
two, and number `num` is one of them. -/
structure RunFound (checker : ExistsChecker) (stem : Path) (num width : ℕ)
    (paths : List Path) (first n : ℕ) : Prop where
  paths_eq : paths = segmentNames stem width first n
  present : ∀ path ∈ paths, checker path = .ok true
  start : first = 0 ∨ first = 1 ∧ Absent checker (segmentName stem 0 width)
  absent : Absent checker (segmentName stem n width)
  past : Absent checker (segmentName stem (n + 1) width)
  named : first ≤ num ∧ num < n

/-- There is no start at the width, and the number is unpadded or has no
neighbour. -/
def LoneFound (checker : ExistsChecker) (stem : Path) (num width : ℕ) : Prop :=
  Absent checker (segmentName stem 0 width) ∧
    Absent checker (segmentName stem 1 width) ∧
    (¬ num < 10 ^ (width - 1) ∨
      (0 < num → Absent checker (segmentName stem (num - 1) width)) ∧
      (num + 1 < wordLimit →
        Absent checker (segmentName stem (num + 1) width)))

/-- The walk has found the run so far. -/
structure WalkFound (checker : ExistsChecker) (stem : Path) (width first : ℕ)
    (state : ℕ × List Path) : Prop where
  le : first ≤ state.1
  paths_eq : state.2 = segmentNames stem width first state.1
  present : ∀ path ∈ state.2, checker path = .ok true

theorem length_segmentNames (stem : Path) (width first n : ℕ) :
    (segmentNames stem width first n).length = n - first := by
  simp [segmentNames]

theorem nodup_segmentNames (stem : Path) (width first n : ℕ) :
    (segmentNames stem width first n).Nodup := by
  unfold segmentNames
  exact (List.nodup_map_iff (segmentName_injective stem width)).mpr
    (List.nodup_range')

theorem WalkFound.length_le {first : ℕ} {state : ℕ × List Path}
    {world : Finset Path} (h : WalkFound checker stem width first state)
    (hworld : World checker world) : state.1 - first ≤ world.card := by
  classical
  have hnodup : state.2.Nodup := h.paths_eq ▸ nodup_segmentNames ..
  have hsub : state.2.toFinset ⊆ world := by
    intro path hpath
    exact (hworld path true (h.present path (List.mem_toFinset.mp hpath))).mpr
      rfl
  have hcard := Finset.card_le_card hsub
  rw [List.toFinset_card_of_nodup hnodup, h.paths_eq,
    length_segmentNames] at hcard
  exact hcard

/-- The errors of the checker name what was probed. -/
def NamesProbed (checker : ExistsChecker) : Prop :=
  ∀ path err, checker path = .error err → err.path = path

end Answers

/-! ## Opening -/

inductive OpenFailure where
  | noSuchImage (path : Path)
  | badPath (path : Path)
  | auth (code : ℕ)
  | discovery (e : DiscoveryError)
  | source (path : Path) (code : ℕ)
  | emptyImageSegment (path : Path)
  deriving DecidableEq, Repr

/-- What keeps an opening from looking for segments. -/
inductive SetupError where
  | auth (code : ℕ)
  | badPath
  | bucket (code : ℕ)
  deriving DecidableEq, Repr

def SetupError.at (path : Path) : SetupError → OpenFailure
  | auth code => .auth code
  | badPath => .badPath path
  | bucket code => .source path code

/-- Where images are: which names can be turned into a URL, which are found,
and how long the source behind a name is. -/
structure Store where
  checker : ExistsChecker
  names : NamesProbed checker
  /-- `path_or_url_to_url` finds a URL -/
  resolves : Path → Bool
  /-- the name is no URL, but a path -/
  isPath : Path → Bool
  prepare : Path → Except SetupError Unit
  /-- the URL has what its source is opened by -/
  locates : Path → Bool
  source : Path → Except ℕ ℕ

/-- Local files; a directory can be opened too, and has some length. -/
def fileStore (files : Path → Stat) : Store where
  checker := fileChecker files
  names path := (fileChecker_eq files path).2.2
  resolves path :=
    match files path with
    | .file _ => true
    | .other _ => true
    | _ => false
  isPath _ := true
  prepare _ := .ok ()
  locates _ := true
  source path :=
    match files path with
    | .file content => .ok content.length
    | .other len => .ok len
    | .notFound => .error 2
    | .notADirectory => .error 20
    | .failed code => .error code

/-- What an opening of objects meets.  Names are URLs; some are malformed, and
some have no host (the bucket) or no key that is text.  A HEAD request is
answered with a status and, most of the time, a length. -/
structure S3Service where
  isUrl : Path → Bool
  hasHost : Path → Bool
  hasKey : Path → Bool
  /-- `resolve_s3_auth` -/
  auth : Except ℕ Unit
  /-- `s3_bucket` -/
  bucket : Path → Except ℕ Unit
  /-- `S3Checker::sync_credentials`, when the name is probed -/
  sync : Path → Except ℕ Unit
  head : Path → Except S3Error (ℕ × Option ℤ)

namespace S3Service

/-- The HEAD request with which `S3Checker::exists` probes a name, unless it
fails before. -/
def probe (service : S3Service) (path : Path) : Except S3Error ℕ :=
  if service.isUrl path = false ∨ service.hasKey path = false then
    .error (.other 0)
  else
    match service.sync path with
    | .error code => .error (.other code)
    | .ok () => (service.head path).map Prod.fst

/-- The credentials, and for a numbered name the bucket of `S3Checker::new`. -/
def prepare (service : S3Service) (path : Path) : Except SetupError Unit :=
  match service.auth with
  | .error code => .error (.auth code)
  | .ok () =>
      if splitNumericSuffix path = none then .ok ()
      else if service.hasHost path = false then .error .badPath
      else (service.bucket path).mapError .bucket

/-- `source_for_url` behind the host and the key. -/
def source (service : S3Service) (path : Path) : Except ℕ ℕ :=
  match service.bucket path with
  | .error code => .error code
  | .ok () =>
      match service.head path with
      | .ok (_, some len) => if len < 0 then .error 0 else .ok len.toNat
      | .ok (_, none) => .error 0
      | .error e => .error e.code

end S3Service

section Open

variable (build : Build) (store : Store)

/-- The lengths of the sources, unless one of several is empty. -/
def sourceLengths (several : Bool) : List Path → Outcome OpenFailure (List ℕ)
  | [] => .ok []
  | path :: rest =>
      if store.resolves path = false ∨ store.locates path = false then
        .error (.badPath path)
      else do
        let end_ ← (Outcome.ofExcept (store.source path)).mapError
          (.source path)
        if several ∧ end_ = 0 then .error (.emptyImageSegment path)
        else do
          let lengths ← sourceLengths several rest
          pure (end_ :: lengths)

def openTargetError (path : Path) : OpenFailure :=
  if store.isPath path then .noSuchImage path else .badPath path

def openWithOptions (fuel : ℕ) (imagePath : Path) :
    Outcome OpenFailure RawdiskReader :=
  if store.resolves imagePath = false then
    .error (openTargetError store imagePath)
  else do
    let _ ← (Outcome.ofExcept (store.prepare imagePath)).mapError
      (SetupError.at imagePath)
    let paths ← (segmentPaths build store.checker fuel imagePath).mapError
      .discovery
    let lengths ← sourceLengths store (1 < paths.length) paths
    let segments ← SegmentMap.new build lengths
    pure { imagePath := String.ofList imagePath
           imageSize := segments.imageSize, segments }

end Open

/-- The segments of an image, from the name it was opened by. -/
def SegmentsOf (checker : ExistsChecker) (imagePath : Path)
    (paths : List Path) : Prop :=
  (splitNumericSuffix imagePath = none ∧ paths = [imagePath]) ∨
    ∃ stem num width,
      splitNumericSuffix imagePath = some (stem, num, width) ∧
        ((paths = [imagePath] ∧ LoneFound checker stem num width) ∨
          ∃ first n, RunFound checker stem num width paths first n)

section Opening

variable {build : Build} {store : Store}

end Opening

/-! ## Objects -/

section Objects

variable {service : S3Service} {imagePath : Path} {paths : List Path}

/-- The endpoint has not said whether the object is there. -/
def Unanswered (service : S3Service) (path : Path) : Prop :=
  ∀ status ∈ [200, 404, 410, 403],
    headStatus (service.probe path) ≠ some status

end Objects

end Rawdisk
end ImageReader
