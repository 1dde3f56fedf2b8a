import ImageReader.RawdiskSegPath

/-!
# Globbing the segments of an E01 image

The extensions of an E01 sequence run from `E01` to `E99` and on from `EAA` to
`ZZZ`; a logical or a smart image starts at `L01` or `S01`.  Each name is probed
in upper case and then in lower case, up to the first one which is there in
neither.
-/

namespace ImageReader
namespace E01

open Rawdisk (Path ExistsError ExistsChecker padded)

inductive SegPathError where
  | unrecognizedExtension (path : Path)
  | undetermined (err : ExistsError)
  deriving DecidableEq, Repr

/-- `lo..=hi` on characters -/
def charRange (lo hi : Char) : List Char :=
  (List.range' lo.toNat (hi.toNat + 1 - lo.toNat)).map Char.ofNat

/-- `matches!(c, lo..=hi)` -/
def inCharRange (lo hi c : Char) : Bool := decide (lo ≤ c) && decide (c ≤ hi)

/-- `ext.to_ascii_uppercase()` -/
def toAsciiUppercase (ext : Path) : Path := ext.map Char.toUpper

def toAsciiLowercase (ext : Path) : Path := ext.map Char.toLower

/-- `01` to `09`, `10` to `99` or `AA` to `ZZ` -/
def validSegmentNumber (second third : Char) : Bool :=
  if second = '0' then inCharRange '1' '9' third
  else if inCharRange '1' '9' second then inCharRange '0' '9' third
  else if inCharRange 'A' 'Z' second then inCharRange 'A' 'Z' third
  else false

def validSegmentExt (ext : Path) : Bool :=
  match toAsciiUppercase ext with
  | first :: second :: third :: rest =>
      inCharRange 'E' 'Z' first && validSegmentNumber second third &&
        rest.isEmpty
  -- a character which is missing reads as `!`, which no range holds
  | _ => false

def validProtoSegmentExt (ext : Path) : Bool :=
  validSegmentExt ext &&
    ['E', 'L', 'S'].contains ((ext.head?.map Char.toUpper).getD '!')

/-- `x01` to `x99`, then `xAA` to `ZZZ` -/
def segmentExtIter (start : Char) : List Path :=
  ((List.range' 1 99).map fun n => start :: padded n 2) ++
    (charRange start 'Z').flatMap fun a =>
      (charRange 'A' 'Z').flatMap fun b =>
        (charRange 'A' 'Z').map fun c => [a, b, c]

def validateProtoExtension (path : Path) : Except SegPathError Path :=
  match rsplitOnce '.' (toAsciiUppercase path) with
  | some (_, ext) =>
      if validProtoSegmentExt ext then .ok ext
      else .error (.unrecognizedExtension path)
  | none => .error (.unrecognizedExtension path)

section Globbing

variable (checker : ExistsChecker) (basePath : Path)

/-- `checker.exists(path)?` -/
def segmentExists (path : Path) : Outcome SegPathError Bool :=
  (Outcome.ofExcept (checker path)).mapError .undetermined

/-- The glob over the extensions that are left, after `paths` were found. -/
def globFrom : List Path → List Path → Outcome SegPathError (List Path)
  | [], paths => .ok paths
  | ext :: rest, paths => do
      let segPathUc := basePath ++ '.' :: ext
      if ← segmentExists checker segPathUc then
        globFrom rest (paths ++ [segPathUc])
      else
        let segPathLc := basePath ++ '.' :: toAsciiLowercase ext
        if ← segmentExists checker segPathLc then
          globFrom rest (paths ++ [segPathLc])
        else pure paths

end Globbing

def validatedSegmentPaths (checker : ExistsChecker)
    (exampleSegmentPath : Path) : Outcome SegPathError (List Path) := do
  let protoPath := exampleSegmentPath
  let protoExt ← Outcome.ofExcept (validateProtoExtension protoPath)
  match protoExt.head? with
  | none => .error (.unrecognizedExtension protoPath)
  | some extStart =>
      match rsplitOnce '.' protoPath with
      | none => .error (.unrecognizedExtension protoPath)
      | some (basePath, _) =>
          globFrom checker basePath (segmentExtIter extStart) []

end E01
end ImageReader
