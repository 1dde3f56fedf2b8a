import ImageReader.ByteOrder
import ImageReader.SegmentProbes

/-!
# Whether a segment is there

Local names are probed with `metadata`, S3 objects with a HEAD request.  Both
checkers answer for some names and cannot tell for the others, which they
report with the name.
-/

namespace ImageReader

open Rawdisk (Path ExistsError ExistsChecker)

/-! ## Local files -/

/-- What the file system says of a name. -/
inductive Stat where
  | file (content : Bytes)
  /-- a directory or a device, of some length -/
  | other (len : ℕ)
  | notFound
  | notADirectory
  | failed (code : ℕ)

/-- `FileChecker` -/
def fileChecker (files : Path → Stat) : ExistsChecker := fun path =>
  match files path with
  | .file _ => .ok true
  | .other _ => .ok false
  | .notFound => .ok false
  | .notADirectory => .ok false
  | .failed code => .error { path, code }

/-! ## Objects -/

/-- What a HEAD request fails with; an answer other than a success comes back
as an error with the status and the body. -/
inductive S3Error where
  | httpFailWithBody (status : ℕ) (body : String)
  | other (code : ℕ)
  deriving DecidableEq, Repr

def S3Error.code : S3Error → ℕ
  | httpFailWithBody status _ => status
  | other code => code

/-- The status of a HEAD answer, in whichever way it has come back. -/
def headStatus : Except S3Error ℕ → Option ℕ
  | .ok code => some code
  | .error (.httpFailWithBody code _) => some code
  | .error (.other _) => none

theorem fileChecker_eq (files : Path → Stat) (path : Path) :
    (fileChecker files path = .ok true ↔
      ∃ content, files path = .file content) ∧
    (fileChecker files path = .ok false ↔ (∃ len, files path = .other len) ∨
      files path = .notFound ∨ files path = .notADirectory) ∧
    ∀ err, fileChecker files path = .error err → err.path = path := by
  unfold fileChecker
  cases files path <;> simp

end ImageReader
