import ImageReader.RawdiskBlockCache
import ImageReader.RawdiskOpen

/-!
# Objects as the sources of a block cache

`S3Source::read` asks for a range of an object and takes the answer only if it
is a 206 with as many bytes as were asked for.  An endpoint may answer anything
else, and nothing of it reaches the cache: as long as those answers are the
range, an image of objects reads as the concatenation of its objects.
-/

namespace ImageReader
namespace Foyer

/-! ## Registered sources -/

abbrev SourceSlots := List (Option Source)

namespace SourceSlots

/-- `None` stands for the error that the source was never registered. -/
def get (slots : SourceSlots) (idx : ℕ) : Option Source := slots[idx]?.join

/-- The table grows, with gaps, if it is too short. -/
def set (slots : SourceSlots) (idx : ℕ) (source : Source) : SourceSlots :=
  List.set
    (if slots.length ≤ idx then
      slots ++ List.replicate (idx + 1 - slots.length) none
    else slots) idx (some source)

end SourceSlots

/-! ## Ranges of objects -/

/-- The code of `io::ErrorKind::InvalidInput`. -/
def invalidInput : ℕ := 22

/-- The code of `io::ErrorKind::Other`. -/
def otherError : ℕ := 5

/-- `S3 range [{beg}, {end}) returned status {status} with {got} bytes,
expected 206 with {wanted}` -/
def checkRangeResponse (beg end_ status got : ℕ) : Except ℕ Unit :=
  let wanted := end_ - beg
  if status ≠ 206 ∨ got ≠ wanted then .error otherError else .ok ()

/-- `S3Source::read`, given how `sync_credentials` and `get_object_range`
end. -/
def s3Read (sync : Except ℕ Unit) (response : Except ℕ (ℕ × Bytes))
    (beg end_ : ℕ) : ReadOutcome :=
  match sync with
  | .error code => .error code
  | .ok () =>
      if end_ ≤ beg then .error invalidInput
      else
        match response with
        | .error code => .error code
        | .ok (status, data) =>
            match checkRangeResponse beg end_ status data.length with
            | .error code => .error code
            | .ok () => .ok data

/-- How the `n`-th read of an object finds its credentials, and what a request
for `[beg, end)` is answered then. -/
structure Endpoint where
  sync : ℕ → Except ℕ Unit
  get : ℕ → ℕ → ℕ → Except ℕ (ℕ × Bytes)

/-- A 206 with as many bytes as were asked for has the bytes of the range. -/
def Endpoint.Honest (endpoint : Endpoint) (object : Bytes) : Prop :=
  ∀ n beg end_ data, endpoint.get n beg end_ = .ok (206, data) →
    data.length = end_ - beg → data = Slice.window object beg (end_ - beg)

theorem s3Read_ok {sync : Except ℕ Unit} {response : Except ℕ (ℕ × Bytes)}
    {beg end_ : ℕ} {data : Bytes}
    (h : s3Read sync response beg end_ = .ok data) :
    response = .ok (206, data) ∧ data.length = end_ - beg := by
  unfold s3Read at h
  split at h
  · simp at h
  split_ifs at h with hempty
  split at h
  · simp at h
  · rename_i status got
    unfold checkRangeResponse at h
    by_cases hbad : status ≠ 206 ∨ got.length ≠ end_ - beg
    · simp [hbad] at h
    · simp only [if_neg hbad, ReadOutcome.ok.injEq] at h
      obtain ⟨hstatus, hlength⟩ := not_or.mp hbad
      rw [not_not] at hstatus hlength
      rw [hstatus, h]
      exact ⟨rfl, h ▸ hlength⟩

/-- An object behind an honest endpoint. -/
def s3Source (object : Bytes) (hlt : object.length < wordLimit)
    (endpoint : Endpoint) (honest : endpoint.Honest object) : Source where
  bytes := object
  answer := fun n beg end_ =>
    s3Read (endpoint.sync n) (endpoint.get n beg end_) beg end_
  length_lt := hlt
  answer_within := by
    intro n beg end_ got h
    obtain ⟨hresponse, hlength⟩ := s3Read_ok h
    rw [honest n beg end_ got hresponse hlength]
    exact List.take_prefix _ _

end Foyer

namespace Rawdisk

open Foyer (CacheError Endpoint FoyerCache SourceSlots)

section Objects

variable {build : Build} {service : S3Service} {imagePath : Path}
  {reader : RawdiskReader}

/-- Objects, and what the endpoint says of them: their lengths, and ranges of
their bytes. -/
structure Objects (service : S3Service) where
  content : Path → Bytes
  endpoint : Path → Endpoint
  content_lt : ∀ path, (content path).length < wordLimit
  length_eq : ∀ path status len, service.head path = .ok (status, some len) →
    len = ((content path).length : ℤ)
  honest : ∀ path, (endpoint path).Honest (content path)

/-- The source which `source_for_url` makes of an object. -/
def Objects.source (objects : Objects service) (path : Path) : Foyer.Source :=
  Foyer.s3Source (objects.content path) (objects.content_lt path)
    (objects.endpoint path) (objects.honest path)

/-- The concatenation of the objects. -/
def Objects.image (objects : Objects service) (paths : List Path) : List Bytes :=
  paths.map objects.content

end Objects

end Rawdisk
end ImageReader
