import ImageReader.ByteOrder
import ImageReader.Machine

/-!
# Backing files

A reader sees a file through a cursor of the block cache: it seeks to a
position and fills a buffer.  A `BackingFile` is what such a cursor answers.
Its bytes never change; a read may fail because the backing store does, a seek
past the end is refused, and a buffer which reaches past the end is an
unexpected end of file.
-/

namespace ImageReader

/-- Why a cursor could not deliver. -/
inductive SourceError where
  | unexpectedEof
  | seekPastEnd
  | seekBeforeStart
  /-- the failure code of the backing store -/
  | backing (code : ℕ)
  deriving DecidableEq, Repr

structure BackingFile where
  content : Bytes
  /-- the failure, if any, of the store when `len` bytes at `pos` are read -/
  fault : ℕ → ℕ → Option ℕ

namespace BackingFile

variable (file : BackingFile)

/-- `seek(SeekFrom::Start(pos))` -/
def seek (pos : ℕ) : Except SourceError Unit :=
  if pos ≤ file.content.length then .ok () else .error .seekPastEnd

/-- `seek(SeekFrom::End(-back))`: the new position -/
def seekEnd (back : ℕ) : Except SourceError ℕ :=
  if back ≤ file.content.length then .ok (file.content.length - back)
  else .error .seekBeforeStart

/-- `read_exact` of `len` bytes with the cursor at `pos` -/
def readExact (pos len : ℕ) : Except SourceError Bytes :=
  if len = 0 then .ok []
  else match file.fault pos len with
    | some code => .error (.backing code)
    | none =>
        if pos + len ≤ file.content.length then
          .ok (Slice.window file.content pos len)
        else .error .unexpectedEof

theorem readExact_eq_ok {file : BackingFile} {pos len : ℕ} {out : Bytes}
    (h : file.readExact pos len = .ok out) :
    out.length = len ∧
      ∀ i < len, out[i]? = file.content[pos + i]? ∧
        pos + i < file.content.length := by
  unfold readExact at h
  by_cases hzero : len = 0
  · obtain rfl : [] = out := by simpa [hzero] using h
    simp [hzero]
  · rw [if_neg hzero] at h
    cases hfault : file.fault pos len with
    | some code => simp [hfault] at h
    | none =>
        simp only [hfault] at h
        split_ifs at h with hle
        obtain rfl : Slice.window file.content pos len = out := by simpa using h
        refine ⟨Slice.length_window_of_le hle, ?_⟩
        intro i hi
        exact ⟨Slice.getElem?_window hi, by omega⟩

theorem eq_window_of_readExact {file : BackingFile} {pos len : ℕ} {out : Bytes}
    (h : file.readExact pos len = .ok out) :
    out = Slice.window file.content pos len := by
  unfold readExact at h
  by_cases hzero : len = 0
  · obtain rfl : [] = out := by simpa [hzero] using h
    simp [hzero]
  · rw [if_neg hzero] at h
    cases hfault : file.fault pos len with
    | some code => simp [hfault] at h
    | none =>
        simp only [hfault] at h
        split_ifs at h
        exact (Except.ok.inj h).symm

/-- A read inside the file delivers, unless the store fails. -/
theorem readExact_cases {file : BackingFile} {pos len : ℕ}
    (h : pos + len ≤ file.content.length) :
    file.readExact pos len = .ok (Slice.window file.content pos len) ∨
      ∃ code, file.fault pos len = some code ∧
        file.readExact pos len = .error (.backing code) := by
  unfold readExact
  by_cases hzero : len = 0
  · left
    simp [hzero]
  · rw [if_neg hzero]
    cases hfault : file.fault pos len with
    | some code => exact Or.inr ⟨code, rfl, rfl⟩
    | none => exact Or.inl (if_pos h)

end BackingFile

/-! ## Limiting a read to the image -/

/-- `if offset + len > image_end { &mut buf[..image_end - offset] }`: the part
of a buffer of `len` bytes that lies inside the image. -/
def limitToEnd {ε : Type} (build : Build) (imageEnd offset len : ℕ) :
    Outcome ε ℕ := do
  let bufEnd ← build.add offset len
  if imageEnd < bufEnd then build.sub imageEnd offset else .ok len

theorem limitToEnd_eq {ε : Type} {build : Build} {imageEnd offset len : ℕ}
    (hoffset : offset ≤ imageEnd) (hlen : offset + len < wordLimit) :
    (limitToEnd build imageEnd offset len : Outcome ε ℕ) =
      .ok (min len (imageEnd - offset)) := by
  unfold limitToEnd
  rw [Build.add_of_lt hlen, Outcome.ok_bind]
  split_ifs with hpast
  · rw [Build.sub_of_le hoffset]
    congr 1
    omega
  · congr 1
    omega

end ImageReader
