import ImageReader.ImageSource
import ImageReader.Loop

/-!
# Readers of a byte array

What the readers of the formats have in common: `read_at_offset` fills the
front of a buffer with the bytes of an array, or fails.  `hashThrough` feeds a
hasher with the bytes of such a reader, one buffer after the other, and so the
digest is over the whole array.
-/

namespace ImageReader

/-- The outcome of `read_at_offset` inside the array: the front of the buffer
holds the bytes from the offset on, as many as there are, or the read has
failed in a way it may. -/
def ReadsBytes {ε : Type} (content : Bytes) (mayFail : ℕ → ℕ → ε → Prop)
    (offset : ℕ) (buf : Bytes) : Outcome ε (ℕ × Bytes) → Prop
  | .ok (n, filled) => n = min buf.length (content.length - offset) ∧
      filled = Slice.window content offset n ++ buf.drop n
  | .error e => mayFail offset (min buf.length (content.length - offset)) e
  | .panic _ => False
  | .hang => False

theorem ReadsBytes.returns {ε : Type} {content : Bytes}
    {mayFail : ℕ → ℕ → ε → Prop} {offset : ℕ} {buf : Bytes}
    {result : Outcome ε (ℕ × Bytes)}
    (h : ReadsBytes content mayFail offset buf result) : result.Returns := by
  cases result with
  | ok read => exact Outcome.returns_ok read
  | error e => exact Outcome.returns_error e
  | panic fault => exact h.elim
  | hang => exact h.elim

/-! ## Hashing -/

/-- The variables of the hashing loop; `fed` are the bytes which the hasher has
been updated with. -/
structure Hashing where
  offset : ℕ
  buf : Bytes
  fed : Bytes

section Hash

variable {ε : Type} (build : Build) (imageSize : ℕ)
  (readAtOffset : ℕ → Bytes → Outcome ε (ℕ × Bytes))

def hashBody (hashing : Hashing) : Outcome ε (Step Hashing Bytes) :=
  if hashing.offset < imageSize then do
    let (read, buf) ← readAtOffset hashing.offset hashing.buf
    if read = 0 then pure (.done hashing.fed)
    else
      let data ← Slice.range buf 0 read
      let offset ← build.add hashing.offset read
      pure (.next { offset, buf, fed := hashing.fed ++ data })
  else pure (.done hashing.fed)

/-- `do_hash` behind the opening of the image; a hasher's digest is a function
of all that it has been updated with. -/
def hashThrough (digest : Bytes → Bytes) (bufLen : ℕ) : Outcome ε Bytes :=
  (loop (hashBody build imageSize readAtOffset) (imageSize + 1)
    ⟨0, List.replicate bufLen 0, []⟩).map digest

end Hash

section Spec

variable {ε : Type} {build : Build} {content : Bytes}
  {readAtOffset : ℕ → Bytes → Outcome ε (ℕ × Bytes)}
  {mayFail : ℕ → ℕ → ε → Prop} {bufLen : ℕ}

/-- The hasher has been fed with everything before the offset. -/
structure Fed (content : Bytes) (bufLen : ℕ) (hashing : Hashing) : Prop where
  offset_le : hashing.offset ≤ content.length
  fed_eq : hashing.fed = content.take hashing.offset
  length_eq : hashing.buf.length = bufLen

theorem hashBody_spec (build : Build) (hbuf : 0 < bufLen)
    (hsize : content.length + bufLen < wordLimit)
    (hreads : ∀ offset buf, offset ≤ content.length →
      offset + buf.length < wordLimit →
      ReadsBytes content mayFail offset buf (readAtOffset offset buf))
    {hashing : Hashing} (hfed : Fed content bufLen hashing) :
    (hashing.offset = content.length ∧
      hashBody build content.length readAtOffset hashing =
        .ok (.done content)) ∨
    (∃ hashing', hashBody build content.length readAtOffset hashing =
        .ok (.next hashing') ∧ Fed content bufLen hashing' ∧
      hashing.offset < hashing'.offset) ∨
    ∃ e, hashBody build content.length readAtOffset hashing = .error e ∧
      ∃ n, 0 < n ∧ hashing.offset + n ≤ content.length ∧
        mayFail hashing.offset n e := by
  obtain ⟨hle, hbytes, hlength⟩ := hfed
  unfold hashBody
  by_cases hmore : hashing.offset < content.length
  swap
  · have hend : hashing.offset = content.length := by omega
    rw [if_neg hmore, hbytes, hend, List.take_length]
    exact Or.inl ⟨rfl, rfl⟩
  rw [if_pos hmore]
  have hread := hreads hashing.offset hashing.buf hle (by omega)
  set n := min hashing.buf.length (content.length - hashing.offset) with hn
  cases hcase : readAtOffset hashing.offset hashing.buf with
  | ok result =>
      obtain ⟨read, filled⟩ := result
      rw [hcase] at hread
      obtain ⟨hread, rfl⟩ := hread
      obtain rfl : read = n := hread
      have hwindow : (Slice.window content hashing.offset n).length = n :=
        Slice.length_window_of_le (by omega)
      have hrange : Slice.range (ε := ε)
          (Slice.window content hashing.offset n ++ hashing.buf.drop n) 0 n =
          .ok (Slice.window content hashing.offset n) := by
        rw [Slice.range_of_le (Nat.zero_le _)
          (by rw [List.length_append, hwindow]; omega), Slice.window,
          List.drop_zero, Nat.sub_zero, List.take_left' hwindow]
      rw [Outcome.ok_bind]
      simp only
      rw [if_neg (by omega), hrange, Outcome.ok_bind,
        Build.add_of_lt (by omega), Outcome.ok_bind]
      refine Or.inr (Or.inl ⟨_, rfl, ⟨?_, ?_, ?_⟩, ?_⟩)
      · simp only
        omega
      · rw [hbytes, Slice.window, List.take_add]
      · rw [List.length_append, hwindow, List.length_drop]
        omega
      · simp only
        omega
  | error e =>
      rw [hcase] at hread
      exact Or.inr (Or.inr ⟨e, rfl, n, by omega, by omega, hread⟩)
  | panic fault =>
      rw [hcase] at hread
      exact hread.elim
  | hang =>
      rw [hcase] at hread
      exact hread.elim

/-- The outcome of hashing: the digest of the whole array, or the error of a
read which has failed. -/
def HashesAll (digest : Bytes → Bytes) (content : Bytes)
    (mayFail : ℕ → ℕ → ε → Prop) : Outcome ε Bytes → Prop
  | .ok hash => hash = digest content
  | .error e => ∃ offset n, 0 < n ∧ offset + n ≤ content.length ∧
      mayFail offset n e
  | .panic _ => False
  | .hang => False

theorem hashThrough_spec (build : Build) (digest : Bytes → Bytes)
    {imageSize : ℕ} (himage : imageSize = content.length)
    (hbuf : 0 < bufLen) (hsize : imageSize + bufLen < wordLimit)
    (hreads : ∀ offset buf, offset ≤ imageSize →
      offset + buf.length < wordLimit →
      ReadsBytes content mayFail offset buf (readAtOffset offset buf)) :
    HashesAll digest content mayFail
      (hashThrough build imageSize readAtOffset digest bufLen) := by
  subst himage
  have hloop : HashesAll id content mayFail
      (loop (hashBody build content.length readAtOffset) (content.length + 1)
        ⟨0, List.replicate bufLen 0, []⟩) := by
    apply loop_rule (Fed content bufLen)
      (fun hashing : Hashing => content.length - hashing.offset)
    · intro hashing hfed
      rcases hashBody_spec build hbuf hsize hreads hfed with
        ⟨-, hbody⟩ | ⟨hashing', hbody, hfed', hlt⟩ | ⟨e, hbody, n, hfails⟩
      · rw [hbody]
        rfl
      · rw [hbody]
        refine ⟨hfed', ?_⟩
        have := hfed'.offset_le
        simp only
        omega
      · rw [hbody]
        exact ⟨hashing.offset, n, hfails⟩
    · exact ⟨Nat.zero_le _, by simp, List.length_replicate⟩
    · exact Nat.lt_succ_self _
  unfold hashThrough
  cases hcase : loop (hashBody build content.length readAtOffset)
      (content.length + 1) ⟨0, List.replicate bufLen 0, []⟩ with
  | ok fed =>
      rw [hcase] at hloop
      obtain rfl : fed = content := hloop
      rfl
  | error e =>
      rw [hcase] at hloop
      exact hloop
  | panic fault =>
      rw [hcase] at hloop
      exact hloop
  | hang =>
      rw [hcase] at hloop
      exact hloop

end Spec

end ImageReader
