import ImageReader.VmdkTiling

/-!
# Reading a tiled image

The copy loop keeps its span index on the span of its offset.  On a
well-formed reader that span always exists, the extent behind it delivers at
least one byte, and the loop ends with the window filled.

`ReadsImage` states everything a read can do: deliver the bytes the spans
hold, or hand on the failure of a backing read.  Only a file position past the
largest word is left, which wraps or panics with the build profile.
-/

namespace ImageReader
namespace Vmdk

variable {δ : Type} {build : Build} {inflater : Inflater δ}
  {reader : VmdkReader}

/-- The byte which the span of offset `o` holds there. -/
def VmdkReader.HeldByte (build : Build) (inflater : Inflater δ)
    (reader : VmdkReader) (o : ℕ) (b : UInt8) : Prop :=
  ∃ beg end_ x ex, (beg, (end_, x)) ∈ reader.spans ∧ beg ≤ o ∧ o < end_ ∧
    reader.extents[x]? = some ex ∧ ex.Delivers build inflater o b

def VmdkReader.PositionsExact (reader : VmdkReader) : Prop :=
  ∀ ex ∈ reader.extents, ex.PositionsExact

/-- `err` is the failure of a backing read for a byte of `[offset, end_)`. -/
def VmdkReader.BackingFailure (build : Build) (inflater : Inflater δ)
    (reader : VmdkReader) (offset end_ : ℕ) (err : IoError) : Prop :=
  err.FromBacking ∧ ∃ o want ex, offset ≤ o ∧ o < end_ ∧
    ex ∈ reader.extents ∧
    ex.storage.read build inflater o want = .error (.ioError err)

/-- The outcome of filling the `count` bytes from `offset` on.  `bytes` are
the bytes delivered. -/
def VmdkReader.Fills (build : Build) (inflater : Inflater δ)
    (reader : VmdkReader) (offset count : ℕ) (bytes : Bytes) : Prop :=
  bytes.length = count ∧
    (reader.PositionsExact → ∀ j b, bytes[j]? = some b →
      reader.HeldByte build inflater (offset + j) b)

/-- The outcome of `read_at_offset` on a buffer, at an offset inside the
image. -/
def ReadsImage (build : Build) (inflater : Inflater δ) (reader : VmdkReader)
    (offset : ℕ) (buf : Bytes) : Outcome ReadError (ℕ × Bytes) → Prop
  | .ok (count, filled) =>
      count = min buf.length (reader.imageSize - offset) ∧
        ∃ bytes, reader.Fills build inflater offset count bytes ∧
          filled = bytes ++ buf.drop count
  | .error e => ∃ err, e = .ioError err ∧
      reader.BackingFailure build inflater offset
        (offset + min buf.length (reader.imageSize - offset)) err
  | .panic fault => ¬ reader.PositionsExact ∧
      (fault = .addOverflow ∨ fault = .mulOverflow)
  | .hang => False

/-! ## The copy loop -/

/-- The loop stands at a span which holds the next byte, if there is one. -/
structure Copying (build : Build) (inflater : Inflater δ)
    (reader : VmdkReader) (beg count : ℕ) (copy : Copy) : Prop where
  offset_eq : copy.offset = beg + copy.filled.length
  length_eq : copy.filled.length + copy.buf.length = count
  at_span : copy.offset < beg + count → ∃ lb ub x,
    reader.spans[copy.i]? = some (lb, (ub, x)) ∧
      lb ≤ copy.offset ∧ copy.offset < ub
  held : reader.Fills build inflater beg copy.filled.length copy.filled

/-- The outcome of the copy loop. -/
def Copied (build : Build) (inflater : Inflater δ) (reader : VmdkReader)
    (beg count : ℕ) : Outcome ReadError Bytes → Prop
  | .ok content => reader.Fills build inflater beg count content
  | .error e => ∃ err, e = .ioError err ∧
      reader.BackingFailure build inflater beg (beg + count) err
  | .panic fault => ¬ reader.PositionsExact ∧
      (fault = .addOverflow ∨ fault = .mulOverflow)
  | .hang => False

theorem VmdkReader.WellFormed.read_span (build : Build)
    (inflater : Inflater δ) (hwf : reader.WellFormed)
    {i lb ub x offset want : ℕ}
    (hspan : reader.spans[i]? = some (lb, (ub, x))) (hlb : lb ≤ offset)
    (hub : offset < ub) (hwant : 0 < want) (hle : offset + want ≤ ub) :
    ∃ ex, reader.extents[x]? = some ex ∧
      ex.ReadsAt build inflater offset want
        (ex.storage.read build inflater offset want) := by
  obtain ⟨ex, hget, hregular, hend, hhas⟩ :=
    hwf.owned lb ub x (List.mem_of_getElem? hspan) (by omega)
  refine ⟨ex, hget, Extent.read_spec hregular (hend.trans_lt hwf.lt)
    (hhas offset hlb hub) hwant ?_⟩
  -- the last byte of the span lies in a sector of the extent
  have hlast := (hhas (ub - 1) (by omega) (by omega)).2.1
  rw [Nat.div_lt_iff_lt_mul (by simp)] at hlast
  omega

/-- The loop after `data` has been read from the extent of its span. -/
theorem Copying.next (hwf : reader.WellFormed) {beg count lb ub x : ℕ}
    (hcount : beg + count ≤ reader.imageSize) {copy : Copy} {ex : Extent}
    (hcopy : Copying build inflater reader beg count copy)
    (hmore : copy.offset < beg + count)
    (hspan : reader.spans[copy.i]? = some (lb, (ub, x)))
    (hlb : lb ≤ copy.offset) (hget : reader.extents[x]? = some ex)
    {data : Bytes} (hpos : 0 < data.length)
    (hle : data.length ≤ min (ub - copy.offset) copy.buf.length)
    (hbytes : reader.PositionsExact → ∀ j b, data[j]? = some b →
      ex.Delivers build inflater (copy.offset + j) b) :
    Copying build inflater reader beg count {
      offset := copy.offset + data.length
      i := if ub ≤ copy.offset + data.length then copy.i + 1 else copy.i
      filled := copy.filled ++ data
      buf := Slice.window copy.buf data.length
        (copy.buf.length - data.length) } := by
  obtain ⟨hoffset, hlength, -, hheld⟩ := hcopy
  have hlt := hwf.lt
  refine {
    offset_eq := ?_
    length_eq := ?_
    at_span := ?_
    held := ⟨rfl, ?_⟩ }
  · simp only [List.length_append]
    omega
  · simp only [List.length_append]
    rw [Slice.length_window_of_le (by omega)]
    omega
  · intro hmore'
    simp only at hmore' ⊢
    split_ifs with hnext
    · obtain ⟨hlt', hle', hfollows⟩ := hwf.tiles.span hspan (by omega)
      obtain ⟨⟨ub', x'⟩, hspan'⟩ := hfollows (by omega)
      obtain ⟨hlt'', _, _⟩ := hwf.tiles.span hspan' (by omega)
      exact ⟨ub, ub', x', hspan', by omega, by omega⟩
    · exact ⟨lb, ub, x, hspan, by omega, by omega⟩
  · intro hexact j b hj
    rcases Nat.lt_or_ge j copy.filled.length with hold | hnew
    · rw [List.getElem?_append_left hold] at hj
      exact hheld.2 hexact j b hj
    · rw [List.getElem?_append_right hnew] at hj
      have hin := (List.getElem?_eq_some_iff.mp hj).1
      have hdelivers := hbytes hexact _ b hj
      rw [show copy.offset + (j - copy.filled.length) = beg + j by
        omega] at hdelivers
      exact ⟨lb, ub, x, ex, List.mem_of_getElem? hspan, by omega,
        by omega, hget, hdelivers⟩

theorem copyBody_spec (hwf : reader.WellFormed) {beg count : ℕ}
    (hcount : beg + count ≤ reader.imageSize) {copy : Copy}
    (hcopy : Copying build inflater reader beg count copy) :
    Iterates (Copying build inflater reader beg count)
      (fun copy => copy.buf.length) (Copied build inflater reader beg count)
      copy.buf.length (copyBody build inflater reader (beg + count) copy) := by
  obtain ⟨hoffset, hlength, hat, hheld⟩ := id hcopy
  have hlt := hwf.lt
  unfold copyBody
  by_cases hmore : copy.offset < beg + count
  swap
  · rw [if_neg hmore]
    have hempty : copy.buf = [] := List.length_eq_zero_iff.mp (by omega)
    have hfull : copy.filled.length = count := by omega
    rw [hempty, List.append_nil]
    rw [hfull] at hheld
    exact hheld
  rw [if_pos hmore]
  obtain ⟨lb, ub, x, hspan, hlb, hub⟩ := hat hmore
  have hbuf : 0 < copy.buf.length := by omega
  obtain ⟨ex, hget, hreads⟩ := hwf.read_span build inflater hspan hlb
    hub (show 0 < min (ub - copy.offset) copy.buf.length by omega) (by omega)
  rw [Slice.index_of_getElem? hspan, Outcome.ok_bind,
    Build.sub_of_le hub.le, Outcome.ok_bind, Slice.index_of_getElem? hget,
    Outcome.ok_bind]
  cases hread : ex.storage.read build inflater copy.offset
      (min (ub - copy.offset) copy.buf.length) with
  | error e =>
      rw [hread] at hreads
      obtain ⟨err, rfl, herr⟩ := hreads
      exact ⟨err, rfl, herr, copy.offset, _, ex, by omega, hmore,
        List.mem_of_getElem? hget, hread⟩
  | panic fault =>
      rw [hread] at hreads
      exact ⟨fun hexact => hreads.1 (hexact ex (List.mem_of_getElem? hget)),
        hreads.2⟩
  | hang =>
      rw [hread] at hreads
      exact hreads
  | ok data =>
      rw [hread] at hreads
      obtain ⟨hpos, hle, hbytes⟩ := hreads
      rw [Outcome.ok_bind, Build.add_of_lt (by omega), Outcome.ok_bind,
        Slice.range_of_le (by omega) le_rfl]
      refine ⟨hcopy.next hwf hcount hmore hspan hlb hget hpos hle
        fun hexact => hbytes (hexact ex (List.mem_of_getElem? hget)), ?_⟩
      simp only
      rw [Slice.length_window_of_le (by omega)]
      omega

theorem firstSpan_spec (hwf : reader.WellFormed) (offset : ℕ) :
    ∃ i, firstSpan reader offset = .ok i ∧
      (offset < reader.imageSize → ∃ lb ub x,
        reader.spans[i]? = some (lb, (ub, x)) ∧ lb ≤ offset ∧ offset < ub) := by
  obtain ⟨b, hhead⟩ := hwf.tiles.head hwf.nonempty
  obtain ⟨i, key, hsearch, hkey, hle, hnext⟩ :=
    Slice.binarySearch_cases hwf.tiles.sorted
      (by rw [List.getElem?_map, hhead]; rfl) (Nat.zero_le offset)
  refine ⟨i, ?_, ?_⟩
  · unfold firstSpan
    rcases hsearch with hsearch | hsearch <;> rw [hsearch]
  · intro hoffset
    rw [List.getElem?_map, Option.map_eq_some_iff] at hkey
    obtain ⟨⟨lb, ub, x⟩, hspan, rfl⟩ := hkey
    refine ⟨lb, ub, x, hspan, hle, ?_⟩
    obtain ⟨_, hend, hfollows⟩ := hwf.tiles.span hspan
      (lt_of_le_of_lt hle hoffset)
    by_contra hge
    obtain ⟨b, hspan'⟩ := hfollows (by omega)
    have := hnext ub (by rw [List.getElem?_map, hspan']; rfl)
    omega

/-- A read is its copy loop, which starts on the span of the offset. -/
theorem readAtOffset_eq_loop (build : Build) (inflater : Inflater δ)
    (hwf : reader.WellFormed) {offset : ℕ} {buf : Bytes}
    (hoffset : offset ≤ reader.imageSize)
    (hbuf : offset + buf.length < wordLimit) {count : ℕ}
    (hcount : count = min buf.length (reader.imageSize - offset)) :
    ∃ i, firstSpan reader offset = .ok i ∧
      Copying build inflater reader offset count
        ⟨offset, i, [], Slice.window buf 0 count⟩ ∧
      readAtOffset build inflater reader offset buf =
        (loop (copyBody build inflater reader (offset + count))
          (count + reader.spans.length + 1)
          ⟨offset, i, [], Slice.window buf 0 count⟩ >>=
        fun content => .ok (count, content ++ buf.drop count)) := by
  have hwindow : (Slice.window buf 0 count).length = count :=
    Slice.length_window_of_le (by omega)
  obtain ⟨i, hsearch, hspan⟩ := firstSpan_spec hwf offset
  refine ⟨i, hsearch, {
    offset_eq := rfl
    length_eq := by simpa using hwindow
    at_span := fun hlt => hspan (by simp only at hlt; omega)
    held := ⟨rfl, by simp⟩ }, ?_⟩
  have hlt := hwf.lt
  unfold readAtOffset
  rw [if_neg (by omega), limitToEnd_eq hoffset hbuf, ← hcount,
    Outcome.ok_bind, Slice.range_of_le (Nat.zero_le _) (by omega),
    Outcome.ok_bind, Nat.sub_zero, hwindow, Build.add_of_lt (by omega),
    Outcome.ok_bind, hsearch, Outcome.ok_bind, Build.sub_of_le (by omega),
    Nat.add_sub_cancel_left]
  rfl

theorem readAtOffset_spec (hwf : reader.WellFormed) {offset : ℕ} {buf : Bytes}
    (hoffset : offset ≤ reader.imageSize)
    (hbuf : offset + buf.length < wordLimit) :
    ReadsImage build inflater reader offset buf
      (readAtOffset build inflater reader offset buf) := by
  set count := min buf.length (reader.imageSize - offset) with hcount
  obtain ⟨i, -, hstart, hread⟩ := readAtOffset_eq_loop build inflater hwf
    hoffset hbuf hcount
  rw [hread]
  have hloop : Copied build inflater reader offset count
      (loop (copyBody build inflater reader (offset + count))
        (count + reader.spans.length + 1)
        ⟨offset, i, [], Slice.window buf 0 count⟩) := by
    apply loop_rule (Copying build inflater reader offset count)
      (fun copy : Copy => copy.buf.length)
    · exact fun copy hcopy => copyBody_spec hwf (by omega) hcopy
    · exact hstart
    · have hlength := hstart.length_eq
      simp only [List.length_nil] at hlength
      simp only
      omega
  cases hcase : loop (copyBody build inflater reader (offset + count))
      (count + reader.spans.length + 1)
      ⟨offset, i, [], Slice.window buf 0 count⟩ with
  | ok content =>
      rw [hcase] at hloop
      exact ⟨hcount, content, hloop, rfl⟩
  | error e =>
      rw [hcase] at hloop
      exact hloop
  | panic fault =>
      rw [hcase] at hloop
      exact hloop
  | hang =>
      rw [hcase] at hloop
      exact hloop

end Vmdk
end ImageReader
