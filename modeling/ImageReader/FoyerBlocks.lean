import ImageReader.FoyerTiers

/-!
# Blocks

A block is the bytes of its source from its offset on, as many as there are up
to the block size.  What a fetch cuts out of an answer of the source is a
block, also when the answer is short or long; and a buffer which is filled from
blocks holds the bytes of the source.
-/

namespace ImageReader

namespace Slice

variable {α : Type*} {xs ys : List α} {off len a b : ℕ}

theorem window_of_beginning (h : ys <+: xs.drop off) (hle : a + b ≤ ys.length) :
    window ys a b = window xs (off + a) b := by
  obtain ⟨rest, hrest⟩ := h
  have hdrop : xs.drop (off + a) = ys.drop a ++ rest := by
    rw [← List.drop_drop, ← hrest, List.drop_append_of_le_length (by omega)]
  unfold window
  rw [hdrop, List.take_append_of_le_length (by rw [List.length_drop]; omega)]

theorem window_min (xs : List α) (off len : ℕ) :
    window xs off (min len (xs.length - off)) = window xs off len := by
  unfold window
  rw [List.take_eq_take_iff, List.length_drop]
  omega

theorem take_of_beginning (h : ys <+: xs.drop off) (hle : len ≤ ys.length) :
    ys.take len = window xs off len := by
  have := window_of_beginning (a := 0) (b := len) h (by omega)
  simpa [window] using this

end Slice

namespace Foyer

/-! ## The grid -/

theorem mem_blockOffs {beg end_ step b : ℕ} (hpos : 0 < step) :
    b ∈ blockOffs beg end_ step ↔ ∃ i, b = beg + i * step ∧ b < end_ := by
  unfold blockOffs
  rw [List.mem_map]
  constructor
  · rintro ⟨i, hi, rfl⟩
    refine ⟨i, rfl, ?_⟩
    rw [List.mem_range] at hi
    have hmul : (i + 1) * step ≤ end_ - beg + (step - 1) :=
      (Nat.le_div_iff_mul_le hpos).mp hi
    rw [Nat.succ_mul] at hmul
    omega
  · rintro ⟨i, rfl, hlt⟩
    refine ⟨i, ?_, rfl⟩
    rw [List.mem_range]
    apply (Nat.le_div_iff_mul_le hpos).mpr
    rw [Nat.succ_mul]
    omega

namespace FoyerCache

variable (cache : FoyerCache) {build : Build} {source : Source}
  {choff gbeg gend b : ℕ}

/-- Where the group of a block begins. -/
def groupBeg (b : ℕ) : ℕ := b / cache.fetchSize * cache.fetchSize

/-- The group of a block ends before the last word. -/
def GroupFits (b : ℕ) : Prop := cache.groupBeg b + cache.fetchSize < wordLimit

def OnGrid (b : ℕ) : Prop := cache.chlen ∣ b

/-- What belongs under the key of a block. -/
def block (source : Source) (b : ℕ) : Bytes :=
  Slice.window source.bytes b cache.chlen

theorem chlen_dvd_fetchSize : cache.chlen ∣ cache.fetchSize := by
  rw [← cache.fetchSize_eq]
  exact Dvd.intro_left _ rfl

theorem fetchSize_pos : 0 < cache.fetchSize := by
  rw [← cache.fetchSize_eq]
  exact Nat.mul_pos (by omega) cache.chlen_pos

theorem groupBeg_le (b : ℕ) : cache.groupBeg b ≤ b := Nat.div_mul_le_self _ _

theorem lt_groupBeg_add (b : ℕ) : b < cache.groupBeg b + cache.fetchSize := by
  have hlt := Nat.lt_div_mul_add cache.fetchSize_pos (a := b)
  exact hlt

theorem onGrid_groupBeg (b : ℕ) : cache.OnGrid (cache.groupBeg b) :=
  Dvd.dvd.mul_left cache.chlen_dvd_fetchSize _

variable {cache}

theorem OnGrid.add_le {a c : ℕ} (ha : cache.OnGrid a) (hc : cache.OnGrid c)
    (hlt : a < c) : a + cache.chlen ≤ c := by
  obtain ⟨i, rfl⟩ := ha
  obtain ⟨j, rfl⟩ := hc
  have hij : i < j := Nat.lt_of_mul_lt_mul_left hlt
  calc cache.chlen * i + cache.chlen = cache.chlen * (i + 1) := by ring
    _ ≤ cache.chlen * j := Nat.mul_le_mul_left _ hij

theorem onGrid_mem (hbeg : cache.OnGrid gbeg)
    (hmem : b ∈ blockOffs gbeg gend cache.chlen) : cache.OnGrid b := by
  obtain ⟨i, rfl, -⟩ := (mem_blockOffs cache.chlen_pos).mp hmem
  exact Nat.dvd_add hbeg (Dvd.intro_left _ rfl)

theorem mem_blockOffs_of_onGrid (hbeg : cache.OnGrid gbeg) (hb : cache.OnGrid b)
    (hle : gbeg ≤ b) (hlt : b < gend) : b ∈ blockOffs gbeg gend cache.chlen := by
  rw [mem_blockOffs cache.chlen_pos]
  obtain ⟨i, hi⟩ := Nat.dvd_sub hb hbeg
  exact ⟨i, by rw [Nat.mul_comm, ← hi]; omega, hlt⟩

theorem OnGrid.le_group_end (hb : cache.OnGrid b) :
    b + cache.chlen ≤ cache.groupBeg b + cache.fetchSize :=
  hb.add_le (Nat.dvd_add (cache.onGrid_groupBeg b) cache.chlen_dvd_fetchSize)
    (cache.lt_groupBeg_add b)

theorem GroupFits.add_lt (hfits : cache.GroupFits b) (hb : cache.OnGrid b) :
    b + cache.chlen < wordLimit :=
  Nat.lt_of_le_of_lt hb.le_group_end hfits

theorem groupBeg_of_mem (hle : cache.groupBeg choff ≤ b)
    (hlt : b < cache.groupBeg choff + cache.fetchSize) :
    cache.groupBeg b = cache.groupBeg choff := by
  unfold groupBeg at *
  congr 1
  exact Nat.div_eq_of_lt_le hle (by rw [Nat.succ_mul]; exact hlt)

/-! ## Fetched blocks -/

theorem groupRange_eq :
    cache.groupRange build choff source.end_ =
      build.add (cache.groupBeg choff) cache.fetchSize >>= fun next =>
        .ok (cache.groupBeg choff, min next source.end_) := by
  unfold groupRange groupBeg
  rw [cache.fetchSize_eq]
  rfl

theorem groupRange_of_fits (hfits : cache.GroupFits choff) :
    cache.groupRange build choff source.end_ =
      .ok (cache.groupBeg choff,
        min (cache.groupBeg choff + cache.fetchSize) source.end_) := by
  rw [groupRange_eq, Build.add_of_lt hfits, Outcome.ok_bind]

theorem groupRange_le
    (h : cache.groupRange build choff source.end_ = .ok (gbeg, gend)) :
    gend ≤ source.end_ := by
  rw [groupRange_eq] at h
  obtain ⟨next, -, hrange⟩ := Outcome.bind_eq_ok.mp h
  rw [Outcome.ok.injEq, Prod.mk.injEq] at hrange
  rw [← hrange.2]
  exact Nat.min_le_right _ _

theorem wrapped_end {limit gbeg size end_ : ℕ} (hsize : size < limit)
    (hbeg : gbeg < limit) (hend : end_ < limit) (hover : limit ≤ gbeg + size) :
    min ((gbeg + size) % limit) end_ < gbeg ∧
      end_ - gbeg + gbeg < min ((gbeg + size) % limit) end_ + limit := by
  rw [Nat.mod_eq_sub_mod hover, Nat.mod_eq_of_lt (by omega)]
  omega

/-- The end of a group which does not fit is below its beginning, further from
it than what there is of the source. -/
theorem groupRange_of_not (hfits : ¬ cache.GroupFits choff)
    (hchoff : choff < wordLimit)
    (h : cache.groupRange build choff source.end_ = .ok (gbeg, gend)) :
    gend < gbeg ∧ source.end_ - gbeg + gbeg < gend + wordLimit := by
  rw [groupRange_eq] at h
  cases build with
  | dev =>
      rw [Build.dev_add hfits] at h
      simp at h
  | release =>
      rw [Build.release_add hfits, Outcome.ok_bind] at h
      simp only [Outcome.ok.injEq, Prod.mk.injEq] at h
      obtain ⟨rfl, rfl⟩ := h
      exact wrapped_end cache.fetchSize_lt
        (Nat.lt_of_le_of_lt (cache.groupBeg_le choff) hchoff) source.length_lt
        (Nat.le_of_not_lt hfits)

theorem length_of_beginning {bytes : Bytes} (h : bytes <+: source.bytes.drop gbeg) :
    bytes.length ≤ source.end_ - gbeg := by
  have hle := h.length_le
  rw [List.length_drop] at hle
  exact hle

theorem block_eq (source : Source) (b : ℕ) :
    cache.block source b =
      Slice.window source.bytes b (min cache.chlen (source.end_ - b)) :=
  (Slice.window_min _ _ _).symm

/-- A range that ends before it begins wants more than there is. -/
theorem wholeBlock_of_lt {idx : ℕ} {bytes out : Bytes} (hlt : gend < gbeg)
    (hmore : bytes.length + gbeg < gend + wordLimit) :
    cache.wholeBlock build idx choff gbeg gend bytes ≠ .ok out := by
  unfold wholeBlock
  cases build with
  | dev => simp [Build.sub, Nat.not_le_of_lt hlt]
  | release =>
      rw [Build.release_sub (Nat.not_le_of_lt hlt), Outcome.ok_bind,
        Nat.mod_eq_of_lt (by omega), if_pos (by omega)]
      simp

theorem wholeBlock_of_le {idx : ℕ} {bytes : Bytes} (hle : gbeg ≤ gend) :
    cache.wholeBlock build idx choff gbeg gend bytes =
      if bytes.length < gend - gbeg then
        .error (.shortRead idx choff cache.chlen bytes.length)
      else .ok (bytes.take (gend - gbeg)) := by
  unfold wholeBlock
  rw [Build.sub_of_le hle, Outcome.ok_bind]
  rfl

section OneBlock

variable {idx : ℕ} {bytes out : Bytes}

theorem groupBeg_of_one (hone : cache.fetchSize = cache.chlen)
    (hgrid : cache.OnGrid choff) : cache.groupBeg choff = choff := by
  unfold groupBeg
  rw [hone]
  exact Nat.div_mul_cancel hgrid

theorem wholeBlock_ok (hone : cache.fetchSize = cache.chlen)
    (hgrid : cache.OnGrid choff) (hchoff : choff < wordLimit)
    (hrange : cache.groupRange build choff source.end_ = .ok (gbeg, gend))
    (hgot : bytes <+: source.bytes.drop gbeg)
    (h : cache.wholeBlock build idx choff gbeg gend bytes = .ok out) :
    out = cache.block source choff ∧ cache.GroupFits choff := by
  have hlen := length_of_beginning hgot
  have hend : source.end_ < wordLimit := source.length_lt
  have hbeg := groupBeg_of_one hone hgrid
  have hpos := cache.fetchSize_pos
  by_cases hfits : cache.GroupFits choff
  · rw [groupRange_of_fits hfits, Outcome.ok.injEq, Prod.mk.injEq, hbeg] at hrange
    obtain ⟨rfl, rfl⟩ := hrange
    by_cases hle : choff ≤ source.end_
    · rw [wholeBlock_of_le (by omega)] at h
      split_ifs at h with hshort
      obtain rfl := Outcome.ok.inj h
      refine ⟨?_, hfits⟩
      rw [Slice.take_of_beginning hgot (Nat.le_of_not_lt hshort), block_eq]
      congr 1
      rw [hone]
      omega
    · exact absurd h (wholeBlock_of_lt (by omega) (by omega))
  · obtain ⟨hback, hfar⟩ := groupRange_of_not hfits hchoff hrange
    exact absurd h (wholeBlock_of_lt hback (by omega))

theorem wholeBlock_returns (hfits : cache.GroupFits choff)
    (hrange : cache.groupRange build choff source.end_ = .ok (gbeg, gend))
    (hlt : choff < source.end_) :
    (cache.wholeBlock build idx choff gbeg gend bytes).Returns := by
  rw [groupRange_of_fits hfits, Outcome.ok.injEq, Prod.mk.injEq] at hrange
  obtain ⟨rfl, rfl⟩ := hrange
  have hle := cache.groupBeg_le choff
  rw [wholeBlock_of_le (by omega)]
  split_ifs
  · exact Outcome.returns_error _
  · exact Outcome.returns_ok _

theorem wholeBlock_full (hfits : cache.GroupFits choff)
    (hrange : cache.groupRange build choff source.end_ = .ok (gbeg, gend))
    (hlt : choff < source.end_) (hfull : gend - gbeg ≤ bytes.length) :
    ∃ out, cache.wholeBlock build idx choff gbeg gend bytes = .ok out := by
  rw [groupRange_of_fits hfits, Outcome.ok.injEq, Prod.mk.injEq] at hrange
  obtain ⟨rfl, rfl⟩ := hrange
  have hle := cache.groupBeg_le choff
  rw [wholeBlock_of_le (by omega), if_neg (by omega)]
  exact ⟨_, rfl⟩

end OneBlock

/-! ## Blocks of a group -/

section Group

variable {bytes : Bytes} (hge : cache.groupBeg choff ≤ b)
  (hlt : b < min (cache.groupBeg choff + cache.fetchSize) source.end_)

include hge hlt

theorem groupFits_of_mem (hfits : cache.GroupFits choff) : cache.GroupFits b := by
  unfold GroupFits
  rw [groupBeg_of_mem hge (by omega)]
  exact hfits

theorem blockBounds_eq (hfits : cache.GroupFits choff) (hgrid : cache.OnGrid b) :
    cache.blockBounds build (cache.groupBeg choff)
        (min (cache.groupBeg choff + cache.fetchSize) source.end_) b =
      .ok (b - cache.groupBeg choff,
        min (b + cache.chlen) source.end_ - cache.groupBeg choff) := by
  have hword := (groupFits_of_mem hge hlt hfits).add_lt hgrid
  have hend := hgrid.le_group_end
  rw [groupBeg_of_mem hge (by omega)] at hend
  unfold blockBounds
  rw [Build.sub_of_le hge, Outcome.ok_bind, Build.add_of_lt hword, Outcome.ok_bind,
    Build.sub_of_le (by omega), Outcome.ok_bind]
  congr 2
  omega

theorem range_block (hgot : bytes <+: source.bytes.drop (cache.groupBeg choff))
    (hlen : min (b + cache.chlen) source.end_ - cache.groupBeg choff ≤ bytes.length) :
    (Slice.range bytes (b - cache.groupBeg choff)
      (min (b + cache.chlen) source.end_ - cache.groupBeg choff) :
        Outcome CacheError Bytes) = .ok (cache.block source b) := by
  rw [Slice.range_of_le (by omega) hlen,
    Slice.window_of_beginning hgot (by omega), block_eq]
  congr 2
  · omega
  · omega

end Group

/-! ## Filling a buffer -/

section Fill

variable {buf out ch : Bytes} {idx off bbeg : ℕ}

theorem length_block (source : Source) (b : ℕ) :
    (cache.block source b).length = min cache.chlen (source.end_ - b) :=
  Slice.length_window _ _ _

theorem copyFrom_ok {dst src : Bytes}
    (h : (Slice.copyFrom dst src : Outcome CacheError Bytes) = .ok out) :
    out = src ∧ src.length = dst.length := by
  unfold Slice.copyFrom at h
  split_ifs at h with hlen
  exact ⟨(Outcome.ok.inj h).symm, hlen.symm⟩

theorem fillFromBlock_ok (hle : choff ≤ off) (hlen : buf.length < wordLimit)
    (h : fillFromBlock build buf off choff (cache.block source choff) idx = .ok out) :
    out = Slice.window source.bytes off buf.length ∧ out.length = buf.length ∧
      off - choff + buf.length < wordLimit := by
  unfold fillFromBlock at h
  rw [Build.sub_of_le hle, Outcome.ok_bind] at h
  by_cases hword : off - choff + buf.length < wordLimit
  · rw [Build.add_of_lt hword, Outcome.ok_bind] at h
    split_ifs at h with hshort
    have hblock := cache.length_block source choff
    rw [Slice.range_of_le (Nat.le_add_right _ _) (Nat.le_of_not_lt hshort),
      Outcome.ok_bind, Nat.add_sub_cancel_left] at h
    obtain ⟨rfl, hsame⟩ := copyFrom_ok h
    refine ⟨?_, hsame, hword⟩
    unfold block
    rw [Slice.window_window (by omega)]
    congr 1
    omega
  · cases build with
    | dev => simp [Build.dev_add hword] at h
    | release =>
        have hback : ¬ off - choff ≤ (off - choff + buf.length) % wordLimit := by
          intro hback
          rcases Nat.lt_or_ge (off - choff) wordLimit with hlt | hge
          · rw [Nat.mod_eq_sub_mod (Nat.le_of_not_lt hword),
              Nat.mod_eq_of_lt (by omega)] at hback
            omega
          · have := Nat.mod_lt (off - choff + buf.length) (show 0 < wordLimit by decide)
            omega
        rw [Build.release_add hword, Outcome.ok_bind] at h
        split_ifs at h with hshort
        rw [Slice.range_of_not (fun hrange => hback hrange.1)] at h
        simp at h

theorem fillFromBlock_full (hle : choff ≤ off)
    (hword : off + buf.length < wordLimit)
    (hblock : off + buf.length ≤ choff + cache.chlen)
    (hend : off + buf.length ≤ source.end_) :
    ∃ out, fillFromBlock build buf off choff (cache.block source choff) idx = .ok out := by
  have hlen := cache.length_block source choff
  unfold fillFromBlock
  rw [Build.sub_of_le hle, Outcome.ok_bind, Build.add_of_lt (by omega),
    Outcome.ok_bind, if_neg (by omega),
    Slice.range_of_le (by omega) (by omega), Outcome.ok_bind]
  refine ⟨_, Slice.copyFrom_of_length ?_⟩
  rw [Slice.length_window_of_le (by omega)]
  omega

/-- The first `bbeg` bytes of the buffer are those of the source. -/
structure Filled (source : Source) (off bbeg : ℕ) (buf : Bytes) : Prop where
  le : bbeg ≤ buf.length
  take : buf.take bbeg = Slice.window source.bytes off bbeg

/-! ### One block after the other -/

/-- How many bytes go from a block at `choff` into a buffer of `len` bytes. -/
def taken (off bbeg len choff : ℕ) (ch : Bytes) : ℕ :=
  min (off + bbeg - choff + (len - bbeg)) ch.length - (off + bbeg - choff)

/-- The buffer with the bytes of the block behind the first `bbeg`. -/
def overwritten (off bbeg choff : ℕ) (ch buf : Bytes) : Bytes :=
  buf.take bbeg ++
    Slice.window ch (off + bbeg - choff) (taken off bbeg buf.length choff ch) ++
    buf.drop (bbeg + taken off bbeg buf.length choff ch)

section Step

variable {ch : Bytes} {rest : List (ℕ × Bytes)}

theorem add_taken_le (off choff : ℕ) (ch : Bytes) (hle : bbeg ≤ buf.length) :
    bbeg + taken off bbeg buf.length choff ch ≤ buf.length := by
  unfold taken
  omega

theorem length_taken (buf : Bytes) (hreach : off + bbeg - choff ≤ ch.length) :
    (Slice.window ch (off + bbeg - choff)
      (taken off bbeg buf.length choff ch)).length =
      taken off bbeg buf.length choff ch := by
  refine Slice.length_window_of_le ?_
  unfold taken
  omega

theorem length_overwritten (hle : bbeg ≤ buf.length)
    (hreach : off + bbeg - choff ≤ ch.length) :
    (overwritten off bbeg choff ch buf).length = buf.length := by
  have hend := add_taken_le off choff ch hle
  unfold overwritten
  rw [List.length_append, List.length_append, length_taken buf hreach,
    List.length_take_of_le hle, List.length_drop]
  omega

/-- A block which reaches the position of the read is copied from there. -/
theorem copyBlocks_of_reach (build : Build) (idx : ℕ)
    (hword : off + buf.length < wordLimit) (hle : bbeg ≤ buf.length)
    (hpos : choff ≤ off + bbeg) (hreach : off + bbeg - choff ≤ ch.length) :
    copyBlocks build idx off ((choff, ch) :: rest) bbeg buf =
      copyBlocks build idx off rest (bbeg + taken off bbeg buf.length choff ch)
        (overwritten off bbeg choff ch buf) := by
  have hend := add_taken_le off choff ch hle
  have hsrc := length_taken buf hreach
  have hdst : (Slice.window buf bbeg (taken off bbeg buf.length choff ch)).length =
      taken off bbeg buf.length choff ch := Slice.length_window_of_le hend
  unfold overwritten
  set n := taken off bbeg buf.length choff ch with hn
  unfold taken at hn
  rw [copyBlocks, Build.add_of_lt (by omega), Outcome.ok_bind, if_neg (by omega),
    Build.sub_of_le hpos, Outcome.ok_bind, Build.sub_of_le hle, Outcome.ok_bind,
    Build.add_of_lt (by omega), Outcome.ok_bind, if_neg (by omega),
    Build.sub_of_le (by omega), Outcome.ok_bind, ← hn,
    Build.add_of_lt (by omega), Outcome.ok_bind,
    Slice.range_of_le (by omega) (by omega), Outcome.ok_bind,
    Slice.range_of_le (by omega) (by omega), Outcome.ok_bind,
    Nat.add_sub_cancel_left, ← hn, Slice.copyFrom_of_length (by rw [hsrc, hdst]),
    Outcome.ok_bind]

/-- A block which lies behind the position, or ends before it, is refused. -/
theorem copyBlocks_of_not_reach (build : Build) (idx : ℕ)
    (hword : off + buf.length < wordLimit) (hle : bbeg ≤ buf.length)
    (hnot : ¬ (choff ≤ off + bbeg ∧ off + bbeg - choff ≤ ch.length)) :
    copyBlocks build idx off ((choff, ch) :: rest) bbeg buf =
      .error (.shortRead idx off buf.length bbeg) := by
  rw [copyBlocks, Build.add_of_lt (by omega), Outcome.ok_bind]
  by_cases hpos : off + bbeg < choff
  · rw [if_pos hpos]
  · rw [if_neg hpos, Build.sub_of_le (by omega), Outcome.ok_bind, Build.sub_of_le hle,
      Outcome.ok_bind, Build.add_of_lt (by omega), Outcome.ok_bind, if_pos (by omega)]

theorem Filled.overwritten (hfilled : Filled source off bbeg buf)
    (hpos : choff ≤ off + bbeg)
    (hreach : off + bbeg - choff ≤ (cache.block source choff).length) :
    Filled source off
      (bbeg + taken off bbeg buf.length choff (cache.block source choff))
      (overwritten off bbeg choff (cache.block source choff) buf) := by
  obtain ⟨hle, htake⟩ := hfilled
  have hlen := cache.length_block source choff
  have hend := add_taken_le off choff (cache.block source choff) hle
  have hsrc := length_taken buf hreach
  have hhead : (buf.take bbeg).length = bbeg := List.length_take_of_le hle
  refine ⟨by rw [length_overwritten hle hreach]; exact hend, ?_⟩
  unfold FoyerCache.overwritten
  set n := taken off bbeg buf.length choff (cache.block source choff) with hn
  unfold taken at hn
  have hpiece : Slice.window (cache.block source choff) (off + bbeg - choff) n =
      Slice.window source.bytes (off + bbeg) n := by
    unfold block
    rw [Slice.window_window (by omega)]
    congr 1
    omega
  rw [List.take_append_of_le_length (by rw [List.length_append, hhead, hsrc]),
    List.take_of_length_le (by rw [List.length_append, hhead, hsrc]), hpiece, htake,
    Slice.window_append]

end Step

theorem copyBlocks_ok {blocks : List (ℕ × Bytes)} {bend : ℕ}
    (hblocks : ∀ p ∈ blocks, p.2 = cache.block source p.1)
    (hword : off + buf.length < wordLimit) (hfilled : Filled source off bbeg buf)
    (h : copyBlocks build idx off blocks bbeg buf = .ok (bend, out)) :
    out.length = buf.length ∧ Filled source off bend out := by
  induction blocks generalizing bbeg buf with
  | nil =>
      rw [copyBlocks, Outcome.ok.injEq, Prod.mk.injEq] at h
      obtain ⟨rfl, rfl⟩ := h
      exact ⟨rfl, hfilled⟩
  | cons p rest ih =>
      obtain ⟨choff, ch⟩ := p
      obtain rfl : ch = cache.block source choff := hblocks (choff, ch) (by simp)
      by_cases hreach : choff ≤ off + bbeg ∧
          off + bbeg - choff ≤ (cache.block source choff).length
      · have hlen := length_overwritten hfilled.le hreach.2
        rw [copyBlocks_of_reach build idx hword hfilled.le hreach.1 hreach.2] at h
        rw [← hlen]
        exact ih (fun p hp => hblocks p (List.mem_cons_of_mem _ hp))
          (by rw [hlen]; exact hword) (hfilled.overwritten hreach.1 hreach.2) h
      · rw [copyBlocks_of_not_reach build idx hword hfilled.le hreach] at h
        simp at h

/-- A block takes the read to the end of the block or of the buffer. -/
theorem add_taken (source : Source) {c len : ℕ} (hend : off + len ≤ source.end_)
    (hnear : off ≤ c + cache.chlen) (hc : c < off + len)
    (hpos : off + bbeg = max c off) (hle : bbeg ≤ len) :
    off + (bbeg + taken off bbeg len c (cache.block source c)) =
      min (c + cache.chlen) (off + len) := by
  have hlen := cache.length_block source c
  unfold taken
  rcases Nat.le_total c off with hbefore | hafter
  · rw [max_eq_right hbefore] at hpos
    omega
  · rw [max_eq_left hafter] at hpos
    omega

/-- Blocks without a gap fill a buffer which lies within them. -/
theorem copyBlocks_full {n c : ℕ} (hword : off + buf.length < wordLimit)
    (hend : off + buf.length ≤ source.end_) (hfilled : Filled source off bbeg buf)
    (hnear : off ≤ c + cache.chlen)
    (hpos : off + bbeg = min (max c off) (off + buf.length))
    (hall : ∀ i < n, c + i * cache.chlen < off + buf.length)
    (hlast : off + buf.length ≤ c + n * cache.chlen) :
    ∃ out, copyBlocks build idx off
      ((List.range n).map fun i =>
        (c + i * cache.chlen, cache.block source (c + i * cache.chlen)))
      bbeg buf = .ok (buf.length, out) := by
  induction n generalizing c bbeg buf with
  | zero =>
      refine ⟨buf, ?_⟩
      rw [List.range_zero, List.map_nil, copyBlocks]
      congr 2
      omega
  | succ n ih =>
      have hlen := cache.length_block source c
      have hc : c < off + buf.length := by simpa using hall 0 (by omega)
      have hreach : off + bbeg - c ≤ (cache.block source c).length := by omega
      have hlen' := length_overwritten hfilled.le hreach
      have hfilled' := hfilled.overwritten (by omega) hreach
      have hshift : (List.range (n + 1)).map (fun i =>
          (c + i * cache.chlen, cache.block source (c + i * cache.chlen))) =
          (c, cache.block source c) :: (List.range n).map fun i =>
            (c + cache.chlen + i * cache.chlen,
              cache.block source (c + cache.chlen + i * cache.chlen)) := by
        rw [List.range_succ_eq_map, List.map_cons, List.map_map, Nat.zero_mul,
          Nat.add_zero]
        congr 1
        apply List.map_congr_left
        intro i _
        have hnext : c + (i + 1) * cache.chlen = c + cache.chlen + i * cache.chlen := by
          ring
        simp only [Function.comp, Nat.succ_eq_add_one, hnext]
      have hnext : ∀ i, c + cache.chlen + i * cache.chlen = c + (i + 1) * cache.chlen :=
        fun i => by ring
      rw [hshift, copyBlocks_of_reach build idx hword hfilled.le (by omega) hreach,
        ← hlen']
      have htaken : off +
          (bbeg + taken off bbeg buf.length c (cache.block source c)) =
          min (max (c + cache.chlen) off) (off + buf.length) := by
        rw [max_eq_left hnear]
        apply cache.add_taken source hend hnear hc ?_ hfilled.le
        rw [hpos, min_eq_left (by omega)]
      rw [← hlen'] at hword hend hall hlast hfilled' htaken
      refine ih hword hend hfilled' (by omega) htaken ?_ ?_
      · intro i hi
        rw [hnext]
        exact hall (i + 1) (by omega)
      · rw [hnext]
        exact hlast

theorem fillFromBlocks_ok {blocks : List (ℕ × Bytes)}
    (hblocks : ∀ p ∈ blocks, p.2 = cache.block source p.1)
    (hword : off + buf.length < wordLimit)
    (h : fillFromBlocks build buf off blocks idx = .ok out) :
    out = Slice.window source.bytes off buf.length ∧ out.length = buf.length := by
  unfold fillFromBlocks at h
  obtain ⟨⟨bbeg, filled⟩, hcopy, hrest⟩ := Outcome.bind_eq_ok.mp h
  obtain ⟨hlen, hfilled⟩ := copyBlocks_ok hblocks hword
    ⟨Nat.zero_le _, by simp⟩ hcopy
  simp only at hrest
  split_ifs at hrest with hshort
  obtain rfl : filled = out := by simpa using hrest
  have hall : bbeg = buf.length := not_not.mp hshort
  refine ⟨?_, hlen⟩
  rw [← hall, ← hfilled.take, hall, ← hlen, List.take_length]

theorem fillFromBlocks_full {csbeg : ℕ} (hword : off + buf.length < wordLimit)
    (hend : off + buf.length ≤ source.end_) (hle : csbeg ≤ off)
    (hnear : off ≤ csbeg + cache.chlen) :
    ∃ out, fillFromBlocks build buf off
      ((blockOffs csbeg (off + buf.length) cache.chlen).map fun b =>
        (b, cache.block source b)) idx = .ok out := by
  have hpos := cache.chlen_pos
  set n := (off + buf.length - csbeg + (cache.chlen - 1)) / cache.chlen with hn
  have hall : ∀ i < n, csbeg + i * cache.chlen < off + buf.length := by
    intro i hi
    have hmul := (Nat.le_div_iff_mul_le hpos).mp (Nat.succ_le_of_lt hi)
    rw [Nat.succ_mul] at hmul
    omega
  have hlast : off + buf.length ≤ csbeg + n * cache.chlen := by
    have hdiv := Nat.lt_div_mul_add hpos (a := off + buf.length - csbeg + (cache.chlen - 1))
    rw [← hn] at hdiv
    omega
  obtain ⟨out, hcopy⟩ : ∃ out, copyBlocks build idx off
      ((List.range n).map fun i => (csbeg + i * cache.chlen,
        cache.block source (csbeg + i * cache.chlen))) 0 buf =
      .ok (buf.length, out) :=
    copyBlocks_full hword hend ⟨Nat.zero_le _, by simp⟩ hnear (by omega) hall hlast
  refine ⟨out, ?_⟩
  unfold fillFromBlocks blockOffs
  rw [List.map_map, ← hn]
  simp only [Function.comp_def]
  rw [hcopy, Outcome.ok_bind]
  simp

end Fill

end FoyerCache

end Foyer
end ImageReader
