import ImageReader.FoyerRoute

/-!
# Reads of the block cache

A read that returns has filled its buffer with the bytes of the source.  One
of a range within the source returns unless a read of the source was short,
provided that the groups of its blocks end before the last word.
-/

namespace ImageReader
namespace Foyer
namespace FoyerCache

variable {cache : FoyerCache} {build : Build} {K : ReadCall → Prop}
  {s s' : CacheState} {source : Source} {idx off csend : ℕ} {buf : Bytes}

/-- The first block of a read. -/
def firstBlock (cache : FoyerCache) (off : ℕ) : ℕ := off / cache.chlen * cache.chlen

/-- The groups of all blocks of the read end before the last word. -/
def GroupsFit (cache : FoyerCache) (off len : ℕ) : Prop :=
  off + len < wordLimit ∧
    ∀ b ∈ blockOffs (cache.firstBlock off) (off + len) cache.chlen, cache.GroupFits b

theorem firstBlock_le (cache : FoyerCache) (off : ℕ) : cache.firstBlock off ≤ off :=
  Nat.div_mul_le_self _ _

theorem lt_firstBlock_add (cache : FoyerCache) (off : ℕ) :
    off < cache.firstBlock off + cache.chlen :=
  Nat.lt_div_mul_add cache.chlen_pos

theorem onGrid_firstBlock (cache : FoyerCache) (off : ℕ) :
    cache.OnGrid (cache.firstBlock off) := Dvd.intro_left _ rfl

/-- The bytes which a read returns. -/
def IsRead (cache : FoyerCache) (source : Source) (off len : ℕ)
    (r : Bytes × Bool) : Prop :=
  r.1 = Slice.window source.bytes off len ∧ r.1.length = len ∧ cache.GroupsFit off len

/-- When a read has to succeed. -/
def Readable (cache : FoyerCache) (source : Source) (off len : ℕ) : Prop :=
  off + len ≤ source.end_ ∧ cache.GroupsFit off len

theorem Readable.fetchable {len b : ℕ} (h : cache.Readable source off len)
    (hmem : b ∈ blockOffs (cache.firstBlock off) (off + len) cache.chlen) :
    cache.Fetchable source b := by
  obtain ⟨i, -, hlt⟩ := (mem_blockOffs cache.chlen_pos).mp hmem
  exact ⟨Nat.lt_of_lt_of_le hlt h.1, h.2.2 b hmem⟩

/-! ## The blocks of a read -/

theorem zip_blocks {offs : List ℕ} {chunks : List (Bytes × Bool)}
    (hlen : chunks.length = offs.length)
    (hget : ∀ (i : ℕ) (r : Bytes × Bool) (b : ℕ), chunks[i]? = some r →
      offs[i]? = some b → cache.IsBlock source b r.1) :
    offs.zip (chunks.map Prod.fst) = offs.map fun b => (b, cache.block source b) := by
  apply List.ext_getElem (by simp [hlen])
  intro i hi hi'
  have hlt : i < offs.length := by simpa using hi'
  have hblock := hget i chunks[i] offs[i] (List.getElem?_eq_getElem (by omega))
    (List.getElem?_eq_getElem hlt)
  simp only [List.getElem_zip, List.getElem_map]
  rw [hblock.1]

/-- The result of the block at position `i`. -/
def ChunkServed (cache : FoyerCache) (source : Source) (offs : List ℕ) (i : ℕ)
    (r : Outcome CacheError (Bytes × Bool)) (s : CacheState) : Prop :=
  ∀ b, offs[i]? = some b →
    Serves (fun r => cache.IsBlock source b r.1) (cache.Fetchable source b) r s

theorem routeAll_upholds {offs : List ℕ} (hs : cache.Good build K s)
    (hsource : cache.sources idx = some source)
    (hoffs : ∀ b ∈ offs, cache.OnGrid b ∧ b < wordLimit ∧
      ∃ call, K call ∧ cache.Covers call (idx, b)) :
    (Thread.tryJoinAll (offs.map fun choff =>
      cache.routeBlock build idx choff source false)).Upholds
        (cache.contract build K) s fun r s' =>
          (∀ chunks, r = .ok chunks → chunks.length = offs.length ∧
            ∀ (i : ℕ) (chunk : Bytes × Bool) (b : ℕ), chunks[i]? = some chunk →
              offs[i]? = some b → cache.IsBlock source b chunk.1) ∧
          ((∀ b ∈ offs, cache.Fetchable source b) →
            r.Returns ∧ ((∀ chunks, r ≠ .ok chunks) → s'.SomeShort)) := by
  have hthreads : ∀ (i : ℕ) (t : Task (Outcome CacheError (Bytes × Bool))),
      (offs.map fun choff => cache.routeBlock build idx choff source false)[i]? =
        some t →
      t.Upholds (cache.contract build K) s (cache.ChunkServed source offs i) := by
    intro i t ht
    rw [List.getElem?_map, Option.map_eq_some_iff] at ht
    obtain ⟨b, hb, rfl⟩ := ht
    obtain ⟨hgrid, hlt, hcover⟩ := hoffs b (List.mem_of_getElem? hb)
    refine (routeBlock_upholds hs hsource hgrid hlt fun _ => hcover).mono ?_
    intro r s' _ hserves b' hb'
    obtain rfl : b = b' := by rwa [hb, Option.some_inj] at hb'
    exact hserves
  refine (Thread.Upholds.tryJoinAll hthreads).mono ?_
  rintro r s' - ⟨hok, hfail, hreturns, -⟩
  refine ⟨?_, fun hfetchable => ⟨hreturns ?_, ?_⟩⟩
  · intro chunks hchunks
    obtain ⟨hlen, hget⟩ := hok chunks hchunks
    refine ⟨by simpa using hlen, ?_⟩
    intro i chunk b hchunk hb
    exact (hget i chunk hchunk b hb).ok chunk rfl
  · intro i x hi hx
    have hlt : i < offs.length := by simpa using hi
    exact (hx offs[i] (List.getElem?_eq_getElem hlt)).returns
      (hfetchable _ (List.getElem_mem hlt))
  · intro hfailed
    obtain ⟨i, x, hi, hx, hne⟩ := hfail hfailed
    have hlt : i < offs.length := by simpa using hi
    exact (hx offs[i] (List.getElem?_eq_getElem hlt)).failed hne
      (hfetchable _ (List.getElem_mem hlt))

/-- The blocks of a read, or none at all where its end is not a word. -/
theorem readMany_upholds {offs : List ℕ} (hs : cache.Good build K s)
    (hsource : cache.sources idx = some source)
    (hoffs : ∀ b ∈ offs, cache.OnGrid b ∧ b < wordLimit ∧
      ∃ call, K call ∧ cache.Covers call (idx, b))
    (hoff : off < wordLimit)
    (hall : off + buf.length < wordLimit ∧
        offs = blockOffs (cache.firstBlock off) (off + buf.length) cache.chlen ∨
      ¬ off + buf.length < wordLimit ∧ offs = []) :
    (cache.readMany build idx off source offs buf).Upholds (cache.contract build K) s
      (Serves (cache.IsRead source off buf.length)
        (cache.Readable source off buf.length)) := by
  refine (routeAll_upholds hs hsource hoffs).attempt hs ?_ ?_
  · rintro chunks s₁ hs₁ ⟨hok, -⟩
    obtain ⟨hlen, hget⟩ := hok chunks rfl
    rw [zip_blocks hlen hget]
    have hblocks : ∀ p ∈ offs.map fun b => (b, cache.block source b),
        p.2 = cache.block source p.1 := by
      intro p hp
      obtain ⟨b, -, rfl⟩ := List.mem_map.mp hp
      rfl
    rcases hall with ⟨hword, rfl⟩ | ⟨hword, rfl⟩
    · have hfits : cache.GroupsFit off buf.length := by
        refine ⟨hword, fun b hb => ?_⟩
        obtain ⟨i, hi⟩ := List.mem_iff_getElem?.mp hb
        have hlt := (List.getElem?_eq_some_iff.mp hi).1
        exact (hget i _ b (List.getElem?_eq_getElem (by omega)) hi).2
      refine Thread.Upholds.goOn ?_ ?_
      · intro out hout
        obtain ⟨hbytes, hsame⟩ := fillFromBlocks_ok hblocks hword hout
        exact upholds_done (serves_ok ⟨hbytes, hsame, hfits⟩)
      · intro hfailed y hy _ s₂ _
        refine serves_of_not hy fun hneeds => ?_
        obtain ⟨out, hout⟩ : ∃ out, fillFromBlocks build buf off
            ((blockOffs (cache.firstBlock off) (off + buf.length) cache.chlen).map
              fun b => (b, cache.block source b)) idx = .ok out :=
          fillFromBlocks_full hword hneeds.1 (cache.firstBlock_le off)
            (Nat.le_of_lt (cache.lt_firstBlock_add off))
        exact absurd hout (hfailed out)
    · have hpos : ¬ 0 = buf.length := by omega
      refine Thread.Upholds.goOn ?_ ?_
      · intro out hout
        simp [fillFromBlocks, copyBlocks, hpos] at hout
      · exact fun _ y hy _ _ _ => serves_of_not hy fun hneeds => hword hneeds.2.1
  · rintro x s₁ - ⟨-, hfail⟩ hx y hy hreturns s₂ hs₂
    have hfetchable : cache.Readable source off buf.length →
        ∀ b ∈ offs, cache.Fetchable source b := by
      intro hneeds b hb
      rcases hall with ⟨-, rfl⟩ | ⟨hword, -⟩
      · exact hneeds.fetchable hb
      · exact absurd hneeds.2.1 hword
    refine serves_failed hy (fun hneeds => ?_) fun hneeds => ?_
    · exact hreturns (hfail (hfetchable hneeds)).1
    · exact ((hfail (hfetchable hneeds)).2 hx).grows hs₂.grows

/-! ## The demand part -/

theorem blockOffs_single {beg end_ step : ℕ} (hlt : beg < end_)
    (hle : end_ ≤ beg + step) : blockOffs beg end_ step = [beg] := by
  have hone : (end_ - beg + (step - 1)) / step = 1 :=
    Nat.div_eq_of_lt_le (by omega) (by omega)
  unfold blockOffs
  simp [hone]

theorem single_of_blockOffs {beg end_ step choff : ℕ} (hpos : 0 < step)
    (h : blockOffs beg end_ step = [choff]) :
    choff = beg ∧ beg < end_ ∧ end_ ≤ beg + step := by
  have hmem : ∀ b, b ∈ blockOffs beg end_ step ↔ b = choff := by
    intro b
    rw [h, List.mem_singleton]
  obtain ⟨i, hi, hlt⟩ := (mem_blockOffs hpos).mp ((hmem choff).mpr rfl)
  have hbeg : beg = choff :=
    (hmem beg).mp ((mem_blockOffs hpos).mpr ⟨0, by omega, by omega⟩)
  refine ⟨hbeg.symm, by omega, ?_⟩
  by_contra hmore
  have hsecond : beg + step = choff :=
    (hmem _).mp ((mem_blockOffs hpos).mpr ⟨1, by omega, by omega⟩)
  omega

theorem end_of_add {len : ℕ} (hword : off + len < wordLimit)
    (h : (build.add off len : Outcome CacheError ℕ) = .ok csend) :
    csend = off + len := by
  rw [Build.add_of_lt hword] at h
  exact (Outcome.ok.inj h).symm

theorem add_ok_cases {len : ℕ} (hlen : len < wordLimit)
    (h : (build.add off len : Outcome CacheError ℕ) = .ok csend) :
    off + len < wordLimit ∧ csend = off + len ∨
      ¬ off + len < wordLimit ∧ csend + wordLimit ≤ off + len ∧ csend < off := by
  by_cases hword : off + len < wordLimit
  · exact Or.inl ⟨hword, end_of_add hword h⟩
  · cases build with
    | dev => simp [Build.dev_add hword] at h
    | release =>
        rw [Build.release_add hword] at h
        obtain rfl := Outcome.ok.inj h
        have hmod : (off + len) % wordLimit ≤ off + len - wordLimit := by
          rw [Nat.mod_eq_sub_mod (Nat.le_of_not_lt hword)]
          exact Nat.mod_le _ _
        exact Or.inr ⟨hword, by omega, by omega⟩

theorem readBlocks_upholds (hs : cache.Good build K s)
    (hsource : cache.sources idx = some source) (hoff : off < wordLimit)
    (hbuf : buf.length < wordLimit)
    (hcsend : (build.add off buf.length : Outcome CacheError ℕ) = .ok csend)
    (hcover : ∀ b ∈ blockOffs (cache.firstBlock off) (off + buf.length) cache.chlen,
      ∃ call, K call ∧ cache.Covers call (idx, b)) :
    (cache.readBlocks build idx off source (cache.firstBlock off) csend buf).Upholds
      (cache.contract build K) s
        (Serves (cache.IsRead source off buf.length)
          (cache.Readable source off buf.length)) := by
  have hcases := add_ok_cases hbuf hcsend
  have hfirst := cache.firstBlock_le off
  have hnear := cache.lt_firstBlock_add off
  have hoffs : ∀ b ∈ blockOffs (cache.firstBlock off) csend cache.chlen,
      cache.OnGrid b ∧ b < wordLimit ∧ ∃ call, K call ∧ cache.Covers call (idx, b) := by
    intro b hb
    obtain ⟨i, hi, hlt⟩ := (mem_blockOffs cache.chlen_pos).mp hb
    refine ⟨onGrid_mem (cache.onGrid_firstBlock off) hb, by omega, hcover b ?_⟩
    exact (mem_blockOffs cache.chlen_pos).mpr ⟨i, hi, by omega⟩
  unfold readBlocks
  split
  · rename_i choff hsingle
    obtain ⟨rfl, hlt, hend⟩ := single_of_blockOffs cache.chlen_pos hsingle
    obtain ⟨hgrid, hchoff, hcovered⟩ := hoffs (cache.firstBlock off) (by simp [hsingle])
    refine upholds_attempt hs
      (routeBlock_upholds hs hsource hgrid hchoff fun _ => hcovered) ?_ ?_
    · intro hneeds
      exact hneeds.fetchable
        ((mem_blockOffs cache.chlen_pos).mpr ⟨0, by omega, by omega⟩)
    · rintro ⟨ch, missed⟩ s₁ hs₁ ⟨hch, hfits⟩
      obtain rfl : ch = cache.block source (cache.firstBlock off) := hch
      refine Thread.Upholds.goOn ?_ ?_
      · intro out hout
        obtain ⟨hbytes, hsame, hsum⟩ := fillFromBlock_ok hfirst hbuf hout
        have hword : off + buf.length < wordLimit ∧ csend = off + buf.length := by
          rcases hcases with hword | ⟨-, hwrap, -⟩
          · exact hword
          · omega
        refine upholds_done (serves_ok ⟨hbytes, hsame, hword.1, ?_⟩)
        rw [← hword.2, hsingle]
        simpa using hfits
      · intro hfailed y hy _ s₂ _
        refine serves_of_not hy fun hneeds => ?_
        have hend := end_of_add hneeds.2.1 hcsend
        obtain ⟨out, hout⟩ : ∃ out, fillFromBlock build buf off (cache.firstBlock off)
            (cache.block source (cache.firstBlock off)) idx = .ok out :=
          fillFromBlock_full hfirst hneeds.2.1 (by omega) hneeds.1
        exact absurd hout (hfailed out)
  · rename_i hmany
    have hall : off + buf.length < wordLimit ∧
          blockOffs (cache.firstBlock off) csend cache.chlen =
            blockOffs (cache.firstBlock off) (off + buf.length) cache.chlen ∨
        ¬ off + buf.length < wordLimit ∧
          blockOffs (cache.firstBlock off) csend cache.chlen = [] := by
      rcases hcases with ⟨hword, rfl⟩ | ⟨hword, -, hback⟩
      · exact Or.inl ⟨hword, rfl⟩
      · refine Or.inr ⟨hword, blockOffs_of_le cache.chlen_pos ?_⟩
        by_contra hlt
        exact hmany _ (blockOffs_single (by omega) (by omega))
    split_ifs
    · have hleaders : ∀ b ∈ cache.leaders (cache.firstBlock off) csend,
          cache.OnGrid b ∧ b < wordLimit ∧
            ∃ call, K call ∧ cache.Covers call (idx, b) :=
        fun b hb => hoffs b (List.mem_of_mem_filter hb)
      refine (routeAll_upholds hs hsource hleaders).bind hs ?_
      intro _ s₁ hs₁ _
      exact readMany_upholds hs₁.inv hsource hoffs hoff hall
    · exact readMany_upholds hs hsource hoffs hoff hall

/-! ## The readahead -/

/-- The first block after the end of a read. -/
def nextBlock (cache : FoyerCache) (csend : ℕ) : ℕ :=
  (csend + (cache.chlen - 1)) / cache.chlen * cache.chlen

/-- The window of the readahead ends before the last word. -/
def WindowFits (cache : FoyerCache) (csend : ℕ) : Prop :=
  cache.nextBlock csend + cache.readahead * cache.chlen < wordLimit

theorem readaheadBlockRange_of_fits (hfits : cache.WindowFits csend) :
    readaheadBlockRange build csend cache.chlen cache.readahead source.end_ =
      .ok (cache.nextBlock csend,
        min (cache.nextBlock csend + cache.readahead * cache.chlen) source.end_) := by
  have hnext : cache.nextBlock csend < wordLimit :=
    Nat.lt_of_le_of_lt (Nat.le_add_right _ _) hfits
  have hlen : cache.readahead * cache.chlen < wordLimit :=
    Nat.lt_of_le_of_lt (Nat.le_add_left _ _) hfits
  unfold WindowFits nextBlock at *
  unfold readaheadBlockRange
  rw [Build.mul_of_lt hnext, Outcome.ok_bind, Build.mul_of_lt hlen, Outcome.ok_bind,
    Build.add_of_lt hfits, Outcome.ok_bind]
  rfl

theorem release_add_ok (a b : ℕ) :
    ∃ c, (Build.release.add a b : Outcome CacheError ℕ) = .ok c := by
  by_cases h : a + b < wordLimit
  · exact ⟨_, Build.add_of_lt h⟩
  · exact ⟨_, Build.release_add h⟩

theorem release_mul_ok (a b : ℕ) :
    ∃ c, (Build.release.mul a b : Outcome CacheError ℕ) = .ok c := by
  by_cases h : a * b < wordLimit
  · exact ⟨_, Build.mul_of_lt h⟩
  · exact ⟨a * b % wordLimit, by simp [Build.mul, h]⟩

theorem readaheadBlockRange_release :
    ∃ r, readaheadBlockRange .release csend cache.chlen cache.readahead source.end_ =
      .ok r := by
  unfold readaheadBlockRange
  obtain ⟨beg, hbeg⟩ := release_mul_ok ((csend + (cache.chlen - 1)) / cache.chlen)
    cache.chlen
  obtain ⟨len, hlen⟩ := release_mul_ok cache.readahead cache.chlen
  obtain ⟨raend, hraend⟩ := release_add_ok beg len
  exact ⟨(beg, min raend source.end_), by rw [hbeg, Outcome.ok_bind, hlen,
    Outcome.ok_bind, hraend, Outcome.ok_bind]; rfl⟩

theorem readaheadBlockRange_dev {r : ℕ × ℕ}
    (h : readaheadBlockRange .dev csend cache.chlen cache.readahead source.end_ =
      .ok r) : cache.WindowFits csend := by
  unfold readaheadBlockRange at h
  obtain ⟨beg, hbeg, h⟩ := Outcome.bind_eq_ok.mp h
  obtain ⟨len, hlen, h⟩ := Outcome.bind_eq_ok.mp h
  obtain ⟨raend, hraend, -⟩ := Outcome.bind_eq_ok.mp h
  unfold Build.mul at hbeg hlen
  unfold Build.add at hraend
  split_ifs at hbeg hlen hraend with h₁ h₂ h₃
  obtain rfl := Outcome.ok.inj hbeg
  obtain rfl := Outcome.ok.inj hlen
  exact h₃

/-- The blocks of the window begin after the read and end with the source. -/
theorem readaheadBlockRange_ok {rabeg raend : ℕ}
    (hnext : cache.nextBlock csend < wordLimit)
    (h : readaheadBlockRange build csend cache.chlen cache.readahead source.end_ =
      .ok (rabeg, raend)) :
    rabeg = cache.nextBlock csend ∧ raend ≤ source.end_ := by
  unfold readaheadBlockRange at h
  unfold nextBlock at hnext ⊢
  rw [Build.mul_of_lt hnext, Outcome.ok_bind] at h
  obtain ⟨len, -, h⟩ := Outcome.bind_eq_ok.mp h
  obtain ⟨stop, -, h⟩ := Outcome.bind_eq_ok.mp h
  simp only [Outcome.pure_eq, Outcome.ok.injEq, Prod.mk.injEq] at h
  obtain ⟨rfl, rfl⟩ := h
  exact ⟨rfl, Nat.min_le_right _ _⟩

theorem nextBlock_lt {len : ℕ} (h : cache.GroupsFit off len) :
    cache.nextBlock (off + len) < wordLimit := by
  obtain ⟨hword, hfits⟩ := h
  have hpos := cache.chlen_pos
  have hle : cache.nextBlock (off + len) ≤ off + len + (cache.chlen - 1) :=
    Nat.div_mul_le_self _ _
  by_cases hlast : cache.nextBlock (off + len) ≤ off + len
  · exact Nat.lt_of_le_of_lt hlast hword
  · have hgrid : cache.OnGrid (cache.nextBlock (off + len)) := Dvd.intro_left _ rfl
    have hstep : cache.chlen ≤ cache.nextBlock (off + len) :=
      Nat.le_of_dvd (by omega) hgrid
    have hblock : cache.OnGrid (cache.nextBlock (off + len) - cache.chlen) :=
      Nat.dvd_sub hgrid (dvd_refl _)
    have hge : cache.firstBlock off ≤ cache.nextBlock (off + len) - cache.chlen := by
      by_contra hlt
      have := hblock.add_le (cache.onGrid_firstBlock off) (Nat.lt_of_not_le hlt)
      have := cache.firstBlock_le off
      omega
    have hmem : cache.nextBlock (off + len) - cache.chlen ∈
        blockOffs (cache.firstBlock off) (off + len) cache.chlen :=
      mem_blockOffs_of_onGrid (cache.onGrid_firstBlock off) hblock hge (by omega)
    have hlt := (hfits _ hmem).add_lt hblock
    omega

theorem contains_upholds (hs : cache.Good build K s) (key : Key) :
    (cache.contains key).Upholds (cache.contract build K) s fun _ _ => True := by
  have hlook : ∀ tier s, (lookup tier key).Upholds (cache.contract build K) s
      fun _ _ => True :=
    fun tier s => Thread.Upholds.look fun _ _ _ _ => trivial
  unfold contains
  refine (hlook .content s).bind hs ?_
  intro entry s₁ hs₁ _
  split_ifs
  · exact fun _ _ => trivial
  · exact (hlook .metadata s₁).bind hs₁.inv fun _ _ _ _ _ _ => trivial
  · exact fun _ _ => trivial

theorem prefetchAfter_upholds {offs : List ℕ} {lastGroup : Option ℕ}
    (hs : cache.Good build K s) (hsource : cache.sources idx = some source)
    (hoffs : ∀ b ∈ offs, cache.OnGrid b ∧ b < wordLimit) :
    (cache.prefetchAfter build idx source offs lastGroup).Upholds
      (cache.contract build K) s fun _ _ => True := by
  induction offs generalizing lastGroup s with
  | nil => exact fun _ _ => trivial
  | cons choff rest ih =>
      obtain ⟨hgrid, hlt⟩ := hoffs choff (by simp)
      have hrest := fun b hb => hoffs b (List.mem_cons_of_mem _ hb)
      refine (contains_upholds hs (idx, choff)).bind hs ?_
      intro held s₁ hs₁ _
      simp only
      split_ifs
      · exact ih hs₁.inv hrest
      · intro permit
        beta_reduce
        split_ifs
        · exact fun _ _ => trivial
        · refine (routeBlock_upholds hs₁.inv hsource hgrid hlt (by simp)).spawn ?_
          intro s₂ hs₂
          exact (ih hs₂.inv hrest).bind hs₂.inv fun _ _ _ _ _ _ => trivial

/-! ## A read -/

/-- The arithmetic of a read stays within the words. -/
def Fits (cache : FoyerCache) (build : Build) (off len : ℕ) : Prop :=
  cache.GroupsFit off len ∧ (build = .dev → cache.WindowFits (off + len))

/-- What a read owes its caller. -/
def ReadServed (cache : FoyerCache) (build : Build) (call : ReadCall)
    (r : Outcome CacheError (Bytes × Bool)) (s : CacheState) : Prop :=
  match cache.sources call.idx with
  | none => ∀ a, r ≠ .ok a
  | some source =>
      Serves
        (fun a => cache.IsRead source call.off call.buf.length a ∧
          cache.Fits build call.off call.buf.length)
        (call.off + call.buf.length ≤ source.end_ ∧
          cache.Fits build call.off call.buf.length) r s

theorem read_upholds {call : ReadCall} (hs : cache.Good build K s) (hK : K call) :
    (cache.read build call).Upholds (cache.contract build K) s
      (cache.ReadServed build call) := by
  unfold read ReadServed
  cases hsource : cache.sources call.idx with
  | none => exact fun _ _ => by simp
  | some source =>
      simp only
      refine Thread.Upholds.goOn ?_ ?_
      · intro csend hcsend
        refine Thread.Upholds.goOn ?_ ?_
        · rintro ⟨rabeg, raend⟩ hrange
          have hblocks := readBlocks_upholds hs hsource call.off_lt call.length_lt
            hcsend fun b hb => ⟨call, hK, rfl, hb⟩
          refine upholds_attempt hs hblocks (fun hneeds => ⟨hneeds.1, hneeds.2.1⟩) ?_
          intro r s₁ hs₁ hr
          have hend := end_of_add hr.2.2.1 hcsend
          have hnext := nextBlock_lt hr.2.2
          rw [← hend] at hnext
          obtain ⟨rfl, hraend⟩ := readaheadBlockRange_ok hnext hrange
          have hoffs : ∀ b ∈ blockOffs (cache.nextBlock csend) raend cache.chlen,
              cache.OnGrid b ∧ b < wordLimit := by
            intro b hb
            obtain ⟨i, -, hlt⟩ := (mem_blockOffs cache.chlen_pos).mp hb
            have hlength := source.length_lt
            exact ⟨onGrid_mem (Dvd.intro_left _ rfl) hb,
              Nat.lt_of_lt_of_le hlt (Nat.le_trans hraend (Nat.le_of_lt hlength))⟩
          refine (prefetchAfter_upholds hs₁.inv hsource hoffs).bind hs₁.inv ?_
          intro _ s₂ _ _
          refine upholds_done (serves_ok ⟨hr, hr.2.2, ?_⟩)
          rintro rfl
          rw [← hend]
          exact readaheadBlockRange_dev hrange
        · intro hpanic y hy _ s₁ _
          refine serves_of_not hy fun hneeds => ?_
          cases build with
          | dev =>
              rw [end_of_add hneeds.2.1.1 hcsend] at hpanic
              exact absurd (readaheadBlockRange_of_fits (hneeds.2.2 rfl)) (hpanic _)
          | release =>
              obtain ⟨r, hr⟩ : ∃ r, readaheadBlockRange .release csend cache.chlen
                  cache.readahead source.end_ = .ok r := readaheadBlockRange_release
              exact absurd hr (hpanic r)
      · intro hpanic y hy _ s₁ _
        refine serves_of_not hy fun hneeds => ?_
        exact absurd (Build.add_of_lt hneeds.2.1.1) (hpanic _)

end FoyerCache

end Foyer
end ImageReader
