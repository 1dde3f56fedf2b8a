import ImageReader.FoyerSpeculation

/-!
# Reads beyond the end of a source

A read which goes past the end of its source is refused.  Its arithmetic may
go wrong on the way: a group begins where its block does, but ends where the
source does, and for a block behind the end of the source the two cross.

In the profile with overflow checks a computation that leaves the words is a
panic, and in the task of a fetch an error which reports one.
-/

namespace ImageReader
namespace Foyer

/-- A read of a source has panicked. -/
def CacheState.SomePanic (s : CacheState) : Prop :=
  ∃ get ∈ s.gets, get.outcome = .panic

/-- There is a result, and a panic which it reports is that of a source. -/
structure Faultless {α : Type} (r : Outcome CacheError α) (s : CacheState) : Prop where
  returns : r.Returns
  panicked : r = .error .taskPanicked → s.SomePanic

section Faultless

variable {α β : Type} {r : Outcome CacheError α} {s s' : CacheState}

theorem faultless_ok (a : α) (s : CacheState) :
    Faultless (.ok a : Outcome CacheError α) s :=
  ⟨Outcome.returns_ok a, by simp⟩

theorem faultless_error {e : CacheError} (h : e ≠ .taskPanicked) :
    Faultless (.error e : Outcome CacheError α) s :=
  ⟨Outcome.returns_error e, fun he => absurd (Outcome.error.inj he) h⟩

theorem faultless_panicked (h : s.SomePanic) :
    Faultless (.error .taskPanicked : Outcome CacheError α) s :=
  ⟨Outcome.returns_error _, fun _ => h⟩

theorem Faultless.grows (h : Faultless r s) (hgrows : s.Grows s') :
    Faultless r s' := by
  refine ⟨h.returns, fun hr => ?_⟩
  obtain ⟨get, hget, hpanic⟩ := h.panicked hr
  exact ⟨get, hgrows.gets get hget, hpanic⟩

theorem Faultless.exists_error (h : Faultless r s) (hr : ∀ a, r ≠ .ok a) :
    ∃ e, r = .error e ∧ (e = .taskPanicked → s.SomePanic) := by
  rcases h.returns with ⟨a, rfl⟩ | ⟨e, rfl⟩
  · exact absurd rfl (hr a)
  · exact ⟨e, rfl, fun he => h.panicked (by rw [he])⟩

/-- The result of a computation which only fails with a short read. -/
theorem faultless_of_short (h : (∃ a, r = .ok a) ∨
    ∃ idx off wanted got, r = .error (.shortRead idx off wanted got)) :
    Faultless r s := by
  rcases h with ⟨a, rfl⟩ | ⟨idx, off, wanted, got, rfl⟩
  · exact faultless_ok a s
  · exact faultless_error (by simp)

variable {cache : FoyerCache} {build : Build} {K : ReadCall → Prop}

theorem upholds_faultless (h : Faultless r s) :
    (Thread.done r).Upholds (cache.contract build K) s Faultless :=
  fun _ hlater => h.grows hlater.grows

theorem goOn_faultless {f : α → Task (Outcome CacheError β)} (hr : Faultless r s)
    (hf : ∀ a, r = .ok a → (f a).Upholds (cache.contract build K) s Faultless) :
    (Thread.goOn r f).Upholds (cache.contract build K) s Faultless := by
  cases r with
  | ok a => exact hf a rfl
  | error e => exact upholds_faultless ⟨Outcome.returns_error e, fun he => hr.panicked (by
      rw [Outcome.error.inj he])⟩
  | panic fault => exact absurd hr.returns (Outcome.not_returns_panic fault)
  | hang => exact absurd hr.returns Outcome.not_returns_hang

theorem attempt_faultless_of {t : Task (Outcome CacheError α)}
    {f : α → Task (Outcome CacheError β)} {Mid : Outcome CacheError α → CacheState → Prop}
    (hs : cache.Good build K s)
    (ht : t.Upholds (cache.contract build K) s fun r s' => Faultless r s' ∧ Mid r s')
    (hf : ∀ a s', (cache.contract build K).Later s s' → Mid (.ok a) s' →
      (f a).Upholds (cache.contract build K) s' Faultless) :
    (Thread.attempt t f).Upholds (cache.contract build K) s Faultless := by
  refine ht.bind hs ?_
  rintro r s' hs' ⟨hr, hmid⟩
  refine goOn_faultless hr ?_
  rintro a rfl
  exact hf a s' hs' hmid

theorem attempt_faultless {t : Task (Outcome CacheError α)}
    {f : α → Task (Outcome CacheError β)} (hs : cache.Good build K s)
    (ht : t.Upholds (cache.contract build K) s Faultless)
    (hf : ∀ a s', (cache.contract build K).Later s s' →
      (f a).Upholds (cache.contract build K) s' Faultless) :
    (Thread.attempt t f).Upholds (cache.contract build K) s Faultless := by
  refine ht.bind hs ?_
  intro r s' hs' hr
  exact goOn_faultless hr fun a _ => hf a s' hs'

theorem caught_faultless {r : Outcome CacheError Bytes} (h : Faultless r s) :
    Faultless (caught r) s := by
  cases r with
  | ok block => exact h
  | error e => exact h
  | hang => exact h
  | panic fault => exact absurd h.returns (Outcome.not_returns_panic fault)

end Faultless

namespace FoyerCache

variable {cache : FoyerCache} {build : Build} {K : ReadCall → Prop}
  {s s' : CacheState} {source : Source} {idx choff gbeg gend off csend : ℕ} {buf : Bytes}

/-- The group of the block ends before the last word.  Where it is the block
alone, the block begins before the end of the source, or the source rejects the
range. -/
structure FetchExact (cache : FoyerCache) (source : Source) (choff : ℕ) : Prop where
  fits : cache.GroupFits choff
  ahead : cache.fetchSize = cache.chlen → source.end_ < choff →
    ∀ n bytes, source.answer n choff source.end_ ≠ .ok bytes

/-- No number on the way of a read leaves the words. -/
structure ReadExact (cache : FoyerCache) (source : Source) (off len : ℕ) : Prop where
  word : off + len < wordLimit
  window : cache.WindowFits (off + len)
  fetches : ∀ b ∈ blockOffs (cache.firstBlock off) (off + len) cache.chlen,
    cache.FetchExact source b

/-! ## Fetches whose arithmetic is exact -/

theorem wholeBlock_faultless {n : ℕ} {bytes : Bytes}
    (hone : cache.fetchSize = cache.chlen) (hgrid : cache.OnGrid choff)
    (hexact : cache.FetchExact source choff)
    (hrange : cache.groupRange build choff source.end_ = .ok (gbeg, gend))
    (hbytes : source.answer n gbeg gend = .ok bytes) :
    Faultless (cache.wholeBlock build idx choff gbeg gend bytes) s := by
  have hpos := cache.fetchSize_pos
  rw [groupRange_of_fits hexact.fits, Outcome.ok.injEq, Prod.mk.injEq,
    groupBeg_of_one hone hgrid] at hrange
  obtain ⟨rfl, rfl⟩ := hrange
  have hle : choff ≤ min (choff + cache.fetchSize) source.end_ := by
    by_contra hback
    have hahead : source.end_ < choff := by omega
    have hend : min (choff + cache.fetchSize) source.end_ = source.end_ := by omega
    rw [hend] at hbytes
    exact hexact.ahead hone hahead n bytes hbytes
  rw [wholeBlock_of_le hle]
  split_ifs
  · exact faultless_error (by simp)
  · exact faultless_ok _ _

theorem demandedBlock_faultless {bytes : Bytes} {owner : Bool} {n : ℕ}
    (hs : cache.Good build K s) (hsource : cache.sources idx = some source)
    (hexact : cache.FetchExact source choff)
    (hrange : cache.groupRange build choff source.end_ = .ok (gbeg, gend))
    (hbytes : source.answer n gbeg gend = .ok bytes) :
    (cache.demandedBlock build .content idx choff gbeg gend bytes owner).Upholds
      (cache.contract build K) s Faultless := by
  have hgot := source.answer_within hbytes
  rw [groupRange_of_fits hexact.fits, Outcome.ok.injEq, Prod.mk.injEq] at hrange
  obtain ⟨rfl, rfl⟩ := hrange
  have hoffs : ∀ b ∈ blockOffs (cache.groupBeg choff)
      (min (cache.groupBeg choff + cache.fetchSize) source.end_) cache.chlen,
      cache.InGroup source choff b := by
    intro b hb
    obtain ⟨i, hi, hlt⟩ := (mem_blockOffs cache.chlen_pos).mp hb
    exact ⟨onGrid_mem (cache.onGrid_groupBeg choff) hb, by omega, hlt⟩
  unfold demandedBlock
  refine attempt_faultless hs ?_ ?_
  · refine (cutGroup_upholds hs hsource hexact.fits hgot hoffs (by simp)).mono ?_
    rintro r s₁ - ⟨d, rfl, -⟩
    exact faultless_ok d s₁
  · intro demanded s₁ _
    cases demanded with
    | some block => exact upholds_faultless (faultless_ok block s₁)
    | none => exact upholds_faultless (faultless_error (by simp))

theorem makeFetch_faultless (hs : cache.Good build K s)
    (hsource : cache.sources idx = some source) (hgrid : cache.OnGrid choff)
    (hexact : cache.FetchExact source choff) :
    (cache.makeFetch build idx choff source .content).Upholds
      (cache.contract build K) s Faultless := by
  unfold makeFetch
  refine goOn_faultless ?_ ?_
  · rw [groupRange_of_fits hexact.fits]
    exact faultless_ok _ _
  · rintro ⟨gbeg, gend⟩ hrange
    simp only [cache.fetchSize_eq]
    split_ifs with hone
    · refine (fetchRange_upholds hsource (groupRange_le hrange)).bind hs ?_
      rintro outcome s₁ hs₁ ⟨n, houtcome, hget⟩
      cases outcome with
      | ok bytes =>
          exact upholds_faultless
            (wholeBlock_faultless hone hgrid hexact hrange houtcome.symm)
      | error code => exact upholds_faultless (faultless_error (by simp))
      | panic => exact upholds_faultless (faultless_panicked ⟨_, hget, rfl⟩)
    · obtain ⟨-, hself⟩ := groupRange_groupBeg hrange
      refine (groupFetch_upholds hsource hself).bind hs ?_
      rintro ⟨result, owner⟩ s₁ hs₁ ⟨answer, n, rfl, -, hok, -⟩
      cases answer with
      | ok bytes =>
          exact demandedBlock_faultless hs₁.inv hsource hexact hrange (hok bytes rfl)
      | error e => exact upholds_faultless (faultless_error (by simp))

theorem fetchInto_faultless {tier : Tier} (hs : cache.Good build K s)
    (hsource : cache.sources idx = some source) (hgrid : cache.OnGrid choff)
    (hchoff : choff < wordLimit) (hstore : MayStore s tier (idx, choff))
    (hexact : cache.FetchExact source choff) :
    (cache.fetchInto build tier idx choff source).Upholds (cache.contract build K) s
      Faultless := by
  have hget : (getOrFetch tier (idx, choff)
      (cache.makeFetch build idx choff source .content)).Upholds
        (cache.contract build K) s Faultless := by
    unfold getOrFetch
    refine (lookup_upholds hsource).bind hs ?_
    intro entry s₁ hs₁ _
    cases entry with
    | some block => exact upholds_faultless (faultless_ok block s₁)
    | none =>
        have hfetch := (makeFetch_faultless hs₁.inv hsource hgrid hexact).and
          (makeFetch_upholds hs₁.inv hsource hgrid hchoff)
        have hcaught : ((cache.makeFetch build idx choff source .content).bind
            fun r => .done (caught r)).Upholds (cache.contract build K) s₁ fun r s' =>
              Faultless r s' ∧ Serves (cache.IsBlock source choff)
                (cache.Fetchable source choff) r s' :=
          hfetch.bind hs₁.inv fun r s' _ hr s'' hlater =>
            ⟨(caught_faultless hr.1).grows hlater.grows,
              (caught_serves hr.2).grows hlater.grows⟩
        refine attempt_faultless_of hs₁.inv hcaught ?_
        rintro block s₂ hs₂ hblock s₃ hs₃
        obtain ⟨rfl, hfits⟩ := hblock.ok block rfl
        have hlater := (hs₁.trans hs₂).trans hs₃
        have hinsert : (cache.contract build K).Later s₃
            (s₃.insert tier (idx, choff) (cache.block source choff)) :=
          Good.later_insert hs₃.inv hsource hfits (hstore.grows hlater.grows)
        exact ⟨hinsert, upholds_faultless (faultless_ok _ _)⟩
  unfold fetchInto
  exact attempt_faultless hs hget fun entry s' _ =>
    upholds_faultless (faultless_ok _ s')

theorem routeBlock_faultless {prefetch : Bool} (hs : cache.Good build K s)
    (hsource : cache.sources idx = some source) (hgrid : cache.OnGrid choff)
    (hchoff : choff < wordLimit)
    (hcover : prefetch = false → ∃ call, K call ∧ cache.Covers call (idx, choff))
    (hexact : cache.FetchExact source choff) :
    (cache.routeBlock build idx choff source prefetch).Upholds
      (cache.contract build K) s Faultless :=
  routeBlock_rule hs hsource hcover (fun _ s' _ => faultless_ok _ s')
    fun _ _ hlater hstore =>
      fetchInto_faultless hlater.inv hsource hgrid hchoff hstore hexact

/-! ## Reads whose arithmetic is exact -/

theorem fillFromBlock_short {ch : Bytes} (hle : choff ≤ off)
    (hword : off + buf.length < wordLimit) :
    (∃ out, fillFromBlock build buf off choff ch idx = .ok out) ∨
      ∃ i o wanted got, fillFromBlock build buf off choff ch idx =
        .error (.shortRead i o wanted got) := by
  unfold fillFromBlock
  rw [Build.sub_of_le hle, Outcome.ok_bind, Build.add_of_lt (by omega), Outcome.ok_bind]
  split_ifs with hshort
  · exact Or.inr ⟨_, _, _, _, rfl⟩
  · rw [Slice.range_of_le (by omega) (by omega), Outcome.ok_bind]
    refine Or.inl ⟨_, Slice.copyFrom_of_length ?_⟩
    rw [Slice.length_window_of_le (by omega)]
    omega

theorem copyBlocks_short {blocks : List (ℕ × Bytes)} {bbeg : ℕ}
    (hword : off + buf.length < wordLimit) (hle : bbeg ≤ buf.length) :
    (∃ out, copyBlocks build idx off blocks bbeg buf = .ok out) ∨
      ∃ i o wanted got, copyBlocks build idx off blocks bbeg buf =
        .error (.shortRead i o wanted got) := by
  induction blocks generalizing bbeg buf with
  | nil => exact Or.inl ⟨_, rfl⟩
  | cons block rest ih =>
      obtain ⟨choff, ch⟩ := block
      by_cases hreach : choff ≤ off + bbeg ∧ off + bbeg - choff ≤ ch.length
      · rw [copyBlocks_of_reach build idx hword hle hreach.1 hreach.2]
        have hlen := length_overwritten hle hreach.2
        exact ih (by rw [hlen]; exact hword) (by rw [hlen]; exact add_taken_le _ _ _ hle)
      · rw [copyBlocks_of_not_reach build idx hword hle hreach]
        exact Or.inr ⟨_, _, _, _, rfl⟩

theorem fillFromBlocks_short {chunks : List (ℕ × Bytes)}
    (hword : off + buf.length < wordLimit) :
    (∃ out, fillFromBlocks build buf off chunks idx = .ok out) ∨
      ∃ i o wanted got, fillFromBlocks build buf off chunks idx =
        .error (.shortRead i o wanted got) := by
  unfold fillFromBlocks
  rcases @copyBlocks_short build idx off buf chunks 0 hword (Nat.zero_le _) with
    ⟨⟨bbeg, out⟩, hout⟩ | ⟨i, o, wanted, got, hshort⟩
  · rw [hout, Outcome.ok_bind]
    dsimp only
    split_ifs
    · exact Or.inr ⟨_, _, _, _, rfl⟩
    · exact Or.inl ⟨_, rfl⟩
  · rw [hshort]
    exact Or.inr ⟨_, _, _, _, rfl⟩

/-- What the routing of a block needs. -/
def Routable (cache : FoyerCache) (K : ReadCall → Prop) (source : Source)
    (idx b : ℕ) : Prop :=
  (cache.OnGrid b ∧ b < wordLimit ∧ ∃ call, K call ∧ cache.Covers call (idx, b)) ∧
    cache.FetchExact source b

theorem routeAll_faultless {offs : List ℕ} (hs : cache.Good build K s)
    (hsource : cache.sources idx = some source)
    (hoffs : ∀ b ∈ offs, cache.Routable K source idx b) :
    (Thread.tryJoinAll (offs.map fun choff =>
      cache.routeBlock build idx choff source false)).Upholds
        (cache.contract build K) s Faultless := by
  have hthreads : ∀ (i : ℕ) (t : Task (Outcome CacheError (Bytes × Bool))),
      (offs.map fun choff => cache.routeBlock build idx choff source false)[i]? =
        some t → t.Upholds (cache.contract build K) s Faultless := by
    intro i t ht
    rw [List.getElem?_map, Option.map_eq_some_iff] at ht
    obtain ⟨b, hb, rfl⟩ := ht
    obtain ⟨⟨hgrid, hlt, hcover⟩, hexact⟩ := hoffs b (List.mem_of_getElem? hb)
    exact routeBlock_faultless hs hsource hgrid hlt (fun _ => hcover) hexact
  refine (Thread.Upholds.tryJoinAll hthreads).mono ?_
  rintro r s' - ⟨-, -, hreturns, herror⟩
  refine ⟨hreturns fun _ _ _ hx => hx.returns, ?_⟩
  intro hr
  obtain ⟨i, -, hi⟩ := herror _ hr
  exact hi.panicked rfl

theorem readMany_faultless {offs : List ℕ} (hs : cache.Good build K s)
    (hsource : cache.sources idx = some source)
    (hoffs : ∀ b ∈ offs, cache.Routable K source idx b)
    (hword : off + buf.length < wordLimit) :
    (cache.readMany build idx off source offs buf).Upholds (cache.contract build K) s
      Faultless :=
  attempt_faultless hs (routeAll_faultless hs hsource hoffs) fun _ s' _ =>
    goOn_faultless (faultless_of_short (fillFromBlocks_short hword)) fun _ _ =>
      upholds_faultless (faultless_ok _ s')

theorem readBlocks_faultless (hs : cache.Good build K s)
    (hsource : cache.sources idx = some source)
    (hoffs : ∀ b ∈ blockOffs (cache.firstBlock off) csend cache.chlen,
      cache.Routable K source idx b)
    (hword : off + buf.length < wordLimit) :
    (cache.readBlocks build idx off source (cache.firstBlock off) csend buf).Upholds
      (cache.contract build K) s Faultless := by
  unfold readBlocks
  split
  · rename_i choff hsingle
    obtain ⟨rfl, -, -⟩ := single_of_blockOffs cache.chlen_pos hsingle
    obtain ⟨⟨hgrid, hlt, hcover⟩, hexact⟩ := hoffs (cache.firstBlock off) (by simp [hsingle])
    refine attempt_faultless hs
      (routeBlock_faultless hs hsource hgrid hlt (fun _ => hcover) hexact) ?_
    rintro ⟨ch, missed⟩ s' _
    refine goOn_faultless
      (faultless_of_short (fillFromBlock_short (cache.firstBlock_le off) hword)) ?_
    exact fun _ _ => upholds_faultless (faultless_ok _ s')
  · split_ifs
    · have hleaders : ∀ b ∈ cache.leaders (cache.firstBlock off) csend,
          cache.Routable K source idx b :=
        fun b hb => hoffs b (List.mem_of_mem_filter hb)
      refine (routeAll_faultless hs hsource hleaders).bind hs ?_
      intro _ s₁ hs₁ _
      exact readMany_faultless hs₁.inv hsource hoffs hword
    · exact readMany_faultless hs hsource hoffs hword

theorem read_faultless {call : ReadCall} (hs : cache.Good build K s) (hK : K call)
    (hsource : cache.sources call.idx = some source)
    (hexact : cache.ReadExact source call.off call.buf.length) :
    (cache.read build call).Upholds (cache.contract build K) s Faultless := by
  have hoffs : ∀ b ∈ blockOffs (cache.firstBlock call.off)
      (call.off + call.buf.length) cache.chlen,
      cache.Routable K source call.idx b := by
    intro b hb
    obtain ⟨i, -, hlt⟩ := (mem_blockOffs cache.chlen_pos).mp hb
    exact ⟨⟨onGrid_mem (cache.onGrid_firstBlock _) hb, Nat.lt_trans hlt hexact.word,
      call, hK, rfl, hb⟩, hexact.fetches b hb⟩
  unfold read
  rw [hsource]
  simp only
  rw [Build.add_of_lt hexact.word]
  rw [Thread.goOn_ok, readaheadBlockRange_of_fits hexact.window, Thread.goOn_ok]
  refine attempt_faultless hs (readBlocks_faultless hs hsource hoffs hexact.word) ?_
  intro r s₁ hs₁
  have hwindow : ∀ b ∈ blockOffs (cache.nextBlock (call.off + call.buf.length))
      (min (cache.nextBlock (call.off + call.buf.length) +
        cache.readahead * cache.chlen) source.end_) cache.chlen,
      cache.OnGrid b ∧ b < wordLimit := by
    intro b hb
    obtain ⟨i, -, hlt⟩ := (mem_blockOffs cache.chlen_pos).mp hb
    have hend : source.end_ < wordLimit := source.length_lt
    exact ⟨onGrid_mem (Dvd.intro_left _ rfl) hb, by omega⟩
  refine (prefetchAfter_upholds hs₁.inv hsource hwindow).bind hs₁.inv ?_
  exact fun _ s₂ _ _ => upholds_faultless (faultless_ok r s₂)

/-! ## Reads whose arithmetic is not -/

/-- No block is held, and no read of a source has panicked. -/
structure Cold (s : CacheState) : Prop where
  stored : ∀ tier key, s.stored tier key = none
  gets : ¬ s.SomePanic

theorem cold_empty (regularPhase : Bool) : Cold (.empty regularPhase) := by
  refine ⟨fun _ _ => rfl, ?_⟩
  rintro ⟨get, hget, -⟩
  simp [CacheState.empty] at hget

theorem Cold.loadPhase (h : Cold s) (key : Key) (prefetch : Bool) :
    Cold (s.loadPhase key prefetch) := ⟨h.stored, h.gets⟩

theorem Cold.logGet (h : Cold s) {get : Get} (hget : get.outcome ≠ .panic) :
    Cold (s.logGet get) := by
  refine ⟨h.stored, ?_⟩
  rintro ⟨get', hmem, hpanic⟩
  rcases List.mem_append.mp hmem with hold | hnew
  · exact h.gets ⟨get', hold, hpanic⟩
  · rw [List.mem_singleton.mp hnew] at hpanic
    exact hget hpanic

/-- The thread can be run into a fault which no source has caused. -/
def Faults {α : Type} (t : Task (Outcome CacheError α)) (s : CacheState) : Prop :=
  ∃ s', Thread.Ends Thread.alone s t (.error .taskPanicked) s' ∧ Cold s'

theorem Faults.attempt {α β : Type} {t : Task (Outcome CacheError α)}
    {f : α → Task (Outcome CacheError β)} (h : Faults t s) :
    Faults (Thread.attempt t f) s := by
  obtain ⟨s', hends, hcold⟩ := h
  exact ⟨s', hends.bind .refl, hcold⟩

theorem makeFetch_faults (hs : Cold s) (hgrid : cache.OnGrid choff)
    (hexact : ¬ cache.FetchExact source choff) :
    ∃ fault s', Thread.Ends Thread.alone s
      (cache.makeFetch .dev idx choff source .content) (.panic fault) s' ∧ Cold s' := by
  unfold makeFetch
  by_cases hfits : cache.GroupFits choff
  · have hahead : ∃ n bytes, cache.fetchSize = cache.chlen ∧ source.end_ < choff ∧
        source.answer n choff source.end_ = .ok bytes := by
      by_contra hnone
      exact hexact ⟨hfits, fun hone hend n bytes hbytes =>
        hnone ⟨n, bytes, hone, hend, hbytes⟩⟩
    obtain ⟨n, bytes, hone, hend, hbytes⟩ := hahead
    have hmin : min (choff + cache.fetchSize) source.end_ = source.end_ := by omega
    rw [groupRange_of_fits hfits, groupBeg_of_one hone hgrid, hmin]
    simp only [Thread.goOn, cache.fetchSize_eq, if_pos hone]
    refine ⟨.subOverflow, s.logGet ⟨idx, choff, source.end_, .ok bytes⟩, ?_,
      hs.logGet (by simp)⟩
    refine .head (.choose n) ?_
    dsimp only
    rw [hbytes]
    refine .head .atomic ?_
    unfold wholeBlock
    simp only [Build.sub, if_neg (Nat.not_le_of_lt hend), Outcome.panic_bind,
      Thread.done_bind]
    exact .refl
  · rw [groupRange_eq, Build.dev_add hfits]
    exact ⟨_, s, .refl, hs⟩

theorem fetchInto_faults {tier : Tier} (hs : Cold s) (hgrid : cache.OnGrid choff)
    (hexact : ¬ cache.FetchExact source choff) :
    Faults (cache.fetchInto .dev tier idx choff source) s := by
  obtain ⟨fault, s', hends, hs'⟩ := makeFetch_faults hs hgrid hexact
  refine Faults.attempt ⟨s', ?_, hs'⟩
  refine .head .atomic ?_
  simp only [id_eq, Thread.done_bind, hs.stored]
  have hcaught : Thread.Ends Thread.alone s
      ((cache.makeFetch .dev idx choff source .content).bind fun r => .done (caught r))
      (.error .taskPanicked) s' := hends.bind .refl
  exact hcaught.bind .refl

theorem routeBlock_faults {prefetch : Bool} (hs : Cold s) (hgrid : cache.OnGrid choff)
    (hexact : ¬ cache.FetchExact source choff) :
    Faults (cache.routeBlock .dev idx choff source prefetch) s := by
  unfold routeBlock
  split_ifs with hdual
  · have hload := hs.loadPhase (idx, choff) prefetch
    have hfetch : ∀ tier, Faults (cache.fetchInto .dev tier idx choff source)
        (s.loadPhase (idx, choff) prefetch) :=
      fun tier => fetchInto_faults hload hgrid hexact
    by_cases hregular : s.regularPhase
    · obtain ⟨s', hends, hs'⟩ := hfetch .content
      refine ⟨s', ?_, hs'⟩
      refine .head .atomic (.head .atomic ?_)
      simp only [id_eq, Thread.done_bind, hload.stored]
      refine .head .atomic ?_
      simp only [id_eq, Thread.done_bind, hload.stored, if_pos hregular]
      exact hends
    · obtain ⟨s', hends, hs'⟩ := hfetch .metadata
      refine ⟨s', ?_, hs'⟩
      refine .head .atomic (.head .atomic ?_)
      simp only [id_eq, Thread.done_bind, hload.stored]
      refine .head .atomic ?_
      simp only [id_eq, Thread.done_bind, hload.stored, if_neg hregular]
      exact hends
  · obtain ⟨s', hends, hs'⟩ : Faults (cache.fetchInto .dev .content idx choff source) s :=
      fetchInto_faults hs hgrid hexact
    refine ⟨s', ?_, hs'⟩
    refine .head .atomic ?_
    simp only [id_eq, Thread.done_bind, hs.stored]
    exact hends

theorem routeBlock_not_done {prefetch : Bool} :
    (cache.routeBlock build idx choff source prefetch).result? = none := by
  unfold routeBlock
  split_ifs <;> rfl

theorem routeAll_faults {offs : List ℕ} (hs : Cold s) (hmem : choff ∈ offs)
    (hgrid : cache.OnGrid choff) (hexact : ¬ cache.FetchExact source choff) :
    Faults (Thread.tryJoinAll (offs.map fun choff =>
      cache.routeBlock .dev idx choff source false)) s := by
  obtain ⟨s', hends, hs'⟩ : Faults (cache.routeBlock .dev idx choff source false) s :=
    routeBlock_faults hs hgrid hexact
  refine ⟨s', hends.tryJoinAll (List.mem_map_of_mem hmem) ?_, hs'⟩
  intro t ht
  obtain ⟨b, -, rfl⟩ := List.mem_map.mp ht
  exact routeBlock_not_done

/-- The first block of a read in the group of a block. -/
theorem mem_leaders {csbeg b : ℕ} (hcsbeg : cache.OnGrid csbeg)
    (hb : b ∈ blockOffs csbeg csend cache.chlen) :
    max (cache.groupBeg b) csbeg ∈ cache.leaders csbeg csend ∧
      cache.groupBeg (max (cache.groupBeg b) csbeg) = cache.groupBeg b := by
  obtain ⟨i, rfl, hlt⟩ := (mem_blockOffs cache.chlen_pos).mp hb
  set b := csbeg + i * cache.chlen
  have hbeg := cache.groupBeg_le b
  have hend := cache.lt_groupBeg_add b
  have hgroup : cache.groupBeg (max (cache.groupBeg b) csbeg) = cache.groupBeg b :=
    groupBeg_of_mem (by omega) (by omega)
  have hgrid : cache.OnGrid (max (cache.groupBeg b) csbeg) := by
    rcases max_choice (cache.groupBeg b) csbeg with h | h
    · rw [h]
      exact cache.onGrid_groupBeg b
    · rw [h]
      exact hcsbeg
  refine ⟨List.mem_filter.mpr ⟨?_, ?_⟩, hgroup⟩
  · exact mem_blockOffs_of_onGrid hcsbeg hgrid (by omega) (by omega)
  · rw [decide_eq_true_eq]
    change _ = max (cache.groupBeg (max (cache.groupBeg b) csbeg)) csbeg
    rw [hgroup]

theorem readBlocks_faults (hs : Cold s)
    (hmem : choff ∈ blockOffs (cache.firstBlock off) csend cache.chlen)
    (hexact : ¬ cache.FetchExact source choff) :
    Faults (cache.readBlocks .dev idx off source (cache.firstBlock off) csend buf) s := by
  have hgrid := onGrid_mem (cache.onGrid_firstBlock off) hmem
  unfold readBlocks
  split
  · rename_i b hsingle
    obtain rfl : choff = b := by simpa [hsingle] using hmem
    exact (routeBlock_faults hs hgrid hexact).attempt
  · split_ifs with hmany
    · obtain ⟨hleader, hgroup⟩ := mem_leaders (cache.onGrid_firstBlock off) hmem
      set leader := max (cache.groupBeg choff) (cache.firstBlock off)
      have hfits : ¬ cache.GroupFits choff :=
        fun hfits => hexact ⟨hfits, fun hone => absurd hone (by omega)⟩
      have hleader' : ¬ cache.FetchExact source leader := by
        intro h
        apply hfits
        have hfits' := h.fits
        unfold GroupFits at hfits' ⊢
        rwa [hgroup] at hfits'
      obtain ⟨s₁, hends, hs₁⟩ : Faults (Thread.tryJoinAll
          ((cache.leaders (cache.firstBlock off) csend).map fun choff =>
            cache.routeBlock .dev idx choff source false)) s :=
        routeAll_faults hs hleader (onGrid_mem (cache.onGrid_firstBlock off)
          (List.mem_of_mem_filter hleader)) hleader'
      obtain ⟨s₂, hends', hs₂⟩ : Faults (cache.readMany .dev idx off source
          (blockOffs (cache.firstBlock off) csend cache.chlen) buf) s₁ :=
        (routeAll_faults hs₁ hmem hgrid hexact).attempt
      exact ⟨s₂, hends.bind hends', hs₂⟩
    · exact (routeAll_faults hs hmem hgrid hexact).attempt

theorem readaheadBlockRange_panics (h : ¬ cache.WindowFits csend) :
    ∃ fault, readaheadBlockRange .dev csend cache.chlen cache.readahead source.end_ =
      .panic fault := by
  unfold WindowFits nextBlock at h
  unfold readaheadBlockRange
  set beg := (csend + (cache.chlen - 1)) / cache.chlen * cache.chlen
  by_cases hbeg : beg < wordLimit
  · rw [Build.mul_of_lt hbeg, Outcome.ok_bind]
    by_cases hlen : cache.readahead * cache.chlen < wordLimit
    · rw [Build.mul_of_lt hlen, Outcome.ok_bind, Build.dev_add h]
      exact ⟨_, rfl⟩
    · simp only [Build.mul, if_neg hlen]
      exact ⟨_, rfl⟩
  · simp only [Build.mul, if_neg (show ¬ (csend + (cache.chlen - 1)) / cache.chlen *
      cache.chlen < wordLimit from hbeg)]
    exact ⟨_, rfl⟩

/-- A run of the read which ends with a panic of its own, or of a fetch. -/
theorem read_faults {call : ReadCall} (hs : Cold s)
    (hsource : cache.sources call.idx = some source)
    (hexact : ¬ cache.ReadExact source call.off call.buf.length) :
    ∃ result s', Thread.Ends Thread.alone s (cache.read .dev call) result s' ∧ Cold s' ∧
      (result = .error .taskPanicked ∨ ∃ fault, result = .panic fault) := by
  unfold read
  rw [hsource]
  simp only
  by_cases hword : call.off + call.buf.length < wordLimit
  · rw [Build.add_of_lt hword, Thread.goOn_ok]
    by_cases hwindow : cache.WindowFits (call.off + call.buf.length)
    · rw [readaheadBlockRange_of_fits hwindow, Thread.goOn_ok]
      have hblock : ∃ b ∈ blockOffs (cache.firstBlock call.off)
          (call.off + call.buf.length) cache.chlen, ¬ cache.FetchExact source b := by
        by_contra hall
        push Not at hall
        exact hexact ⟨hword, hwindow, hall⟩
      obtain ⟨b, hb, hfault⟩ := hblock
      obtain ⟨s', hends, hs'⟩ : Faults (cache.readBlocks .dev call.idx call.off source
          (cache.firstBlock call.off) (call.off + call.buf.length) call.buf) s :=
        readBlocks_faults hs hb hfault
      exact ⟨_, s', hends.bind .refl, hs', Or.inl rfl⟩
    · obtain ⟨fault, hpanic⟩ : ∃ fault, readaheadBlockRange .dev
          (call.off + call.buf.length) cache.chlen cache.readahead source.end_ =
          .panic fault := readaheadBlockRange_panics hwindow
      rw [hpanic, Thread.goOn_panic]
      exact ⟨_, s, .refl, hs, Or.inr ⟨fault, rfl⟩⟩
  · rw [Build.dev_add hword, Thread.goOn_panic]
    exact ⟨_, s, .refl, hs, Or.inr ⟨_, rfl⟩⟩

/-! ## Refusal -/

/-- In every run, of either profile, the read can be brought to its end, and
ends with an error which reports no panic but that of a source. -/
def Refused (cache : FoyerCache) (call : ReadCall) : Prop :=
  ∀ (build : Build) (regularPhase : Bool)
    (pool : Pool ReadCall CacheState (Outcome CacheError (Bytes × Bool))),
    cache.Runs build regularPhase pool →
      cache.AllEnd build pool ∧
      ∀ result, (call, .done result) ∈ pool.calls →
        ∃ e, result = .error e ∧ (e = .taskPanicked → pool.state.SomePanic)

theorem runs_faultless {regularPhase : Bool}
    {pool : Pool ReadCall CacheState (Outcome CacheError (Bytes × Bool))}
    (h : cache.Runs build regularPhase pool) :
    pool.Sound (cache.contract build (CalledIn pool)) fun call r s =>
      ∀ source, cache.sources call.idx = some source →
        cache.ReadExact source call.off call.buf.length → Faultless r s := by
  refine Pool.Steps.sound (K := CalledIn pool)
    (fun _ _ henv hs => Good.later_env hs henv)
    ?_ h (fun call hmem => ⟨call.2, hmem⟩) (Pool.sound_start good_empty)
  intro call s hK hs
  by_cases hexact : ∃ source, cache.sources call.idx = some source ∧
      cache.ReadExact source call.off call.buf.length
  · obtain ⟨source, hsource, hexact⟩ := hexact
    exact (read_faultless hs hK hsource hexact).mono fun _ _ _ hr _ _ _ => hr
  · refine (read_upholds hs hK).mono fun _ _ _ _ source hsource hexact' => ?_
    exact absurd ⟨source, hsource, hexact'⟩ hexact

theorem refused_of_exact {call : ReadCall}
    (hsource : cache.sources call.idx = some source) (hpos : 0 < call.buf.length)
    (hbeyond : source.end_ < call.off + call.buf.length)
    (hexact : cache.ReadExact source call.off call.buf.length) : cache.Refused call := by
  intro build regularPhase pool hruns
  refine ⟨hruns.allEnd, ?_⟩
  intro result hmem
  have hfaultless := (runs_faultless hruns).result hmem source hsource hexact
  refine hfaultless.exists_error ?_
  rintro ⟨out, missed⟩ rfl
  obtain ⟨source', hsource', hlen, hout⟩ := hruns.readsRight call out missed hmem
  obtain rfl : source = source' := by rwa [hsource, Option.some_inj] at hsource'
  rw [hout, Slice.length_window] at hlen
  unfold Source.end_ at hbeyond
  omega

theorem exact_of_refused {call : ReadCall}
    (hsource : cache.sources call.idx = some source) (h : cache.Refused call) :
    cache.ReadExact source call.off call.buf.length := by
  by_contra hexact
  obtain ⟨result, s', hends, hcold, hfault⟩ :=
    read_faults (cold_empty false) hsource hexact
  let pool : Pool ReadCall CacheState (Outcome CacheError (Bytes × Bool)) :=
    ⟨.empty false, [(call, cache.read .dev call)], []⟩
  have hstart : cache.Runs .dev false pool := .single (.call call)
  obtain ⟨pool', hsteps, rfl, hcall⟩ : ∃ pool', Pool.Steps (cache.read .dev) Env pool pool' ∧
      pool'.state = s' ∧ pool'.calls[0]? = some (call, .done result) :=
    Pool.steps_of_runs hends rfl rfl
  obtain ⟨-, hresults⟩ := h .dev false pool' (hstart.trans hsteps)
  obtain ⟨e, rfl, hpanicked⟩ := hresults result (List.mem_of_getElem? hcall)
  rcases hfault with he | ⟨fault, hfault⟩
  · exact hcold.gets (hpanicked (Outcome.error.inj he))
  · simp at hfault

/-- A read past the end of its source is refused without a fault exactly when
its sums stay within the words and no group of a single block begins behind the
end of a source which accepts such a range. -/
theorem refused_iff {call : ReadCall} (hsource : cache.sources call.idx = some source)
    (hpos : 0 < call.buf.length) (hbeyond : source.end_ < call.off + call.buf.length) :
    cache.Refused call ↔ cache.ReadExact source call.off call.buf.length :=
  ⟨exact_of_refused hsource, refused_of_exact hsource hpos hbeyond⟩

/-- The second byte after the two which there are. -/
def byteBehind : ReadCall where
  idx := 0
  off := 3
  buf := [0]
  off_lt := by decide
  length_lt := lastByte.length_lt

theorem byteBehind_not_exact : ¬ (byteCache 0).ReadExact twoBytes 3 1 := by
  intro h
  have hmem : 3 ∈ blockOffs ((byteCache 0).firstBlock 3) (3 + 1) (byteCache 0).chlen := by
    decide
  exact (h.fetches 3 hmem).ahead rfl (by decide) 0 [] rfl

/-- The last byte, and one behind it. -/
def acrossEnd : ReadCall where
  idx := 0
  off := 1
  buf := [0, 0]
  off_lt := one_lt_wordLimit
  length_lt := two_lt_wordLimit

theorem acrossEnd_exact : (byteCache 0).ReadExact twoBytes 1 2 where
  word := by decide
  window := by
    unfold WindowFits nextBlock
    decide
  fetches := by
    intro b hb
    have hoffs : blockOffs ((byteCache 0).firstBlock 1) (1 + 2)
        (byteCache 0).chlen = [1, 2] := by decide
    rw [hoffs] at hb
    refine ⟨?_, fun _ hbehind => ?_⟩
    · fin_cases hb <;> (unfold GroupFits groupBeg; decide)
    · have hend : twoBytes.end_ = 2 := rfl
      fin_cases hb <;> simp [hend] at hbehind

/-- The read behind the end has a fault, the one across it is refused. -/
theorem refused_iff_byteBehind :
    ¬ (byteCache 0).Refused byteBehind ∧ (byteCache 0).Refused acrossEnd := by
  refine ⟨fun h => ?_, ?_⟩
  · exact byteBehind_not_exact ((@refused_iff (byteCache 0) twoBytes byteBehind
      rfl (by decide) (by decide)).mp h)
  · exact (@refused_iff (byteCache 0) twoBytes acrossEnd rfl (by decide)
      (by decide)).mpr acrossEnd_exact

theorem byteBehind_faults :
    (byteCache 0).sources byteBehind.idx = some twoBytes ∧
      twoBytes.end_ < byteBehind.off + byteBehind.buf.length ∧
      ¬ (byteCache 0).Refused byteBehind := by
  refine ⟨rfl, by decide, fun h => ?_⟩
  exact byteBehind_not_exact (@exact_of_refused (byteCache 0) twoBytes byteBehind rfl h)

end FoyerCache

end Foyer
end ImageReader
