import ImageReader.FoyerRuns

/-!
# Routing a block

A block which is routed is the block of its key, wherever it was found and
whichever fetch has brought it.
-/

namespace ImageReader
namespace Foyer

/-- A value is as `P` says, and where `needs` holds there is one, or an error
because a read of a source was short. -/
structure Serves {α : Type} (P : α → Prop) (needs : Prop)
    (r : Outcome CacheError α) (s : CacheState) : Prop where
  ok : ∀ a, r = .ok a → P a
  returns : needs → r.Returns
  failed : (∀ a, r ≠ .ok a) → needs → s.SomeShort

section Serves

variable {α β : Type} {P : α → Prop} {Q : β → Prop} {needs needs' : Prop}
  {a : α} {r : Outcome CacheError α} {s s' : CacheState}

theorem serves_ok (h : P a) : Serves P needs (.ok a) s where
  ok := by
    intro a' ha
    obtain rfl := Outcome.ok.inj ha
    exact h
  returns := fun _ => Outcome.returns_ok a
  failed := fun hfailed => absurd rfl (hfailed a)

theorem serves_failed (hr : ∀ a, r ≠ .ok a) (hreturns : needs → r.Returns)
    (h : needs → s.SomeShort) : Serves P needs r s :=
  ⟨fun a ha => absurd ha (hr a), hreturns, fun _ => h⟩

theorem serves_error {e : CacheError} (h : needs → s.SomeShort) :
    Serves P needs (.error e) s :=
  serves_failed (by simp) (fun _ => Outcome.returns_error e) h

theorem serves_of_not (hr : ∀ a, r ≠ .ok a) (hneeds : ¬ needs) :
    Serves P needs r s :=
  serves_failed hr (fun h => absurd h hneeds) fun h => absurd h hneeds

theorem Serves.grows (h : Serves P needs r s) (hgrows : s.Grows s') :
    Serves P needs r s' :=
  ⟨h.ok, h.returns, fun hfailed hneeds => (h.failed hfailed hneeds).grows hgrows⟩

variable {cache : FoyerCache} {build : Build} {K : ReadCall → Prop}

theorem upholds_done (h : Serves P needs r s) :
    (Thread.done r).Upholds (cache.contract build K) s (Serves P needs) :=
  fun _ hlater => h.grows hlater.grows

/-- A failure which the inner call answers for is one of the whole. -/
theorem upholds_attempt {t : Task (Outcome CacheError α)}
    {f : α → Task (Outcome CacheError β)} (hs : cache.Good build K s)
    (ht : t.Upholds (cache.contract build K) s (Serves P needs))
    (hneeds : needs' → needs)
    (hf : ∀ a s', (cache.contract build K).Later s s' → P a →
      (f a).Upholds (cache.contract build K) s' (Serves Q needs')) :
    (Thread.attempt t f).Upholds (cache.contract build K) s (Serves Q needs') := by
  refine ht.attempt hs ?_ ?_
  · exact fun a s' hlater hserves => hf a s' hlater (hserves.ok a rfl)
  · intro x s' _ hserves hx y hy hreturns s'' hlater
    exact serves_failed hy (fun h => hreturns (hserves.returns (hneeds h)))
      fun h => (hserves.failed hx (hneeds h)).grows hlater.grows

end Serves

namespace FoyerCache

variable {cache : FoyerCache} {build : Build} {K : ReadCall → Prop}
  {s s' : CacheState} {source : Source} {idx choff gbeg gend : ℕ}

/-- The block itself, where its group fits. -/
def IsBlock (cache : FoyerCache) (source : Source) (choff : ℕ) (out : Bytes) :
    Prop :=
  out = cache.block source choff ∧ cache.GroupFits choff

/-- When a fetch has to succeed. -/
def Fetchable (cache : FoyerCache) (source : Source) (choff : ℕ) : Prop :=
  choff < source.end_ ∧ cache.GroupFits choff

theorem lookup_upholds {tier : Tier} (hsource : cache.sources idx = some source) :
    (lookup tier (idx, choff)).Upholds (cache.contract build K) s
      fun entry _ => ∀ out, entry = some out → cache.IsBlock source choff out := by
  refine Thread.Upholds.look ?_
  intro s₁ hs₁ s₂ _ out hout
  obtain ⟨source', hsource', hblock, hfits⟩ := hs₁.inv.entries tier idx choff out hout
  obtain rfl : source = source' := by rwa [hsource, Option.some_inj] at hsource'
  exact ⟨hblock, hfits⟩

/-! ## A block of its own -/

theorem fetchRange_upholds (hsource : cache.sources idx = some source)
    (hend : gend ≤ source.end_) :
    (fetchRange source idx gbeg gend).Upholds (cache.contract build K) s
      fun outcome s' => ∃ n, outcome = source.answer n gbeg gend ∧
        ⟨idx, gbeg, gend, outcome⟩ ∈ s'.gets := by
  intro n s₁ hs₁
  refine ⟨Good.later_logGet hs₁.inv ⟨source, n, hsource, hend, rfl⟩, ?_⟩
  intro s₂ hs₂
  refine ⟨n, rfl, hs₂.grows.gets _ ?_⟩
  exact List.mem_append_right _ (by simp)

theorem someShort_of_get {n : ℕ}
    (hget : ⟨idx, gbeg, gend, source.answer n gbeg gend⟩ ∈ s.gets)
    (hshort : ∀ bytes, source.answer n gbeg gend = .ok bytes →
      bytes.length < gend - gbeg) : s.SomeShort := by
  refine ⟨_, hget, ?_⟩
  rintro ⟨bytes, hok, hfull⟩
  exact absurd hfull (Nat.not_le_of_lt (hshort bytes hok))

theorem wholeBlock_upholds {n : ℕ} {outcome : ReadOutcome}
    (hone : cache.fetchSize = cache.chlen) (hgrid : cache.OnGrid choff)
    (hchoff : choff < wordLimit)
    (hrange : cache.groupRange build choff source.end_ = .ok (gbeg, gend))
    (houtcome : outcome = source.answer n gbeg gend)
    (hget : ⟨idx, gbeg, gend, outcome⟩ ∈ s.gets) :
    (match outcome with
      | .ok bytes => Thread.done (cache.wholeBlock build idx choff gbeg gend bytes)
      | .error code => .done (.error (.fetch (.source code)))
      | .panic => .done (.error .taskPanicked)).Upholds (cache.contract build K) s
        (Serves (cache.IsBlock source choff) (cache.Fetchable source choff)) := by
  cases outcome with
  | ok bytes =>
      refine upholds_done ⟨?_, fun hneeds => wholeBlock_returns hneeds.2 hrange hneeds.1, ?_⟩
      · intro out hout
        exact wholeBlock_ok hone hgrid hchoff hrange
          (source.answer_within houtcome.symm) hout
      · intro hfailed hneeds
        rw [houtcome] at hget
        refine someShort_of_get hget ?_
        intro bytes' hok
        obtain rfl : bytes = bytes' := by simpa [hok] using houtcome
        by_contra hfull
        obtain ⟨out, hout⟩ : ∃ out,
            cache.wholeBlock build idx choff gbeg gend bytes = .ok out :=
          wholeBlock_full hneeds.2 hrange hneeds.1 (Nat.le_of_not_lt hfull)
        exact hfailed out hout
  | error code =>
      refine upholds_done (serves_error fun _ => ?_)
      rw [houtcome] at hget
      exact someShort_of_get hget (by simp [← houtcome])
  | panic =>
      refine upholds_done (serves_error fun _ => ?_)
      rw [houtcome] at hget
      exact someShort_of_get hget (by simp [← houtcome])

/-! ## A block of a group -/

/-- The offsets of a group. -/
def InGroup (cache : FoyerCache) (source : Source) (choff b : ℕ) : Prop :=
  cache.OnGrid b ∧ cache.groupBeg choff ≤ b ∧
    b < min (cache.groupBeg choff + cache.fetchSize) source.end_

/-- Siblings are put into the content tier; the demanded block comes out unless
the bytes end before it. -/
theorem cutGroup_upholds {bytes : Bytes} {owner : Bool} {offs : List ℕ}
    {demanded : Option Bytes} (hs : cache.Good build K s)
    (hsource : cache.sources idx = some source) (hfits : cache.GroupFits choff)
    (hgot : bytes <+: source.bytes.drop (cache.groupBeg choff))
    (hoffs : ∀ b ∈ offs, cache.InGroup source choff b)
    (hdemanded : ∀ out, demanded = some out → cache.IsBlock source choff out) :
    (cache.cutGroup build .content idx choff (cache.groupBeg choff)
      (min (cache.groupBeg choff + cache.fetchSize) source.end_) bytes owner offs
      demanded).Upholds (cache.contract build K) s
      fun r _ => ∃ d, r = .ok d ∧
        (∀ out, d = some out → cache.IsBlock source choff out) ∧
        (d = none → demanded = none ∧ (choff ∈ offs → bytes.length <
          min (cache.groupBeg choff + cache.fetchSize) source.end_ -
            cache.groupBeg choff)) := by
  induction offs generalizing demanded s with
  | nil =>
      intro _ _
      exact ⟨demanded, rfl, hdemanded, fun hnone => ⟨hnone, by simp⟩⟩
  | cons boff rest ih =>
      obtain ⟨hgrid, hge, hlt⟩ := hoffs boff (by simp)
      have hrest := fun b hb => hoffs b (List.mem_cons_of_mem _ hb)
      have hend := hgrid.le_group_end
      rw [groupBeg_of_mem hge (by omega)] at hend
      unfold cutGroup
      rw [blockBounds_eq hge hlt hfits hgrid]
      simp only [Thread.goOn]
      split_ifs with hshort hsame howner
      · intro _ _
        refine ⟨demanded, rfl, hdemanded, fun hnone => ⟨hnone, fun _ => ?_⟩⟩
        omega
      · subst hsame
        rw [range_block hge hlt hgot (Nat.le_of_not_lt hshort)]
        refine (ih hs hrest ?_).mono ?_
        · intro out hout
          obtain rfl := Option.some.inj hout
          exact ⟨rfl, hfits⟩
        · rintro r _ _ ⟨d, rfl, hd, hnone⟩
          exact ⟨d, rfl, hd, fun h => absurd (hnone h).1 (by simp)⟩
      · rw [range_block hge hlt hgot (Nat.le_of_not_lt hshort)]
        intro s₁ hs₁
        have hinsert : (cache.contract build K).Later s₁
            (s₁.insert .content (idx, boff) (cache.block source boff)) :=
          Good.later_insert hs₁.inv hsource (groupFits_of_mem hge hlt hfits) (by simp)
        refine ⟨hinsert, (ih hinsert.inv hrest hdemanded).mono ?_⟩
        rintro r _ _ ⟨d, rfl, hd, hnone⟩
        refine ⟨d, rfl, hd, fun h => ⟨(hnone h).1, fun hmem => (hnone h).2 ?_⟩⟩
        exact (List.mem_cons.mp hmem).resolve_left (Ne.symm hsame)
      · refine (ih hs hrest hdemanded).mono ?_
        rintro r _ _ ⟨d, rfl, hd, hnone⟩
        refine ⟨d, rfl, hd, fun h => ⟨(hnone h).1, fun hmem => (hnone h).2 ?_⟩⟩
        exact (List.mem_cons.mp hmem).resolve_left (Ne.symm hsame)

theorem blockOffs_of_le {beg end_ step : ℕ} (hpos : 0 < step) (hle : end_ ≤ beg) :
    blockOffs beg end_ step = [] := by
  apply List.eq_nil_iff_forall_not_mem.mpr
  intro b hb
  obtain ⟨i, rfl, hlt⟩ := (mem_blockOffs hpos).mp hb
  omega

theorem demandedBlock_upholds {bytes : Bytes} {owner : Bool} {n : ℕ}
    (hs : cache.Good build K s) (hsource : cache.sources idx = some source)
    (hgrid : cache.OnGrid choff) (hchoff : choff < wordLimit)
    (hrange : cache.groupRange build choff source.end_ = .ok (gbeg, gend))
    (hget : ⟨idx, gbeg, gend, source.answer n gbeg gend⟩ ∈ s.gets)
    (hbytes : source.answer n gbeg gend = .ok bytes) :
    (cache.demandedBlock build .content idx choff gbeg gend bytes owner).Upholds
      (cache.contract build K) s
        (Serves (cache.IsBlock source choff) (cache.Fetchable source choff)) := by
  have hgot := source.answer_within hbytes
  unfold demandedBlock
  by_cases hfits : cache.GroupFits choff
  · rw [groupRange_of_fits hfits, Outcome.ok.injEq, Prod.mk.injEq] at hrange
    obtain ⟨rfl, rfl⟩ := hrange
    have hoffs : ∀ b ∈ blockOffs (cache.groupBeg choff)
        (min (cache.groupBeg choff + cache.fetchSize) source.end_) cache.chlen,
        cache.InGroup source choff b := by
      intro b hb
      obtain ⟨i, hi, hlt⟩ := (mem_blockOffs cache.chlen_pos).mp hb
      exact ⟨onGrid_mem (cache.onGrid_groupBeg choff) hb, by omega, hlt⟩
    refine (cutGroup_upholds hs hsource hfits hgot hoffs (by simp)).attempt hs ?_ ?_
    · rintro demanded s₁ hs₁ ⟨d, hd, hblock, hnone⟩
      obtain rfl := Outcome.ok.inj hd
      cases demanded with
      | some out => exact upholds_done (serves_ok (hblock out rfl))
      | none =>
          refine upholds_done (serves_error ?_)
          intro hneeds
          refine someShort_of_get (hs₁.grows.gets _ hget) ?_
          intro bytes' hok
          obtain rfl : bytes = bytes' := by simpa [hok] using hbytes.symm
          refine (hnone rfl).2 (mem_blockOffs_of_onGrid (cache.onGrid_groupBeg choff)
            hgrid (cache.groupBeg_le choff) ?_)
          exact lt_min (cache.lt_groupBeg_add choff) hneeds.1
    · rintro x s₁ - ⟨d, rfl, -⟩ hx
      exact absurd rfl (hx d)
  · obtain ⟨hback, -⟩ := groupRange_of_not hfits hchoff hrange
    rw [blockOffs_of_le cache.chlen_pos (Nat.le_of_lt hback)]
    exact upholds_done (serves_of_not (by simp) fun hneeds => hfits hneeds.2)

/-! ## A fetch -/

theorem groupRange_ne_ok (h : ∀ r, cache.groupRange build choff source.end_ ≠ .ok r) :
    ¬ cache.GroupFits choff :=
  fun hfits => h _ (groupRange_of_fits hfits)

theorem groupBeg_groupBeg (cache : FoyerCache) (b : ℕ) :
    cache.groupBeg (cache.groupBeg b) = cache.groupBeg b := by
  unfold groupBeg
  rw [Nat.mul_div_cancel _ cache.fetchSize_pos]

theorem groupRange_groupBeg
    (h : cache.groupRange build choff source.end_ = .ok (gbeg, gend)) :
    gbeg = cache.groupBeg choff ∧
      cache.groupRange build gbeg source.end_ = .ok (gbeg, gend) := by
  rw [groupRange_eq] at h
  obtain ⟨next, hnext, hrange⟩ := Outcome.bind_eq_ok.mp h
  rw [Outcome.ok.injEq, Prod.mk.injEq] at hrange
  obtain ⟨rfl, rfl⟩ := hrange
  refine ⟨rfl, ?_⟩
  rw [groupRange_eq, groupBeg_groupBeg, hnext, Outcome.ok_bind]

theorem makeFetch_upholds (hs : cache.Good build K s)
    (hsource : cache.sources idx = some source) (hgrid : cache.OnGrid choff)
    (hchoff : choff < wordLimit) :
    (cache.makeFetch build idx choff source .content).Upholds
      (cache.contract build K) s
        (Serves (cache.IsBlock source choff) (cache.Fetchable source choff)) := by
  unfold makeFetch
  refine Thread.Upholds.goOn ?_ ?_
  · rintro ⟨gbeg, gend⟩ hrange
    simp only [cache.fetchSize_eq]
    split_ifs with hone
    · refine (fetchRange_upholds hsource (groupRange_le hrange)).bind hs ?_
      rintro outcome s₁ hs₁ ⟨n, houtcome, hget⟩
      exact wholeBlock_upholds hone hgrid hchoff hrange houtcome hget
    · obtain ⟨-, hself⟩ := groupRange_groupBeg hrange
      refine (groupFetch_upholds hsource hself).bind hs ?_
      rintro ⟨result, owner⟩ s₁ hs₁ ⟨answer, n, rfl, hget, hok, herror⟩
      cases answer with
      | ok bytes =>
          exact demandedBlock_upholds hs₁.inv hsource hgrid hchoff hrange hget
            (hok bytes rfl)
      | error e =>
          refine upholds_done (serves_error fun _ => ?_)
          exact someShort_of_get hget fun bytes hbytes =>
            absurd hbytes (herror e rfl bytes)
  · intro hpanic y hy _ s₁ _
    exact serves_of_not hy fun hneeds => groupRange_ne_ok hpanic hneeds.2

theorem caught_serves {P : Bytes → Prop} {needs : Prop}
    {r : Outcome CacheError Bytes} (h : Serves P needs r s) :
    Serves P needs (caught r) s := by
  cases r with
  | ok block => exact h
  | error e => exact h
  | hang => exact h
  | panic fault => exact serves_error (h.failed (by simp))

/-- An entry of the metadata tier needs a routing in the metadata phase. -/
def MayStore (s : CacheState) (tier : Tier) (key : Key) : Prop :=
  tier = .metadata → ∃ r ∈ s.routed, r.key = key ∧ r.regular = false

theorem MayStore.grows {tier : Tier} {key : Key} (h : MayStore s tier key)
    (hgrows : s.Grows s') : MayStore s' tier key := by
  intro htier
  obtain ⟨r, hr, hmatch⟩ := h htier
  exact ⟨r, hgrows.routed r hr, hmatch⟩

theorem mayStore_content (s : CacheState) (key : Key) : MayStore s .content key :=
  fun h => absurd h (by simp)

theorem getOrFetch_upholds {tier : Tier} {fetch : Task (Outcome CacheError Bytes)}
    (hs : cache.Good build K s) (hsource : cache.sources idx = some source)
    (hstore : MayStore s tier (idx, choff))
    (hfetch : ∀ s', (cache.contract build K).Later s s' →
      fetch.Upholds (cache.contract build K) s'
        (Serves (cache.IsBlock source choff) (cache.Fetchable source choff))) :
    (getOrFetch tier (idx, choff) fetch).Upholds (cache.contract build K) s
      (Serves (cache.IsBlock source choff) (cache.Fetchable source choff)) := by
  unfold getOrFetch
  refine (lookup_upholds hsource).bind hs ?_
  intro entry s₁ hs₁ hentry
  cases entry with
  | some block => exact upholds_done (serves_ok (hentry block rfl))
  | none =>
      have hcaught : (fetch.bind fun r => .done (caught r)).Upholds
          (cache.contract build K) s₁
          (Serves (cache.IsBlock source choff) (cache.Fetchable source choff)) :=
        (hfetch s₁ hs₁).bind hs₁.inv fun r s' _ hr => upholds_done (caught_serves hr)
      refine upholds_attempt hs₁.inv hcaught id ?_
      rintro block s₂ hs₂ ⟨rfl, hfits⟩ s₃ hs₃
      have hlater := (hs₁.trans hs₂).trans hs₃
      have hinsert : (cache.contract build K).Later s₃
          (s₃.insert tier (idx, choff) (cache.block source choff)) :=
        Good.later_insert hs₃.inv hsource hfits (hstore.grows hlater.grows)
      exact ⟨hinsert, upholds_done (serves_ok ⟨rfl, hfits⟩)⟩

theorem fetchInto_upholds {tier : Tier} (hs : cache.Good build K s)
    (hsource : cache.sources idx = some source) (hgrid : cache.OnGrid choff)
    (hchoff : choff < wordLimit) (hstore : MayStore s tier (idx, choff)) :
    (cache.fetchInto build tier idx choff source).Upholds (cache.contract build K) s
      (Serves (fun r => cache.IsBlock source choff r.1)
        (cache.Fetchable source choff)) := by
  unfold fetchInto
  refine upholds_attempt hs (getOrFetch_upholds hs hsource hstore ?_) id ?_
  · exact fun s' hlater => makeFetch_upholds hlater.inv hsource hgrid hchoff
  · exact fun block s' _ hblock => upholds_done (serves_ok hblock)

/-! ## Routing -/

/-- A block is held, or fetched into a tier that may store it. -/
theorem routeBlock_rule {prefetch : Bool}
    {Post : Outcome CacheError (Bytes × Bool) → CacheState → Prop}
    (hs : cache.Good build K s) (hsource : cache.sources idx = some source)
    (hcover : prefetch = false → ∃ call, K call ∧ cache.Covers call (idx, choff))
    (hheld : ∀ out s', cache.IsBlock source choff out → Post (.ok (out, false)) s')
    (hfetch : ∀ tier s', (cache.contract build K).Later s s' →
      MayStore s' tier (idx, choff) →
      (cache.fetchInto build tier idx choff source).Upholds (cache.contract build K) s'
        Post) :
    (cache.routeBlock build idx choff source prefetch).Upholds
      (cache.contract build K) s Post := by
  unfold routeBlock
  split_ifs with hdual
  · intro s₁ hs₁
    have hload := Good.later_loadPhase prefetch hs₁.inv hcover
    refine ⟨hload, (lookup_upholds hsource).bind hload.inv ?_⟩
    intro entry s₂ hs₂ hentry
    cases entry with
    | some out => exact fun s' _ => hheld out s' (hentry out rfl)
    | none =>
        refine (lookup_upholds hsource).bind hs₂.inv ?_
        intro entry s₃ hs₃ hentry
        -- what the flag was when this block was routed
        have hphase : s₁.regularPhase = false → ∀ s', (cache.contract build K).Later
            (s₁.loadPhase (idx, choff) prefetch) s' →
            MayStore s' .metadata (idx, choff) := by
          intro hregular s' hlater _
          refine ⟨⟨(idx, choff), prefetch, s₁.regularPhase⟩,
            hlater.grows.routed _ (List.mem_append_right _ (by simp)), rfl, hregular⟩
        cases entry with
        | some out =>
            obtain ⟨rfl, hfits⟩ := hentry out rfl
            split_ifs with hregular
            · exact fun s' _ => hheld _ s' ⟨rfl, hfits⟩
            · intro s₄ hs₄
              have hinsert : (cache.contract build K).Later s₄
                  (s₄.insert .metadata (idx, choff) (cache.block source choff)) :=
                Good.later_insert hs₄.inv hsource hfits
                  (hphase (by simpa using hregular) s₄ ((hs₂.trans hs₃).trans hs₄))
              exact ⟨hinsert, fun s' _ => hheld _ s' ⟨rfl, hfits⟩⟩
        | none =>
            have hlater := (hs₁.trans hload).trans (hs₂.trans hs₃)
            split_ifs with hregular
            · exact hfetch .content s₃ hlater (mayStore_content _ _)
            · exact hfetch .metadata s₃ hlater
                (hphase (by simpa using hregular) s₃ (hs₂.trans hs₃))
  · refine (lookup_upholds hsource).bind hs ?_
    intro entry s₁ hs₁ hentry
    cases entry with
    | some out => exact fun s' _ => hheld out s' (hentry out rfl)
    | none => exact hfetch .content s₁ hs₁ (mayStore_content _ _)

theorem routeBlock_upholds {prefetch : Bool} (hs : cache.Good build K s)
    (hsource : cache.sources idx = some source) (hgrid : cache.OnGrid choff)
    (hchoff : choff < wordLimit)
    (hcover : prefetch = false → ∃ call, K call ∧ cache.Covers call (idx, choff)) :
    (cache.routeBlock build idx choff source prefetch).Upholds
      (cache.contract build K) s
        (Serves (fun r => cache.IsBlock source choff r.1)
          (cache.Fetchable source choff)) :=
  routeBlock_rule hs hsource hcover (fun _ _ hblock => serves_ok hblock)
    fun _ _ hlater hstore => fetchInto_upholds hlater.inv hsource hgrid hchoff hstore

end FoyerCache

end Foyer
end ImageReader
