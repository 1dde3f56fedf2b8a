import ImageReader.FoyerBlocks

/-!
# What the threads of the block cache owe one another

Every entry of a tier is the block of its key, whoever has put it there, and
every result of a group is an answer of the source.  Entries of the metadata
tier are of blocks which were routed in the metadata phase.  A thread which
fails, where the arithmetic of the group of its block fits, has met a read of a
source which was short.
-/

namespace ImageReader
namespace Foyer

/-- The source returned all of the range. -/
def Get.Full (get : Get) : Prop :=
  ∃ bytes, get.outcome = .ok bytes ∧ get.end_ - get.beg ≤ bytes.length

/-- Some read of a source has failed, or was short. -/
def CacheState.SomeShort (s : CacheState) : Prop := ∃ get ∈ s.gets, ¬ get.Full

namespace FoyerCache

variable (cache : FoyerCache) (build : Build) (K : ReadCall → Prop)

/-- The block lies in the range of the read. -/
def Covers (call : ReadCall) (key : Key) : Prop :=
  key.1 = call.idx ∧
    key.2 ∈ blockOffs (call.off / cache.chlen * cache.chlen)
      (call.off + call.buf.length) cache.chlen

/-- The result is that of a read of the source which has been logged. -/
def Answered (source : Source) (s : CacheState) (fetch : Fetch)
    (result : GroupResult) : Prop :=
  ∃ n, ⟨fetch.key.1, fetch.key.2, fetch.gend,
      source.answer n fetch.key.2 fetch.gend⟩ ∈ s.gets ∧
    fetch.resultOf (source.answer n fetch.key.2 fetch.gend) = result

def GoodFetch (s : CacheState) (fetch : Fetch) : Prop :=
  ∃ source, cache.sources fetch.key.1 = some source ∧
    cache.groupRange build fetch.key.2 source.end_ =
      .ok (fetch.key.2, fetch.gend) ∧
    ∀ result, fetch.status = .read result ∨ fetch.status = .retired result →
      Answered source s fetch result

/-- A read of a source, within its end. -/
def GoodGet (get : Get) : Prop :=
  ∃ source n, cache.sources get.idx = some source ∧ get.end_ ≤ source.end_ ∧
    get.outcome = source.answer n get.beg get.end_

structure Good (s : CacheState) : Prop where
  entries : ∀ (tier : Tier) (idx b : ℕ) (entry : Bytes),
    s.stored tier (idx, b) = some entry →
    ∃ source, cache.sources idx = some source ∧ entry = cache.block source b ∧
      cache.GroupFits b
  latch : GroupLatch.Reachable s.groups
  fetches : ∀ fetch ∈ s.groups.fetches, cache.GoodFetch build s fetch
  gets : ∀ get ∈ s.gets, cache.GoodGet get
  metadata : ∀ (key : Key) (entry : Bytes), s.stored .metadata key = some entry →
    ∃ r ∈ s.routed, r.key = key ∧ r.regular = false
  routed : ∀ r ∈ s.routed, r.prefetch = false →
    ∃ call, K call ∧ cache.Covers call r.key

end FoyerCache

/-- The history of the state goes on. -/
structure CacheState.Grows (s s' : CacheState) : Prop where
  gets : ∀ get ∈ s.gets, get ∈ s'.gets
  routed : ∀ r ∈ s.routed, r ∈ s'.routed
  groups : GroupLatch.Steps s.groups s'.groups

theorem CacheState.Grows.refl (s : CacheState) : s.Grows s :=
  ⟨fun _ h => h, fun _ h => h, .refl⟩

theorem CacheState.Grows.trans {s s' s'' : CacheState} (h : s.Grows s')
    (h' : s'.Grows s'') : s.Grows s'' :=
  ⟨fun get hget => h'.gets get (h.gets get hget),
    fun r hr => h'.routed r (h.routed r hr), h.groups.trans h'.groups⟩

/-- What every thread of the cache keeps while the calls are among `K`. -/
def FoyerCache.contract (cache : FoyerCache) (build : Build)
    (K : ReadCall → Prop) : Contract CacheState where
  Inv := cache.Good build K
  Grows := CacheState.Grows
  refl := .refl
  trans := .trans

namespace CacheState

variable {s s' : CacheState} {tier tier' : Tier} {key key' : Key}
  {entry : Option Bytes} {e : Bytes}

theorem SomeShort.grows (h : s.SomeShort) (hgrows : s.Grows s') :
    s'.SomeShort := by
  obtain ⟨get, hget, hshort⟩ := h
  exact ⟨get, hgrows.gets get hget, hshort⟩

theorem stored_set_cases (h : (s.set tier key entry).stored tier' key' = some e) :
    tier' = tier ∧ key' = key ∧ entry = some e ∨ s.stored tier' key' = some e := by
  by_cases htier : tier' = tier
  · subst htier
    by_cases hkey : key' = key
    · subst hkey
      exact Or.inl ⟨rfl, rfl, by simpa [set] using h⟩
    · exact Or.inr (by simpa [set, Function.update_of_ne hkey] using h)
  · exact Or.inr (by simpa [set, Function.update_of_ne htier] using h)

end CacheState

namespace FoyerCache

variable {cache : FoyerCache} {build : Build} {K : ReadCall → Prop}
  {s s' : CacheState} {source : Source}

theorem Answered.grows {fetch : Fetch} {result : GroupResult}
    (h : Answered source s fetch result) (hgets : ∀ get ∈ s.gets, get ∈ s'.gets) :
    Answered source s' fetch result := by
  obtain ⟨n, hget, hresult⟩ := h
  exact ⟨n, hgets _ hget, hresult⟩

theorem GoodFetch.grows {fetch : Fetch} (h : cache.GoodFetch build s fetch)
    (hgets : ∀ get ∈ s.gets, get ∈ s'.gets) : cache.GoodFetch build s' fetch := by
  obtain ⟨source, hsource, hrange, hresult⟩ := h
  exact ⟨source, hsource, hrange, fun result hstatus =>
    (hresult result hstatus).grows hgets⟩

/-! ## Steps on the tiers and on the history -/

theorem Good.set {tier : Tier} {idx b : ℕ} {entry : Option Bytes}
    (h : cache.Good build K s)
    (hblock : ∀ e, entry = some e → ∃ source, cache.sources idx = some source ∧
      e = cache.block source b ∧ cache.GroupFits b)
    (hrouted : ∀ e, entry = some e → tier = .metadata →
      ∃ r ∈ s.routed, r.key = (idx, b) ∧ r.regular = false) :
    cache.Good build K (s.set tier (idx, b) entry) where
  entries := by
    intro tier' idx' b' e he
    rcases CacheState.stored_set_cases he with ⟨-, hkey, hentry⟩ | hold
    · obtain ⟨rfl, rfl⟩ := Prod.mk.inj hkey
      exact hblock e hentry
    · exact h.entries tier' idx' b' e hold
  latch := h.latch
  fetches := h.fetches
  gets := h.gets
  metadata := by
    intro key' e he
    rcases CacheState.stored_set_cases he with ⟨htier, rfl, hentry⟩ | hold
    · exact hrouted e hentry htier.symm
    · exact h.metadata key' e hold
  routed := h.routed

theorem grows_set (s : CacheState) (tier : Tier) (key : Key)
    (entry : Option Bytes) : s.Grows (s.set tier key entry) :=
  ⟨fun _ h => h, fun _ h => h, .refl⟩

theorem Good.later_insert {tier : Tier} {idx b : ℕ}
    (h : cache.Good build K s) (hsource : cache.sources idx = some source)
    (hfits : cache.GroupFits b)
    (hrouted : tier = .metadata →
      ∃ r ∈ s.routed, r.key = (idx, b) ∧ r.regular = false) :
    (cache.contract build K).Later s
      (s.insert tier (idx, b) (cache.block source b)) := by
  refine ⟨grows_set s tier (idx, b) _, h.set ?_ fun _ _ => hrouted⟩
  intro e he
  exact ⟨source, hsource, (Option.some.inj he).symm, hfits⟩

theorem Good.later_env (h : cache.Good build K s) (henv : Env s s') :
    (cache.contract build K).Later s s' := by
  cases henv with
  | evict tier key =>
      refine ⟨grows_set s tier key none, ?_⟩
      exact h.set (by simp) (by simp)
  | phase regular =>
      exact ⟨⟨fun _ h => h, fun _ h => h, .refl⟩,
        ⟨h.entries, h.latch, h.fetches, h.gets, h.metadata, h.routed⟩⟩

theorem Good.later_logGet {get : Get} (h : cache.Good build K s)
    (hget : cache.GoodGet get) :
    (cache.contract build K).Later s (s.logGet get) := by
  have hgets : ∀ g ∈ s.gets, g ∈ (s.logGet get).gets :=
    fun g hg => List.mem_append_left _ hg
  refine ⟨⟨hgets, fun _ h => h, .refl⟩,
    ⟨h.entries, h.latch, fun fetch hfetch => (h.fetches fetch hfetch).grows hgets,
      ?_, h.metadata, h.routed⟩⟩
  intro g hg
  rcases List.mem_append.mp hg with hold | hnew
  · exact h.gets g hold
  · obtain rfl : g = get := by simpa using hnew
    exact hget

theorem Good.later_loadPhase {key : Key} (prefetch : Bool)
    (h : cache.Good build K s)
    (hcover : prefetch = false → ∃ call, K call ∧ cache.Covers call key) :
    (cache.contract build K).Later s (s.loadPhase key prefetch) := by
  have hold : ∀ r ∈ s.routed, r ∈ (s.loadPhase key prefetch).routed :=
    fun r hr => List.mem_append_left _ hr
  refine ⟨⟨fun _ h => h, hold, .refl⟩, ⟨h.entries, h.latch, h.fetches, h.gets, ?_, ?_⟩⟩
  · intro key' entry hentry
    obtain ⟨r, hr, hmatch⟩ := h.metadata key' entry hentry
    exact ⟨r, hold r hr, hmatch⟩
  · intro r hr hprefetch
    rcases List.mem_append.mp hr with hr | hr
    · exact h.routed r hr hprefetch
    · obtain rfl : r = ⟨key, prefetch, s.regularPhase⟩ := by simpa using hr
      exact hcover hprefetch

/-! ## Steps on the latch -/

theorem Good.later_groups {groups : GroupLatch} (h : cache.Good build K s)
    (hstep : GroupLatch.Step s.groups groups)
    (hfetches : ∀ fetch ∈ groups.fetches, cache.GoodFetch build s fetch) :
    (cache.contract build K).Later s { s with groups } :=
  ⟨⟨fun _ h => h, fun _ h => h, .single hstep⟩,
    ⟨h.entries, h.latch.tail hstep, hfetches, h.gets, h.metadata, h.routed⟩⟩

theorem Good.later_enter {idx gbeg gend : ℕ} (h : cache.Good build K s)
    (hsource : cache.sources idx = some source)
    (hrange : cache.groupRange build gbeg source.end_ = .ok (gbeg, gend)) :
    (cache.contract build K).Later s (s.enter (idx, gbeg) gend) := by
  unfold CacheState.enter
  cases hcase : s.groups.inflight (idx, gbeg) with
  | some f => exact h.later_groups (.join hcase) h.fetches
  | none =>
      refine h.later_groups (.start hcase) ?_
      intro fetch hfetch
      rcases List.mem_append.mp hfetch with hold | hnew
      · exact h.fetches fetch hold
      · obtain rfl : fetch = ⟨(idx, gbeg), gend, .reading⟩ := by simpa using hnew
        exact ⟨source, hsource, hrange, by simp⟩

theorem Good.later_poll (n : ℕ) {f : ℕ} {fetch : Fetch} (h : cache.Good build K s)
    (hfetch : s.groups.fetches[f]? = some fetch)
    (hsource : cache.sources fetch.key.1 = some source) :
    (cache.contract build K).Later s (s.poll source f n) := by
  unfold CacheState.poll
  rw [hfetch]
  by_cases hstatus : fetch.status = .reading
  · simp only [if_pos hstatus]
    obtain ⟨source', hsource', hrange, -⟩ :=
      h.fetches fetch (List.mem_of_getElem? hfetch)
    obtain rfl : source = source' := by rwa [hsource, Option.some_inj] at hsource'
    have hgets : ∀ get ∈ s.gets, get ∈ s.gets ++ [⟨fetch.key.1, fetch.key.2,
        fetch.gend, source.answer n fetch.key.2 fetch.gend⟩] :=
      fun get hget => List.mem_append_left _ hget
    refine ⟨⟨hgets, fun _ h => h, .single (.finish hfetch hstatus)⟩,
      ⟨h.entries, h.latch.tail (.finish hfetch hstatus), ?_, ?_, h.metadata,
        h.routed⟩⟩
    · intro fetch' hfetch'
      rcases List.mem_or_eq_of_mem_set hfetch' with hold | rfl
      · exact (h.fetches fetch' hold).grows hgets
      refine ⟨source, hsource, hrange, ?_⟩
      rintro result (hread | hretired)
      · refine ⟨n, by simp, ?_⟩
        rw [Fetch.resultOf_status]
        simpa using hread
      · simp at hretired
    · intro get hget
      rcases List.mem_append.mp hget with hold | hnew
      · exact h.gets get hold
      · obtain rfl := List.mem_singleton.mp hnew
        exact ⟨source, n, hsource, groupRange_le hrange, rfl⟩
  · simp only [if_neg hstatus]
    exact .rfl h

theorem Good.later_retire (h : cache.Good build K s) (f : ℕ) :
    (cache.contract build K).Later s (s.retire f) := by
  unfold CacheState.retire
  cases hfetch : s.groups.fetches[f]? with
  | none => exact .rfl h
  | some fetch =>
      cases hstatus : fetch.status with
      | reading =>
          simp only [hstatus]
          exact .rfl h
      | retired result =>
          simp only [hstatus]
          exact .rfl h
      | read result =>
          simp only [hstatus]
          refine h.later_groups (.retire hfetch hstatus) ?_
          intro fetch' hfetch'
          rcases List.mem_or_eq_of_mem_set hfetch' with hold | rfl
          · exact h.fetches fetch' hold
          · obtain ⟨source, hsource, hrange, hresult⟩ :=
              h.fetches fetch (List.mem_of_getElem? hfetch)
            refine ⟨source, hsource, hrange, ?_⟩
            rintro result' (hread | hretired)
            · simp at hread
            · obtain rfl : result = result' := by simpa using hretired
              exact hresult result (Or.inl hstatus)

theorem resultOf_eq_some {f : ℕ} {result : GroupResult} :
    s.resultOf f = some result ↔
      ∃ fetch, s.groups.fetches[f]? = some fetch ∧
        fetch.status = .retired result := by
  unfold CacheState.resultOf
  cases hfetch : s.groups.fetches[f]? with
  | none => simp
  | some fetch =>
      cases hstatus : fetch.status <;> simp [hstatus]

theorem Good.later_wake (h : cache.Good build K s) (c : ℕ) :
    (cache.contract build K).Later s (s.wake c) := by
  unfold CacheState.wake
  cases hcaller : s.groups.callers[c]? with
  | none => exact .rfl h
  | some caller =>
      cases hwaits : caller.result with
      | some result =>
          simp only [hwaits]
          exact .rfl h
      | none =>
          cases hresult : s.resultOf caller.fetch with
          | none =>
              simp only [hwaits, hresult]
              exact .rfl h
          | some result =>
              simp only [hwaits, hresult]
              obtain ⟨fetch, hfetch, hstatus⟩ := resultOf_eq_some.mp hresult
              exact h.later_groups (.wake hcaller hwaits hfetch hstatus) h.fetches

/-! ## A read of a group -/

theorem poll_done (source : Source) (n : ℕ) {f : ℕ} {fetch : Fetch}
    (hfetch : s.groups.fetches[f]? = some fetch) :
    ∃ fetch', (s.poll source f n).groups.fetches[f]? = some fetch' ∧
      fetch'.status ≠ .reading := by
  unfold CacheState.poll
  rw [hfetch]
  by_cases hstatus : fetch.status = .reading
  · simp only [if_pos hstatus]
    exact ⟨_, getElem?_set_of_some hfetch, by simp⟩
  · simp only [if_neg hstatus]
    exact ⟨fetch, hfetch, hstatus⟩

theorem retire_done {f : ℕ} {fetch : Fetch}
    (hfetch : s.groups.fetches[f]? = some fetch) (hover : fetch.status ≠ .reading) :
    ∃ result, (s.retire f).resultOf f = some result := by
  unfold CacheState.retire
  rw [hfetch]
  cases hstatus : fetch.status with
  | reading => exact absurd hstatus hover
  | retired result =>
      simp only [hstatus]
      exact ⟨result, resultOf_eq_some.mpr ⟨fetch, hfetch, hstatus⟩⟩
  | read result =>
      simp only [hstatus]
      exact ⟨result, resultOf_eq_some.mpr ⟨_, getElem?_set_of_some hfetch, rfl⟩⟩

theorem enter_fetch (h : cache.Good build K s) (idx gbeg gend : ℕ) :
    ∃ fetch, (s.enter (idx, gbeg) gend).groups.fetches[
        (s.future (idx, gbeg)).1]? = some fetch ∧ fetch.key = (idx, gbeg) := by
  unfold CacheState.enter CacheState.future
  cases hcase : s.groups.inflight (idx, gbeg) with
  | some f =>
      obtain ⟨fetch, hfetch, hkey, -⟩ := h.latch.good.inflight _ f hcase
      exact ⟨fetch, hfetch, hkey⟩
  | none => exact ⟨⟨(idx, gbeg), gend, .reading⟩, List.getElem?_concat_length, rfl⟩

/-- The result of a group is what a logged read of its range returned. -/
def GroupAnswered (source : Source) (idx gbeg gend : ℕ)
    (r : Option GroupResult) (s : CacheState) : Prop :=
  ∃ result n, r = some result ∧
    ⟨idx, gbeg, gend, source.answer n gbeg gend⟩ ∈ s.gets ∧
    (∀ bytes, result = .ok bytes → source.answer n gbeg gend = .ok bytes) ∧
    ∀ e, result = .error e → ∀ bytes, source.answer n gbeg gend ≠ .ok bytes

theorem resultOf_cases {fetch : Fetch} {outcome : ReadOutcome} {result : GroupResult}
    (h : fetch.resultOf outcome = result) :
    (∀ bytes, result = .ok bytes → outcome = .ok bytes) ∧
      ∀ e, result = .error e → ∀ bytes, outcome ≠ .ok bytes := by
  subst h
  cases outcome with
  | ok bytes => simp [Fetch.resultOf]
  | error code => simp [Fetch.resultOf]
  | panic => simp [Fetch.resultOf]

theorem groupAnswered_of_retired {f idx gbeg gend : ℕ} {fetch : Fetch}
    (h : cache.Good build K s) (hsource : cache.sources idx = some source)
    (hrange : cache.groupRange build gbeg source.end_ = .ok (gbeg, gend))
    (hfetch : s.groups.fetches[f]? = some fetch) (hkey : fetch.key = (idx, gbeg))
    {result : GroupResult} (hstatus : fetch.status = .retired result) :
    GroupAnswered source idx gbeg gend (s.resultOf f) s := by
  obtain ⟨source', hsource', hrange', hresult⟩ :=
    h.fetches fetch (List.mem_of_getElem? hfetch)
  rw [hkey] at hsource' hrange'
  obtain rfl : source = source' := by rwa [hsource, Option.some_inj] at hsource'
  have hgend : gend = fetch.gend := by
    rw [hrange, Outcome.ok.injEq, Prod.mk.injEq] at hrange'
    exact hrange'.2
  obtain ⟨n, hget, hof⟩ := hresult result (Or.inr hstatus)
  rw [hkey, ← hgend] at hget hof
  obtain ⟨hok, herror⟩ := resultOf_cases hof
  exact ⟨result, n, resultOf_eq_some.mpr ⟨fetch, hfetch, hstatus⟩, hget, hok, herror⟩

theorem GroupAnswered.grows {idx gbeg gend : ℕ} {r : Option GroupResult}
    (h : GroupAnswered source idx gbeg gend r s) (hgrows : s.Grows s') :
    GroupAnswered source idx gbeg gend r s' := by
  obtain ⟨result, n, hr, hget, hcases⟩ := h
  exact ⟨result, n, hr, hgrows.gets _ hget, hcases⟩

/-- Whoever waits for the read of a group can bring it to its end. -/
theorem groupFetch_upholds {idx gbeg gend : ℕ}
    (hsource : cache.sources idx = some source)
    (hrange : cache.groupRange build gbeg source.end_ = .ok (gbeg, gend)) :
    (groupFetch source (idx, gbeg) gend).Upholds (cache.contract build K) s
      fun r s' => GroupAnswered source idx gbeg gend r.1 s' := by
  intro s₁ hs₁
  refine ⟨Good.later_enter hs₁.inv hsource hrange, ?_⟩
  obtain ⟨fetch, hfetch, hkey⟩ := enter_fetch hs₁.inv idx gbeg gend
  have hidx : cache.sources fetch.key.1 = some source := by rw [hkey]; exact hsource
  intro n s₂ hs₂
  obtain ⟨fetch₂, hfetch₂, hkey₂, -⟩ :=
    (GroupLatch.extends_of_steps hs₂.grows.groups).fetches _ fetch hfetch
  have hpoll := Good.later_poll n hs₂.inv hfetch₂ (by rw [hkey₂]; exact hidx)
  obtain ⟨fetch₃, hfetch₃, hover⟩ := poll_done source n hfetch₂
  refine ⟨hpoll, ?_⟩
  intro s₄ hs₄
  obtain ⟨fetch₄, hfetch₄, -, -, hover₄, -⟩ :=
    (GroupLatch.extends_of_steps hs₄.grows.groups).fetches _ fetch₃ hfetch₃
  have hretire := Good.later_retire hs₄.inv (s₁.future (idx, gbeg)).1
  obtain ⟨result, hresult⟩ := retire_done hfetch₄ (hover₄ hover)
  obtain ⟨fetch₅, hfetch₅, hretired⟩ := resultOf_eq_some.mp hresult
  refine ⟨hretire, ?_⟩
  intro s₆ hs₆
  refine ⟨Good.later_wake hs₆.inv _, ?_⟩
  -- the key is that of the future entered, the status that of the retired one
  have hgrows := (((hs₂.trans hpoll).trans hs₄).trans hretire).trans hs₆
  obtain ⟨fetch₆, hfetch₆, hkey₆, -⟩ :=
    (GroupLatch.extends_of_steps hgrows.grows.groups).fetches _ fetch hfetch
  obtain ⟨fetch₇, hfetch₇, -, -, -, hkeep⟩ :=
    (GroupLatch.extends_of_steps hs₆.grows.groups).fetches _ fetch₅ hfetch₅
  obtain rfl : fetch₆ = fetch₇ := by rwa [hfetch₆, Option.some_inj] at hfetch₇
  have hanswered := groupAnswered_of_retired hs₆.inv hsource hrange hfetch₆
    (hkey₆.trans hkey) (hkeep result hretired)
  exact fun s₇ hs₇ => hanswered.grows
    ((Good.later_wake hs₆.inv _).trans hs₇).grows

end FoyerCache

end Foyer
end ImageReader
