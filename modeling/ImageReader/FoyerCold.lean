import ImageReader.FoyerBeyond
import ImageReader.FoyerReadahead
import ImageReader.Rely

/-!
# A cold read of several blocks

A read of several blocks first routes one block of each group, its leader, and
then all of them.  Each leader works on its own group: on the blocks of it, on
its reads and on its entries in the latch.  So each of them may rely on the
others to leave its group alone, in whatever order they go on.
-/

namespace ImageReader
namespace Foyer

open Relation (ReflTransGen)

/-- A read of a range within the source returns all of it. -/
def Source.AnswersInFull (source : Source) : Prop :=
  ∀ n beg end_, beg ≤ end_ → end_ ≤ source.end_ →
    ∃ bytes, source.answer n beg end_ = .ok bytes ∧ end_ - beg ≤ bytes.length

/-- The reads of a group. -/
def CacheState.getsOf (s : CacheState) (group : GroupKey) : List Get :=
  s.gets.filter fun get => (get.idx, get.beg) = group

/-- A flip of the phase. -/
def FlipsPhase (s s' : CacheState) : Prop := ∃ regular, s' = { s with regularPhase := regular }

namespace FoyerCache

variable {cache : FoyerCache} {build : Build} {s s' s'' : CacheState} {source : Source}
  {group group' : GroupKey} {tier : Tier} {key : Key} {idx choff gbeg gend : ℕ}

/-- The group to which a key belongs. -/
def groupKey (cache : FoyerCache) (key : Key) : GroupKey := (key.1, cache.groupBeg key.2)

/-- Nothing has happened to the group. -/
structure SameGroup (cache : FoyerCache) (group : GroupKey) (s s' : CacheState) : Prop where
  stored : ∀ tier key, cache.groupKey key = group → s'.stored tier key = s.stored tier key
  inflight : s'.groups.inflight group = s.groups.inflight group
  fetches : ∀ (f : ℕ) (fetch : Fetch), s.groups.fetches[f]? = some fetch →
    fetch.key = group → s'.groups.fetches[f]? = some fetch
  gets : s'.getsOf group = s.getsOf group

/-- Nothing has happened to any other group. -/
structure OnlyGroup (cache : FoyerCache) (group : GroupKey) (s s' : CacheState) : Prop where
  others : ∀ group', group' ≠ group → cache.SameGroup group' s s'
  history : s.gets <+: s'.gets

theorem SameGroup.refl (group : GroupKey) (s : CacheState) : cache.SameGroup group s s :=
  ⟨fun _ _ _ => rfl, rfl, fun _ _ h _ => h, rfl⟩

theorem SameGroup.trans (h : cache.SameGroup group s s')
    (h' : cache.SameGroup group s' s'') : cache.SameGroup group s s'' where
  stored := fun tier key hkey => (h'.stored tier key hkey).trans (h.stored tier key hkey)
  inflight := h'.inflight.trans h.inflight
  fetches := fun f fetch hfetch hkey => h'.fetches f fetch (h.fetches f fetch hfetch hkey) hkey
  gets := h'.gets.trans h.gets

theorem sameGroup_of_steps (h : ReflTransGen (cache.SameGroup group) s s') :
    cache.SameGroup group s s' :=
  rel_of_steps (SameGroup.refl group) (fun _ _ _ => SameGroup.trans) (fun _ _ => id) h

theorem onlyGroup_refl (group : GroupKey) (s : CacheState) : cache.OnlyGroup group s s :=
  ⟨fun group' _ => .refl group' s, List.prefix_rfl⟩

/-- A step which leaves the tiers, the latch and the reads alone. -/
theorem onlyGroup_of_eq (hstored : s'.stored = s.stored) (hgroups : s'.groups = s.groups)
    (hgets : s'.gets = s.gets) : cache.OnlyGroup group s s' := by
  refine ⟨fun group' _ => ⟨?_, ?_, ?_, ?_⟩, by rw [hgets]⟩
  · intro tier key _
    rw [hstored]
  · rw [hgroups]
  · intro f fetch hfetch _
    rw [hgroups]
    exact hfetch
  · unfold CacheState.getsOf
    rw [hgets]

theorem sameGroup_of_flip (h : FlipsPhase s s') : cache.SameGroup group s s' := by
  obtain ⟨regular, rfl⟩ := h
  exact ⟨fun _ _ _ => rfl, rfl, fun _ _ h _ => h, rfl⟩

/-! ## Steps on a group -/

theorem stored_insert_of_ne {block : Bytes} {tier' : Tier} {key' : Key} (h : key' ≠ key) :
    (s.insert tier key block).stored tier' key' = s.stored tier' key' := by
  unfold CacheState.insert CacheState.set
  by_cases htier : tier' = tier
  · subst htier
    simp [Function.update_of_ne h]
  · simp [Function.update_of_ne htier]

theorem stored_insert_self (block : Bytes) :
    (s.insert tier key block).stored tier key = some block := by
  simp [CacheState.insert, CacheState.set]

theorem stored_insert_isSome {block : Bytes} {tier' : Tier} {key' : Key}
    (h : (s.stored tier' key').isSome) :
    ((s.insert tier key block).stored tier' key').isSome := by
  by_cases htier : tier' = tier
  · subst htier
    by_cases hkey : key' = key
    · subst hkey
      rw [stored_insert_self]
      rfl
    · rw [stored_insert_of_ne hkey]
      exact h
  · have hsame : (s.insert tier key block).stored tier' key' = s.stored tier' key' := by
      simp [CacheState.insert, CacheState.set, Function.update_of_ne htier]
    rw [hsame]
    exact h

theorem onlyGroup_insert (hkey : cache.groupKey key = group) (block : Bytes) :
    cache.OnlyGroup group s (s.insert tier key block) := by
  refine ⟨fun group' hne => ⟨?_, rfl, fun _ _ h _ => h, rfl⟩, List.prefix_rfl⟩
  intro tier' key' hkey'
  refine stored_insert_of_ne ?_
  rintro rfl
  exact hne (hkey'.symm.trans hkey)

theorem getsOf_append_self {gets : List Get} {get : Get} (hget : (get.idx, get.beg) = group)
    (h : s'.gets = gets ++ [get]) :
    s'.getsOf group = (gets.filter fun get => (get.idx, get.beg) = group) ++ [get] := by
  unfold CacheState.getsOf
  rw [h, List.filter_append]
  simp [hget]

theorem getsOf_append_of_ne {gets : List Get} {get : Get}
    (hget : (get.idx, get.beg) ≠ group) (h : s'.gets = gets ++ [get]) :
    s'.getsOf group = gets.filter fun get => (get.idx, get.beg) = group := by
  unfold CacheState.getsOf
  rw [h, List.filter_append]
  simp [hget]

theorem onlyGroup_logGet {get : Get} (hget : (get.idx, get.beg) = group) :
    cache.OnlyGroup group s (s.logGet get) := by
  refine ⟨fun group' hne => ⟨fun _ _ _ => rfl, rfl, fun _ _ h _ => h, ?_⟩,
    List.prefix_append _ _⟩
  exact getsOf_append_of_ne (fun h => hne (h.symm.trans hget)) rfl

theorem enter_of_idle (h : s.groups.inflight group = none) :
    s.enter group gend = { s with groups := s.groups.startFetch group gend } ∧
      s.future group = (s.groups.fetches.length, true) := by
  unfold CacheState.enter CacheState.future
  rw [h]
  exact ⟨rfl, rfl⟩

theorem onlyGroup_enter (h : s.groups.inflight group = none) :
    cache.OnlyGroup group s (s.enter group gend) := by
  rw [(enter_of_idle h).1]
  refine ⟨fun group' hne => ⟨fun _ _ _ => rfl, ?_, ?_, rfl⟩, List.prefix_rfl⟩
  · exact Function.update_of_ne hne _ _
  · exact fun f fetch hfetch _ => getElem?_append_of_some hfetch _

/-- What is set at the place of a fetch is no fetch of another group. -/
theorem fetches_set_of_ne {fetches : List Fetch} {f f' : ℕ} {fetch fetch' new : Fetch}
    (hf : fetches[f]? = some fetch) (hf' : fetches[f']? = some fetch')
    (hne : fetch'.key ≠ fetch.key) : (fetches.set f new)[f']? = some fetch' := by
  rw [List.getElem?_set_ne]
  · exact hf'
  · rintro rfl
    rw [hf, Option.some_inj] at hf'
    exact hne (by rw [hf'])

theorem poll_of_reading {f n : ℕ} (hfetch : s.groups.fetches[f]? =
    some ⟨group, gend, .reading⟩) :
    s.poll source f n =
      { s with
        groups := s.groups.finishRead f ⟨group, gend, .reading⟩
          (source.answer n group.2 gend)
        gets := s.gets ++ [⟨group.1, group.2, gend, source.answer n group.2 gend⟩] } := by
  unfold CacheState.poll
  rw [hfetch]
  rfl

theorem onlyGroup_poll {f n : ℕ} (hfetch : s.groups.fetches[f]? =
    some ⟨group, gend, .reading⟩) : cache.OnlyGroup group s (s.poll source f n) := by
  rw [poll_of_reading hfetch]
  refine ⟨fun group' hne => ⟨fun _ _ _ => rfl, rfl, ?_, ?_⟩, List.prefix_append _ _⟩
  · intro f' fetch' hf' hkey
    exact fetches_set_of_ne hfetch hf' (by rw [hkey]; exact hne)
  · exact getsOf_append_of_ne (Ne.symm hne) rfl

theorem retire_of_read {f : ℕ} {result : GroupResult} (hfetch : s.groups.fetches[f]? =
    some ⟨group, gend, .read result⟩) :
    s.retire f =
      { s with groups := s.groups.retire f ⟨group, gend, .read result⟩ result } := by
  unfold CacheState.retire
  rw [hfetch]

theorem onlyGroup_retire {f : ℕ} {result : GroupResult} (hfetch : s.groups.fetches[f]? =
    some ⟨group, gend, .read result⟩) : cache.OnlyGroup group s (s.retire f) := by
  rw [retire_of_read hfetch]
  refine ⟨fun group' hne => ⟨fun _ _ _ => rfl, ?_, ?_, rfl⟩, List.prefix_rfl⟩
  · exact Function.update_of_ne hne _ _
  · intro f' fetch' hf' hkey
    exact fetches_set_of_ne hfetch hf' (by rw [hkey]; exact hne)

theorem onlyGroup_wake (c : ℕ) : cache.OnlyGroup group s (s.wake c) := by
  unfold CacheState.wake
  cases s.groups.callers[c]? with
  | none => exact onlyGroup_refl group s
  | some caller =>
      dsimp only
      split
      · exact ⟨fun _ _ => ⟨fun _ _ _ => rfl, rfl, fun _ _ h _ => h, rfl⟩, List.prefix_rfl⟩
      · exact onlyGroup_refl group s

theorem getsOf_wake (group : GroupKey) (c : ℕ) :
    (s.wake c).getsOf group = s.getsOf group := by
  unfold CacheState.wake
  cases s.groups.callers[c]? with
  | none => rfl
  | some caller =>
      dsimp only
      split <;> rfl

/-! ## A fetch on a group of its own -/

/-- The reads of the group are the old ones and one more, of the whole group. -/
def ReadOnce (cache : FoyerCache) (source : Source) (group : GroupKey) (old : List Get)
    (s : CacheState) : Prop :=
  ∃ get, s.getsOf group = old ++ [get] ∧ (get.idx, get.beg) = group ∧
    get.end_ = min (group.2 + cache.fetchSize) source.end_

theorem ReadOnce.later {old : List Get} (h : cache.ReadOnce source group old s)
    (hsame : cache.SameGroup group s s') : cache.ReadOnce source group old s' := by
  obtain ⟨get, hgets, hrange⟩ := h
  exact ⟨get, hsame.gets.trans hgets, hrange⟩

theorem groupFetch_meets (hsource : source.AnswersInFull) (hle : group.2 ≤ source.end_)
    (hidle : s.groups.inflight group = none) :
    (groupFetch source group (min (group.2 + cache.fetchSize) source.end_)).Meets
      (cache.SameGroup group) (cache.OnlyGroup group) s
      fun r s' => cache.ReadOnce source group (s.getsOf group) s' ∧
        ∃ bytes n, r = (some (.ok bytes), true) ∧
          source.answer n group.2 (min (group.2 + cache.fetchSize) source.end_) =
            .ok bytes ∧
          min (group.2 + cache.fetchSize) source.end_ - group.2 ≤ bytes.length := by
  set gend := min (group.2 + cache.fetchSize) source.end_
  intro s₁ hs₁
  have h₁ := sameGroup_of_steps hs₁
  have hidle₁ : s₁.groups.inflight group = none := h₁.inflight.trans hidle
  refine ⟨onlyGroup_enter hidle₁, ?_⟩
  obtain ⟨henter, hfuture⟩ : s₁.enter group gend = _ ∧ _ := enter_of_idle hidle₁
  beta_reduce
  rw [henter, hfuture]
  set f := s₁.groups.fetches.length
  intro n s₂ hs₂
  have h₂ := sameGroup_of_steps hs₂
  have hreading : s₂.groups.fetches[f]? = some ⟨group, gend, .reading⟩ :=
    h₂.fetches f _ List.getElem?_concat_length rfl
  refine ⟨onlyGroup_poll hreading, ?_⟩
  obtain ⟨bytes, hbytes, hfull⟩ := hsource n group.2 gend (by omega) (by omega)
  have hnew : (s₂.poll source f n).getsOf group = s₂.getsOf group ++
      [⟨group.1, group.2, gend, source.answer n group.2 gend⟩] := by
    rw [poll_of_reading hreading]
    exact getsOf_append_self rfl rfl
  intro s₃ hs₃
  have h₃ : cache.SameGroup group (s₂.poll source f n) s₃ := sameGroup_of_steps hs₃
  have hread : s₃.groups.fetches[f]? = some ⟨group, gend, .read (.ok bytes)⟩ := by
    refine h₃.fetches f _ ?_ rfl
    rw [poll_of_reading hreading, hbytes]
    exact getElem?_set_of_some hreading
  refine ⟨onlyGroup_retire hread, ?_⟩
  intro s₄ hs₄
  have h₄ : cache.SameGroup group (s₃.retire f) s₄ := sameGroup_of_steps hs₄
  rw [retire_of_read hread] at h₄
  refine ⟨onlyGroup_wake _, ?_⟩
  intro s₅ hs₅
  have h₅ := sameGroup_of_steps hs₅
  have hretired : s₄.resultOf f = some (.ok bytes) := by
    refine resultOf_eq_some.mpr ⟨⟨group, gend, .retired (.ok bytes)⟩, ?_, rfl⟩
    exact h₄.fetches f _ (getElem?_set_of_some hread) rfl
  refine ⟨⟨⟨group.1, group.2, gend, source.answer n group.2 gend⟩, ?_, rfl, rfl⟩,
    bytes, n, by rw [hretired], hbytes, hfull⟩
  -- the other groups have added nothing to the reads of this one
  rw [h₅.gets, getsOf_wake, h₄.gets]
  change s₃.getsOf group = _
  rw [h₃.gets, hnew, h₂.gets]
  change s₁.getsOf group ++ _ = _
  rw [h₁.gets]

theorem fetchRange_meets (hsource : source.AnswersInFull) (hle : group.2 ≤ source.end_) :
    (fetchRange source group.1 group.2
        (min (group.2 + cache.fetchSize) source.end_)).Meets
      (cache.SameGroup group) (cache.OnlyGroup group) s
      fun r s' => cache.ReadOnce source group (s.getsOf group) s' ∧
        ∃ bytes, r = .ok bytes ∧
          min (group.2 + cache.fetchSize) source.end_ - group.2 ≤ bytes.length := by
  intro n s₁ hs₁
  have h₁ := sameGroup_of_steps hs₁
  obtain ⟨bytes, hbytes, hfull⟩ := hsource n group.2
    (min (group.2 + cache.fetchSize) source.end_) (by omega) (by omega)
  refine ⟨onlyGroup_logGet rfl, ?_⟩
  intro s₂ hs₂
  have h₂ := sameGroup_of_steps hs₂
  refine ⟨⟨⟨group.1, group.2, min (group.2 + cache.fetchSize) source.end_,
    source.answer n group.2 (min (group.2 + cache.fetchSize) source.end_)⟩, ?_, rfl, rfl⟩,
    bytes, hbytes, hfull⟩
  rw [h₂.gets, ← h₁.gets]
  exact getsOf_append_self rfl rfl

/-- The siblings of a demanded block are in the content tier. -/
def SiblingsHeld (cache : FoyerCache) (source : Source) (idx choff : ℕ)
    (s : CacheState) : Prop :=
  ∀ b, cache.InGroup source choff b → b ≠ choff → (s.stored .content (idx, b)).isSome

theorem groupBeg_of_inGroup {b : ℕ} (h : cache.InGroup source choff b) :
    cache.groupBeg b = cache.groupBeg choff :=
  groupBeg_of_mem h.2.1 (Nat.lt_of_lt_of_le h.2.2 (Nat.min_le_left _ _))

theorem SameGroup.held_content {b : ℕ} (h : cache.SameGroup (idx, cache.groupBeg choff) s s')
    (hb : cache.groupBeg b = cache.groupBeg choff)
    (hheld : (s.stored .content (idx, b)).isSome) :
    (s'.stored .content (idx, b)).isSome := by
  rw [h.stored .content (idx, b) (by unfold groupKey; rw [hb])]
  exact hheld

/-- With all bytes of the group every sibling is put into the content tier, and
the demanded block comes out. -/
theorem cutGroup_meets {bytes : Bytes} {offs : List ℕ} {demanded : Option Bytes}
    (hfits : cache.GroupFits choff)
    (hgot : bytes <+: source.bytes.drop (cache.groupBeg choff))
    (hfull : min (cache.groupBeg choff + cache.fetchSize) source.end_ -
      cache.groupBeg choff ≤ bytes.length)
    (hoffs : ∀ b ∈ offs, cache.InGroup source choff b) :
    (cache.cutGroup build .content idx choff (cache.groupBeg choff)
      (min (cache.groupBeg choff + cache.fetchSize) source.end_) bytes true offs
      demanded).Meets (cache.SameGroup (idx, cache.groupBeg choff))
        (cache.OnlyGroup (idx, cache.groupBeg choff)) s
      fun r s' => s'.getsOf (idx, cache.groupBeg choff) =
          s.getsOf (idx, cache.groupBeg choff) ∧
        (∃ d, r = .ok d ∧ (d = none → demanded = none ∧ choff ∉ offs)) ∧
        ∀ b, cache.groupBeg b = cache.groupBeg choff →
          (b ∈ offs ∧ b ≠ choff ∨ (s.stored .content (idx, b)).isSome) →
          (s'.stored .content (idx, b)).isSome := by
  induction offs generalizing demanded s with
  | nil =>
      intro s₁ hs₁
      have h₁ := sameGroup_of_steps hs₁
      refine ⟨h₁.gets, ⟨demanded, rfl, by simp⟩, ?_⟩
      intro b hb hheld
      exact h₁.held_content hb (hheld.resolve_left (by simp))
  | cons boff rest ih =>
      have hin := hoffs boff (by simp)
      obtain ⟨hgrid, hge, hlt⟩ := hin
      have hrest := fun b hb => hoffs b (List.mem_cons_of_mem _ hb)
      have hend := hgrid.le_group_end
      rw [groupBeg_of_mem hge (by omega)] at hend
      have henough : min (boff + cache.chlen) source.end_ - cache.groupBeg choff ≤
          bytes.length := by omega
      unfold cutGroup
      rw [blockBounds_eq hge hlt hfits hgrid, Thread.goOn_ok]
      dsimp only
      rw [if_neg (by omega)]
      by_cases hsame : boff = choff
      · rw [if_pos hsame]
        subst hsame
        rw [range_block hge hlt hgot henough, Thread.goOn_ok]
        refine (ih hrest).mono ?_
        rintro r s' - ⟨hgets, ⟨d, rfl, hd⟩, hheld⟩
        refine ⟨hgets, ⟨d, rfl, fun hnone => absurd (hd hnone).1 (by simp)⟩, ?_⟩
        intro b hb hmem
        refine hheld b hb (hmem.imp_left fun h => ⟨?_, h.2⟩)
        exact (List.mem_cons.mp h.1).resolve_left h.2
      · rw [if_neg hsame, if_pos rfl, range_block hge hlt hgot henough, Thread.goOn_ok]
        intro s₁ hs₁
        have h₁ := sameGroup_of_steps hs₁
        have hgroup : cache.groupKey (idx, boff) = (idx, cache.groupBeg choff) :=
          congrArg (Prod.mk idx) (groupBeg_of_inGroup ⟨hgrid, hge, hlt⟩)
        refine ⟨onlyGroup_insert hgroup _, ?_⟩
        refine (ih hrest).mono ?_
        rintro r s' - ⟨hgets, ⟨d, rfl, hd⟩, hheld⟩
        refine ⟨hgets.trans h₁.gets, ⟨d, rfl, fun hnone => ?_⟩, ?_⟩
        · obtain ⟨hdemanded, hnot⟩ := hd hnone
          refine ⟨hdemanded, fun hmem => hnot ?_⟩
          exact (List.mem_cons.mp hmem).resolve_left (Ne.symm hsame)
        · intro b hb hmem
          rcases hmem with ⟨hmem, hne⟩ | hold
          · rcases List.mem_cons.mp hmem with rfl | hmem
            · refine hheld b hb (Or.inr ?_)
              rw [stored_insert_self]
              rfl
            · exact hheld b hb (Or.inl ⟨hmem, hne⟩)
          · exact hheld b hb (Or.inr (stored_insert_isSome (h₁.held_content hb hold)))

theorem makeFetch_meets (hsource : source.AnswersInFull) (hgrid : cache.OnGrid choff)
    (hfits : cache.GroupFits choff) (hlt : choff < source.end_)
    (hidle : s.groups.inflight (idx, cache.groupBeg choff) = none) :
    (cache.makeFetch build idx choff source .content).Meets
      (cache.SameGroup (idx, cache.groupBeg choff))
      (cache.OnlyGroup (idx, cache.groupBeg choff)) s
      fun r s' => (∃ block, r = .ok block) ∧
        cache.ReadOnce source (idx, cache.groupBeg choff)
          (s.getsOf (idx, cache.groupBeg choff)) s' ∧
        cache.SiblingsHeld source idx choff s' := by
  have hbeg := cache.groupBeg_le choff
  have hend := cache.lt_groupBeg_add choff
  unfold makeFetch
  rw [groupRange_of_fits hfits, Thread.goOn_ok]
  simp only [cache.fetchSize_eq]
  split_ifs with hone
  · refine (fetchRange_meets hsource (show (idx, cache.groupBeg choff).2 ≤ _ by
      dsimp only; omega)).bind ?_
    rintro outcome s₁ - ⟨honce, bytes, rfl, hfull⟩ s₂ hs₂
    have h₂ := sameGroup_of_steps hs₂
    dsimp only at hfull
    refine ⟨?_, honce.later h₂, ?_⟩
    · rw [wholeBlock_of_le (by omega), if_neg (by omega)]
      exact ⟨_, rfl⟩
    · intro b hb hne
      have halone : cache.groupBeg b = cache.groupBeg choff := groupBeg_of_inGroup hb
      rw [groupBeg_of_one hone hb.1, groupBeg_of_one hone hgrid] at halone
      exact absurd halone hne
  · refine (groupFetch_meets hsource
      (show (idx, cache.groupBeg choff).2 ≤ _ by dsimp only; omega) hidle).bind ?_
    rintro r s₁ - ⟨honce, bytes, n, rfl, hbytes, hfull⟩
    dsimp only at hbytes hfull ⊢
    have hgot := source.answer_within hbytes
    have hoffs : ∀ b ∈ blockOffs (cache.groupBeg choff)
        (min (cache.groupBeg choff + cache.fetchSize) source.end_) cache.chlen,
        cache.InGroup source choff b := by
      intro b hb
      obtain ⟨i, hi, hlt⟩ := (mem_blockOffs cache.chlen_pos).mp hb
      exact ⟨onGrid_mem (cache.onGrid_groupBeg choff) hb, by omega, hlt⟩
    unfold demandedBlock
    refine Thread.Meets.bind (cutGroup_meets hfits hgot hfull hoffs) ?_
    rintro r s₂ - ⟨hgets, ⟨d, rfl, hd⟩, hheld⟩
    cases d with
    | none =>
        refine absurd ?_ (hd rfl).2
        exact mem_blockOffs_of_onGrid (cache.onGrid_groupBeg choff) hgrid hbeg (by omega)
    | some block =>
        intro s₃ hs₃
        have h₃ := sameGroup_of_steps hs₃
        refine ⟨⟨block, rfl⟩, ?_, ?_⟩
        · obtain ⟨get, hget, hrange⟩ := honce
          exact ⟨get, h₃.gets.trans (hgets.trans hget), hrange⟩
        · intro b hb hne
          have hgroup := groupBeg_of_inGroup hb
          refine h₃.held_content hgroup (hheld b hgroup (Or.inl ⟨?_, hne⟩))
          exact mem_blockOffs_of_onGrid (cache.onGrid_groupBeg choff) hb.1 hb.2.1 hb.2.2

/-! ## A block whose group is cold -/

theorem held_of_content (h : (s.stored .content key).isSome) : cache.held s key := by
  unfold held
  rw [h, Bool.true_or]

theorem held_of_metadata (hdual : cache.dual) (h : (s.stored .metadata key).isSome) :
    cache.held s key := by
  unfold held
  rw [hdual, h, Bool.true_and, Bool.or_true]

theorem SameGroup.held_eq (h : cache.SameGroup group s s') (hkey : cache.groupKey key = group) :
    cache.held s' key = cache.held s key := by
  unfold held
  rw [h.stored .content key hkey, h.stored .metadata key hkey]

/-- Every block of the group is held. -/
def GroupHeld (cache : FoyerCache) (source : Source) (idx choff : ℕ) (s : CacheState) :
    Prop :=
  ∀ b, cache.InGroup source choff b → cache.held s (idx, b)

theorem groupKey_of_inGroup {b : ℕ} (h : cache.InGroup source choff b) :
    cache.groupKey (idx, b) = (idx, cache.groupBeg choff) :=
  congrArg (Prod.mk idx) (groupBeg_of_inGroup h)

theorem GroupHeld.later (h : cache.GroupHeld source idx choff s)
    (hsame : cache.SameGroup (idx, cache.groupBeg choff) s s') :
    cache.GroupHeld source idx choff s' := by
  intro b hb
  rw [hsame.held_eq (groupKey_of_inGroup hb)]
  exact h b hb

/-- What is left of a group when one of its blocks has been routed. -/
structure Fetched (cache : FoyerCache) (source : Source) (idx choff : ℕ) (old : List Get)
    (r : Outcome CacheError (Bytes × Bool)) (s : CacheState) : Prop where
  ok : ∃ a, r = .ok a
  once : cache.ReadOnce source (idx, cache.groupBeg choff) old s
  held : cache.GroupHeld source idx choff s

theorem lookup_meets (hkey : cache.groupKey key = group) :
    (lookup tier key).Meets (cache.SameGroup group) (cache.OnlyGroup group) s
      fun entry s' => entry = s.stored tier key ∧ cache.SameGroup group s s' := by
  refine Thread.Meets.look (onlyGroup_refl group) ?_
  intro s₁ hs₁ s₂ hs₂
  have h₁ := sameGroup_of_steps hs₁
  exact ⟨h₁.stored tier key hkey, h₁.trans (sameGroup_of_steps hs₂)⟩

theorem fetchInto_meets (hsource : source.AnswersInFull) (hgrid : cache.OnGrid choff)
    (hfits : cache.GroupFits choff) (hlt : choff < source.end_)
    (htier : tier = .metadata → cache.dual)
    (hcold : s.stored tier (idx, choff) = none)
    (hidle : s.groups.inflight (idx, cache.groupBeg choff) = none) :
    (cache.fetchInto build tier idx choff source).Meets
      (cache.SameGroup (idx, cache.groupBeg choff))
      (cache.OnlyGroup (idx, cache.groupBeg choff)) s
      (cache.Fetched source idx choff (s.getsOf (idx, cache.groupBeg choff))) := by
  have hself : cache.groupKey (idx, choff) = (idx, cache.groupBeg choff) := rfl
  have hget : (getOrFetch tier (idx, choff)
      (cache.makeFetch build idx choff source .content)).Meets
        (cache.SameGroup (idx, cache.groupBeg choff))
        (cache.OnlyGroup (idx, cache.groupBeg choff)) s
        fun r s' => (∃ block, r = .ok block) ∧
          cache.ReadOnce source (idx, cache.groupBeg choff)
            (s.getsOf (idx, cache.groupBeg choff)) s' ∧
          cache.GroupHeld source idx choff s' := by
    unfold getOrFetch
    refine (lookup_meets hself).bind ?_
    rintro entry s₁ - ⟨rfl, h₁⟩
    rw [hcold, ← h₁.gets]
    have hcaught : ((cache.makeFetch build idx choff source .content).bind
        fun r => .done (caught r)).Meets
          (cache.SameGroup (idx, cache.groupBeg choff))
          (cache.OnlyGroup (idx, cache.groupBeg choff)) s₁
          fun r s' => (∃ block, r = .ok block) ∧
            cache.ReadOnce source (idx, cache.groupBeg choff)
              (s₁.getsOf (idx, cache.groupBeg choff)) s' ∧
            cache.SiblingsHeld source idx choff s' := by
      refine (makeFetch_meets hsource hgrid hfits hlt (h₁.inflight.trans hidle)).bind ?_
      rintro r s₂ - ⟨⟨block, rfl⟩, honce, hheld⟩ s₃ hs₃
      have h₃ := sameGroup_of_steps hs₃
      exact ⟨⟨block, rfl⟩, honce.later h₃, fun b hb hne =>
        h₃.held_content (groupBeg_of_inGroup hb) (hheld b hb hne)⟩
    refine hcaught.attempt (fun _ _ hmid => hmid.1) ?_
    rintro block s₂ - ⟨-, honce, hheld⟩ s₃ hs₃
    have h₃ := sameGroup_of_steps hs₃
    refine ⟨onlyGroup_insert hself block, ?_⟩
    intro s₄ hs₄
    have h₄ := sameGroup_of_steps hs₄
    refine ⟨⟨block, rfl⟩, ?_, GroupHeld.later ?_ h₄⟩
    · obtain ⟨get, hget, hrange⟩ := honce.later h₃
      exact ⟨get, h₄.gets.trans hget, hrange⟩
    · intro b hb
      by_cases hb' : b = choff
      · subst hb'
        cases tier with
        | content => exact held_of_content (by rw [stored_insert_self]; rfl)
        | metadata =>
            exact held_of_metadata (htier rfl) (by rw [stored_insert_self]; rfl)
      · exact held_of_content (stored_insert_isSome
          (h₃.held_content (groupBeg_of_inGroup hb) (hheld b hb hb')))
  unfold fetchInto
  refine hget.attempt (fun _ _ hmid => hmid.1) ?_
  rintro entry s₁ - ⟨-, honce, hheld⟩ s₂ hs₂
  have h₂ := sameGroup_of_steps hs₂
  exact ⟨⟨_, rfl⟩, honce.later h₂, hheld.later h₂⟩

/-- A block that is not held, of a group which nobody reads, is fetched with its
group. -/
structure ColdBlock (cache : FoyerCache) (source : Source) (idx choff : ℕ)
    (s : CacheState) : Prop where
  onGrid : cache.OnGrid choff
  fits : cache.GroupFits choff
  lt_end : choff < source.end_
  cold : ∀ tier, s.stored tier (idx, choff) = none
  idle : s.groups.inflight (idx, cache.groupBeg choff) = none

theorem ColdBlock.later (h : cache.ColdBlock source idx choff s)
    (hsame : cache.SameGroup (idx, cache.groupBeg choff) s s') :
    cache.ColdBlock source idx choff s' where
  onGrid := h.onGrid
  fits := h.fits
  lt_end := h.lt_end
  cold := fun tier => (hsame.stored tier _ rfl).trans (h.cold tier)
  idle := hsame.inflight.trans h.idle

theorem routeBlock_cold {prefetch : Bool} (hsource : source.AnswersInFull)
    (h : cache.ColdBlock source idx choff s) :
    (cache.routeBlock build idx choff source prefetch).Meets
      (cache.SameGroup (idx, cache.groupBeg choff))
      (cache.OnlyGroup (idx, cache.groupBeg choff)) s
      (cache.Fetched source idx choff (s.getsOf (idx, cache.groupBeg choff))) := by
  have hself : cache.groupKey (idx, choff) = (idx, cache.groupBeg choff) := rfl
  have hfetch : ∀ tier s', (tier = .metadata → cache.dual) →
      cache.SameGroup (idx, cache.groupBeg choff) s s' →
      (cache.fetchInto build tier idx choff source).Meets
        (cache.SameGroup (idx, cache.groupBeg choff))
        (cache.OnlyGroup (idx, cache.groupBeg choff)) s'
        (cache.Fetched source idx choff (s.getsOf (idx, cache.groupBeg choff))) := by
    intro tier s' htier hsame
    have hcold := h.later hsame
    rw [← hsame.gets]
    exact fetchInto_meets hsource hcold.onGrid hcold.fits hcold.lt_end htier
      (hcold.cold tier) hcold.idle
  unfold routeBlock
  split_ifs with hdual
  · intro s₁ hs₁
    refine ⟨onlyGroup_of_eq rfl rfl rfl, ?_⟩
    have h₁ : cache.SameGroup (idx, cache.groupBeg choff) s
        (s₁.loadPhase (idx, choff) prefetch) :=
      (sameGroup_of_steps hs₁).trans ⟨fun _ _ _ => rfl, rfl, fun _ _ h _ => h, rfl⟩
    refine (lookup_meets hself).bind ?_
    rintro entry s₂ - ⟨rfl, h₂⟩
    rw [(h.later h₁).cold]
    refine (lookup_meets hself).bind ?_
    rintro entry s₃ - ⟨rfl, h₃⟩
    rw [((h.later h₁).later h₂).cold]
    have hsame := (h₁.trans h₂).trans h₃
    dsimp only
    split_ifs
    · exact hfetch .content s₃ (by simp) hsame
    · exact hfetch .metadata s₃ (fun _ => hdual) hsame
  · refine (lookup_meets hself).bind ?_
    rintro entry s₁ - ⟨rfl, h₁⟩
    rw [h.cold]
    exact hfetch .content s₁ (by simp) h₁

/-! ## A block that is held -/

/-- No read of a source, and nothing that is held is lost. -/
structure Kept (s s' : CacheState) : Prop where
  gets : s'.gets = s.gets
  stored : ∀ tier key, (s.stored tier key).isSome → (s'.stored tier key).isSome

theorem Kept.refl (s : CacheState) : Kept s s := ⟨rfl, fun _ _ h => h⟩

theorem Kept.trans (h : Kept s s') (h' : Kept s' s'') : Kept s s'' :=
  ⟨h'.gets.trans h.gets, fun tier key hheld => h'.stored tier key (h.stored tier key hheld)⟩

theorem kept_of_steps (h : ReflTransGen Kept s s') : Kept s s' :=
  rel_of_steps Kept.refl (fun _ _ _ => Kept.trans) (fun _ _ => id) h

theorem kept_of_flip (h : FlipsPhase s s') : Kept s s' := by
  obtain ⟨regular, rfl⟩ := h
  exact ⟨rfl, fun _ _ h => h⟩

theorem kept_of_reach (h : ReflTransGen (fun s s' => FlipsPhase s s' ∨ Kept s s') s s') :
    Kept s s' :=
  rel_of_steps Kept.refl (fun _ _ _ => Kept.trans)
    (fun _ _ hstep => hstep.elim kept_of_flip id) h

theorem kept_loadPhase (key : Key) (prefetch : Bool) : Kept s (s.loadPhase key prefetch) :=
  ⟨rfl, fun _ _ h => h⟩

theorem kept_insert (tier : Tier) (key : Key) (block : Bytes) :
    Kept s (s.insert tier key block) :=
  ⟨rfl, fun _ _ h => stored_insert_isSome h⟩

theorem lookup_kept :
    (lookup tier key).Meets Kept Kept s fun entry s' =>
      Kept s s' ∧ ((s.stored tier key).isSome → entry.isSome) := by
  refine Thread.Meets.look .refl ?_
  intro s₁ hs₁ s₂ hs₂
  have h₁ := kept_of_steps hs₁
  exact ⟨h₁.trans (kept_of_steps hs₂), h₁.stored tier key⟩

/-- A block that is held is found. -/
theorem routeBlock_held {prefetch : Bool} (h : cache.held s (idx, choff)) :
    (cache.routeBlock build idx choff source prefetch).Meets Kept Kept s
      fun r _ => ∃ entry, r = .ok (entry, false) := by
  unfold held at h
  unfold routeBlock
  by_cases hdual : cache.dual
  · rw [if_pos hdual]
    intro s₁ hs₁
    have h₁ := (kept_of_steps hs₁).trans (kept_loadPhase (idx, choff) prefetch)
    refine ⟨kept_loadPhase _ _, lookup_kept.bind ?_⟩
    rintro entry s₂ - ⟨h₂, hmetadata⟩
    cases entry with
    | some entry => exact fun _ _ => ⟨entry, rfl⟩
    | none =>
        refine lookup_kept.bind ?_
        rintro entry s₃ - ⟨h₃, hcontent⟩
        cases entry with
        | some entry =>
            dsimp only
            split_ifs
            · exact fun _ _ => ⟨entry, rfl⟩
            · exact fun s₄ _ => ⟨kept_insert .metadata _ entry, fun _ _ => ⟨entry, rfl⟩⟩
        | none =>
            exfalso
            rw [hdual, Bool.true_and, Bool.or_eq_true] at h
            rcases h with hheld | hheld
            · exact absurd (hcontent (h₂.stored _ _ (h₁.stored _ _ hheld))) (by simp)
            · exact absurd (hmetadata (h₁.stored _ _ hheld)) (by simp)
  · rw [if_neg hdual]
    rw [Bool.not_eq_true] at hdual
    rw [hdual, Bool.false_and, Bool.or_false] at h
    refine lookup_kept.bind ?_
    rintro entry s₁ - ⟨-, hcontent⟩
    cases entry with
    | some entry => exact fun _ _ => ⟨entry, rfl⟩
    | none => exact absurd (hcontent h) (by simp)

/-! ## Blocks side by side -/

/-- No reads but those of the groups. -/
structure Within (groups : GroupKey → Prop) (s s' : CacheState) : Prop where
  history : s.gets <+: s'.gets
  others : ∀ group, ¬ groups group → s'.getsOf group = s.getsOf group

variable {groups : GroupKey → Prop}

theorem within_of_gets (h : s'.gets = s.gets) : Within groups s s' := by
  refine ⟨by rw [h], fun group _ => ?_⟩
  unfold CacheState.getsOf
  rw [h]

theorem Within.trans (h : Within groups s s') (h' : Within groups s' s'') :
    Within groups s s'' :=
  ⟨h.history.trans h'.history, fun group hgroup =>
    (h'.others group hgroup).trans (h.others group hgroup)⟩

theorem within_of_steps
    (h : ReflTransGen (fun s s' => FlipsPhase s s' ∨ Within groups s s') s s') :
    Within groups s s' :=
  rel_of_steps (fun _ => within_of_gets rfl) (fun _ _ _ => Within.trans)
    (fun _ _ hstep => hstep.elim (fun hflip => within_of_gets (kept_of_flip hflip).gets) id) h

/-- The groups of blocks. -/
def groupsOf (cache : FoyerCache) (idx : ℕ) (offs : List ℕ) (group : GroupKey) : Prop :=
  ∃ b ∈ offs, cache.groupKey (idx, b) = group

/-- Cold blocks of different groups, side by side. -/
theorem routeAll_cold {offs : List ℕ} (hsource : source.AnswersInFull)
    (hgroups : (offs.map cache.groupBeg).Nodup)
    (hoffs : ∀ b ∈ offs, cache.ColdBlock source idx b s) :
    (Thread.tryJoinAll (offs.map fun choff =>
      cache.routeBlock build idx choff source false)).Meets FlipsPhase
        (Within (cache.groupsOf idx offs)) s fun r s' =>
          (∃ as, r = .ok as) ∧ Within (cache.groupsOf idx offs) s s' ∧
          ∀ b ∈ offs, cache.ReadOnce source (idx, cache.groupBeg b)
              (s.getsOf (idx, cache.groupBeg b)) s' ∧
            cache.GroupHeld source idx b s' := by
  let block := fun i => offs.getD i 0
  let group := fun i => (idx, cache.groupBeg (block i))
  have hlen : (offs.map fun choff =>
      cache.routeBlock build idx choff source false).length = offs.length := by simp
  have hblock : ∀ (i : ℕ) (hi : i < offs.length), block i = offs[i] := by
    intro i hi
    simp [block, hi]
  have hmem : ∀ i, i < offs.length → block i ∈ offs := by
    intro i hi
    rw [hblock i hi]
    exact List.getElem_mem hi
  have hdistinct : ∀ i j, i < offs.length → j < offs.length → i ≠ j →
      group i ≠ group j := by
    intro i j hi hj hij heq
    have hbeg := (Prod.mk.inj heq).2
    rw [hblock i hi, hblock j hj] at hbeg
    refine hij ((List.getElem?_inj (by simpa using hi) hgroups).mp ?_)
    rw [List.getElem?_map, List.getElem?_map, List.getElem?_eq_getElem hi,
      List.getElem?_eq_getElem hj]
    exact congrArg some hbeg
  refine (Thread.Meets.tryJoinAll (fun i => cache.SameGroup (group i))
    (fun i => cache.OnlyGroup (group i))
    (fun i => cache.Fetched source idx (block i) (s.getsOf (group i)))
    (fun i s s' hflip => sameGroup_of_flip hflip) ?_ ?_ ?_ (fun i x s' _ hx => hx.ok)
    ?_).mono ?_
  · intro i j s s' hi hj hij honly
    rw [hlen] at hi hj
    exact honly.others _ (hdistinct i j hi hj hij)
  · intro i s s' hi honly
    rw [hlen] at hi
    refine ⟨honly.history, fun other hother => (honly.others other ?_).gets⟩
    rintro rfl
    exact hother ⟨block i, hmem i hi, rfl⟩
  · intro i t ht
    rw [List.getElem?_map, Option.map_eq_some_iff] at ht
    obtain ⟨b, hb, rfl⟩ := ht
    have hb' : block i = b := by
      obtain ⟨hi, hget⟩ := List.getElem?_eq_some_iff.mp hb
      rw [hblock i hi, hget]
    simp only [group, hb']
    exact routeBlock_cold hsource (hoffs b (List.mem_of_getElem? hb))
  · intro i a s' s'' hx hlater
    have hsame : cache.SameGroup (group i) s' s'' := sameGroup_of_steps
      (ReflTransGen.mono (fun _ _ hflip => sameGroup_of_flip hflip) _ _ hlater)
    exact ⟨hx.ok, hx.once.later hsame, hx.held.later hsame⟩
  · rintro r s' hreach ⟨as, rfl, has, hget⟩
    refine ⟨⟨as, rfl⟩, within_of_steps hreach, ?_⟩
    intro b hb
    obtain ⟨i, hi, rfl⟩ := List.mem_iff_getElem.mp hb
    have hi' : i < as.length := by
      rw [has, hlen]
      exact hi
    have hfetched := hget i as[i] (List.getElem?_eq_getElem hi')
    simp only [group, hblock i hi] at hfetched
    exact ⟨hfetched.once, hfetched.held⟩

theorem routeAll_held {offs : List ℕ} (hoffs : ∀ b ∈ offs, cache.held s (idx, b)) :
    (Thread.tryJoinAll (offs.map fun choff =>
      cache.routeBlock build idx choff source false)).Meets FlipsPhase Kept s
        fun r _ => ∃ as, r = .ok as := by
  refine (Thread.Meets.tryJoinAll (fun _ => Kept) (fun _ => Kept)
    (fun _ r _ => ∃ entry, r = .ok (entry, false)) (fun _ _ _ => kept_of_flip)
    (fun _ _ _ _ _ _ _ h => h) (fun _ _ _ _ h => h) ?_ ?_ ?_).mono ?_
  · intro i t ht
    rw [List.getElem?_map, Option.map_eq_some_iff] at ht
    obtain ⟨b, hb, rfl⟩ := ht
    exact routeBlock_held (hoffs b (List.mem_of_getElem? hb))
  · rintro i x s' - ⟨entry, rfl⟩
    exact ⟨_, rfl⟩
  · exact fun _ _ _ _ h _ => h
  · rintro r s' - ⟨as, rfl, -⟩
    exact ⟨as, rfl⟩

/-! ## The leaders -/

theorem leader_eq {csbeg csend b : ℕ} (h : b ∈ cache.leaders csbeg csend) :
    b = max (cache.groupBeg b) csbeg := by
  have hfilter := (List.mem_filter.mp h).2
  rwa [decide_eq_true_eq] at hfilter

/-- There is one leader in each group. -/
theorem leaders_nodup {csbeg csend : ℕ} :
    ((cache.leaders csbeg csend).map cache.groupBeg).Nodup := by
  refine List.Nodup.map_on ?_ ?_
  · intro a ha b hb heq
    rw [leader_eq ha, leader_eq hb, heq]
  · exact ((pairwise_blockOffs cache.chlen_pos).imp Nat.ne_of_lt).filter _

/-! ## A cold read -/

/-- One read of each group of the blocks, and no other. -/
structure ReadsGroupsOnce (cache : FoyerCache) (source : Source) (idx : ℕ)
    (offs : List ℕ) (new : List Get) : Prop where
  nodup : (new.map fun get => (get.idx, get.beg)).Nodup
  range : ∀ get ∈ new, get.idx = idx ∧ cache.OnGrid get.beg ∧
    get.end_ = min (get.beg + cache.fetchSize) source.end_
  groups : ∀ gbeg, (∃ get ∈ new, get.beg = gbeg) ↔ ∃ b ∈ offs, cache.groupBeg b = gbeg

theorem nodup_map_of_filter {α β : Type} [DecidableEq β] {f : α → β} {xs : List α}
    (h : ∀ b, (xs.filter fun a => f a = b).length ≤ 1) : (xs.map f).Nodup := by
  induction xs with
  | nil => simp
  | cons x rest ih =>
      rw [List.map_cons, List.nodup_cons]
      constructor
      · intro hmem
        obtain ⟨y, hy, hsame⟩ := List.mem_map.mp hmem
        have hone := h (f x)
        have hpos : 0 < (rest.filter fun a => f a = f x).length :=
          List.length_pos_of_mem (List.mem_filter.mpr ⟨hy, by simpa using hsame⟩)
        simp only [List.filter_cons, decide_true, if_true, List.length_cons] at hone
        omega
      · refine ih fun b => Nat.le_trans ?_ (h b)
        exact ((List.sublist_cons_self x rest).filter _).length_le

/-- The new reads, group by group: one of each group of the blocks, and none of
any other. -/
structure OneOfEach (cache : FoyerCache) (source : Source) (idx : ℕ) (offs : List ℕ)
    (new : List Get) : Prop where
  own : ∀ b ∈ offs, ∃ get,
    (new.filter fun get => (get.idx, get.beg) = (idx, cache.groupBeg b)) = [get] ∧
      (get.idx, get.beg) = (idx, cache.groupBeg b) ∧
      get.end_ = min (cache.groupBeg b + cache.fetchSize) source.end_
  others : ∀ group, ¬ cache.groupsOf idx offs group →
    (new.filter fun get => (get.idx, get.beg) = group) = []

section OneOfEach

variable {offs : List ℕ} {new : List Get}

theorem oneOfEach_of (hnew : s.gets ++ new = s'.gets)
    (hwithin : Within (cache.groupsOf idx offs) s s')
    (honce : ∀ b ∈ offs, cache.ReadOnce source (idx, cache.groupBeg b)
      (s.getsOf (idx, cache.groupBeg b)) s') : cache.OneOfEach source idx offs new := by
  have hsplit : ∀ group, s'.getsOf group =
      s.getsOf group ++ new.filter fun get => (get.idx, get.beg) = group := by
    intro group
    unfold CacheState.getsOf
    rw [← hnew, List.filter_append]
  constructor
  · intro b hb
    obtain ⟨get, hgets, hkey, hend⟩ := honce b hb
    rw [hsplit] at hgets
    exact ⟨get, List.append_cancel_left hgets, hkey, hend⟩
  · intro group hgroup
    have hsame := hwithin.others group hgroup
    rw [hsplit] at hsame
    exact List.append_right_eq_self.mp hsame

theorem OneOfEach.of_mem (h : cache.OneOfEach source idx offs new) {get : Get}
    (hget : get ∈ new) : ∃ b ∈ offs, (get.idx, get.beg) = (idx, cache.groupBeg b) ∧
      get.end_ = min (cache.groupBeg b + cache.fetchSize) source.end_ := by
  have hin : get ∈ new.filter fun get' => (get'.idx, get'.beg) = (get.idx, get.beg) :=
    List.mem_filter.mpr ⟨hget, by simp⟩
  by_cases hgroup : cache.groupsOf idx offs (get.idx, get.beg)
  · obtain ⟨b, hb, hkey⟩ := hgroup
    obtain ⟨get', hfilter, -, hend⟩ := h.own b hb
    rw [← hkey] at hin
    change get ∈ new.filter fun get => (get.idx, get.beg) = (idx, cache.groupBeg b) at hin
    rw [hfilter, List.mem_singleton] at hin
    subst hin
    exact ⟨b, hb, hkey.symm, hend⟩
  · rw [h.others _ hgroup] at hin
    simp at hin

theorem OneOfEach.nodup (h : cache.OneOfEach source idx offs new) :
    (new.map fun get => (get.idx, get.beg)).Nodup := by
  refine nodup_map_of_filter fun group => ?_
  by_cases hgroup : cache.groupsOf idx offs group
  · obtain ⟨b, hb, rfl⟩ := hgroup
    obtain ⟨get, hfilter, -⟩ := h.own b hb
    change (new.filter fun get => (get.idx, get.beg) =
      (idx, cache.groupBeg b)).length ≤ 1
    rw [hfilter]
    simp
  · rw [h.others group hgroup]
    simp

theorem readsGroupsOnce_of (hwithin : Within (cache.groupsOf idx offs) s s')
    (honce : ∀ b ∈ offs, cache.ReadOnce source (idx, cache.groupBeg b)
      (s.getsOf (idx, cache.groupBeg b)) s') :
    ∃ new, s'.gets = s.gets ++ new ∧ cache.ReadsGroupsOnce source idx offs new := by
  obtain ⟨new, hnew⟩ := hwithin.history
  have heach := oneOfEach_of hnew hwithin honce
  refine ⟨new, hnew.symm, heach.nodup, ?_, ?_⟩
  · intro get hget
    obtain ⟨b, -, hkey, hend⟩ := heach.of_mem hget
    obtain ⟨hidx, hbeg⟩ := Prod.mk.inj hkey
    rw [hbeg]
    exact ⟨hidx, cache.onGrid_groupBeg b, hend⟩
  · intro gbeg
    constructor
    · rintro ⟨get, hget, rfl⟩
      obtain ⟨b, hb, hkey, -⟩ := heach.of_mem hget
      exact ⟨b, hb, (Prod.mk.inj hkey).2.symm⟩
    · rintro ⟨b, hb, rfl⟩
      obtain ⟨get, hfilter, hkey, -⟩ := heach.own b hb
      have hin : get ∈ new.filter fun get =>
          (get.idx, get.beg) = (idx, cache.groupBeg b) := by
        rw [hfilter]
        exact List.mem_singleton_self get
      exact ⟨get, (List.mem_filter.mp hin).1, (Prod.mk.inj hkey).2⟩

end OneOfEach

section Read

variable {off csend : ℕ} {buf : Bytes} {offs : List ℕ} {old : List Get}

/-- What has been read since. -/
def NewReads (cache : FoyerCache) (source : Source) (idx : ℕ) (offs : List ℕ)
    (old : List Get) (s : CacheState) : Prop :=
  ∃ new, s.gets = old ++ new ∧ cache.ReadsGroupsOnce source idx offs new

theorem NewReads.of_gets (h : cache.NewReads source idx offs old s)
    (hgets : s'.gets = s.gets) : cache.NewReads source idx offs old s' := by
  obtain ⟨new, hnew, hreads⟩ := h
  exact ⟨new, hgets.trans hnew, hreads⟩

theorem gets_of_flips (h : ReflTransGen FlipsPhase s s') : s'.gets = s.gets :=
  (kept_of_reach (Thread.reach_of_rely h)).gets

theorem readMany_meets {guar : CacheState → CacheState → Prop}
    (h : (Thread.tryJoinAll (offs.map fun choff =>
      cache.routeBlock build idx choff source false)).Meets FlipsPhase guar s
        fun r s' => (∃ as, r = .ok as) ∧ cache.NewReads source idx offs old s') :
    (cache.readMany build idx off source offs buf).Meets FlipsPhase guar s
      fun _ s' => cache.NewReads source idx offs old s' := by
  refine h.attempt (fun _ _ hmid => hmid.1) ?_
  rintro chunks s₁ - ⟨-, hreads⟩
  cases fillFromBlocks build buf off (offs.zip (chunks.map Prod.fst)) idx <;>
    exact fun s₂ hs₂ => hreads.of_gets (gets_of_flips hs₂)

/-- The leaders leave every block of the range behind. -/
theorem leaders_hold (hsource : source.AnswersInFull)
    (hoffs : ∀ b ∈ blockOffs (cache.firstBlock off) csend cache.chlen,
      cache.ColdBlock source idx b s) :
    (Thread.tryJoinAll ((cache.leaders (cache.firstBlock off) csend).map fun choff =>
      cache.routeBlock build idx choff source false)).Meets FlipsPhase
        (fun _ _ => True) s fun r s' => (∃ as, r = .ok as) ∧
          cache.NewReads source idx (blockOffs (cache.firstBlock off) csend cache.chlen)
            s.gets s' ∧
          ∀ b ∈ blockOffs (cache.firstBlock off) csend cache.chlen,
            cache.held s' (idx, b) := by
  have hleaders : ∀ b ∈ cache.leaders (cache.firstBlock off) csend,
      cache.ColdBlock source idx b s := fun b hb => hoffs b (List.mem_of_mem_filter hb)
  refine Thread.Meets.unguarded (Within (cache.groupsOf idx
    (cache.leaders (cache.firstBlock off) csend))) ?_
  refine (routeAll_cold hsource leaders_nodup hleaders).mono ?_
  rintro r s' - ⟨hok, hwithin, hall⟩
  refine ⟨hok, ?_, ?_⟩
  · obtain ⟨new, hnew, hreads⟩ := readsGroupsOnce_of hwithin fun b hb => (hall b hb).1
    refine ⟨new, hnew, hreads.nodup, hreads.range, fun gbeg => ?_⟩
    rw [hreads.groups]
    constructor
    · rintro ⟨b, hb, hbeg⟩
      exact ⟨b, List.mem_of_mem_filter hb, hbeg⟩
    · rintro ⟨b, hb, rfl⟩
      exact ⟨_, mem_leaders (cache.onGrid_firstBlock off) hb⟩
  · intro b hb
    obtain ⟨hleader, hbeg⟩ := mem_leaders (cache.onGrid_firstBlock off) hb
    obtain ⟨hgrid, -, hlt, -, -⟩ := hoffs b hb
    have hge := cache.groupBeg_le b
    have hgroup := cache.lt_groupBeg_add b
    refine (hall _ hleader).2 b ⟨hgrid, ?_, ?_⟩
    · rw [hbeg]
      exact hge
    · rw [hbeg]
      omega

theorem readBlocks_cold (hsource : source.AnswersInFull)
    (htwo : cache.firstBlock off + cache.chlen < csend)
    (hoffs : ∀ b ∈ blockOffs (cache.firstBlock off) csend cache.chlen,
      cache.ColdBlock source idx b s) :
    (cache.readBlocks build idx off source (cache.firstBlock off) csend buf).Meets
      FlipsPhase (fun _ _ => True) s fun _ s' =>
        cache.NewReads source idx (blockOffs (cache.firstBlock off) csend cache.chlen)
          s.gets s' := by
  unfold readBlocks
  split
  · rename_i choff hsingle
    obtain ⟨-, -, hle⟩ := single_of_blockOffs cache.chlen_pos hsingle
    omega
  · split_ifs with hmany
    · refine (leaders_hold hsource hoffs).bind ?_
      rintro r s₁ - ⟨-, hreads, hheld⟩
      refine Thread.Meets.unguarded Kept ?_
      refine readMany_meets ((routeAll_held hheld).mono ?_)
      intro r s₂ hreach hok
      exact ⟨hok, hreads.of_gets (kept_of_reach hreach).gets⟩
    · have hone : cache.fetchSize = cache.chlen := by
        have hle := Nat.le_of_dvd cache.fetchSize_pos cache.chlen_dvd_fetchSize
        omega
      have hgroups : ((blockOffs (cache.firstBlock off) csend cache.chlen).map
          cache.groupBeg).Nodup := by
        refine List.Nodup.map_on ?_
          ((pairwise_blockOffs cache.chlen_pos).imp Nat.ne_of_lt)
        intro a ha b hb heq
        rwa [groupBeg_of_one hone (hoffs a ha).onGrid,
          groupBeg_of_one hone (hoffs b hb).onGrid] at heq
      refine Thread.Meets.unguarded (Within (cache.groupsOf idx
        (blockOffs (cache.firstBlock off) csend cache.chlen))) ?_
      refine readMany_meets ((routeAll_cold hsource hgroups hoffs).mono ?_)
      rintro r s' - ⟨hok, hwithin, hall⟩
      exact ⟨hok, readsGroupsOnce_of hwithin fun b hb => (hall b hb).1⟩

theorem read_cold {call : ReadCall} (hcall : cache.sources call.idx = some source)
    (hsource : source.AnswersInFull) (hahead : cache.readahead = 0)
    (hend : call.off + call.buf.length ≤ source.end_)
    (htwo : cache.firstBlock call.off + cache.chlen < call.off + call.buf.length)
    (hoffs : ∀ b ∈ blockOffs (cache.firstBlock call.off)
      (call.off + call.buf.length) cache.chlen, cache.ColdBlock source call.idx b s) :
    (cache.read build call).Meets FlipsPhase (fun _ _ => True) s fun _ s' =>
      cache.NewReads source call.idx (blockOffs (cache.firstBlock call.off)
        (call.off + call.buf.length) cache.chlen) s.gets s' := by
  have hword : call.off + call.buf.length < wordLimit :=
    Nat.lt_of_le_of_lt hend source.length_lt
  have hfits : cache.GroupsFit call.off call.buf.length :=
    ⟨hword, fun b hb => (hoffs b hb).fits⟩
  have hwindow : cache.WindowFits (call.off + call.buf.length) := by
    unfold WindowFits
    rw [hahead, Nat.zero_mul, Nat.add_zero]
    exact nextBlock_lt hfits
  unfold read
  rw [hcall]
  simp only
  rw [Build.add_of_lt hword, Thread.goOn_ok, readaheadBlockRange_of_fits hwindow,
    Thread.goOn_ok]
  refine (readBlocks_cold hsource htwo hoffs).bind ?_
  intro r s₁ _ hreads
  have hnone : blockOffs (cache.nextBlock (call.off + call.buf.length))
      (min (cache.nextBlock (call.off + call.buf.length) +
        cache.readahead * cache.chlen) source.end_) cache.chlen = [] :=
    blockOffs_of_le cache.chlen_pos (by rw [hahead]; omega)
  rw [hnone]
  cases r <;> exact fun s₂ hs₂ => hreads.of_gets (gets_of_flips hs₂)

end Read

/-- The source of a read of several blocks, whose reads return all bytes, and a
state in which nothing of its blocks is held or being read. -/
structure ColdRead (cache : FoyerCache) (call : ReadCall) (source : Source)
    (s : CacheState) : Prop where
  registered : cache.sources call.idx = some source
  full : source.AnswersInFull
  le_end : call.off + call.buf.length ≤ source.end_
  several : cache.firstBlock call.off + cache.chlen < call.off + call.buf.length
  fits : ∀ b ∈ blockOffs (cache.firstBlock call.off)
    (call.off + call.buf.length) cache.chlen, cache.GroupFits b
  cold : ∀ b ∈ blockOffs (cache.firstBlock call.off)
    (call.off + call.buf.length) cache.chlen,
    (∀ tier, s.stored tier (call.idx, b) = none) ∧
      s.groups.inflight (call.idx, cache.groupBeg b) = none

theorem ColdRead.coldBlock {call : ReadCall} (h : cache.ColdRead call source s) :
    ∀ b ∈ blockOffs (cache.firstBlock call.off) (call.off + call.buf.length) cache.chlen,
      cache.ColdBlock source call.idx b s := by
  intro b hb
  obtain ⟨i, -, hlt⟩ := (mem_blockOffs cache.chlen_pos).mp hb
  obtain ⟨hcold, hidle⟩ := h.cold b hb
  exact ⟨onGrid_mem (cache.onGrid_firstBlock _) hb, h.fits b hb,
    Nat.lt_of_lt_of_le hlt h.le_end, hcold, hidle⟩

/-- Every group of the range has one leader; when the leaders are through, all
blocks of the range are held; and the read as a whole, which can be run to its
end, makes one read of the source for each group. -/
theorem cold_read_fetches_once {call : ReadCall} (h : cache.ColdRead call source s)
    (hahead : cache.readahead = 0) :
    let csbeg := cache.firstBlock call.off
    let csend := call.off + call.buf.length
    let offs := blockOffs csbeg csend cache.chlen
    (((cache.leaders csbeg csend).map cache.groupBeg).Nodup ∧
      (∀ b ∈ cache.leaders csbeg csend, b ∈ offs) ∧
      ∀ b ∈ offs, ∃ leader ∈ cache.leaders csbeg csend,
        cache.groupBeg leader = cache.groupBeg b) ∧
    (∀ r s', Thread.Ends FlipsPhase s
        (Thread.tryJoinAll ((cache.leaders csbeg csend).map fun choff =>
          cache.routeBlock build call.idx choff source false)) r s' →
      ∀ b ∈ offs, cache.held s' (call.idx, b)) ∧
    (∀ result s', Thread.Ends FlipsPhase s (cache.read build call) result s' →
      ∃ new, s'.gets = s.gets ++ new ∧
        cache.ReadsGroupsOnce source call.idx offs new) ∧
    ∃ result s', Thread.Ends FlipsPhase s (cache.read build call) result s' := by
  refine ⟨⟨leaders_nodup, fun b hb => List.mem_of_mem_filter hb, ?_⟩, ?_, ?_, ?_⟩
  · exact fun b hb => ⟨_, mem_leaders (cache.onGrid_firstBlock _) hb⟩
  · intro r s' hends
    exact (hends.meets (fun _ _ hflip => hflip)
      (leaders_hold h.full h.coldBlock)).1.2.2
  · intro result s' hends
    exact (hends.meets (fun _ _ hflip => hflip)
      (read_cold h.registered h.full hahead h.le_end h.several h.coldBlock)).1
  · exact (read_live call).ends FlipsPhase s

/-! ## Two bytes in one group -/

/-- Two blocks in a group. -/
def pairCache (source : Source) : FoyerCache :=
  .new 1 2 0 false (fun _ => some source) one_lt_wordLimit two_lt_wordLimit

def bothBytes : ReadCall where
  idx := 0
  off := 0
  buf := [0, 0]
  off_lt := firstByte.off_lt
  length_lt := by decide

theorem twoBytes_answers : twoBytes.AnswersInFull := by
  intro n beg end_ _ hend
  have hle : end_ ≤ 2 := hend
  refine ⟨Slice.window [7, 8] beg (end_ - beg), rfl, ?_⟩
  rw [Slice.length_window, show ([7, 8] : Bytes).length = 2 from rfl]
  omega

theorem bothBytes_cold : (pairCache twoBytes).ColdRead bothBytes twoBytes (.empty false) where
  registered := rfl
  full := twoBytes_answers
  le_end := by decide
  several := by decide
  fits := by
    intro b hb
    have hle := (pairCache twoBytes).groupBeg_le b
    obtain ⟨i, -, hlt⟩ := (mem_blockOffs (pairCache twoBytes).chlen_pos).mp hb
    change b < 0 + 2 at hlt
    change (pairCache twoBytes).groupBeg b + 2 < wordLimit
    rw [wordLimit_eq]
    omega
  cold := fun _ _ => ⟨fun _ => rfl, rfl⟩

theorem cold_read_fetches_once_pair :
    ∃ result s', Thread.Ends FlipsPhase (.empty false)
        ((pairCache twoBytes).read .release bothBytes) result s' ∧
      ∃ new, s'.gets = [] ++ new ∧
        (pairCache twoBytes).ReadsGroupsOnce twoBytes 0 [0, 1] new := by
  obtain ⟨-, -, honce, result, s', hends⟩ :=
    @cold_read_fetches_once _ .release _ _ _ bothBytes_cold rfl
  exact ⟨result, s', hends, honce result s' hends⟩

/-- A source whose reads fail. -/
def deadSource : Source where
  bytes := [7, 8]
  answer := fun _ _ _ => .error 0
  length_lt := twoBytes.length_lt
  answer_within := by simp

/-- Its first block is routed twice. -/
theorem dead_routes : ∃ s₁ s₂,
    Thread.Ends FlipsPhase (.empty false)
      ((pairCache deadSource).routeBlock .release 0 0 deadSource false)
      (.error (.fetch (.source 0))) s₁ ∧
    Thread.Ends FlipsPhase s₁
      ((pairCache deadSource).routeBlock .release 0 0 deadSource false)
      (.error (.fetch (.source 0))) s₂ ∧
    s₂.gets = [⟨0, 0, 2, .error 0⟩, ⟨0, 0, 2, .error 0⟩] := by
  refine ⟨?state₁, ?state₂, ?run₁, ?run₂, ?_⟩
  case run₁ =>
    -- two lookups, the group, its read, and the way back
    refine .head .atomic ?_
    refine .head .atomic ?_
    refine .head .atomic ?_
    refine .head (.choose 0) ?_
    refine .head .atomic ?_
    refine .head .atomic ?_
    refine .head .atomic ?_
    exact .refl
  case run₂ =>
    refine .head .atomic ?_
    refine .head .atomic ?_
    refine .head .atomic ?_
    refine .head (.choose 0) ?_
    refine .head .atomic ?_
    refine .head .atomic ?_
    refine .head .atomic ?_
    exact .refl
  rfl

/-- The leader fails, and its group is read once more. -/
theorem dead_group_read_twice :
    (bothBytes.off + bothBytes.buf.length ≤ deadSource.end_) ∧
      ((pairCache deadSource).firstBlock 0 + (pairCache deadSource).chlen < 0 + 2) ∧
      ∃ result s', Thread.Ends FlipsPhase (.empty false)
        ((pairCache deadSource).read .release bothBytes) result s' ∧
        s'.gets = [⟨0, 0, 2, .error 0⟩, ⟨0, 0, 2, .error 0⟩] := by
  refine ⟨by decide, by decide, ?_⟩
  obtain ⟨s₁, s₂, hfirst, hsecond, hgets⟩ := dead_routes
  have hothers : ∀ (offs : List ℕ), ∀ t ∈ offs.map fun choff =>
      (pairCache deadSource).routeBlock .release 0 choff deadSource false,
      t.result? = none := by
    intro offs t ht
    obtain ⟨b, -, rfl⟩ := List.mem_map.mp ht
    exact routeBlock_not_done
  have hleaders : Thread.Ends FlipsPhase (.empty false)
      (Thread.tryJoinAll (((pairCache deadSource).leaders 0 2).map fun choff =>
        (pairCache deadSource).routeBlock .release 0 choff deadSource false))
      (.error (.fetch (.source 0))) s₁ :=
    hfirst.tryJoinAll (List.mem_map_of_mem (by decide)) (hothers _)
  have hblocks : Thread.Ends FlipsPhase s₁
      (Thread.tryJoinAll ((blockOffs 0 2 1).map fun choff =>
        (pairCache deadSource).routeBlock .release 0 choff deadSource false))
      (.error (.fetch (.source 0))) s₂ :=
    hsecond.tryJoinAll (List.mem_map_of_mem (by decide)) (hothers _)
  have hmany : Thread.Ends FlipsPhase s₁
      ((pairCache deadSource).readMany .release 0 0 deadSource (blockOffs 0 2 1) [0, 0])
      (.error (.fetch (.source 0))) s₂ := hblocks.bind .refl
  have hdemand : Thread.Ends FlipsPhase (.empty false)
      ((pairCache deadSource).readBlocks .release 0 0 deadSource 0 2 [0, 0])
      (.error (.fetch (.source 0))) s₂ := hleaders.bind hmany
  exact ⟨_, s₂, hdemand.bind .refl, hgets⟩

end FoyerCache

end Foyer
end ImageReader
