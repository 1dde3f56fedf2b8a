import ImageReader.FoyerSpeculation

/-!
# The readahead

The loop asks for one block of each group of its window that is not held, in
the order of the blocks, until there is no permit left.  It remembers one group
only; that is enough, because the groups of its blocks do not go back.
-/

namespace ImageReader
namespace Foyer
namespace FoyerCache

variable {cache : FoyerCache} {build : Build} {source : Source} {idx csend : ℕ}
  {resident : ℕ → Bool} {permits : ℕ} {lastGroup : Option ℕ} {offs : List ℕ}

/-- The loop, where `resident` tells which blocks it finds, and as many permits
as `permits` are free. -/
def enqueued (cache : FoyerCache) (resident : ℕ → Bool) :
    List ℕ → ℕ → Option ℕ → List ℕ
  | [], _, _ => []
  | choff :: rest, permits, lastGroup =>
      let gbeg := choff / cache.fetchSize * cache.fetchSize
      if resident choff ∨ lastGroup = some gbeg then
        enqueued cache resident rest permits lastGroup
      else
        match permits with
        | 0 => []
        | permits + 1 => choff :: enqueued cache resident rest permits (some gbeg)

theorem enqueued_cons (choff : ℕ) (rest : List ℕ) :
    cache.enqueued resident (choff :: rest) permits lastGroup =
      if resident choff ∨ lastGroup = some (cache.groupBeg choff) then
        cache.enqueued resident rest permits lastGroup
      else
        match permits with
        | 0 => []
        | permits + 1 =>
            choff :: cache.enqueued resident rest permits
              (some (cache.groupBeg choff)) := rfl

/-- What `contains` finds in a state. -/
def held (cache : FoyerCache) (s : CacheState) (key : Key) : Bool :=
  (s.stored .content key).isSome || cache.dual && (s.stored .metadata key).isSome

/-! ## The loop and its threads -/

theorem contains_ends (s : CacheState) (key : Key) :
    Thread.Ends Thread.alone s (cache.contains key) (cache.held s key) s := by
  unfold contains held
  refine .head .atomic ?_
  simp only [id_eq, Thread.done_bind]
  cases hcontent : s.stored .content key with
  | some entry => exact .refl
  | none =>
      rw [if_neg (by simp)]
      by_cases hdual : cache.dual
      · rw [if_pos hdual, hdual]
        exact .head .atomic .refl
      · rw [if_neg hdual]
        simp only [Bool.not_eq_true] at hdual
        rw [hdual]
        exact .refl

theorem prefetchAfter_cons (choff : ℕ) (rest : List ℕ) :
    cache.prefetchAfter build idx source (choff :: rest) lastGroup =
      (cache.contains (idx, choff)).bind fun found =>
        if found ∨ lastGroup = some (cache.groupBeg choff) then
          cache.prefetchAfter build idx source rest lastGroup
        else .choose fun permit =>
          if permit = 0 then .done []
          else
            .spawn (cache.routeBlock build idx choff source true)
              ((cache.prefetchAfter build idx source rest
                (some (cache.groupBeg choff))).bind fun prefetched =>
                  .done (choff :: prefetched)) := rfl

/-- The loop can be run without its prefetches, on the blocks that are held. -/
theorem prefetchAfter_ends (s : CacheState) (offs : List ℕ) (permits : ℕ)
    (lastGroup : Option ℕ) :
    Thread.Ends Thread.alone s (cache.prefetchAfter build idx source offs lastGroup)
      (cache.enqueued (fun b => cache.held s (idx, b)) offs permits lastGroup) s := by
  induction offs generalizing permits lastGroup with
  | nil => exact .refl
  | cons choff rest ih =>
      rw [prefetchAfter_cons, enqueued_cons]
      refine (contains_ends s (idx, choff)).bind ?_
      by_cases hskip : cache.held s (idx, choff) ∨
          lastGroup = some (cache.groupBeg choff)
      · rw [if_pos hskip, if_pos hskip]
        exact ih permits lastGroup
      · rw [if_neg hskip, if_neg hskip]
        cases permits with
        | zero => exact .head (.choose 0) .refl
        | succ permits =>
            refine .head (.choose 1) ?_
            refine .head (.join trivial) ?_
            exact (ih permits _).bind .refl

theorem enqueued_congr {resident' : ℕ → Bool}
    (h : ∀ b ∈ offs, resident b = resident' b) :
    cache.enqueued resident offs permits lastGroup =
      cache.enqueued resident' offs permits lastGroup := by
  induction offs generalizing permits lastGroup with
  | nil => rfl
  | cons choff rest ih =>
      have hrest := fun b hb => h b (List.mem_cons_of_mem _ hb)
      rw [enqueued_cons, enqueued_cons, h choff (by simp)]
      split_ifs
      · exact ih hrest
      · cases permits with
        | zero => rfl
        | succ permits => exact congrArg _ (ih hrest)

/-- Whatever goes on beside it, the loop enqueues as it finds the blocks. -/
theorem prefetchAfter_keeps (hnodup : offs.Nodup) :
    (cache.prefetchAfter build idx source offs lastGroup).Keeps (fun _ => True)
      fun out => ∃ resident permits,
        out = cache.enqueued resident offs permits lastGroup := by
  induction offs generalizing lastGroup with
  | nil => exact ⟨fun _ => false, 0, rfl⟩
  | cons choff rest ih =>
      obtain ⟨hnew, hrest⟩ := List.nodup_cons.mp hnodup
      rw [prefetchAfter_cons]
      refine (Thread.keeps_true (cache.contains (idx, choff))).bind ?_
      intro found _
      -- the answer for this block, before those for the others
      have hlater : ∀ (resident : ℕ → Bool) permits lastGroup,
          cache.enqueued resident rest permits lastGroup =
            cache.enqueued (Function.update resident choff found) rest permits
              lastGroup := by
        intro resident permits lastGroup
        refine enqueued_congr fun b hb => ?_
        rw [Function.update_of_ne]
        rintro rfl
        exact hnew hb
      have hfound : ∀ resident : ℕ → Bool,
          Function.update resident choff found choff = found :=
        fun resident => Function.update_self ..
      split_ifs with hskip
      · refine (ih hrest).mono ?_
        rintro out ⟨resident, permits, rfl⟩
        refine ⟨Function.update resident choff found, permits, ?_⟩
        rw [enqueued_cons, hfound, if_pos hskip]
        exact hlater resident permits lastGroup
      · intro permit
        beta_reduce
        split_ifs with hpermit
        · refine ⟨Function.update (fun _ => false) choff found, 0, ?_⟩
          rw [enqueued_cons, hfound, if_neg hskip]
        · refine ⟨fun _ _ => True, fun _ => Thread.keeps_true _, ?_⟩
          intro _ _ _
          refine (ih hrest).bind ?_
          rintro out ⟨resident, permits, rfl⟩
          refine ⟨Function.update resident choff found, permits + 1, ?_⟩
          rw [enqueued_cons, hfound, if_neg hskip]
          exact congrArg _ (hlater resident permits _)

/-! ## What is enqueued -/

theorem enqueued_sublist :
    (cache.enqueued resident offs permits lastGroup).Sublist offs := by
  induction offs generalizing permits lastGroup with
  | nil => exact .refl _
  | cons choff rest ih =>
      rw [enqueued_cons]
      split_ifs
      · exact ih.cons _
      · cases permits with
        | zero => exact List.nil_sublist _
        | succ permits => exact ih.cons_cons _

theorem enqueued_not_resident :
    ∀ b ∈ cache.enqueued resident offs permits lastGroup, resident b = false := by
  induction offs generalizing permits lastGroup with
  | nil => simp [enqueued]
  | cons choff rest ih =>
      rw [enqueued_cons]
      split_ifs with hskip
      · exact ih
      · cases permits with
        | zero => simp
        | succ permits =>
            intro b hb
            rcases List.mem_cons.mp hb with rfl | hb
            · simpa using fun h => hskip (Or.inl h)
            · exact ih b hb

theorem length_enqueued_le :
    (cache.enqueued resident offs permits lastGroup).length ≤ permits := by
  induction offs generalizing permits lastGroup with
  | nil => simp [enqueued]
  | cons choff rest ih =>
      rw [enqueued_cons]
      split_ifs
      · exact ih
      · cases permits with
        | zero => simp
        | succ permits => simpa using ih

theorem groupBeg_mono {a b : ℕ} (h : a ≤ b) : cache.groupBeg a ≤ cache.groupBeg b :=
  Nat.mul_le_mul_right _ (Nat.div_le_div_right h)

/-- The groups of what is enqueued go forward from the remembered one. -/
theorem enqueued_groups (hoffs : offs.Pairwise (· < ·))
    (hlast : ∀ gbeg, lastGroup = some gbeg → ∀ b ∈ offs, gbeg ≤ cache.groupBeg b) :
    (∀ b ∈ cache.enqueued resident offs permits lastGroup, ∀ gbeg,
        lastGroup = some gbeg → gbeg < cache.groupBeg b) ∧
      ((cache.enqueued resident offs permits lastGroup).map cache.groupBeg).Pairwise
        (· < ·) := by
  induction offs generalizing permits lastGroup with
  | nil => simp [enqueued]
  | cons choff rest ih =>
      obtain ⟨hfirst, hrest⟩ := List.pairwise_cons.mp hoffs
      rw [enqueued_cons]
      split_ifs with hskip
      · exact ih hrest fun gbeg h b hb => hlast gbeg h b (List.mem_cons_of_mem _ hb)
      · cases permits with
        | zero => simp
        | succ permits =>
            have hnext : ∀ gbeg, some (cache.groupBeg choff) = some gbeg →
                ∀ b ∈ rest, gbeg ≤ cache.groupBeg b := by
              intro gbeg h b hb
              obtain rfl := Option.some.inj h
              exact groupBeg_mono (Nat.le_of_lt (hfirst b hb))
            obtain ⟨hafter, hgroups⟩ := @ih permits _ hrest hnext
            have hnew : ∀ gbeg, lastGroup = some gbeg → gbeg < cache.groupBeg choff := by
              intro gbeg h
              have hle := hlast gbeg h choff (by simp)
              have hne : gbeg ≠ cache.groupBeg choff := by
                rintro rfl
                exact hskip (Or.inr h)
              omega
            refine ⟨?_, List.pairwise_cons.mpr ⟨?_, hgroups⟩⟩
            · intro b hb gbeg h
              rcases List.mem_cons.mp hb with rfl | hb
              · exact hnew gbeg h
              · exact Nat.lt_trans (hnew gbeg h) (hafter b hb _ rfl)
            · intro gbeg hgbeg
              obtain ⟨b, hb, rfl⟩ := List.mem_map.mp hgbeg
              exact hafter b hb _ rfl

/-- As long as there are permits, the loop passes over a block only because it
is held or comes with the group of one that is enqueued. -/
theorem enqueued_covers
    (hpermits : (cache.enqueued resident offs permits lastGroup).length < permits) :
    ∀ b ∈ offs, resident b = false → lastGroup = some (cache.groupBeg b) ∨
      ∃ e ∈ cache.enqueued resident offs permits lastGroup,
        cache.groupBeg e = cache.groupBeg b := by
  induction offs generalizing permits lastGroup with
  | nil => simp
  | cons choff rest ih =>
      intro b hb hheld
      rw [enqueued_cons] at hpermits ⊢
      split_ifs at hpermits ⊢ with hskip
      · rcases List.mem_cons.mp hb with rfl | hb
        · exact Or.inl (hskip.resolve_left (by simp [hheld]))
        · exact ih hpermits b hb hheld
      · cases permits with
        | zero => simp at hpermits
        | succ permits =>
            right
            rcases List.mem_cons.mp hb with rfl | hb
            · exact ⟨b, by simp, rfl⟩
            · rcases ih (by simpa using hpermits) b hb hheld with hgroup | ⟨e, he, hgroup⟩
              · exact ⟨choff, by simp, Option.some.inj hgroup⟩
              · exact ⟨e, List.mem_cons_of_mem _ he, hgroup⟩

/-! ## The window -/

theorem pairwise_blockOffs {beg end_ step : ℕ} (hpos : 0 < step) :
    (blockOffs beg end_ step).Pairwise (· < ·) := by
  unfold blockOffs
  refine List.pairwise_map.mpr (List.pairwise_lt_range.imp ?_)
  intro i j hij
  have := (Nat.mul_lt_mul_right hpos).mpr hij
  omega

theorem onGrid_nextBlock (cache : FoyerCache) (csend : ℕ) :
    cache.OnGrid (cache.nextBlock csend) := Dvd.intro_left _ rfl

theorem le_nextBlock (cache : FoyerCache) (csend : ℕ) :
    csend ≤ cache.nextBlock csend := by
  have h := Nat.lt_div_mul_add (a := csend + (cache.chlen - 1)) cache.chlen_pos
  unfold nextBlock
  omega

theorem nextBlock_le {b : ℕ} (hgrid : cache.OnGrid b) (hle : csend ≤ b) :
    cache.nextBlock csend ≤ b := by
  by_contra hlt
  have hstep := hgrid.add_le (cache.onGrid_nextBlock csend) (Nat.lt_of_not_le hlt)
  have hback := Nat.div_mul_le_self (csend + (cache.chlen - 1)) cache.chlen
  have hpos := cache.chlen_pos
  unfold nextBlock at hstep
  omega

/-- A block of the window which follows a read. -/
structure InWindow (cache : FoyerCache) (source : Source) (csend b : ℕ) : Prop where
  onGrid : cache.OnGrid b
  csend_le : csend ≤ b
  lt_end : b < min (cache.nextBlock csend + cache.readahead * cache.chlen) source.end_

theorem mem_window {b : ℕ} :
    b ∈ blockOffs (cache.nextBlock csend)
        (min (cache.nextBlock csend + cache.readahead * cache.chlen) source.end_)
        cache.chlen ↔ cache.InWindow source csend b := by
  constructor
  · intro hb
    obtain ⟨i, hi, hlt⟩ := (mem_blockOffs cache.chlen_pos).mp hb
    have hle := cache.le_nextBlock csend
    exact ⟨onGrid_mem (cache.onGrid_nextBlock csend) hb, by omega, hlt⟩
  · intro hb
    exact mem_blockOffs_of_onGrid (cache.onGrid_nextBlock csend) hb.onGrid
      (nextBlock_le hb.onGrid hb.csend_le) hb.lt_end

/-- What the loop owes, when it finds the blocks as `resident` tells. -/
structure Enqueued (cache : FoyerCache) (source : Source) (csend : ℕ)
    (resident : ℕ → Bool) (permits : ℕ) (out : List ℕ) : Prop where
  increasing : out.Pairwise (· < ·)
  inWindow : ∀ b ∈ out, cache.InWindow source csend b
  not_resident : ∀ b ∈ out, resident b = false
  one_per_group : (out.map cache.groupBeg).Nodup
  length_le : out.length ≤ permits
  covers : out.length < permits → ∀ b, cache.InWindow source csend b →
    resident b = false → ∃ e ∈ out, cache.groupBeg e = cache.groupBeg b

theorem enqueued_window (cache : FoyerCache) (source : Source) (csend : ℕ)
    (resident : ℕ → Bool) (permits : ℕ) :
    cache.Enqueued source csend resident permits
      (cache.enqueued resident
        (blockOffs (cache.nextBlock csend)
          (min (cache.nextBlock csend + cache.readahead * cache.chlen) source.end_)
          cache.chlen) permits none) where
  increasing := (pairwise_blockOffs cache.chlen_pos).sublist enqueued_sublist
  inWindow := fun b hb => mem_window.mp (enqueued_sublist.subset hb)
  not_resident := enqueued_not_resident
  one_per_group :=
    (enqueued_groups (pairwise_blockOffs cache.chlen_pos) (by simp)).2.imp Nat.ne_of_lt
  length_le := length_enqueued_le
  covers := by
    intro hpermits b hb hheld
    refine (enqueued_covers hpermits b (mem_window.mpr hb) hheld).resolve_left ?_
    simp

/-- The readahead after a read which ends at `csend`: what it enqueues, that it
can be run so, and that it is never run otherwise. -/
theorem readahead_enqueues (hfits : cache.WindowFits csend) :
    ∃ rabeg raend,
      readaheadBlockRange build csend cache.chlen cache.readahead source.end_ =
        .ok (rabeg, raend) ∧
      (∀ (resident : ℕ → Bool) (permits : ℕ),
        cache.Enqueued source csend resident permits
          (cache.enqueued resident (blockOffs rabeg raend cache.chlen) permits none)) ∧
      (∀ (s : CacheState) (permits : ℕ), Thread.Ends Thread.alone s
        (cache.prefetchAfter build idx source (blockOffs rabeg raend cache.chlen) none)
        (cache.enqueued (fun b => cache.held s (idx, b))
          (blockOffs rabeg raend cache.chlen) permits none) s) ∧
      ∀ (env : CacheState → CacheState → Prop) (s s' : CacheState) (out : List ℕ),
        Thread.Ends env s
          (cache.prefetchAfter build idx source (blockOffs rabeg raend cache.chlen) none)
          out s' →
        ∃ resident permits,
          out = cache.enqueued resident (blockOffs rabeg raend cache.chlen) permits none := by
  refine ⟨_, _, readaheadBlockRange_of_fits hfits, ?_, ?_, ?_⟩
  · exact enqueued_window cache source csend
  · exact fun s permits => prefetchAfter_ends s _ permits none
  · intro env s s' out hends
    have hnodup : (blockOffs (cache.nextBlock csend)
        (min (cache.nextBlock csend + cache.readahead * cache.chlen) source.end_)
        cache.chlen).Nodup :=
      (pairwise_blockOffs cache.chlen_pos).imp Nat.ne_of_lt
    exact (hends.keeps (fun _ _ _ _ => trivial) trivial (prefetchAfter_keeps hnodup)).2

theorem readahead_enqueues_second :
    ∃ rabeg raend, readaheadBlockRange .release 1 1 1 2 = .ok (rabeg, raend) ∧
      ∀ (resident : ℕ → Bool) (permits : ℕ),
        (byteCache 1).Enqueued twoBytes 1 resident permits
          ((byteCache 1).enqueued resident (blockOffs rabeg raend 1) permits none) := by
  obtain ⟨rabeg, raend, hrange, henqueued, -⟩ :=
    @readahead_enqueues (byteCache 1) .release twoBytes 0 1
      (by unfold WindowFits nextBlock; decide)
  exact ⟨rabeg, raend, hrange, henqueued⟩

end FoyerCache

end Foyer
end ImageReader
