import ImageReader.FoyerCold
import ImageReader.Watch

/-!
# The warming pass

What a read demands in the metadata phase is in the metadata tier when the read
returns, by whichever way it came there; and a block which is routed in the
regular phase leaves that tier alone.

Which phase a call of `routeBlock` sees is decided by the first of its steps.
The runs here are watched for one read, of whose demanded blocks each is routed
in the metadata phase; the others may be routed in either.
-/

namespace ImageReader
namespace Foyer

open Relation (ReflTransGen)

variable {s s' s'' : CacheState} {tier : Tier} {key : Key}

/-- The tiers, the phase and the history of the routing are the same. -/
structure CacheState.SameView (s s' : CacheState) : Prop where
  stored : s'.stored = s.stored
  regularPhase : s'.regularPhase = s.regularPhase
  routed : s'.routed = s.routed

theorem sameView_refl (s : CacheState) : s.SameView s := ⟨rfl, rfl, rfl⟩

theorem sameView_poll (source : Source) (f n : ℕ) :
    s.SameView (s.poll source f n) := by
  unfold CacheState.poll
  split
  · split_ifs
    · exact ⟨rfl, rfl, rfl⟩
    · exact sameView_refl s
  · exact sameView_refl s

theorem sameView_retire (f : ℕ) : s.SameView (s.retire f) := by
  unfold CacheState.retire
  split
  · split
    · exact ⟨rfl, rfl, rfl⟩
    · exact sameView_refl s
  · exact sameView_refl s

theorem sameView_wake (c : ℕ) : s.SameView (s.wake c) := by
  unfold CacheState.wake
  split
  · split
    · exact ⟨rfl, rfl, rfl⟩
    · exact sameView_refl s
  · exact sameView_refl s

/-- `R` allows what the threads of a cache do, with insertions into some of the
tiers. -/
structure Allows (R : CacheState → CacheState → Prop) (tiers : Tier → Prop) :
    Prop where
  view : ∀ s s', s.SameView s' → R s s'
  insert : ∀ s tier key block, tiers tier → R s (s.insert tier key block)
  loadPhase : ∀ s key prefetch, R s (s.loadPhase key prefetch)

namespace FoyerCache

variable {cache : FoyerCache} {build : Build} {source : Source}
  {R : CacheState → CacheState → Prop} {tiers : Tier → Prop}
  {idx choff gbeg gend off csend : ℕ} {buf : Bytes}

/-! ## The steps of a read -/

section Moves

variable (hR : Allows R tiers)

include hR

theorem lookup_moves (tier : Tier) (key : Key) : (lookup tier key).Moves R :=
  fun s => ⟨hR.view s s (sameView_refl s), trivial⟩

theorem fetchRange_moves : (fetchRange source idx gbeg gend).Moves R :=
  fun _ s => ⟨hR.view s _ ⟨rfl, rfl, rfl⟩, trivial⟩

theorem groupFetch_moves (key : GroupKey) :
    (groupFetch source key gend).Moves R := by
  intro s
  refine ⟨hR.view s _ ⟨rfl, rfl, rfl⟩, ?_⟩
  intro n s₁
  refine ⟨hR.view _ _ (sameView_poll _ _ _), ?_⟩
  intro s₂
  refine ⟨hR.view _ _ (sameView_retire _), ?_⟩
  intro s₃
  exact ⟨hR.view _ _ (sameView_wake _), trivial⟩

theorem cutGroup_moves {sink : Tier} (hsink : tiers sink) {bytes : Bytes}
    {owner : Bool} {offs : List ℕ} {demanded : Option Bytes} :
    (cache.cutGroup build sink idx choff gbeg gend bytes owner offs
      demanded).Moves R := by
  induction offs generalizing demanded with
  | nil => trivial
  | cons boff rest ih =>
      unfold cutGroup
      refine Thread.Moves.goOn ?_
      rintro ⟨beg, end_⟩
      dsimp only
      split_ifs
      · trivial
      · exact Thread.Moves.goOn fun _ => ih
      · exact Thread.Moves.goOn fun _ s => ⟨hR.insert s _ _ _ hsink, ih⟩
      · exact ih

theorem makeFetch_moves {sink : Tier} (hsink : tiers sink) :
    (cache.makeFetch build idx choff source sink).Moves R := by
  unfold makeFetch
  refine Thread.Moves.goOn ?_
  rintro ⟨gbeg, gend⟩
  dsimp only
  split_ifs
  · refine (fetchRange_moves hR).bind ?_
    intro outcome
    cases outcome <;> trivial
  · refine (groupFetch_moves hR _).bind ?_
    rintro ⟨result, owner⟩
    match result with
    | none => trivial
    | some (.error e) => trivial
    | some (.ok bytes) =>
        refine (cutGroup_moves hR hsink).attempt ?_
        intro demanded
        cases demanded <;> trivial

theorem fetchInto_moves (hcontent : tiers .content) {tier : Tier}
    (htier : tiers tier) :
    (cache.fetchInto build tier idx choff source).Moves R := by
  refine Thread.Moves.attempt ?_ fun _ => trivial
  refine (lookup_moves hR _ _).bind ?_
  intro entry
  cases entry with
  | some block => trivial
  | none =>
      refine Thread.Moves.attempt ?_ fun _ s => ⟨hR.insert s _ _ _ htier, trivial⟩
      exact (makeFetch_moves hR hcontent).bind fun _ => trivial

theorem routeBlock_moves (hall : ∀ tier, tiers tier) {prefetch : Bool} :
    (cache.routeBlock build idx choff source prefetch).Moves R := by
  unfold routeBlock
  split_ifs
  · intro s
    refine ⟨hR.loadPhase s _ _, (lookup_moves hR _ _).bind ?_⟩
    intro entry
    cases entry with
    | some entry => trivial
    | none =>
        refine (lookup_moves hR _ _).bind ?_
        intro entry
        cases entry with
        | some entry =>
            dsimp only
            split_ifs
            · trivial
            · exact fun s => ⟨hR.insert s _ _ _ (hall _), trivial⟩
        | none =>
            dsimp only
            split_ifs
            · exact fetchInto_moves hR (hall _) (hall _)
            · exact fetchInto_moves hR (hall _) (hall _)
  · refine (lookup_moves hR _ _).bind ?_
    intro entry
    cases entry with
    | some entry => trivial
    | none => exact fetchInto_moves hR (hall _) (hall _)

theorem routeAll_moves (hall : ∀ tier, tiers tier) (offs : List ℕ) :
    (Thread.tryJoinAll (offs.map fun choff =>
      cache.routeBlock build idx choff source false)).Moves R := by
  refine Thread.Moves.tryJoinAll ?_
  intro t ht
  obtain ⟨choff, -, rfl⟩ := List.mem_map.mp ht
  exact routeBlock_moves hR hall

theorem readBlocks_moves (hall : ∀ tier, tiers tier) :
    (cache.readBlocks build idx off source gbeg csend buf).Moves R := by
  have hmany : ∀ offs, (cache.readMany build idx off source offs buf).Moves R :=
    fun offs => (routeAll_moves hR hall offs).attempt fun _ =>
      Thread.Moves.goOn fun _ => trivial
  unfold readBlocks
  split
  · refine (routeBlock_moves hR hall).attempt ?_
    exact fun _ => Thread.Moves.goOn fun _ => trivial
  · split_ifs
    · exact (routeAll_moves hR hall _).bind fun _ => hmany _
    · exact hmany _

theorem prefetchAfter_moves (hall : ∀ tier, tiers tier) {offs : List ℕ}
    {lastGroup : Option ℕ} :
    (cache.prefetchAfter build idx source offs lastGroup).Moves R := by
  induction offs generalizing lastGroup with
  | nil => trivial
  | cons choff rest ih =>
      have hcontains : (cache.contains (idx, choff)).Moves R := by
        refine (lookup_moves hR _ _).bind ?_
        intro entry
        split_ifs
        · trivial
        · exact (lookup_moves hR _ _).bind fun _ => trivial
        · trivial
      refine hcontains.bind ?_
      intro held
      dsimp only
      split_ifs
      · exact ih
      · intro permit
        beta_reduce
        split_ifs
        · trivial
        · exact (routeBlock_moves hR hall).spawn (ih.bind fun _ => trivial)

theorem read_moves (hall : ∀ tier, tiers tier) (call : ReadCall) :
    (cache.read build call).Moves R := by
  unfold read
  cases cache.sources call.idx with
  | none => trivial
  | some source =>
      refine Thread.Moves.goOn fun csend => Thread.Moves.goOn ?_
      rintro ⟨rabeg, raend⟩
      exact (readBlocks_moves hR hall).attempt fun r =>
        (prefetchAfter_moves hR hall).bind fun _ => trivial

end Moves

/-! ## A watched read -/

/-- What the metadata tier holds stays there. -/
def KeepsMetadata (s s' : CacheState) : Prop :=
  ∀ key, (s.stored .metadata key).isSome → (s'.stored .metadata key).isSome

def warming : Contract CacheState where
  Inv := fun _ => True
  Grows := KeepsMetadata
  refl := fun _ _ h => h
  trans := fun h h' key hkey => h' key (h key hkey)

/-- A demanded block which is routed is routed in the metadata phase. -/
def SawMetadata (s s' : CacheState) : Prop :=
  ∀ r, s'.routed = s.routed ++ [r] → r.prefetch = false → r.regular = false

/-- The metadata tier holds the block. -/
def Warm (key : Key) (s : CacheState) : Prop := (s.stored .metadata key).isSome

theorem Warm.later (h : Warm key s) (hlater : warming.Later s s') : Warm key s' :=
  hlater.grows key h

theorem allows_keepsMetadata : Allows KeepsMetadata fun _ => True where
  view := fun s s' hview key h => by rwa [hview.stored]
  insert := fun s tier key block _ key' h => stored_insert_isSome h
  loadPhase := fun _ _ _ _ h => h

theorem read_warming (call : ReadCall) (s : CacheState) :
    (cache.read build call).Upholds warming s fun _ _ => True :=
  (read_moves allows_keepsMetadata (fun _ => trivial) call).upholds
    fun _ _ _ hkeeps => ⟨hkeeps, trivial⟩

section Warms

variable {own : CacheState → CacheState → Prop}

theorem lookup_warms :
    (lookup .metadata key).Ensures warming own s fun entry s' =>
      entry.isSome → Warm key s' := by
  refine Thread.Ensures.look ?_
  intro s₁ _ s₂ hs₂ hentry
  exact Warm.later hentry hs₂

theorem fetchInto_warms :
    (cache.fetchInto build .metadata idx choff source).Ensures warming own s
      (Thread.IfOk fun _ => Warm (idx, choff)) := by
  have hget : (getOrFetch .metadata (idx, choff)
      (cache.makeFetch build idx choff source .content)).Ensures warming own s
        (Thread.IfOk fun _ => Warm (idx, choff)) := by
    unfold getOrFetch
    refine lookup_warms.bind trivial ?_
    intro entry s₁ _ hentry
    cases entry with
    | some block =>
        exact Thread.ensures_done_ok fun s₂ hs₂ => (hentry rfl).later hs₂
    | none =>
        have hfetch : ((cache.makeFetch build idx choff source .content).bind
            fun r => .done (caught r)).Ensures warming own s₁
              (Thread.IfOk fun _ _ => True) :=
          Thread.ensures_of_forall _ (fun _ _ _ _ => trivial) s₁
        refine Thread.Ensures.attempt trivial hfetch ?_
        intro block s₂ _ _ s₃ _ _ _
        refine Thread.ensures_done_ok fun s₄ hs₄ => Warm.later ?_ hs₄
        unfold Warm
        rw [stored_insert_self]
        rfl
  unfold fetchInto
  refine Thread.Ensures.attempt trivial hget ?_
  intro entry s₁ _ hwarm
  exact Thread.ensures_done_ok fun s₂ hs₂ => hwarm.later hs₂

/-- A demanded block which is routed in the metadata phase is warm. -/
theorem routeBlock_warms (hdual : cache.dual = true) :
    (cache.routeBlock build idx choff source false).Ensures warming SawMetadata s
      (Thread.IfOk fun _ => Warm (idx, choff)) := by
  unfold routeBlock
  rw [if_pos hdual]
  intro s₁ _ _ hown
  have hphase : s₁.regularPhase = false := hown _ rfl rfl
  refine lookup_warms.bind trivial ?_
  intro entry s₂ _ hentry
  cases entry with
  | some entry =>
      exact Thread.ensures_done_ok fun s₃ hs₃ => (hentry rfl).later hs₃
  | none =>
      have hcontent : (lookup .content (idx, choff)).Ensures warming
          SawMetadata s₂ fun _ _ => True :=
        Thread.ensures_of_forall _ (fun _ _ => trivial) s₂
      refine hcontent.bind trivial ?_
      intro entry s₃ _ _
      cases entry with
      | some entry =>
          -- the sibling is promoted
          dsimp only
          rw [if_neg (by simp [hphase])]
          intro s₄ _ _ _
          refine Thread.ensures_done_ok fun s₅ hs₅ => Warm.later ?_ hs₅
          unfold Warm
          rw [stored_insert_self]
          rfl
      | none =>
          dsimp only
          rw [if_neg (by simp [hphase])]
          exact fetchInto_warms

theorem routeAll_warms (hdual : cache.dual = true) (offs : List ℕ) :
    (Thread.tryJoinAll (offs.map fun choff =>
      cache.routeBlock build idx choff source false)).Ensures warming SawMetadata s
        (Thread.IfOk fun _ s' => ∀ b ∈ offs, Warm (idx, b) s') := by
  have hall : (Thread.tryJoinAll (offs.map fun choff =>
      cache.routeBlock build idx choff source false)).Ensures warming SawMetadata s
        (Thread.IfOk fun _ s' => ∀ i < (offs.map fun choff =>
          cache.routeBlock build idx choff source false).length,
            ∀ b, offs[i]? = some b → Warm (idx, b) s') := by
    refine Thread.Ensures.tryJoinAll ?_ ?_
    · exact fun i s₁ s₂ hlater hwarm b hb => (hwarm b hb).later hlater
    · intro i t ht
      rw [List.getElem?_map, Option.map_eq_some_iff] at ht
      obtain ⟨choff, hchoff, rfl⟩ := ht
      refine (routeBlock_warms hdual).mono ?_
      intro r s₁ hr a ha b hb
      rw [hchoff] at hb
      obtain rfl := Option.some.inj hb
      exact hr a ha
  refine hall.mono ?_
  intro r s₁ hr as has b hb
  obtain ⟨i, hi⟩ := List.mem_iff_getElem?.mp hb
  refine hr as has i ?_ b hi
  rw [List.length_map]
  exact (List.getElem?_eq_some_iff.mp hi).1

theorem readMany_warms (hdual : cache.dual = true) (offs : List ℕ) :
    (cache.readMany build idx off source offs buf).Ensures warming SawMetadata s
      (Thread.IfOk fun _ s' => ∀ b ∈ offs, Warm (idx, b) s') := by
  refine Thread.Ensures.attempt trivial (routeAll_warms hdual offs) ?_
  intro chunks s₁ _ hwarm
  refine Thread.Ensures.goOn ?_
  intro out _
  exact Thread.ensures_done_ok fun s₂ hs₂ b hb => (hwarm b hb).later hs₂

/-- The leaders may fail: what they leave cold is routed once more. -/
theorem readBlocks_warms (hdual : cache.dual = true) :
    (cache.readBlocks build idx off source gbeg csend buf).Ensures warming
      SawMetadata s (Thread.IfOk fun _ s' =>
        ∀ b ∈ blockOffs gbeg csend cache.chlen, Warm (idx, b) s') := by
  unfold readBlocks
  split
  · rename_i choff hsingle
    refine Thread.Ensures.attempt trivial (routeBlock_warms hdual) ?_
    rintro ⟨ch, missed⟩ s₁ _ hwarm
    refine Thread.Ensures.goOn ?_
    intro out _
    refine Thread.ensures_done_ok ?_
    intro s₂ hs₂ b hb
    rw [hsingle, List.mem_singleton] at hb
    subst hb
    exact Warm.later hwarm hs₂
  · split_ifs
    · have hleaders : (Thread.tryJoinAll ((cache.leaders gbeg csend).map
          fun choff => cache.routeBlock build idx choff source false)).Ensures
            warming SawMetadata s fun _ _ => True :=
        Thread.ensures_of_forall _ (fun _ _ => trivial) s
      refine hleaders.bind trivial ?_
      exact fun _ _ _ _ => readMany_warms hdual _
    · exact readMany_warms hdual _

/-- The block range of the call is warm. -/
def WarmRange (cache : FoyerCache) (build : Build) (call : ReadCall)
    (s : CacheState) : Prop :=
  ∀ csend, (build.add call.off call.buf.length : Outcome CacheError ℕ) =
    .ok csend → ∀ b ∈ blockOffs (cache.firstBlock call.off) csend cache.chlen,
      Warm (call.idx, b) s

theorem WarmRange.later {call : ReadCall} (h : cache.WarmRange build call s)
    (hlater : warming.Later s s') : cache.WarmRange build call s' :=
  fun csend hcsend b hb => (h csend hcsend b hb).later hlater

theorem read_warms (hdual : cache.dual = true) (call : ReadCall) :
    (cache.read build call).Ensures warming SawMetadata s
      (Thread.IfOk fun _ => cache.WarmRange build call) := by
  unfold read
  cases cache.sources call.idx with
  | none => exact Thread.ensures_done_failed (by simp)
  | some source =>
      refine Thread.Ensures.goOn ?_
      intro csend hcsend
      refine Thread.Ensures.goOn ?_
      rintro ⟨rabeg, raend⟩ _
      refine Thread.Ensures.attempt trivial (readBlocks_warms hdual) ?_
      intro r s₁ _ hwarm
      have hrange : cache.WarmRange build call s₁ := by
        intro csend' hcsend'
        rw [hcsend] at hcsend'
        obtain rfl := Outcome.ok.inj hcsend'
        exact hwarm
      have hprefetch : (cache.prefetchAfter build call.idx source
          (blockOffs rabeg raend cache.chlen) none).Ensures warming SawMetadata
            s₁ fun _ _ => True :=
        Thread.ensures_of_forall _ (fun _ _ => trivial) s₁
      refine hprefetch.bind trivial ?_
      intro _ s₂ hs₂ _
      exact Thread.ensures_done_ok fun s₃ hs₃ => hrange.later (hs₂.trans hs₃)

end Warms

/-- Evictions and flips of the phase which leave the metadata tier alone. -/
def SparingEnv (s s' : CacheState) : Prop := Env s s' ∧ KeepsMetadata s s'

/-- The runs without evictions from the metadata tier in which call `i` has its
demanded blocks routed in the metadata phase. -/
def WarmingRuns (cache : FoyerCache) (build : Build) (regularPhase : Bool)
    (i : ℕ) (pool : Pool ReadCall CacheState (Outcome CacheError (Bytes × Bool))) :
    Prop :=
  Pool.Watched (cache.read build) SparingEnv i SawMetadata
    (.start (.empty regularPhase)) pool

section Runs

variable {regularPhase : Bool} {i : ℕ}
  {pool : Pool ReadCall CacheState (Outcome CacheError (Bytes × Bool))}

theorem WarmingRuns.runs (h : cache.WarmingRuns build regularPhase i pool) :
    cache.Runs build regularPhase pool := by
  refine ReflTransGen.mono ?_ _ _ (Pool.Watched.steps h)
  intro pool pool' hstep
  cases hstep with
  | env henv => exact .env henv.1
  | call k => exact .call k
  | run hcall hgoes => exact .run hcall hgoes
  | background hthread hgoes => exact .background hthread hgoes

theorem WarmingRuns.warm (hdual : cache.dual = true)
    (h : cache.WarmingRuns build regularPhase i pool) {call : ReadCall}
    {out : Bytes} {missed : Bool}
    (hdone : pool.calls[i]? = some (call, .done (.ok (out, missed)))) :
    ∀ b ∈ blockOffs (cache.firstBlock call.off) (call.off + call.buf.length)
      cache.chlen, Warm (call.idx, b) pool.state := by
  obtain ⟨-, hensures⟩ := Pool.Watched.ensures (C := warming)
    (fun _ _ henv _ => ⟨henv.2, trivial⟩) (fun k s _ => read_warming k s)
    (fun k s _ => read_warms hdual k) h (Pool.sound_start trivial)
    (by simp [Pool.start])
  have hwarm : cache.WarmRange build call pool.state :=
    hensures call _ hdone pool.state (.rfl trivial) _ rfl
  -- a read that returned has not wrapped
  have hserved := h.runs.sound.result (List.mem_of_getElem? hdone)
  unfold ReadServed at hserved
  cases hsource : cache.sources call.idx with
  | none =>
      rw [hsource] at hserved
      exact absurd rfl (hserved (out, missed))
  | some source =>
      rw [hsource] at hserved
      have hfits := (hserved.ok _ rfl).2
      exact hwarm _ (Build.add_of_lt hfits.1.1)

end Runs

/-! ## The regular phase -/

def SameMetadata (s s' : CacheState) : Prop :=
  s'.stored .metadata = s.stored .metadata

theorem allows_sameMetadata : Allows SameMetadata (· = .content) where
  view := fun _ _ hview => congrFun hview.stored .metadata
  insert := by
    rintro s tier key block rfl
    simp [SameMetadata, CacheState.insert, CacheState.set]
  loadPhase := fun _ _ _ => rfl

/-- A call which sees the regular phase leaves the metadata tier alone. -/
theorem routeBlock_regular (hdual : cache.dual = true) {prefetch : Bool}
    {t : Task (Outcome CacheError (Bytes × Bool))} {left : List (Task Unit)}
    (hfirst : Thread.Goes s
      (cache.routeBlock build idx choff source prefetch) s' t left)
    (hregular : s.regularPhase = true) :
    SameMetadata s s' ∧ t.Moves SameMetadata := by
  unfold routeBlock at hfirst
  rw [if_pos hdual] at hfirst
  cases hfirst
  refine ⟨rfl, (lookup_moves allows_sameMetadata _ _).bind ?_⟩
  intro entry
  cases entry with
  | some entry => trivial
  | none =>
      refine (lookup_moves allows_sameMetadata _ _).bind ?_
      intro entry
      cases entry with
      | some entry =>
          dsimp only
          rw [if_pos hregular]
          trivial
      | none =>
          dsimp only
          rw [if_pos hregular]
          exact fetchInto_moves allows_sameMetadata rfl rfl

/-- The tiers, the latch and the reads of the sources are the same. -/
structure Untouched (s s' : CacheState) : Prop where
  stored : s'.stored = s.stored
  groups : s'.groups = s.groups
  gets : s'.gets = s.gets

/-- The entry, once it is in the metadata tier, stays there. -/
def KeepsEntry (key : Key) (entry : Bytes) (s s' : CacheState) : Prop :=
  s.stored .metadata key = some entry → s'.stored .metadata key = some entry

theorem keepsEntry_of_steps {entry : Bytes}
    (h : ReflTransGen (KeepsEntry key entry) s s') : KeepsEntry key entry s s' :=
  rel_of_steps (fun _ => id) (fun _ _ _ h h' hentry => h' (h hentry)) (fun _ _ => id) h

/-- A block in the metadata tier is served from it. -/
theorem routeBlock_served (hdual : cache.dual = true) {prefetch : Bool}
    {entry : Bytes} (hentry : s.stored .metadata (idx, choff) = some entry) :
    (cache.routeBlock build idx choff source prefetch).Meets
      (KeepsEntry (idx, choff) entry) Untouched s
      fun r _ => r = .ok (entry, false) := by
  unfold routeBlock
  rw [if_pos hdual]
  intro s₁ hs₁
  have h₁ : s₁.stored .metadata (idx, choff) = some entry :=
    keepsEntry_of_steps hs₁ hentry
  refine ⟨⟨rfl, rfl, rfl⟩, ?_⟩
  intro s₂ hs₂
  have h₂ : s₂.stored .metadata (idx, choff) = some entry :=
    keepsEntry_of_steps hs₂ h₁
  refine ⟨⟨rfl, rfl, rfl⟩, ?_⟩
  simp only [Thread.done_bind, h₂]
  exact fun _ _ => rfl

/-! ## The warming pass -/

/-- A read whose demanded blocks are routed in the metadata phase leaves its
block range in the metadata tier.  A call which sees the regular phase changes
nothing there, whatever goes on beside it, and a block which is there is served
without a read of the source. -/
theorem warming_captures (hdual : cache.dual = true) :
    (∀ regularPhase i pool call out missed,
      cache.WarmingRuns build regularPhase i pool →
      pool.calls[i]? = some (call, .done (.ok (out, missed))) →
      ∀ b ∈ blockOffs (cache.firstBlock call.off) (call.off + call.buf.length)
        cache.chlen, (pool.state.stored .metadata (call.idx, b)).isSome) ∧
    (∀ idx choff source prefetch env s s₁ s₂ t t' left,
      Thread.Goes s (cache.routeBlock build idx choff source prefetch) s₁ t left →
      s.regularPhase = true → Thread.Runs env s₁ t s₂ t' →
      ReflTransGen (fun s s' => env s s' ∨ SameMetadata s s') s s₂) ∧
    ∀ idx choff source prefetch entry env s,
      (∀ s s', env s s' → KeepsEntry (idx, choff) entry s s') →
      s.stored .metadata (idx, choff) = some entry →
      Thread.Always env s (cache.routeBlock build idx choff source prefetch)
        (fun r => r = .ok (entry, false)) ∧
      ∀ r s', Thread.Ends env s
        (cache.routeBlock build idx choff source prefetch) r s' →
        ReflTransGen (fun s s' => env s s' ∨ Untouched s s') s s' := by
  refine ⟨fun _ _ _ _ _ _ hruns hdone => hruns.warm hdual hdone, ?_, ?_⟩
  · intro idx choff source prefetch env s s₁ s₂ t t' left hfirst hregular hruns
    obtain ⟨hsame, hmoves⟩ := routeBlock_regular hdual hfirst hregular
    exact (Thread.Runs.moves hruns hmoves).2.head (Or.inr hsame)
  · intro idx choff source prefetch entry env s henv hentry
    have hserved : (cache.routeBlock build idx choff source prefetch).Meets
        (KeepsEntry (idx, choff) entry) Untouched s
        fun r _ => r = .ok (entry, false) := routeBlock_served hdual hentry
    refine ⟨⟨?_, ?_⟩, ?_⟩
    · intro s' t' hrun
      exact (Thread.Runs.live hrun routeBlock_live).ends env s'
    · exact fun r s' hends => (hends.meets henv hserved).1
    · exact fun r s' hends => (hends.meets henv hserved).2

/-- The phase stays as it is, and a block which is routed sees it. -/
def SeesPhase (s s' : CacheState) : Prop :=
  s'.regularPhase = s.regularPhase ∧
    ∀ r, s'.routed = s.routed ++ [r] → r.regular = s.regularPhase

theorem allows_seesPhase : Allows SeesPhase fun _ => True where
  view := by
    intro s s' hview
    refine ⟨hview.regularPhase, ?_⟩
    intro r hr
    rw [hview.routed] at hr
    simp at hr
  insert := by
    intro s tier key block _
    refine ⟨rfl, ?_⟩
    intro r hr
    simp [CacheState.insert, CacheState.set] at hr
  loadPhase := by
    intro s key prefetch
    refine ⟨rfl, ?_⟩
    intro r hr
    obtain rfl : _ = r := by simpa [CacheState.loadPhase] using hr
    rfl

/-- The call runs alone in the metadata phase. -/
theorem watched_of_runs {t t' : Task (Outcome CacheError (Bytes × Bool))}
    {call : ReadCall} {i : ℕ} (hrun : Thread.Runs Thread.alone s t s' t')
    (hmoves : t.Moves SeesPhase) (hphase : s.regularPhase = false)
    {pool : Pool ReadCall CacheState (Outcome CacheError (Bytes × Bool))}
    (hstate : pool.state = s) (hcall : pool.calls[i]? = some (call, t)) :
    ∃ pool', Pool.Watched (cache.read build) SparingEnv i SawMetadata pool pool' ∧
      pool'.state = s' ∧ pool'.calls[i]? = some (call, t') := by
  induction hrun generalizing pool with
  | refl => exact ⟨pool, .refl, hstate, hcall⟩
  | @head s s₁ s₂ t t₁ t₂ hstep _ ih =>
      obtain ⟨left, hgoes⟩ := hstep.goes
      obtain ⟨hmoves₁, hchange⟩ := hstep.moves hmoves
      have hsees : SeesPhase s s₁ := by
        rcases hchange with rfl | h | h
        · exact allows_seesPhase.view _ _ (sameView_refl _)
        · exact h.elim
        · exact h
      subst hstate
      obtain ⟨pool', hwatched, hend⟩ :=
        @ih hmoves₁ (hsees.1.trans hphase)
          ⟨s₁, pool.calls.set i (call, t₁), pool.detached ++ left⟩ rfl
          (getElem?_set_of_some hcall)
      refine ⟨pool', .head ⟨.run hcall hgoes, ?_⟩ hwatched, hend⟩
      exact fun _ r hr _ => (hsees.2 r hr).trans hphase

theorem first_byte_ends : ∃ s', Thread.Ends Thread.alone (.empty false)
    ((byteCache 0).read .release firstByte) (.ok ([7], true)) s' := by
  refine ⟨?_, ?run⟩
  case run =>
    -- the phase and three lookups, then the read of the source
    refine .head .atomic ?_
    refine .head .atomic ?_
    refine .head .atomic ?_
    refine .head .atomic ?_
    refine .head (.choose 0) ?_
    refine .head .atomic ?_
    refine .head .atomic ?_
    exact .refl

theorem warming_captures_first :
    ∃ pool, (byteCache 0).WarmingRuns .release false 0 pool ∧
      pool.calls[0]? = some (firstByte, .done (.ok ([7], true))) ∧
      (pool.state.stored .metadata (0, 0)).isSome := by
  obtain ⟨s', hends⟩ := first_byte_ends
  let called : Pool ReadCall CacheState (Outcome CacheError (Bytes × Bool)) :=
    ⟨.empty false, [(firstByte, (byteCache 0).read .release firstByte)], []⟩
  obtain ⟨pool, hwatched, -, hdone⟩ :
      ∃ pool, Pool.Watched ((byteCache 0).read .release) SparingEnv 0
        SawMetadata called pool ∧ pool.state = s' ∧
        pool.calls[0]? = some (firstByte, .done (.ok ([7], true))) :=
    watched_of_runs hends
      (read_moves allows_seesPhase (fun _ => trivial) firstByte) rfl rfl rfl
  have hfirst : ¬ Pool.StepOf 0 (.start (.empty false)) called := by
    rintro ⟨k, t, t', s', left, hcall, -⟩
    simp [Pool.start] at hcall
  have hruns : (byteCache 0).WarmingRuns .release false 0 pool :=
    .head ⟨.call firstByte, fun h => absurd h hfirst⟩ hwatched
  refine ⟨pool, hruns, hdone, ?_⟩
  exact (warming_captures rfl).1 false 0 pool firstByte [7] true hruns hdone 0
    (by decide)

end FoyerCache

end Foyer
end ImageReader
