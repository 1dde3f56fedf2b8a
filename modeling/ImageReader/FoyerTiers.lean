import ImageReader.FoyerLatch
import ImageReader.Machine

/-!
# The block cache

A block is looked for in its tier and fetched from its source when it is not
there; a fetch reads a whole group of blocks, of which the demanded one goes to
its tier and the others to the content tier.  A read demands the blocks of its
range, and leaves prefetches behind for the blocks after it.

A tier is a keyed store that may lose an entry at any time.  Reads of a source
end as the scheduler has them end.
-/

namespace ImageReader
namespace Foyer

/-- A source index and the offset of a block. -/
abbrev Key := ℕ × ℕ

inductive Tier where
  | content
  | metadata
  deriving DecidableEq, Repr

inductive CacheError where
  | unregistered (idx : ℕ)
  /-- `source {idx}: short read at offset {off}: filled {got} of {wanted} bytes` -/
  | shortRead (idx off wanted got : ℕ)
  | fetch (e : FetchError)
  /-- the task that runs a fetch has panicked -/
  | taskPanicked
  deriving DecidableEq, Repr

/-- A source whose bytes never change.  `answer n beg end_` is the `n`-th way
in which a read of `[beg, end_)` may end; one that returns may return too
little, or more than it was asked for. -/
structure Source where
  bytes : Bytes
  answer : ℕ → ℕ → ℕ → ReadOutcome
  length_lt : bytes.length < wordLimit
  answer_within : ∀ {n beg end_ : ℕ} {got : Bytes},
    answer n beg end_ = .ok got → got <+: bytes.drop beg

/-- `source.end()` -/
def Source.end_ (source : Source) : ℕ := source.bytes.length

def normalizeBlockSize (chlen : ℕ) : ℕ := if chlen = 0 then 1024 * 1024 else chlen

def groupSize (fetchSize chlen : ℕ) : ℕ := max (fetchSize / chlen) 1 * chlen

/-- `FoyerCache` and its `Tiers`.  `dual` tells whether there is a metadata
tier. -/
structure FoyerCache where
  chlen : ℕ
  fetchSize : ℕ
  readahead : ℕ
  dual : Bool
  sources : ℕ → Option Source
  chlen_pos : 0 < chlen
  fetchSize_eq : groupSize fetchSize chlen = fetchSize
  fetchSize_lt : fetchSize < wordLimit

theorem normalizeBlockSize_pos (chlen : ℕ) : 0 < normalizeBlockSize chlen := by
  unfold normalizeBlockSize
  split_ifs with h
  · decide
  · omega

theorem groupSize_groupSize {fetchSize chlen : ℕ} (hpos : 0 < chlen) :
    groupSize (groupSize fetchSize chlen) chlen = groupSize fetchSize chlen := by
  unfold groupSize
  rw [Nat.mul_div_cancel _ hpos, Nat.max_eq_left (Nat.le_max_right _ _)]

theorem groupSize_lt {fetchSize chlen limit : ℕ} (hfetch : fetchSize < limit)
    (hchlen : chlen < limit) : groupSize fetchSize chlen < limit := by
  unfold groupSize
  rcases Nat.le_total (fetchSize / chlen) 1 with hle | hle
  · rw [Nat.max_eq_right hle, Nat.one_mul]
    exact hchlen
  · rw [Nat.max_eq_left hle]
    exact Nat.lt_of_le_of_lt (Nat.div_mul_le_self _ _) hfetch

theorem normalizeBlockSize_lt {chlen : ℕ} (h : chlen < wordLimit) :
    normalizeBlockSize chlen < wordLimit := by
  unfold normalizeBlockSize
  split_ifs
  · decide
  · exact h

/-- `single_memory`, or `dual_hybrid` -/
def FoyerCache.new (chlen fetchSize readahead : ℕ) (dual : Bool)
    (sources : ℕ → Option Source) (hchlen : chlen < wordLimit)
    (hfetch : fetchSize < wordLimit) : FoyerCache where
  chlen := normalizeBlockSize chlen
  fetchSize := groupSize fetchSize (normalizeBlockSize chlen)
  readahead := readahead
  dual := dual
  sources := sources
  chlen_pos := normalizeBlockSize_pos chlen
  fetchSize_eq := groupSize_groupSize (normalizeBlockSize_pos chlen)
  fetchSize_lt := groupSize_lt hfetch (normalizeBlockSize_lt hchlen)

/-! ## The shared state -/

/-- A finished read of a source. -/
structure Get where
  idx : ℕ
  beg : ℕ
  end_ : ℕ
  outcome : ReadOutcome
  deriving DecidableEq, Repr

/-- A call of `route_block` on a cache with two tiers, and the phase it saw. -/
structure Routed where
  key : Key
  prefetch : Bool
  regular : Bool
  deriving DecidableEq, Repr

/-- What the threads share.  `gets` and `routed` are a history. -/
structure CacheState where
  stored : Tier → Key → Option Bytes
  regularPhase : Bool
  groups : GroupLatch
  gets : List Get
  routed : List Routed

namespace CacheState

def empty (regularPhase : Bool) : CacheState :=
  ⟨fun _ _ => none, regularPhase, .new, [], []⟩

def set (tier : Tier) (key : Key) (entry : Option Bytes) (s : CacheState) :
    CacheState :=
  { s with
    stored := Function.update s.stored tier
      (Function.update (s.stored tier) key entry) }

def insert (tier : Tier) (key : Key) (block : Bytes) (s : CacheState) :
    CacheState :=
  s.set tier key (some block)

def logGet (get : Get) (s : CacheState) : CacheState :=
  { s with gets := s.gets ++ [get] }

/-- `md.regular_phase.load(Ordering::Acquire)` -/
def loadPhase (key : Key) (prefetch : Bool) (s : CacheState) : CacheState :=
  { s with routed := s.routed ++ [⟨key, prefetch, s.regularPhase⟩] }

/-- The lookup in the latch, and the read which is started or joined. -/
def enter (key : GroupKey) (gend : ℕ) (s : CacheState) : CacheState :=
  { s with
    groups :=
      match s.groups.inflight key with
      | some f => s.groups.joinFetch key f
      | none => s.groups.startFetch key gend }

/-- The future which a caller gets, and whether it has created it. -/
def future (key : GroupKey) (s : CacheState) : ℕ × Bool :=
  match s.groups.inflight key with
  | some f => (f, false)
  | none => (s.groups.fetches.length, true)

/-- The read of the source in a shared future ends. -/
def poll (source : Source) (f n : ℕ) (s : CacheState) : CacheState :=
  match s.groups.fetches[f]? with
  | some fetch =>
      if fetch.status = .reading then
        let outcome := source.answer n fetch.key.2 fetch.gend
        { s with
          groups := s.groups.finishRead f fetch outcome
          gets := s.gets ++ [⟨fetch.key.1, fetch.key.2, fetch.gend, outcome⟩] }
      else s
  | none => s

def retire (f : ℕ) (s : CacheState) : CacheState :=
  match s.groups.fetches[f]? with
  | some fetch =>
      match fetch.status with
      | .read result => { s with groups := s.groups.retire f fetch result }
      | _ => s
  | none => s

def resultOf (f : ℕ) (s : CacheState) : Option GroupResult :=
  match s.groups.fetches[f]? with
  | some fetch =>
      match fetch.status with
      | .retired result => some result
      | _ => none
  | none => none

def wake (c : ℕ) (s : CacheState) : CacheState :=
  match s.groups.callers[c]? with
  | some caller =>
      match caller.result, s.resultOf caller.fetch with
      | none, some result => { s with groups := s.groups.wake c caller result }
      | _, _ => s
  | none => s

end CacheState

/-- `foyer` and the phase flag, from outside. -/
inductive Env : CacheState → CacheState → Prop
  | evict {s : CacheState} (tier : Tier) (key : Key) :
      Env s (s.set tier key none)
  | phase {s : CacheState} (regular : Bool) :
      Env s { s with regularPhase := regular }

abbrev Task := Thread CacheState

/-! ## Fetching -/

/-- `(beg..end).step_by(step)` -/
def blockOffs (beg end_ step : ℕ) : List ℕ :=
  (List.range ((end_ - beg + (step - 1)) / step)).map fun i => beg + i * step

/-- `cache.get(&key)` -/
def lookup (tier : Tier) (key : Key) : Task (Option Bytes) :=
  .atomic id fun s => .done (s.stored tier key)

def fetchRange (source : Source) (idx gbeg gend : ℕ) : Task ReadOutcome :=
  .choose fun n =>
    let outcome := source.answer n gbeg gend
    .atomic (·.logGet ⟨idx, gbeg, gend, outcome⟩) fun _ => .done outcome

/-- `GroupLatch::fetch`.  Whoever waits for the shared future drives it. -/
def groupFetch (source : Source) (key : GroupKey) (gend : ℕ) :
    Task (Option GroupResult × Bool) :=
  .atomic (·.enter key gend) fun s =>
    let (f, owner) := s.future key
    .choose fun n => .atomic (·.poll source f n) fun _ =>
      .atomic (·.retire f) fun _ =>
        .atomic (·.wake s.groups.callers.length) fun s' =>
          .done (s'.resultOf f, owner)

namespace FoyerCache

variable (cache : FoyerCache) (build : Build)

/-- The group of a block. -/
def groupRange (choff end_ : ℕ) : Outcome CacheError (ℕ × ℕ) := do
  let group := groupSize cache.fetchSize cache.chlen
  let gbeg := choff / group * group
  let next ← build.add gbeg group
  pure (gbeg, min next end_)

/-- The block of a group of one, without what a source may have returned
beyond it. -/
def wholeBlock (idx choff gbeg gend : ℕ) (bytes : Bytes) :
    Outcome CacheError Bytes := do
  let want ← build.sub gend gbeg
  if bytes.length < want then
    .error (.shortRead idx choff cache.chlen bytes.length)
  else pure (bytes.take want)

/-- The bounds of a block within the bytes of its group. -/
def blockBounds (gbeg gend boff : ℕ) : Outcome CacheError (ℕ × ℕ) := do
  let beg ← build.sub boff gbeg
  let next ← build.add boff cache.chlen
  let end_ ← build.sub (min next gend) gbeg
  pure (beg, end_)

/-- Cut the bytes of a group into its blocks: the demanded one is returned,
and the owner of the read puts the others into the sink. -/
def cutGroup (sink : Tier) (idx choff gbeg gend : ℕ) (bytes : Bytes)
    (owner : Bool) :
    List ℕ → Option Bytes → Task (Outcome CacheError (Option Bytes))
  | [], demanded => .done (.ok demanded)
  | boff :: rest, demanded =>
      Thread.goOn (cache.blockBounds build gbeg gend boff) fun (beg, end_) =>
        -- a short read truncates the group
        if bytes.length < end_ then .done (.ok demanded)
        else if boff = choff then
          Thread.goOn (Slice.range bytes beg end_) fun block =>
            cutGroup sink idx choff gbeg gend bytes owner rest (some block)
        else if owner then
          Thread.goOn (Slice.range bytes beg end_) fun block =>
            .atomic (·.insert sink (idx, boff) block) fun _ =>
              cutGroup sink idx choff gbeg gend bytes owner rest demanded
        else cutGroup sink idx choff gbeg gend bytes owner rest demanded

/-- What is left of a fetch once the bytes of the group are there. -/
def demandedBlock (sink : Tier) (idx choff gbeg gend : ℕ) (bytes : Bytes)
    (owner : Bool) : Task (Outcome CacheError Bytes) :=
  Thread.attempt
    (cache.cutGroup build sink idx choff gbeg gend bytes owner
      (blockOffs gbeg gend cache.chlen) none)
    fun demanded =>
      match demanded with
      | some block => .done (.ok block)
      | none => .done (.error (.shortRead idx choff cache.chlen bytes.length))

/-- The closure that `make_fetch` makes, and its future. -/
def makeFetch (idx choff : ℕ) (source : Source) (sink : Tier) :
    Task (Outcome CacheError Bytes) :=
  Thread.goOn (cache.groupRange build choff source.end_) fun (gbeg, gend) =>
    if groupSize cache.fetchSize cache.chlen = cache.chlen then
      (fetchRange source idx gbeg gend).bind fun outcome =>
        match outcome with
        | .ok bytes => .done (cache.wholeBlock build idx choff gbeg gend bytes)
        | .error code => .done (.error (.fetch (.source code)))
        | .panic => .done (.error .taskPanicked)
    else
      (groupFetch source (idx, gbeg) gend).bind fun (result, owner) =>
        match result with
        | some (.ok bytes) =>
            cache.demandedBlock build sink idx choff gbeg gend bytes owner
        | some (.error e) => .done (.error (.fetch e))
        | none => .done .hang

end FoyerCache

/-- A fetch runs in a task of its own, whose panic is an error of the call. -/
def caught : Outcome CacheError Bytes → Outcome CacheError Bytes
  | .panic _ => .error .taskPanicked
  | r => r

/-- `cache.get_or_fetch(&key, fetch)`.  A call which finds another fetch of its
key going on looks up the entry when that one is over. -/
def getOrFetch (tier : Tier) (key : Key)
    (fetch : Task (Outcome CacheError Bytes)) : Task (Outcome CacheError Bytes) :=
  (lookup tier key).bind fun entry =>
    match entry with
    | some block => .done (.ok block)
    | none =>
        Thread.attempt (fetch.bind fun r => .done (caught r)) fun block =>
          .atomic (·.insert tier key block) fun _ => .done (.ok block)

namespace FoyerCache

variable (cache : FoyerCache) (build : Build)

/-- `get_or_fetch`, of a block which was not there. -/
def fetchInto (tier : Tier) (idx choff : ℕ) (source : Source) :
    Task (Outcome CacheError (Bytes × Bool)) :=
  Thread.attempt
    (getOrFetch tier (idx, choff) (cache.makeFetch build idx choff source .content))
    fun entry => .done (.ok (entry, true))

/-- Resolve one block: the block, and whether it had to be fetched. -/
def routeBlock (idx choff : ℕ) (source : Source) (prefetch : Bool) :
    Task (Outcome CacheError (Bytes × Bool)) :=
  if cache.dual then
    .atomic (·.loadPhase (idx, choff) prefetch) fun s =>
      (lookup .metadata (idx, choff)).bind fun entry =>
        match entry with
        | some entry => .done (.ok (entry, false))
        | none =>
            (lookup .content (idx, choff)).bind fun entry =>
              match entry with
              | some entry =>
                  if s.regularPhase then .done (.ok (entry, false))
                  else
                    -- a sibling that is now demanded is promoted
                    .atomic (·.insert .metadata (idx, choff) entry) fun _ =>
                      .done (.ok (entry, false))
              | none =>
                  if s.regularPhase then cache.fetchInto build .content idx choff source
                  else cache.fetchInto build .metadata idx choff source
  else
    (lookup .content (idx, choff)).bind fun entry =>
      match entry with
      | some entry => .done (.ok (entry, false))
      | none => cache.fetchInto build .content idx choff source

/-- Whether either tier already holds a block. -/
def contains (key : Key) : Task Bool :=
  (lookup .content key).bind fun entry =>
    if entry.isSome then .done true
    else if cache.dual then
      (lookup .metadata key).bind fun entry => .done entry.isSome
    else .done false

end FoyerCache

/-! ## Reading -/

/-- Copy the requested range out of a single block. -/
def fillFromBlock (build : Build) (buf : Bytes) (off choff : ℕ) (ch : Bytes)
    (idx : ℕ) : Outcome CacheError Bytes := do
  let chbeg ← build.sub off choff
  let chend ← build.add chbeg buf.length
  if ch.length < chend then
    .error (.shortRead idx off buf.length (ch.length - chbeg))
  else
    let src ← Slice.range ch chbeg chend
    Slice.copyFrom buf src

/-- Fill the buffer from one block after the other.  `bbeg` bytes of it are
filled. -/
def copyBlocks (build : Build) (idx off : ℕ) :
    List (ℕ × Bytes) → ℕ → Bytes → Outcome CacheError (ℕ × Bytes)
  | [], bbeg, buf => .ok (bbeg, buf)
  | (choff, ch) :: rest, bbeg, buf => do
      let pos ← build.add off bbeg
      if pos < choff then .error (.shortRead idx off buf.length bbeg)
      else
        let chbeg ← build.sub pos choff
        let left ← build.sub buf.length bbeg
        let stop ← build.add chbeg left
        let chend := min stop ch.length
        if chend < chbeg then .error (.shortRead idx off buf.length bbeg)
        else
          let n ← build.sub chend chbeg
          let bend ← build.add bbeg n
          let dst ← Slice.range buf bbeg bend
          let src ← Slice.range ch chbeg chend
          let piece ← Slice.copyFrom dst src
          copyBlocks build idx off rest bend
            (buf.take bbeg ++ piece ++ buf.drop bend)

/-- The buffer of a read of several blocks. -/
def fillFromBlocks (build : Build) (buf : Bytes) (off : ℕ)
    (chunks : List (ℕ × Bytes)) (idx : ℕ) : Outcome CacheError Bytes := do
  let (bbeg, out) ← copyBlocks build idx off chunks 0 buf
  if bbeg ≠ buf.length then .error (.shortRead idx off buf.length bbeg)
  else pure out

/-- `csend.div_ceil(chlen) * chlen`, and the end of the window after it -/
def readaheadBlockRange (build : Build) (csend chlen readahead end_ : ℕ) :
    Outcome CacheError (ℕ × ℕ) := do
  let beg ← build.mul ((csend + (chlen - 1)) / chlen) chlen
  let len ← build.mul readahead chlen
  let raend ← build.add beg len
  pure (beg, min raend end_)

/-- The arguments of a read, as words. -/
structure ReadCall where
  idx : ℕ
  off : ℕ
  buf : Bytes
  off_lt : off < wordLimit
  length_lt : buf.length < wordLimit

namespace FoyerCache

variable (cache : FoyerCache) (build : Build)

/-- The first block of a read in each of its groups. -/
def leaders (csbeg csend : ℕ) : List ℕ :=
  (blockOffs csbeg csend cache.chlen).filter fun choff =>
    choff = max (choff / cache.fetchSize * cache.fetchSize) csbeg

/-- Several blocks side by side: the filled buffer, and whether one of the
blocks was missing. -/
def readMany (idx off : ℕ) (source : Source) (offs : List ℕ) (buf : Bytes) :
    Task (Outcome CacheError (Bytes × Bool)) :=
  Thread.attempt
    (Thread.tryJoinAll
      (offs.map fun choff => cache.routeBlock build idx choff source false))
    fun chunks =>
      Thread.goOn
        (fillFromBlocks build buf off (offs.zip (chunks.map Prod.fst)) idx)
        fun out => .done (.ok (out, chunks.any Prod.snd))

/-- The demand part of a read: the filled buffer and the miss flag. -/
def readBlocks (idx off : ℕ) (source : Source) (csbeg csend : ℕ) (buf : Bytes) :
    Task (Outcome CacheError (Bytes × Bool)) :=
  match blockOffs csbeg csend cache.chlen with
  | [choff] =>
      Thread.attempt (cache.routeBlock build idx choff source false)
        fun (ch, missed) =>
          Thread.goOn (fillFromBlock build buf off choff ch idx) fun out =>
            .done (.ok (out, missed))
  | offs =>
      if cache.chlen < cache.fetchSize then
        -- one block of each group first; its errors come up again below
        (Thread.tryJoinAll ((cache.leaders csbeg csend).map fun choff =>
          cache.routeBlock build idx choff source false)).bind fun _ =>
            cache.readMany build idx off source offs buf
      else cache.readMany build idx off source offs buf

/-- Enqueue one prefetch for each group of the window which has a block that is
not held, as long as there is a permit: the blocks asked for. -/
def prefetchAfter (idx : ℕ) (source : Source) :
    List ℕ → Option ℕ → Task (List ℕ)
  | [], _ => .done []
  | choff :: rest, lastGroup =>
      (cache.contains (idx, choff)).bind fun held =>
        let gbeg := choff / cache.fetchSize * cache.fetchSize
        if held ∨ lastGroup = some gbeg then
          prefetchAfter idx source rest lastGroup
        else .choose fun permit =>
          if permit = 0 then .done []
          else
            .spawn (cache.routeBlock build idx choff source true)
              ((prefetchAfter idx source rest (some gbeg)).bind fun prefetched =>
                .done (choff :: prefetched))

/-- The buffer after a read, and the miss flag of its trace. -/
def read (call : ReadCall) : Task (Outcome CacheError (Bytes × Bool)) :=
  match cache.sources call.idx with
  | none => .done (.error (.unregistered call.idx))
  | some source =>
      let csbeg := call.off / cache.chlen * cache.chlen
      Thread.goOn (build.add call.off call.buf.length) fun csend =>
        Thread.goOn
          (readaheadBlockRange build csend cache.chlen cache.readahead source.end_)
          fun (rabeg, raend) =>
            Thread.attempt
              (cache.readBlocks build call.idx call.off source csbeg csend call.buf)
              fun r =>
                (cache.prefetchAfter build call.idx source
                  (blockOffs rabeg raend cache.chlen) none).bind fun _ =>
                    .done (.ok r)

/-- Reads of a cache, from its creation on, with their prefetches, the
evictions and the flips of the phase, in any order of their steps. -/
def Runs (regularPhase : Bool)
    (pool : Pool ReadCall CacheState (Outcome CacheError (Bytes × Bool))) : Prop :=
  Pool.Steps (cache.read build) Env (.start (.empty regularPhase)) pool

end FoyerCache

end Foyer
end ImageReader
