import ImageReader.FoyerLatch
import ImageReader.Semaphore

/-!
# The fetch limiter

Reads of a backing store need a permit.  A demand read asks for one when its
future is first polled, and waits in a queue; a prefetch takes one only if one
is free, before it looks for its block, and brings it along to the read, or
hands it back when there is nothing to read or another call already reads.

`Limits` is what the permits see of it: the semaphore, the prefetches which have
a permit and no read yet, and the calls of `fetch_range`.  `Fetching` has the
group latch beside it.  The semaphore is any lawful one.
-/

namespace ImageReader
namespace Foyer

/-- The permits of `FetchLimiter::new`. -/
def limiterPermits (maxInflight : ℕ) : ℕ :=
  if maxInflight = 0 then 1 else maxInflight

/-- A call of `fetch_range`: the shared future it is the read of, if it is not
the read of a single block, and the ticket of its permit. -/
structure RangeRead where
  fetch : Option ℕ
  ticket : Option ℕ
  ended : Bool
  deriving DecidableEq, Repr

/-- The ticket of a read which goes on. -/
def RangeRead.liveTicket (read : RangeRead) : Option ℕ :=
  if read.ended then none else read.ticket

structure Limits (σ : Type) where
  semaphore : σ
  /-- the number of requests which were made, and the ticket of the next -/
  issued : ℕ
  /-- the tickets of the prefetches between `try_permit` and their fetch -/
  prefetches : List ℕ
  reads : List RangeRead
  deriving DecidableEq, Repr

variable {σ : Type}

namespace Limits

section Operations

variable (sem : Semaphore σ)

def new (permits : ℕ) : Limits σ := ⟨sem.new permits, 0, [], []⟩

/-- `try_permit()`, which has got the permit -/
def tryPermit (s : Limits σ) (semaphore : σ) : Limits σ :=
  { s with
    semaphore
    issued := s.issued + 1
    prefetches := s.issued :: s.prefetches }

/-- A prefetch hands its permit back. -/
def dropPermit (s : Limits σ) (ticket : ℕ) : Limits σ :=
  { s with
    semaphore := sem.release s.semaphore ticket
    prefetches := s.prefetches.erase ticket }

/-- `fetch_range(.., Some(permit))` -/
def readWith (s : Limits σ) (fetch : Option ℕ) (ticket : ℕ) : Limits σ :=
  { s with
    prefetches := s.prefetches.erase ticket
    reads := s.reads ++ [⟨fetch, some ticket, false⟩] }

/-- `fetch_range(.., None)`, which has not been polled yet -/
def readWithout (s : Limits σ) (fetch : Option ℕ) : Limits σ :=
  { s with reads := s.reads ++ [⟨fetch, none, false⟩] }

/-- `semaphore.acquire()` of `FetchLimiter::run` -/
def acquire (s : Limits σ) (r : ℕ) (read : RangeRead) : Limits σ :=
  { s with
    semaphore := sem.acquire s.semaphore s.issued
    issued := s.issued + 1
    reads := s.reads.set r { read with ticket := some s.issued } }

/-- The read of the source is over, and `_permit` goes out of scope. -/
def finish (s : Limits σ) (r : ℕ) (read : RangeRead) (ticket : ℕ) : Limits σ :=
  { s with
    semaphore := sem.release s.semaphore ticket
    reads := s.reads.set r { read with ended := true } }

inductive Step : Limits σ → Limits σ → Prop
  | tryPermit {s : Limits σ} {semaphore : σ}
      (htry : sem.tryAcquire s.semaphore s.issued = some semaphore) :
      Step s (s.tryPermit semaphore)
  | dropPermit {s : Limits σ} {ticket : ℕ} (hmem : ticket ∈ s.prefetches) :
      Step s (s.dropPermit sem ticket)
  | readWith {s : Limits σ} {ticket : ℕ} (fetch : Option ℕ)
      (hmem : ticket ∈ s.prefetches) : Step s (s.readWith fetch ticket)
  | readWithout {s : Limits σ} (fetch : Option ℕ) :
      Step s (s.readWithout fetch)
  | acquire {s : Limits σ} {r : ℕ} {read : RangeRead}
      (hread : s.reads[r]? = some read) (hgoing : read.ended = false)
      (hticket : read.ticket = none) : Step s (s.acquire sem r read)
  | finish {s : Limits σ} {r ticket : ℕ} {read : RangeRead}
      (hread : s.reads[r]? = some read) (hgoing : read.ended = false)
      (hticket : read.ticket = some ticket)
      (hheld : ticket ∈ sem.held s.semaphore) :
      Step s (s.finish sem r read ticket)

/-- The tickets of the reads which go on. -/
def tickets (s : Limits σ) : List ℕ := s.reads.filterMap RangeRead.liveTicket

/-- The reads of the backing store which are going on. -/
def inFlight (s : Limits σ) : List RangeRead :=
  s.reads.filter fun read =>
    match read.liveTicket with
    | some ticket => ticket ∈ sem.held s.semaphore
    | none => false

/-- Each ticket belongs to a prefetch or to a read. -/
structure Good (permits : ℕ) (s : Limits σ) : Prop where
  fair : sem.Fair permits s.issued s.semaphore
  owned : ∀ ticket, s.prefetches.count ticket + s.tickets.count ticket =
    (sem.held s.semaphore).count ticket +
      (sem.waiting s.semaphore).count ticket
  prefetches : ∀ ticket ∈ s.prefetches, ticket ∈ sem.held s.semaphore

end Operations

variable {sem : Semaphore σ} {permits : ℕ} {s s' : Limits σ} {r ticket : ℕ}
  {read : RangeRead}

theorem good_new (laws : sem.Lawful) (permits : ℕ) :
    (new sem permits).Good sem permits where
  fair := laws.fair_new permits
  owned := by
    intro ticket
    simp only [new, tickets, laws.held_new, laws.waiting_new]
    rfl
  prefetches := fun _ h => by simp [new] at h

theorem count_filterMap_cons (g : RangeRead → Option ℕ) (first : RangeRead)
    (rest : List RangeRead) (n : ℕ) :
    ((first :: rest).filterMap g).count n =
      (g first).toList.count n + (rest.filterMap g).count n := by
  rw [List.filterMap_cons]
  cases g first with
  | none => simp
  | some other => simp [List.count_cons, Nat.add_comm]

theorem count_filterMap_set (g : RangeRead → Option ℕ)
    {reads : List RangeRead} {read' : RangeRead}
    (hread : reads[r]? = some read) (n : ℕ) :
    ((reads.set r read').filterMap g).count n + (g read).toList.count n =
      (reads.filterMap g).count n + (g read').toList.count n := by
  induction reads generalizing r with
  | nil => simp at hread
  | cons first rest ih =>
      cases r with
      | zero =>
          obtain rfl : first = read := by simpa using hread
          rw [List.set_cons_zero, count_filterMap_cons, count_filterMap_cons]
          omega
      | succ r =>
          rw [List.getElem?_cons_succ] at hread
          have := ih hread
          rw [List.set_cons_succ, count_filterMap_cons, count_filterMap_cons]
          omega

/-! ## What a step keeps -/

theorem Good.tryPermit (laws : sem.Lawful) (h : s.Good sem permits)
    {semaphore : σ}
    (htry : sem.tryAcquire s.semaphore s.issued = some semaphore) :
    (s.tryPermit semaphore).Good sem permits := by
  have hgrants := laws.tryAcquire_eq_some htry
  refine ⟨h.fair.grants hgrants, ?_, ?_⟩
  · intro ticket
    have howned := h.owned ticket
    have hgrant := hgrants.count ticket
    simp only [Limits.tryPermit, tickets] at howned ⊢
    rw [← List.singleton_append, List.count_append]
    omega
  · intro ticket hmem
    apply hgrants.held.mem_iff.mpr
    rcases List.mem_cons.mp hmem with rfl | hold
    · exact List.mem_cons_self
    · exact List.mem_cons_of_mem _ (h.prefetches ticket hold)

/-- A prefetch has the only trace of its ticket. -/
theorem Good.count_prefetch (h : s.Good sem permits)
    (hmem : ticket ∈ s.prefetches) :
    s.prefetches.count ticket = 1 ∧ s.tickets.count ticket = 0 := by
  have hheld := h.prefetches ticket hmem
  have howned := h.owned ticket
  have hcount := List.count_eq_one_of_mem h.fair.nodup hheld
  have hwaiting : (sem.waiting s.semaphore).count ticket = 0 := by
    rw [List.count_eq_zero]
    intro hwaits
    exact absurd (h.fair.before ticket hheld ticket hwaits) (lt_irrefl _)
  have hpos := List.count_pos_iff.mpr hmem
  omega

theorem Good.ne_of_mem_erase (h : s.Good sem permits)
    (hmem : ticket ∈ s.prefetches) {other : ℕ}
    (hother : other ∈ s.prefetches.erase ticket) : other ≠ ticket := by
  rintro rfl
  have hcount := Semaphore.count_erase_add hmem other
  have hpos := List.count_pos_iff.mpr hother
  have := (h.count_prefetch hmem).1
  simp only [List.count_singleton_self] at hcount
  omega

theorem Good.dropPermit (laws : sem.Lawful) (h : s.Good sem permits)
    (hmem : ticket ∈ s.prefetches) :
    (s.dropPermit sem ticket).Good sem permits := by
  have hheld := h.prefetches ticket hmem
  refine ⟨laws.fair_release h.fair hheld, ?_, ?_⟩
  · intro other
    have howned := h.owned other
    have hrelease := laws.count_release hheld other
    have herase := Semaphore.count_erase_add hmem other
    simp only [Limits.dropPermit, tickets] at howned ⊢
    omega
  · intro other hother
    exact laws.mem_held_release hheld
      (h.prefetches other (List.mem_of_mem_erase hother))
      (h.ne_of_mem_erase hmem hother)

theorem Good.readWith (h : s.Good sem permits) (fetch : Option ℕ)
    (hmem : ticket ∈ s.prefetches) :
    (s.readWith fetch ticket).Good sem permits := by
  refine ⟨h.fair, ?_, ?_⟩
  · intro other
    have howned := h.owned other
    have herase := Semaphore.count_erase_add hmem other
    have hnew : ([⟨fetch, some ticket, false⟩] : List RangeRead).filterMap
        RangeRead.liveTicket = [ticket] := rfl
    simp only [Limits.readWith, tickets] at howned ⊢
    rw [List.filterMap_append, hnew, List.count_append]
    omega
  · intro other hother
    exact h.prefetches other (List.mem_of_mem_erase hother)

theorem Good.readWithout (h : s.Good sem permits) (fetch : Option ℕ) :
    (s.readWithout fetch).Good sem permits := by
  refine ⟨h.fair, ?_, h.prefetches⟩
  intro other
  have howned := h.owned other
  have hnew : ([⟨fetch, none, false⟩] : List RangeRead).filterMap
      RangeRead.liveTicket = [] := rfl
  simp only [Limits.readWithout, tickets] at howned ⊢
  rw [List.filterMap_append, hnew, List.append_nil]
  exact howned

theorem liveTicket_of_going (hgoing : read.ended = false) :
    read.liveTicket = read.ticket := by
  unfold RangeRead.liveTicket
  rw [hgoing]
  rfl

theorem Good.acquire (laws : sem.Lawful) (h : s.Good sem permits)
    (hread : s.reads[r]? = some read) (hgoing : read.ended = false)
    (hticket : read.ticket = none) :
    (s.acquire sem r read).Good sem permits := by
  refine ⟨laws.fair_acquire h.fair, ?_, ?_⟩
  · intro other
    have howned := h.owned other
    have hacquire := laws.count_acquire s.semaphore s.issued other
    have hset := @count_filterMap_set r read RangeRead.liveTicket s.reads
      { read with ticket := some s.issued } hread other
    rw [liveTicket_of_going hgoing, hticket,
      liveTicket_of_going (by exact hgoing)] at hset
    simp only [Option.toList, List.count_nil] at hset
    simp only [Limits.acquire, tickets] at howned ⊢
    omega
  · intro other hother
    exact laws.mem_held_acquire (h.prefetches other hother)

/-- A read has the only trace of its ticket. -/
theorem Good.not_mem_prefetches (h : s.Good sem permits)
    (hread : s.reads[r]? = some read) (hgoing : read.ended = false)
    (hticket : read.ticket = some ticket) : ticket ∉ s.prefetches := by
  intro hmem
  have hzero := (h.count_prefetch hmem).2
  rw [List.count_eq_zero] at hzero
  refine hzero (List.mem_filterMap.mpr
    ⟨read, List.mem_of_getElem? hread, ?_⟩)
  rw [liveTicket_of_going hgoing, hticket]

theorem Good.finish (laws : sem.Lawful) (h : s.Good sem permits)
    (hread : s.reads[r]? = some read) (hgoing : read.ended = false)
    (hticket : read.ticket = some ticket)
    (hheld : ticket ∈ sem.held s.semaphore) :
    (s.finish sem r read ticket).Good sem permits := by
  refine ⟨laws.fair_release h.fair hheld, ?_, ?_⟩
  · intro other
    have howned := h.owned other
    have hrelease := laws.count_release hheld other
    have hset := @count_filterMap_set r read RangeRead.liveTicket s.reads
      { read with ended := true } hread other
    have hlive : read.liveTicket = some ticket := by
      rw [liveTicket_of_going hgoing, hticket]
    rw [hlive,
      show RangeRead.liveTicket { read with ended := true } = none from rfl]
      at hset
    simp only [Option.toList, List.count_nil] at hset
    simp only [Limits.finish, tickets] at howned ⊢
    omega
  · intro other hother
    refine laws.mem_held_release hheld (h.prefetches other hother) ?_
    rintro rfl
    exact h.not_mem_prefetches hread hgoing hticket hother

theorem Step.good (laws : sem.Lawful) (hstep : Step sem s s')
    (h : s.Good sem permits) : s'.Good sem permits := by
  cases hstep with
  | tryPermit htry => exact h.tryPermit laws htry
  | dropPermit hmem => exact h.dropPermit laws hmem
  | readWith fetch hmem => exact h.readWith fetch hmem
  | readWithout fetch => exact h.readWithout fetch
  | acquire hread hgoing hticket => exact h.acquire laws hread hgoing hticket
  | finish hread hgoing hticket hheld =>
      exact h.finish laws hread hgoing hticket hheld

open Relation (ReflTransGen) in
theorem good_of_steps (laws : sem.Lawful) (h : s.Good sem permits)
    (hsteps : ReflTransGen (Step sem) s s') : s'.Good sem permits := by
  induction hsteps with
  | refl => exact h
  | tail _ hstep ih => exact hstep.good laws ih

/-! ## What is in flight -/

theorem Good.perm (h : s.Good sem permits) :
    (s.prefetches ++ s.tickets).Perm
      (sem.held s.semaphore ++ sem.waiting s.semaphore) := by
  rw [List.perm_iff_count]
  intro ticket
  rw [List.count_append, List.count_append]
  exact h.owned ticket

theorem length_filter_tickets (reads : List RangeRead) (held : List ℕ) :
    ((reads.filterMap RangeRead.liveTicket).filter (· ∈ held)).length =
      (reads.filter fun read =>
        match read.liveTicket with
        | some ticket => ticket ∈ held
        | none => false).length := by
  induction reads with
  | nil => rfl
  | cons first rest ih =>
      rw [List.filterMap_cons, List.filter_cons]
      cases first.liveTicket with
      | none => exact ih
      | some ticket =>
          simp only [List.filter_cons]
          split_ifs
          · rw [List.length_cons, List.length_cons, ih]
          · exact ih

/-- Every permit is free, or with a prefetch, or with a read in flight. -/
theorem Good.permits_eq (h : s.Good sem permits) :
    sem.available s.semaphore + s.prefetches.length +
      (s.inFlight sem).length = permits := by
  have hperm := h.perm.filter (· ∈ sem.held s.semaphore)
  have hlength := hperm.length_eq
  have hprefetches : s.prefetches.filter (· ∈ sem.held s.semaphore) =
      s.prefetches :=
    List.filter_eq_self.mpr fun ticket hmem =>
      decide_eq_true (h.prefetches ticket hmem)
  have hheld : (sem.held s.semaphore).filter (· ∈ sem.held s.semaphore) =
      sem.held s.semaphore :=
    List.filter_eq_self.mpr fun ticket hmem => decide_eq_true hmem
  have hwaiting : (sem.waiting s.semaphore).filter
      (· ∈ sem.held s.semaphore) = [] := by
    rw [List.filter_eq_nil_iff]
    intro ticket hwaits
    rw [decide_eq_true_eq]
    intro hmem
    exact absurd (h.fair.before ticket hmem ticket hwaits) (lt_irrefl _)
  rw [List.filter_append, List.filter_append, hprefetches, hheld, hwaiting,
    List.append_nil, List.length_append, tickets, length_filter_tickets]
    at hlength
  have hcount := h.fair.count
  unfold inFlight
  omega

/-- A ticket which is not a prefetch's is that of a read which goes on. -/
theorem Good.exists_read (h : s.Good sem permits)
    (hlive : sem.Live s.semaphore ticket) (hnot : ticket ∉ s.prefetches) :
    ∃ (r : ℕ) (read : RangeRead), s.reads[r]? = some read ∧
      read.ended = false ∧ read.ticket = some ticket := by
  have howned := h.owned ticket
  have hzero := List.count_eq_zero.mpr hnot
  have hpos : 0 < s.tickets.count ticket := by
    rcases hlive with hmem | hmem <;>
      have := List.count_pos_iff.mpr hmem <;> omega
  obtain ⟨read, hmem, hticket⟩ :=
    List.mem_filterMap.mp (List.count_pos_iff.mp hpos)
  obtain ⟨r, hread⟩ := List.mem_iff_getElem?.mp hmem
  unfold RangeRead.liveTicket at hticket
  split_ifs at hticket with hended
  exact ⟨r, read, hread, by simpa using hended, hticket⟩

end Limits

/-! ## With the group latch -/

/-- A fetch of several blocks goes through the latch, one of a single block
does not. -/
structure Fetching (σ : Type) where
  limits : Limits σ
  latch : GroupLatch

namespace Fetching

section Steps

variable (sem : Semaphore σ)

def new (permits : ℕ) : Fetching σ := ⟨.new sem permits, .new⟩

/-- A call comes in. -/
inductive Arrival : Fetching σ → Fetching σ → Prop
  | tryPermit {s : Fetching σ} {semaphore : σ}
      (htry : sem.tryAcquire s.limits.semaphore s.limits.issued =
        some semaphore) :
      Arrival s { s with limits := s.limits.tryPermit semaphore }
  | direct {s : Fetching σ} :
      Arrival s { s with limits := s.limits.readWithout none }
  | join {s : Fetching σ} {key : GroupKey} {f : ℕ}
      (hinflight : s.latch.inflight key = some f) :
      Arrival s { s with latch := s.latch.joinFetch key f }
  | start {s : Fetching σ} {key : GroupKey} {gend : ℕ}
      (hinflight : s.latch.inflight key = none) :
      Arrival s ⟨s.limits.readWithout (some s.latch.fetches.length),
        s.latch.startFetch key gend⟩

/-- A call goes on. -/
inductive Advance : Fetching σ → Fetching σ → Prop
  /-- the block is there, or foyer already fetches it -/
  | dropPermit {s : Fetching σ} {ticket : ℕ}
      (hmem : ticket ∈ s.limits.prefetches) :
      Advance s { s with limits := s.limits.dropPermit sem ticket }
  | prefetchDirect {s : Fetching σ} {ticket : ℕ}
      (hmem : ticket ∈ s.limits.prefetches) :
      Advance s { s with limits := s.limits.readWith none ticket }
  | prefetchJoin {s : Fetching σ} {ticket f : ℕ} {key : GroupKey}
      (hmem : ticket ∈ s.limits.prefetches)
      (hinflight : s.latch.inflight key = some f) :
      Advance s ⟨s.limits.dropPermit sem ticket, s.latch.joinFetch key f⟩
  | prefetchStart {s : Fetching σ} {ticket gend : ℕ} {key : GroupKey}
      (hmem : ticket ∈ s.limits.prefetches)
      (hinflight : s.latch.inflight key = none) :
      Advance s ⟨s.limits.readWith (some s.latch.fetches.length) ticket,
        s.latch.startFetch key gend⟩
  | acquire {s : Fetching σ} {r : ℕ} {read : RangeRead}
      (hread : s.limits.reads[r]? = some read) (hgoing : read.ended = false)
      (hticket : read.ticket = none) :
      Advance s { s with limits := s.limits.acquire sem r read }
  | finishDirect {s : Fetching σ} {r ticket : ℕ} {read : RangeRead}
      (hread : s.limits.reads[r]? = some read) (hgoing : read.ended = false)
      (hticket : read.ticket = some ticket)
      (hheld : ticket ∈ sem.held s.limits.semaphore)
      (hdirect : read.fetch = none) :
      Advance s { s with limits := s.limits.finish sem r read ticket }
  | finishShared {s : Fetching σ} {r ticket f : ℕ} {read : RangeRead}
      {fetch : Fetch} {outcome : ReadOutcome}
      (hread : s.limits.reads[r]? = some read) (hgoing : read.ended = false)
      (hticket : read.ticket = some ticket)
      (hheld : ticket ∈ sem.held s.limits.semaphore)
      (hshared : read.fetch = some f)
      (hfetch : s.latch.fetches[f]? = some fetch)
      (hstatus : fetch.status = .reading) :
      Advance s ⟨s.limits.finish sem r read ticket,
        s.latch.finishRead f fetch outcome⟩
  | retire {s : Fetching σ} {f : ℕ} {fetch : Fetch} {result : GroupResult}
      (hfetch : s.latch.fetches[f]? = some fetch)
      (hstatus : fetch.status = .read result) :
      Advance s { s with latch := s.latch.retire f fetch result }
  | wake {s : Fetching σ} {c : ℕ} {caller : LatchCaller} {fetch : Fetch}
      {result : GroupResult} (hcaller : s.latch.callers[c]? = some caller)
      (hwaits : caller.result = none)
      (hfetch : s.latch.fetches[caller.fetch]? = some fetch)
      (hstatus : fetch.status = .retired result) :
      Advance s { s with latch := s.latch.wake c caller result }

def Step (s s' : Fetching σ) : Prop := Arrival sem s s' ∨ Advance sem s s'

open Relation (ReflTransGen) in
def Reachable (permits : ℕ) (s : Fetching σ) : Prop :=
  ReflTransGen (Step sem) (new sem permits) s

end Steps

variable {sem : Semaphore σ} {permits : ℕ} {s s' : Fetching σ}

open Relation (ReflTransGen) in
/-- A step is one of the permits or none, and one of the latch or none. -/
theorem Step.parts (hstep : Step sem s s') :
    ReflTransGen (Limits.Step sem) s.limits s'.limits ∧
      GroupLatch.Steps s.latch s'.latch := by
  rcases hstep with harrival | hadvance
  · cases harrival with
    | tryPermit htry => exact ⟨.single (.tryPermit htry), .refl⟩
    | direct => exact ⟨.single (.readWithout _), .refl⟩
    | join hinflight => exact ⟨.refl, .single (.join hinflight)⟩
    | start hinflight =>
        exact ⟨.single (.readWithout _), .single (.start hinflight)⟩
  · cases hadvance with
    | dropPermit hmem => exact ⟨.single (.dropPermit hmem), .refl⟩
    | prefetchDirect hmem => exact ⟨.single (.readWith _ hmem), .refl⟩
    | prefetchJoin hmem hinflight =>
        exact ⟨.single (.dropPermit hmem), .single (.join hinflight)⟩
    | prefetchStart hmem hinflight =>
        exact ⟨.single (.readWith _ hmem), .single (.start hinflight)⟩
    | acquire hread hgoing hticket =>
        exact ⟨.single (.acquire hread hgoing hticket), .refl⟩
    | finishDirect hread hgoing hticket hheld _ =>
        exact ⟨.single (.finish hread hgoing hticket hheld), .refl⟩
    | finishShared hread hgoing hticket hheld _ hfetch hstatus =>
        exact ⟨.single (.finish hread hgoing hticket hheld),
          .single (.finish hfetch hstatus)⟩
    | retire hfetch hstatus => exact ⟨.refl, .single (.retire hfetch hstatus)⟩
    | wake hcaller hwaits hfetch hstatus =>
        exact ⟨.refl, .single (.wake hcaller hwaits hfetch hstatus)⟩

theorem Reachable.good (laws : sem.Lawful) (h : Reachable sem permits s) :
    s.limits.Good sem permits := by
  induction h with
  | refl => exact Limits.good_new laws permits
  | tail _ hstep ih => exact Limits.good_of_steps laws ih hstep.parts.1

theorem Reachable.latch (h : Reachable sem permits s) : s.latch.Reachable := by
  induction h with
  | refl => exact .refl
  | tail _ hstep ih => exact ih.trans hstep.parts.2

/-- What the permits hold down. -/
structure Permitted (sem : Semaphore σ) (permits : ℕ) (s : Fetching σ) :
    Prop where
  /-- each permit is free, or with a prefetch, or with a read of the backing
  store -/
  permits_eq : sem.available s.limits.semaphore +
    s.limits.prefetches.length + (s.limits.inFlight sem).length = permits
  /-- while a read waits, a prefetch gets nothing -/
  demand_first : sem.waiting s.limits.semaphore ≠ [] →
    sem.tryAcquire s.limits.semaphore s.limits.issued = none
  /-- who has a permit has asked for it before everybody who waits -/
  in_order : ∀ ticket ∈ sem.held s.limits.semaphore,
    ∀ later ∈ sem.waiting s.limits.semaphore, ticket < later
  waits : ∀ ticket ∈ sem.waiting s.limits.semaphore,
    ∃ (r : ℕ) (read : RangeRead), s.limits.reads[r]? = some read ∧
      read.ended = false ∧ read.ticket = some ticket
  /-- to the latch the limiter is nothing but a schedule -/
  latch : s.latch.Reachable

/-- However many calls there are, at most as many reads of the backing store go
on as there are permits; permits are given in the order of the requests, and no
prefetch gets one while a read waits. -/
theorem reachable_permitted (laws : sem.Lawful) {maxInflight : ℕ}
    (h : Reachable sem (limiterPermits maxInflight) s) :
    s.Permitted sem (limiterPermits maxInflight) where
  permits_eq := (h.good laws).permits_eq
  demand_first := fun hwaits =>
    laws.tryAcquire_none _ _ ((h.good laws).fair.none_free hwaits)
  in_order := (h.good laws).fair.before
  waits := by
    have hgood := h.good laws
    intro ticket hwaits
    refine hgood.exists_read (Or.inr hwaits) ?_
    intro hmem
    exact absurd (hgood.fair.before ticket (hgood.prefetches ticket hmem)
      ticket hwaits) (lt_irrefl _)
  latch := h.latch

/-- One permit: a read has it, another waits, and a third call has joined the
first. -/
def oneWaits : Fetching TicketQueue where
  limits := ⟨⟨0, [0], [1]⟩, 2, [],
    [⟨some 0, some 0, false⟩, ⟨some 1, some 1, false⟩]⟩
  latch := ((GroupLatch.new.startFetch (0, 0) 4).startFetch (0, 4) 8).joinFetch
    (0, 0) 0

theorem reachable_oneWaits :
    Reachable TicketQueue.semaphore (limiterPermits 0) oneWaits := by
  have hstarted : Reachable TicketQueue.semaphore (limiterPermits 0)
      ⟨⟨⟨1, [], []⟩, 0, [], [⟨some 0, none, false⟩, ⟨some 1, none, false⟩]⟩,
        (GroupLatch.new.startFetch (0, 0) 4).startFetch (0, 4) 8⟩ :=
    (Relation.ReflTransGen.single (.inl (.start rfl))).tail
      (.inl (.start rfl))
  exact ((hstarted.tail (.inr (.acquire (r := 0) rfl rfl rfl))).tail
    (.inr (.acquire (r := 1) rfl rfl rfl))).tail (.inl (.join rfl))

theorem reachable_permitted_oneWaits :
    oneWaits.Permitted TicketQueue.semaphore (limiterPermits 0) :=
  reachable_permitted TicketQueue.lawful reachable_oneWaits

end Fetching

end Foyer
end ImageReader
