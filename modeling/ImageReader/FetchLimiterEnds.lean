import ImageReader.Entries
import ImageReader.FetchLimiter

/-!
# The fetches come to an end

A prefetch with a permit waits for nobody, a read which waits for a permit
waits for others which have one, and a caller of the latch waits for a read.
So no call is stuck, also where one permit has to do for all of them; and each
step of a call which has come in brings it nearer to its end.
-/

namespace ImageReader
namespace Foyer

namespace Limits

def readWork (read : RangeRead) : ℕ :=
  if read.ended then 0 else if read.ticket = none then 3 else 2

theorem readWork_none {read : RangeRead} (hgoing : read.ended = false)
    (hticket : read.ticket = none) : readWork read = 3 := by
  simp [readWork, hgoing, hticket]

theorem readWork_some {read : RangeRead} {ticket : ℕ}
    (hgoing : read.ended = false) (hticket : read.ticket = some ticket) :
    readWork read = 2 := by
  simp [readWork, hgoing, hticket]

theorem readWork_ended (read : RangeRead) :
    readWork { read with ended := true } = 0 := rfl

end Limits

def fetchWork (fetch : Fetch) : ℕ :=
  match fetch.status with
  | .reading => 2
  | .read _ => 1
  | .retired _ => 0

def callerWork (caller : LatchCaller) : ℕ :=
  match caller.result with
  | none => 1
  | some _ => 0

namespace Fetching

variable {σ : Type} {sem : Semaphore σ} {permits : ℕ} {s s' : Fetching σ}

/-- Six for a permit of a prefetch, which may come to a read, a shared future
and a caller of the latch. -/
def work (s : Fetching σ) : ℕ :=
  6 * s.limits.prefetches.length + (s.limits.reads.map Limits.readWork).sum +
    (s.latch.fetches.map fetchWork).sum + (s.latch.callers.map callerWork).sum

theorem length_erase_lt {ticket : ℕ} {tickets : List ℕ}
    (hmem : ticket ∈ tickets) :
    (tickets.erase ticket).length + 1 = tickets.length := by
  have hlength := List.length_erase_of_mem hmem
  have hpos := List.length_pos_of_mem hmem
  omega

theorem Advance.work_lt (h : Advance sem s s') : s'.work < s.work := by
  cases h with
  | dropPermit hmem =>
      have herase := length_erase_lt hmem
      simp only [work, Limits.dropPermit]
      omega
  | prefetchDirect hmem =>
      have herase := length_erase_lt hmem
      simp only [work, Limits.readWith, sum_map_append, Limits.readWork]
      simp only [Bool.false_eq_true, if_false, reduceCtorEq]
      omega
  | prefetchJoin hmem hinflight =>
      have herase := length_erase_lt hmem
      simp only [work, Limits.dropPermit, GroupLatch.joinFetch,
        sum_map_append, callerWork]
      omega
  | prefetchStart hmem hinflight =>
      have herase := length_erase_lt hmem
      simp only [work, Limits.readWith, GroupLatch.startFetch,
        sum_map_append, callerWork, fetchWork, Limits.readWork]
      simp only [Bool.false_eq_true, if_false, reduceCtorEq]
      omega
  | @acquire r read hread hgoing hticket =>
      have hsum := sum_map_set Limits.readWork
        { read with ticket := some s.limits.issued } hread
      have hnew : Limits.readWork
          { read with ticket := some s.limits.issued } = 2 :=
        Limits.readWork_some (by exact hgoing) rfl
      rw [Limits.readWork_none hgoing hticket, hnew] at hsum
      simp only [work, Limits.acquire]
      omega
  | @finishDirect r ticket read hread hgoing hticket hheld hdirect =>
      have hsum := sum_map_set Limits.readWork
        { read with ended := true } hread
      rw [Limits.readWork_some hgoing hticket, Limits.readWork_ended] at hsum
      simp only [work, Limits.finish]
      omega
  | @finishShared r ticket f read fetch outcome hread hgoing hticket hheld
      hshared hfetch hstatus =>
      have hsum := sum_map_set Limits.readWork
        { read with ended := true } hread
      rw [Limits.readWork_some hgoing hticket, Limits.readWork_ended] at hsum
      have hfetches := sum_map_set fetchWork
        { fetch with status := .read (fetch.resultOf outcome) } hfetch
      simp only [fetchWork, hstatus] at hfetches
      simp only [work, Limits.finish, GroupLatch.finishRead]
      omega
  | @retire f fetch result hfetch hstatus =>
      have hfetches := sum_map_set fetchWork
        { fetch with status := .retired result } hfetch
      simp only [fetchWork, hstatus] at hfetches
      simp only [work, GroupLatch.retire]
      omega
  | @wake c caller fetch result hcaller hwaits hfetch hstatus =>
      have hcallers := sum_map_set callerWork
        { caller with result := some result } hcaller
      simp only [callerWork, hwaits] at hcallers
      simp only [work, GroupLatch.wake]
      omega

/-! ## Each read of a shared future has its future -/

end Fetching

end Foyer
end ImageReader
