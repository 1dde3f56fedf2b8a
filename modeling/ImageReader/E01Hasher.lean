import ImageReader.ByteOrder

/-!
# Hashing an image with several workers

A `MultiHasher` has a thread for each hash type.  Two channels which hold one
message each join it to the caller: filled buffers go out on the one, and come
back on the other, which starts with a buffer in it.  The caller and the
workers take their steps in any order; a send to a full channel and a receive
from an empty one wait, and fail once the other end is gone.

Buffer `0` is the one given to `new`, and buffer `k` is the one given to the
`k`-th call of `update`.
-/

namespace ImageReader
namespace E01

inductive HashType where
  | md5
  | sha1
  | sha256
  deriving DecidableEq, Repr

/-- A call of `update`. -/
structure UpdateCall where
  buf : Bytes
  len : ℕ
  len_le : len ≤ buf.length

namespace Hasher

/-- Where the thread of a worker is. -/
inductive Pc where
  /-- at `full_rx.recv()` -/
  | receiving
  /-- about to hash `buf[..len]` -/
  | hashing (len buf : ℕ)
  /-- at `empty_tx.send(buf)` -/
  | returning (buf : ℕ)
  | finished
  deriving DecidableEq, Repr

/-- A worker with its two channels.  `fullOpen` and `emptyOpen` say whether the
caller still has its ends, and `hashed` is what the hash was updated with. -/
structure Worker where
  full : Option (ℕ × ℕ)
  empty : Option ℕ
  pc : Pc
  hashed : Bytes
  fullOpen : Bool
  emptyOpen : Bool
  deriving DecidableEq, Repr

/-- Where the caller is.  In `sending k i` and `receiving k i last` it is in
the call after `k` others, and done with the workers before `i`; `finalize`
drops both channels of a worker and joins its thread before it goes on to the
next one. -/
inductive Caller where
  | idle (k : ℕ)
  | sending (k i : ℕ)
  | receiving (k i : ℕ) (last : Option ℕ)
  | droppingFull (i : ℕ)
  | droppingEmpty (i : ℕ)
  | joining (i : ℕ)
  | finished
  | panicked
  deriving DecidableEq, Repr

/-- `returned` are the buffers which calls of `update` have returned. -/
structure State (n : ℕ) where
  workers : Fin n → Worker
  caller : Caller
  returned : List ℕ
  digests : List (HashType × Bytes)

/-! ## References to a buffer -/

def Pc.references (b : ℕ) : Pc → ℕ
  | .hashing _ buf | .returning buf => if buf = b then 1 else 0
  | .receiving | .finished => 0

def Worker.references (worker : Worker) (b : ℕ) : ℕ :=
  (if worker.empty = some b then 1 else 0) + worker.pc.references b +
    if worker.full.map Prod.snd = some b then 1 else 0

/-- While it sends, the caller has the buffer of its call; while it receives,
it keeps one of the buffers it got. -/
def Caller.references (b : ℕ) : Caller → ℕ
  | .sending k _ => if k + 1 = b then 1 else 0
  | .receiving _ _ last => if last = some b then 1 else 0
  | _ => 0

def State.references {n : ℕ} (s : State n) (b : ℕ) : ℕ :=
  s.caller.references b + ∑ i, (s.workers i).references b

/-! ## Steps -/

section Steps

variable (calls : List UpdateCall)

/-- The bytes of a buffer. -/
def bufferContent : ℕ → Bytes
  | 0 => []
  | k + 1 => (calls[k]?.map (·.buf)).getD []

/-- The step of a thread, unless it waits or has ended. -/
def workerStep (w : Worker) : Option Worker :=
  match w.pc with
  | .receiving =>
      match w.full with
      | some (len, buf) => some { w with full := none, pc := .hashing len buf }
      | none => if w.fullOpen then none else some { w with pc := .finished }
  | .hashing len buf =>
      some { w with
        hashed := w.hashed ++ (bufferContent calls buf).take len
        pc := .returning buf }
  | .returning buf =>
      if w.emptyOpen then
        match w.empty with
        | none => some { w with empty := some buf, pc := .receiving }
        | some _ => none
      else some { w with full := none, pc := .finished }
  | .finished => none

variable {n : ℕ} (htypes : Fin n → HashType)
  (digest : HashType → Bytes → Bytes)

def State.setWorker (s : State n) (i : Fin n) (worker : Worker) : State n :=
  { s with workers := Function.update s.workers i worker }

/-- The steps of `update`. -/
inductive UpdateStep : State n → State n → Prop
  | unhashed {s : State n} {k : ℕ} (hcaller : s.caller = .idle k)
      (hk : k < calls.length) (hnone : n = 0) :
      UpdateStep s { s with
        caller := .idle (k + 1), returned := s.returned ++ [k + 1] }
  | enter {s : State n} {k : ℕ} (hcaller : s.caller = .idle k)
      (hk : k < calls.length) (hsome : 0 < n) :
      UpdateStep s { s with caller := .sending k 0 }
  | send {s : State n} {k : ℕ} {i : Fin n} {call : UpdateCall}
      (hcaller : s.caller = .sending k i) (hcall : calls[k]? = some call)
      (hlive : (s.workers i).pc ≠ .finished)
      (hfull : (s.workers i).full = none) :
      UpdateStep s { s.setWorker i { s.workers i with
        full := some (call.len, k + 1) } with caller := .sending k (i + 1) }
  | sendClosed {s : State n} {k : ℕ} {i : Fin n}
      (hcaller : s.caller = .sending k i)
      (hdead : (s.workers i).pc = .finished) :
      UpdateStep s { s with caller := .panicked }
  | sent {s : State n} {k : ℕ} (hcaller : s.caller = .sending k n) :
      UpdateStep s { s with caller := .receiving k 0 none }
  | recv {s : State n} {k buf : ℕ} {i : Fin n} {last : Option ℕ}
      (hcaller : s.caller = .receiving k i last)
      (hempty : (s.workers i).empty = some buf) :
      UpdateStep s { s.setWorker i { s.workers i with empty := none } with
        caller := .receiving k (i + 1) (some buf) }
  | recvClosed {s : State n} {k : ℕ} {i : Fin n} {last : Option ℕ}
      (hcaller : s.caller = .receiving k i last)
      (hempty : (s.workers i).empty = none)
      (hdead : (s.workers i).pc = .finished) :
      UpdateStep s { s with caller := .panicked }
  | intoInner {s : State n} {k buf : ℕ}
      (hcaller : s.caller = .receiving k n (some buf))
      (hunique : s.references buf = 1) :
      UpdateStep s { s with
        caller := .idle (k + 1), returned := s.returned ++ [buf] }
  | notInner {s : State n} {k : ℕ} {last : Option ℕ}
      (hcaller : s.caller = .receiving k n last)
      (hshared : ∀ buf, last = some buf → s.references buf ≠ 1) :
      UpdateStep s { s with caller := .panicked }

/-- The steps of `finalize`. -/
inductive FinalizeStep : State n → State n → Prop
  | enter {s : State n} (hcaller : s.caller = .idle calls.length) :
      FinalizeStep s { s with caller := .droppingFull 0 }
  | dropFull {s : State n} {i : Fin n} (hcaller : s.caller = .droppingFull i) :
      FinalizeStep s { s.setWorker i { s.workers i with fullOpen := false } with
        caller := .droppingEmpty i }
  | dropEmpty {s : State n} {i : Fin n}
      (hcaller : s.caller = .droppingEmpty i) :
      FinalizeStep s { s.setWorker i { s.workers i with
        emptyOpen := false, empty := none } with caller := .joining i }
  | join {s : State n} {i : Fin n} (hcaller : s.caller = .joining i)
      (hdone : (s.workers i).pc = .finished) :
      FinalizeStep s { s with
        caller := .droppingFull (i + 1)
        digests := s.digests ++
          [(htypes i, digest (htypes i) (s.workers i).hashed)] }
  | finish {s : State n} (hcaller : s.caller = .droppingFull n) :
      FinalizeStep s { s with caller := .finished }

/-- One step of the caller or of a worker. -/
inductive Step : State n → State n → Prop
  | update {s s' : State n} (h : UpdateStep calls s s') : Step s s'
  | finalize {s s' : State n} (h : FinalizeStep calls htypes digest s s') :
      Step s s'
  | worker {s : State n} {i : Fin n} {worker : Worker}
      (h : workerStep calls (s.workers i) = some worker) :
      Step s (s.setWorker i worker)

/-- What `new` sets up. -/
def Worker.new : Worker := ⟨none, some 0, .receiving, [], true, true⟩

def State.new (n : ℕ) : State n := ⟨fun _ => .new, .idle 0, [], []⟩

/-- The states of a run of the calls and then of `finalize`. -/
def Reachable (s : State n) : Prop :=
  Relation.ReflTransGen (Step calls htypes digest) (State.new n) s

end Steps

end Hasher
end E01
end ImageReader
