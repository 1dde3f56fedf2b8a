import ImageReader.E01Hasher

/-!
# Runs of the hashing workers

Between two calls one buffer is under way to or from each worker; during a call
a second one follows it.  `OneUnderway` and `TwoUnderway` list the places where
these buffers can be and what has been hashed by then.  Every step of a worker
stays within them, and each step of the caller goes from the one to the other.
Once the channels are dropped, what is left is hashed and the thread ends.
-/

namespace ImageReader
namespace E01
namespace Hasher

variable {calls : List UpdateCall}

/-- The length which is passed along with a buffer. -/
def bufferLen (calls : List UpdateCall) : ℕ → ℕ
  | 0 => 0
  | k + 1 => (calls[k]?.map (·.len)).getD 0

/-- What the first `k` calls give to be hashed. -/
def fed (calls : List UpdateCall) (k : ℕ) : Bytes :=
  ((calls.take k).map fun call => call.buf.take call.len).flatten

theorem fed_append (calls : List UpdateCall) (k : ℕ) :
    fed calls (k - 1) ++
        (bufferContent calls k).take (bufferLen calls k) = fed calls k := by
  cases k with
  | zero => simp [bufferContent, fed]
  | succ k =>
      unfold fed bufferContent bufferLen
      rw [Nat.add_sub_cancel, List.take_add_one]
      cases hcall : calls[k]? with
      | none => simp [hcall]
      | some call => simp [hcall]

/-- Buffer `k` alone is under way. -/
inductive OneUnderway (calls : List UpdateCall) (k : ℕ) : Worker → Prop
  | full : OneUnderway calls k
      ⟨some (bufferLen calls k, k), none, .receiving, fed calls (k - 1), true,
        true⟩
  | hashing : OneUnderway calls k
      ⟨none, none, .hashing (bufferLen calls k) k, fed calls (k - 1), true,
        true⟩
  | returning : OneUnderway calls k
      ⟨none, none, .returning k, fed calls k, true, true⟩
  | empty : OneUnderway calls k
      ⟨none, some k, .receiving, fed calls k, true, true⟩

/-- Buffer `k` is under way, and buffer `k + 1` follows. -/
inductive TwoUnderway (calls : List UpdateCall) (k : ℕ) : Worker → Prop
  | hashing : TwoUnderway calls k
      ⟨some (bufferLen calls (k + 1), k + 1), none,
        .hashing (bufferLen calls k) k, fed calls (k - 1), true, true⟩
  | returning : TwoUnderway calls k
      ⟨some (bufferLen calls (k + 1), k + 1), none, .returning k,
        fed calls k, true, true⟩
  | empty : TwoUnderway calls k
      ⟨some (bufferLen calls (k + 1), k + 1), some k, .receiving,
        fed calls k, true, true⟩
  | emptyHashing : TwoUnderway calls k
      ⟨none, some k, .hashing (bufferLen calls (k + 1)) (k + 1),
        fed calls k, true, true⟩
  | emptyReturning : TwoUnderway calls k
      ⟨none, some k, .returning (k + 1), fed calls (k + 1), true, true⟩

/-- The caller has dropped its end of the full channel, and with it the end of
the empty one unless that is `emptyOpen`. -/
inductive Draining (calls : List UpdateCall) (emptyOpen : Bool) :
    Worker → Prop
  | full : Draining calls emptyOpen
      ⟨some (bufferLen calls calls.length, calls.length), none, .receiving,
        fed calls (calls.length - 1), false, emptyOpen⟩
  | hashing : Draining calls emptyOpen
      ⟨none, none, .hashing (bufferLen calls calls.length) calls.length,
        fed calls (calls.length - 1), false, emptyOpen⟩
  | returning : Draining calls emptyOpen
      ⟨none, none, .returning calls.length, fed calls calls.length, false,
        emptyOpen⟩
  | receiving (empty : Option ℕ) : Draining calls emptyOpen
      ⟨none, empty, .receiving, fed calls calls.length, false, emptyOpen⟩
  | finished (empty : Option ℕ) : Draining calls emptyOpen
      ⟨none, empty, .finished, fed calls calls.length, false, emptyOpen⟩

/-- The thread has ended, with everything hashed. -/
def Drained (calls : List UpdateCall) (worker : Worker) : Prop :=
  worker.pc = .finished ∧ worker.hashed = fed calls calls.length

/-! ## Steps of a worker -/

section WorkerSteps

variable {w w' : Worker} {k : ℕ} {emptyOpen : Bool}

theorem OneUnderway.step (h : OneUnderway calls k w)
    (hstep : workerStep calls w = some w') : OneUnderway calls k w' := by
  cases h with
  | full =>
      obtain rfl := Option.some.inj hstep
      exact .hashing
  | hashing =>
      obtain rfl := Option.some.inj hstep
      rw [fed_append]
      exact .returning
  | returning =>
      obtain rfl := Option.some.inj hstep
      exact .empty
  | empty => simp [workerStep] at hstep

theorem TwoUnderway.step (h : TwoUnderway calls k w)
    (hstep : workerStep calls w = some w') : TwoUnderway calls k w' := by
  cases h with
  | hashing =>
      obtain rfl := Option.some.inj hstep
      rw [fed_append]
      exact .returning
  | returning =>
      obtain rfl := Option.some.inj hstep
      exact .empty
  | empty =>
      obtain rfl := Option.some.inj hstep
      exact .emptyHashing
  | emptyHashing =>
      obtain rfl := Option.some.inj hstep
      have hfed := fed_append calls (k + 1)
      rw [Nat.add_sub_cancel] at hfed
      rw [hfed]
      exact .emptyReturning
  | emptyReturning => simp [workerStep] at hstep

theorem Draining.step (h : Draining calls emptyOpen w)
    (hstep : workerStep calls w = some w') : Draining calls emptyOpen w' := by
  cases h with
  | full =>
      obtain rfl := Option.some.inj hstep
      exact .hashing
  | hashing =>
      obtain rfl := Option.some.inj hstep
      rw [fed_append]
      exact .returning
  | returning =>
      cases emptyOpen with
      | true =>
          obtain rfl := Option.some.inj hstep
          exact .receiving _
      | false =>
          obtain rfl := Option.some.inj hstep
          exact .finished _
  | receiving empty =>
      obtain rfl := Option.some.inj hstep
      exact .finished _
  | finished empty => simp [workerStep] at hstep

theorem Drained.step (h : Drained calls w)
    (hstep : workerStep calls w = some w') : Drained calls w' := by
  unfold workerStep at hstep
  simp [h.1] at hstep

/-- A worker which the caller has to wait for before it can send, takes a
step. -/
theorem OneUnderway.ready (h : OneUnderway calls k w) :
    w.pc ≠ .finished ∧
      (w.full = none ∨ ∃ w', workerStep calls w = some w') := by
  cases h with
  | full => exact ⟨by simp, Or.inr ⟨_, rfl⟩⟩
  | hashing => exact ⟨by simp, Or.inl rfl⟩
  | returning => exact ⟨by simp, Or.inl rfl⟩
  | empty => exact ⟨by simp, Or.inl rfl⟩

theorem OneUnderway.send (h : OneUnderway calls k w) (hfull : w.full = none) :
    TwoUnderway calls k { w with
      full := some (bufferLen calls (k + 1), k + 1) } := by
  cases h with
  | full => simp at hfull
  | hashing => exact .hashing
  | returning => exact .returning
  | empty => exact .empty

theorem TwoUnderway.ready (h : TwoUnderway calls k w) :
    w.pc ≠ .finished ∧
      (w.empty = some k ∨ w.empty = none ∧
        ∃ w', workerStep calls w = some w') := by
  cases h with
  | hashing => exact ⟨by simp, Or.inr ⟨rfl, _, rfl⟩⟩
  | returning => exact ⟨by simp, Or.inr ⟨rfl, _, rfl⟩⟩
  | empty => exact ⟨by simp, Or.inl rfl⟩
  | emptyHashing => exact ⟨by simp, Or.inl rfl⟩
  | emptyReturning => exact ⟨by simp, Or.inl rfl⟩

theorem TwoUnderway.empty_eq (h : TwoUnderway calls k w) {buf : ℕ}
    (hempty : w.empty = some buf) : buf = k := by
  rcases h.ready.2 with hsome | ⟨hnone, -⟩
  · simpa [hsome] using hempty.symm
  · simp [hnone] at hempty

theorem TwoUnderway.recv (h : TwoUnderway calls k w)
    (hempty : w.empty = some k) :
    OneUnderway calls (k + 1) { w with empty := none } := by
  cases h with
  | hashing => simp at hempty
  | returning => simp at hempty
  | empty => exact .full
  | emptyHashing => exact .hashing
  | emptyReturning => exact .returning

theorem OneUnderway.dropFull (h : OneUnderway calls calls.length w) :
    Draining calls true { w with fullOpen := false } := by
  cases h with
  | full => exact .full
  | hashing => exact .hashing
  | returning => exact .returning
  | empty => exact .receiving _

theorem Draining.dropEmpty (h : Draining calls emptyOpen w) :
    Draining calls false { w with emptyOpen := false, empty := none } := by
  cases h with
  | full => exact .full
  | hashing => exact .hashing
  | returning => exact .returning
  | receiving empty => exact .receiving _
  | finished empty => exact .finished _

theorem Draining.ready (h : Draining calls false w) :
    Drained calls w ∨ ∃ w', workerStep calls w = some w' := by
  cases h with
  | full => exact Or.inr ⟨_, rfl⟩
  | hashing => exact Or.inr ⟨_, rfl⟩
  | returning => exact Or.inr ⟨_, rfl⟩
  | receiving empty => exact Or.inr ⟨_, rfl⟩
  | finished empty => exact Or.inl ⟨rfl, rfl⟩

theorem Draining.drained (h : Draining calls emptyOpen w)
    (hdone : w.pc = .finished) : Drained calls w := by
  cases h with
  | full => simp at hdone
  | hashing => simp at hdone
  | returning => simp at hdone
  | receiving empty => simp at hdone
  | finished empty => exact ⟨rfl, rfl⟩

theorem OneUnderway.references (h : OneUnderway calls (k + 1) w) :
    w.references k = 0 := by
  cases h <;> simp [Worker.references, Pc.references]

end WorkerSteps

/-! ## The invariant -/

/-- Where worker `i` may be, by where the caller is. -/
def WorkerAt (calls : List UpdateCall) (i : ℕ) (w : Worker) : Caller → Prop
  | .idle k => OneUnderway calls k w
  | .sending k j =>
      (i < j → TwoUnderway calls k w) ∧ (j ≤ i → OneUnderway calls k w)
  | .receiving k j _ =>
      (i < j → OneUnderway calls (k + 1) w) ∧ (j ≤ i → TwoUnderway calls k w)
  | .droppingFull j =>
      (i < j → Drained calls w) ∧ (j ≤ i → OneUnderway calls calls.length w)
  | .droppingEmpty j =>
      (i < j → Drained calls w) ∧ (i = j → Draining calls true w) ∧
        (j < i → OneUnderway calls calls.length w)
  | .joining j =>
      (i < j → Drained calls w) ∧ (i = j → Draining calls false w) ∧
        (j < i → OneUnderway calls calls.length w)
  | .finished => Drained calls w
  | .panicked => False

section Invariant

variable {n : ℕ} {htypes : Fin n → HashType}
  {digest : HashType → Bytes → Bytes}

/-- What `finalize` is to return. -/
def allDigests (calls : List UpdateCall) (htypes : Fin n → HashType)
    (digest : HashType → Bytes → Bytes) : List (HashType × Bytes) :=
  List.ofFn fun i => (htypes i, digest (htypes i) (fed calls calls.length))

/-- Call `k` has returned buffer `k`, for every call so far, and a digest has
been collected from each worker that was joined. -/
def CallerAt (calls : List UpdateCall) (htypes : Fin n → HashType)
    (digest : HashType → Bytes → Bytes) (returned : List ℕ)
    (digests : List (HashType × Bytes)) : Caller → Prop
  | .idle k => k ≤ calls.length ∧ returned = List.range k ∧ digests = []
  | .sending k j =>
      k < calls.length ∧ j ≤ n ∧ returned = List.range k ∧ digests = []
  | .receiving k j last =>
      k < calls.length ∧ j ≤ n ∧ (last = if j = 0 then none else some k) ∧
        returned = List.range k ∧ digests = []
  | .droppingFull j =>
      j ≤ n ∧ returned = List.range calls.length ∧
        digests = (allDigests calls htypes digest).take j
  | .droppingEmpty j | .joining j =>
      j < n ∧ returned = List.range calls.length ∧
        digests = (allDigests calls htypes digest).take j
  | .finished =>
      returned = List.range calls.length ∧
        digests = allDigests calls htypes digest
  | .panicked => False

structure Good (calls : List UpdateCall) (htypes : Fin n → HashType)
    (digest : HashType → Bytes → Bytes) (s : State n) : Prop where
  workers : ∀ i : Fin n, WorkerAt calls i (s.workers i) s.caller
  caller : CallerAt calls htypes digest s.returned s.digests s.caller

variable {s s' : State n}

/-- A change of one worker is looked at there, and the others are as they
were. -/
theorem workersAt_update {workers : Fin n → Worker} {caller : Caller}
    {i : Fin n} {worker : Worker} (hself : WorkerAt calls i worker caller)
    (hothers : ∀ j : Fin n, j ≠ i → WorkerAt calls j (workers j) caller)
    (j : Fin n) :
    WorkerAt calls j (Function.update workers i worker j) caller := by
  by_cases h : j = i
  · subst h
    rw [Function.update_self]
    exact hself
  · rw [Function.update_of_ne h]
    exact hothers j h

theorem good_new (calls : List UpdateCall) (htypes : Fin n → HashType)
    (digest : HashType → Bytes → Bytes) :
    Good calls htypes digest (State.new n) :=
  ⟨fun _ => .empty, Nat.zero_le _, rfl, rfl⟩

theorem WorkerAt.step {i : ℕ} {caller : Caller} {w w' : Worker}
    (h : WorkerAt calls i w caller) (hstep : workerStep calls w = some w') :
    WorkerAt calls i w' caller := by
  cases caller with
  | idle k => exact OneUnderway.step h hstep
  | sending k j =>
      exact ⟨fun hi => (h.1 hi).step hstep, fun hi => (h.2 hi).step hstep⟩
  | receiving k j last =>
      exact ⟨fun hi => (h.1 hi).step hstep, fun hi => (h.2 hi).step hstep⟩
  | droppingFull j =>
      exact ⟨fun hi => (h.1 hi).step hstep, fun hi => (h.2 hi).step hstep⟩
  | droppingEmpty j =>
      exact ⟨fun hi => (h.1 hi).step hstep, fun hi => (h.2.1 hi).step hstep,
        fun hi => (h.2.2 hi).step hstep⟩
  | joining j =>
      exact ⟨fun hi => (h.1 hi).step hstep, fun hi => (h.2.1 hi).step hstep,
        fun hi => (h.2.2 hi).step hstep⟩
  | finished => exact Drained.step h hstep
  | panicked => exact h

theorem Good.workerStep (h : Good calls htypes digest s) {i : Fin n}
    {worker : Worker}
    (hstep : workerStep calls (s.workers i) = some worker) :
    Good calls htypes digest (s.setWorker i worker) where
  workers :=
    workersAt_update ((h.workers i).step hstep) fun j _ => h.workers j
  caller := h.caller

/-- The buffer that a call is about to return is the caller's alone. -/
theorem Good.references (hn : 0 < n) (h : Good calls htypes digest s) {k : ℕ}
    {last : Option ℕ} (hcaller : s.caller = .receiving k n last) :
    last = some k ∧ s.references k = 1 := by
  have hat := h.caller
  rw [hcaller] at hat
  obtain ⟨-, -, hlast, -⟩ := hat
  rw [if_neg (by omega)] at hlast
  refine ⟨hlast, ?_⟩
  have hnone : ∀ i : Fin n, (s.workers i).references k = 0 := by
    intro i
    have hworker := h.workers i
    rw [hcaller] at hworker
    exact (hworker.1 i.isLt).references
  unfold State.references
  rw [hcaller, Finset.sum_eq_zero fun i _ => hnone i, hlast]
  simp [Caller.references]

theorem bufferLen_eq {k : ℕ} {call : UpdateCall}
    (hcall : calls[k]? = some call) :
    bufferLen calls (k + 1) = call.len := by
  simp [bufferLen, hcall]

theorem Good.updateStep (hn : 0 < n) (h : Good calls htypes digest s)
    (hstep : UpdateStep calls s s') : Good calls htypes digest s' := by
  have hworkers := h.workers
  have hat := h.caller
  cases hstep with
  | unhashed hcaller hk hnone => omega
  | @enter k hcaller hk hsome =>
      rw [hcaller] at hworkers hat
      exact ⟨fun i => ⟨fun hi => absurd hi (Nat.not_lt_zero _),
        fun _ => hworkers i⟩, hk, Nat.zero_le _, hat.2⟩
  | @send k i call hcaller hcall hlive hfull =>
      rw [hcaller] at hworkers hat
      refine ⟨?_, hat.1, i.isLt, hat.2.2⟩
      apply workersAt_update
      · have hsent := ((hworkers i).2 le_rfl).send hfull
        rw [bufferLen_eq hcall] at hsent
        exact ⟨fun _ => hsent, fun hi => by omega⟩
      · intro j hj
        have hne : (j : ℕ) ≠ i := Fin.val_ne_of_ne hj
        exact ⟨fun hlt => (hworkers j).1 (by omega),
          fun hle => (hworkers j).2 (by omega)⟩
  | @sendClosed k i hcaller hdead =>
      rw [hcaller] at hworkers
      exact absurd hdead ((hworkers i).2 le_rfl).ready.1
  | @sent k hcaller =>
      rw [hcaller] at hworkers hat
      exact ⟨fun i => ⟨fun hi => absurd hi (Nat.not_lt_zero _),
        fun _ => (hworkers i).1 i.isLt⟩, hat.1, Nat.zero_le _, rfl, hat.2.2⟩
  | @recv k buf i last hcaller hempty =>
      rw [hcaller] at hworkers hat
      have hwaits := (hworkers i).2 le_rfl
      obtain rfl := hwaits.empty_eq hempty
      refine ⟨?_, hat.1, i.isLt, by simp, hat.2.2.2⟩
      apply workersAt_update
      · exact ⟨fun _ => hwaits.recv hempty, fun hi => by omega⟩
      · intro j hj
        have hne : (j : ℕ) ≠ i := Fin.val_ne_of_ne hj
        exact ⟨fun hlt => (hworkers j).1 (by omega),
          fun hle => (hworkers j).2 (by omega)⟩
  | @recvClosed k i last hcaller hempty hdead =>
      rw [hcaller] at hworkers
      exact absurd hdead ((hworkers i).2 le_rfl).ready.1
  | @intoInner k buf hcaller hunique =>
      obtain ⟨hlast, -⟩ := h.references hn hcaller
      obtain rfl : buf = k := by simpa using hlast
      rw [hcaller] at hworkers hat
      obtain ⟨hk, -, -, hreturned, hdigests⟩ := hat
      refine ⟨fun i => (hworkers i).1 i.isLt, hk, ?_, hdigests⟩
      simp only
      rw [hreturned, List.range_succ]
  | @notInner k last hcaller hshared =>
      obtain ⟨hlast, hunique⟩ := h.references hn hcaller
      exact absurd hunique (hshared k hlast)

theorem Good.finalizeStep (h : Good calls htypes digest s)
    (hstep : FinalizeStep calls htypes digest s s') :
    Good calls htypes digest s' := by
  have hworkers := h.workers
  have hat := h.caller
  cases hstep with
  | enter hcaller =>
      rw [hcaller] at hworkers hat
      obtain ⟨-, hreturned, hdigests⟩ := hat
      exact ⟨fun i => ⟨fun hi => absurd hi (Nat.not_lt_zero _),
        fun _ => hworkers i⟩, Nat.zero_le _, hreturned, hdigests⟩
  | @dropFull i hcaller =>
      rw [hcaller] at hworkers hat
      refine ⟨?_, i.isLt, hat.2⟩
      apply workersAt_update
      · exact ⟨fun hi => by omega,
          fun _ => ((hworkers i).2 le_rfl).dropFull, fun hi => by omega⟩
      · intro j hj
        have hne : (j : ℕ) ≠ i := Fin.val_ne_of_ne hj
        exact ⟨fun hlt => (hworkers j).1 hlt, fun heq => absurd heq hne,
          fun hlt => (hworkers j).2 (by omega)⟩
  | @dropEmpty i hcaller =>
      rw [hcaller] at hworkers hat
      refine ⟨?_, hat⟩
      apply workersAt_update
      · exact ⟨fun hi => by omega,
          fun _ => ((hworkers i).2.1 rfl).dropEmpty, fun hi => by omega⟩
      · intro j hj
        have hne : (j : ℕ) ≠ i := Fin.val_ne_of_ne hj
        exact ⟨(hworkers j).1, fun heq => absurd heq hne, (hworkers j).2.2⟩
  | @join i hcaller hdone =>
      rw [hcaller] at hworkers hat
      obtain ⟨hi, hreturned, hdigests⟩ := hat
      have hdrained := ((hworkers i).2.1 rfl).drained hdone
      refine ⟨?_, hi, hreturned, ?_⟩
      · intro j
        constructor
        · intro hlt
          rcases Nat.lt_or_eq_of_le (Nat.le_of_lt_succ hlt) with hlt | heq
          · exact (hworkers j).1 hlt
          · obtain rfl : j = i := Fin.ext heq
            exact hdrained
        · intro hle
          exact (hworkers j).2.2 hle
      · have hget : (allDigests calls htypes digest)[(i : ℕ)]? = some
            (htypes i, digest (htypes i) (fed calls calls.length)) := by
          unfold allDigests
          rw [List.getElem?_ofFn]
          simp
        simp only
        rw [hdigests, List.take_add_one, hget, hdrained.2]
        rfl
  | finish hcaller =>
      rw [hcaller] at hworkers hat
      obtain ⟨-, hreturned, hdigests⟩ := hat
      refine ⟨fun i => (hworkers i).1 i.isLt, hreturned, ?_⟩
      simp only
      rw [hdigests, List.take_of_length_le]
      unfold allDigests
      rw [List.length_ofFn]

theorem Good.step (hn : 0 < n) (h : Good calls htypes digest s)
    (hstep : Step calls htypes digest s s') : Good calls htypes digest s' := by
  cases hstep with
  | update hstep => exact h.updateStep hn hstep
  | finalize hstep => exact h.finalizeStep hstep
  | worker hstep => exact h.workerStep hstep

theorem Reachable.good (hn : 0 < n) (h : Reachable calls htypes digest s) :
    Good calls htypes digest s := by
  induction h with
  | refl => exact good_new calls htypes digest
  | tail _ hstep ih => exact ih.step hn hstep

/-! ## No deadlock -/

/-- Somebody can take a step until `finalize` has returned. -/
theorem Good.progress (hn : 0 < n) (h : Good calls htypes digest s)
    (hrunning : s.caller ≠ .finished) :
    ∃ s', Step calls htypes digest s s' := by
  have hworkers := h.workers
  have hat := h.caller
  cases hcaller : s.caller with
  | idle k =>
      rw [hcaller] at hat
      rcases Nat.lt_or_eq_of_le hat.1 with hlt | rfl
      · exact ⟨_, .update (.enter hcaller hlt hn)⟩
      · exact ⟨_, .finalize (.enter hcaller)⟩
  | sending k j =>
      rw [hcaller] at hworkers hat
      rcases Nat.lt_or_eq_of_le hat.2.1 with hlt | rfl
      · obtain ⟨hlive, hfull | ⟨w', hstep⟩⟩ :=
          ((hworkers ⟨j, hlt⟩).2 le_rfl).ready
        · obtain ⟨call, hcall⟩ : ∃ call, calls[k]? = some call :=
            ⟨_, List.getElem?_eq_getElem hat.1⟩
          exact ⟨_, .update (.send hcaller hcall hlive hfull)⟩
        · exact ⟨_, .worker hstep⟩
      · exact ⟨_, .update (.sent hcaller)⟩
  | receiving k j last =>
      have hlast := fun hreceiving : s.caller = .receiving k n last =>
        h.references hn hreceiving
      rw [hcaller] at hworkers hat
      rcases Nat.lt_or_eq_of_le hat.2.1 with hlt | rfl
      · obtain ⟨-, hempty | ⟨-, w', hstep⟩⟩ :=
          ((hworkers ⟨j, hlt⟩).2 le_rfl).ready
        · exact ⟨_, .update (.recv hcaller hempty)⟩
        · exact ⟨_, .worker hstep⟩
      · obtain ⟨rfl, hunique⟩ := hlast hcaller
        exact ⟨_, .update (.intoInner hcaller hunique)⟩
  | droppingFull j =>
      rw [hcaller] at hat
      rcases Nat.lt_or_eq_of_le hat.1 with hlt | rfl
      · exact ⟨_, .finalize (.dropFull (i := ⟨j, hlt⟩) hcaller)⟩
      · exact ⟨_, .finalize (.finish hcaller)⟩
  | droppingEmpty j =>
      rw [hcaller] at hat
      exact ⟨_, .finalize (.dropEmpty (i := ⟨j, hat.1⟩) hcaller)⟩
  | joining j =>
      rw [hcaller] at hworkers hat
      rcases ((hworkers ⟨j, hat.1⟩).2.1 rfl).ready with hdrained | ⟨w', hstep⟩
      · exact ⟨_, .finalize (.join (i := ⟨j, hat.1⟩) hcaller hdrained.1)⟩
      · exact ⟨_, .worker hstep⟩
  | finished => exact absurd hcaller hrunning
  | panicked =>
      rw [hcaller] at hat
      exact absurd hat id

/-! ## The end of a run -/

def pcRank : Pc → ℕ
  | .receiving => 1
  | .hashing _ _ => 3
  | .returning _ => 2
  | .finished => 0

/-- How many steps a worker may take by itself. -/
def workerRank (w : Worker) : ℕ :=
  (if w.full.isSome then 3 else 0) + pcRank w.pc

/-- How far the main thread is from the end of its calls. -/
def callerRank (n count : ℕ) : Caller → ℕ
  | .idle k => 3 * n + 2 + (count - k) * (2 * n + 4)
  | .sending k j =>
      3 * n + 2 + (count - (k + 1)) * (2 * n + 4) + (2 * n + 3 - j)
  | .receiving k j _ =>
      3 * n + 2 + (count - (k + 1)) * (2 * n + 4) + (n + 1 - j)
  | .droppingFull i => 3 * (n - i) + 1
  | .droppingEmpty i => 3 * (n - i)
  | .joining i => 3 * (n - i) - 1
  | .finished => 0
  | .panicked => 0

theorem workerRank_step {w w' : Worker}
    (hstep : workerStep calls w = some w') : workerRank w' < workerRank w := by
  obtain ⟨full, empty, pc, hashed, fullOpen, emptyOpen⟩ := w
  unfold workerStep at hstep
  cases pc with
  | receiving =>
      cases full with
      | some message =>
          obtain ⟨len, buf⟩ := message
          obtain rfl := Option.some.inj hstep
          simp [workerRank, pcRank]
      | none =>
          cases fullOpen with
          | true => simp at hstep
          | false =>
              obtain rfl := Option.some.inj hstep
              simp [workerRank, pcRank]
  | hashing len buf =>
      obtain rfl := Option.some.inj hstep
      simp [workerRank, pcRank]
  | returning buf =>
      cases emptyOpen with
      | true =>
          cases empty with
          | none =>
              obtain rfl := Option.some.inj hstep
              simp [workerRank, pcRank]
          | some held => simp at hstep
      | false =>
          obtain rfl := Option.some.inj hstep
          simp [workerRank, pcRank]
  | finished => simp at hstep

theorem callerRank_updateStep (hstep : UpdateStep calls s s') :
    callerRank n calls.length s'.caller <
      callerRank n calls.length s.caller := by
  have hcall : ∀ k < calls.length, (calls.length - k) * (2 * n + 4) =
      (calls.length - (k + 1)) * (2 * n + 4) + (2 * n + 4) := by
    intro k hk
    rw [← Nat.succ_mul]
    congr 1
    omega
  cases hstep with
  | @unhashed k hcaller hk hnone =>
      have := hcall k hk
      simp only [hcaller, callerRank]
      omega
  | @enter k hcaller hk hsome =>
      have := hcall k hk
      simp only [hcaller, callerRank]
      omega
  | @send k i call hcaller =>
      have := i.isLt
      simp only [hcaller, callerRank]
      omega
  | sendClosed hcaller hdead =>
      simp only [hcaller, callerRank]
      omega
  | sent hcaller =>
      simp only [hcaller, callerRank]
      omega
  | @recv k buf i last hcaller hempty =>
      have := i.isLt
      simp only [hcaller, callerRank]
      omega
  | recvClosed hcaller hempty hdead =>
      simp only [hcaller, callerRank]
      omega
  | intoInner hcaller hunique =>
      simp only [hcaller, callerRank]
      omega
  | notInner hcaller hshared =>
      simp only [hcaller, callerRank]
      omega

theorem callerRank_finalizeStep
    (hstep : FinalizeStep calls htypes digest s s') :
    callerRank n calls.length s'.caller <
      callerRank n calls.length s.caller := by
  cases hstep with
  | enter hcaller =>
      simp only [hcaller, callerRank]
      omega
  | @dropFull i hcaller =>
      simp only [hcaller, callerRank]
      omega
  | @dropEmpty i hcaller =>
      have := i.isLt
      simp only [hcaller, callerRank]
      omega
  | @join i hcaller hdone =>
      have := i.isLt
      simp only [hcaller, callerRank]
      omega
  | finish hcaller =>
      simp only [hcaller, callerRank]
      omega

theorem sum_workerRank_lt {i : Fin n} {worker : Worker}
    (hlt : workerRank worker < workerRank (s.workers i)) :
    ∑ j, workerRank ((s.setWorker i worker).workers j) <
      ∑ j, workerRank (s.workers j) := by
  simp only [State.setWorker]
  apply Finset.sum_lt_sum
  · intro j _
    by_cases hj : j = i
    · subst hj
      rw [Function.update_self]
      exact hlt.le
    · rw [Function.update_of_ne hj]
  · exact ⟨i, Finset.mem_univ i, by rwa [Function.update_self]⟩

/-- What is left to do, first by the caller. -/
def State.rank (calls : List UpdateCall) (s : State n) : ℕ ×ₗ ℕ :=
  toLex (callerRank n calls.length s.caller, ∑ i, workerRank (s.workers i))

theorem Step.rank_lt (h : Step calls htypes digest s s') :
    s'.rank calls < s.rank calls := by
  cases h with
  | update hupdate =>
      exact Prod.Lex.toLex_lt_toLex.mpr
        (Or.inl (callerRank_updateStep hupdate))
  | finalize hfinalize =>
      exact Prod.Lex.toLex_lt_toLex.mpr
        (Or.inl (callerRank_finalizeStep hfinalize))
  | worker hworker =>
      exact Prod.Lex.toLex_lt_toLex.mpr
        (Or.inr ⟨rfl, sum_workerRank_lt (workerRank_step hworker)⟩)

/-- Every run can be taken to the end of `finalize`. -/
theorem Reachable.finishes (hn : 0 < n) (h : Reachable calls htypes digest s) :
    ∃ s', Relation.ReflTransGen (Step calls htypes digest) s s' ∧
      s'.caller = .finished := by
  induction hrank : s.rank calls using WellFoundedLT.induction
    generalizing s with
  | _ rank ih =>
      by_cases hfinished : s.caller = .finished
      · exact ⟨s, .refl, hfinished⟩
      obtain ⟨s', hstep⟩ := (h.good hn).progress hn hfinished
      obtain ⟨s'', hruns, hend⟩ :=
        ih _ (hrank ▸ hstep.rank_lt) (h.tail hstep) rfl
      exact ⟨s'', hruns.head hstep, hend⟩

/-! ## Every run -/

theorem CallerAt.returned_eq {returned : List ℕ}
    {digests : List (HashType × Bytes)} {caller : Caller}
    (h : CallerAt calls htypes digest returned digests caller) :
    returned = List.range returned.length := by
  cases caller with
  | idle k => rw [h.2.1, List.length_range]
  | sending k j => rw [h.2.2.1, List.length_range]
  | receiving k j last => rw [h.2.2.2.1, List.length_range]
  | droppingFull j => rw [h.2.1, List.length_range]
  | droppingEmpty j => rw [h.2.1, List.length_range]
  | joining j => rw [h.2.1, List.length_range]
  | finished => rw [h.1, List.length_range]
  | panicked => exact absurd h id

/-- The hashing pipeline is never stuck before `finalize` has returned and never
panics, call `k` returns buffer `k - 1` when the caller has the only reference
to it, and every digest is over all bytes of the calls, in order. -/
theorem multiHasher_correct (hn : 0 < n)
    (h : Reachable calls htypes digest s) :
    (s.caller ≠ .finished → ∃ s', Step calls htypes digest s s') ∧
    s.caller ≠ .panicked ∧
    s.returned = List.range s.returned.length ∧
    (∀ k last, s.caller = .receiving k n last →
      k = s.returned.length ∧ last = some k ∧ s.references k = 1) ∧
    (s.caller = .finished →
      s.returned.length = calls.length ∧
      s.digests = List.ofFn fun i => (htypes i, digest (htypes i)
        (calls.map fun call => call.buf.take call.len).flatten)) := by
  have hgood := h.good hn
  refine ⟨hgood.progress hn, ?_, hgood.caller.returned_eq, ?_, ?_⟩
  · intro hpanicked
    have hat := hgood.caller
    rw [hpanicked] at hat
    exact hat
  · intro k last hcaller
    have hat := hgood.caller
    rw [hcaller] at hat
    refine ⟨?_, hgood.references hn hcaller⟩
    rw [hat.2.2.2.1, List.length_range]
  · intro hfinished
    have hat := hgood.caller
    rw [hfinished] at hat
    refine ⟨by rw [hat.1, List.length_range], ?_⟩
    rw [hat.2]
    unfold allDigests fed
    rw [List.take_length]

/-- Two workers and two calls: the first call about to return the buffer of
`new`, and the end of a run behind it. -/
theorem multiHasher_correct_two :
    let calls : List UpdateCall :=
      [⟨[7, 9], 1, by decide⟩, ⟨[8], 1, by decide⟩]
    let htypes : Fin 2 → HashType := ![.md5, .sha1]
    let digest : HashType → Bytes → Bytes := fun _ bytes => bytes
    ∃ s s' : State 2,
      Reachable calls htypes digest s ∧
      s.caller = .receiving 0 2 (some 0) ∧ s.references 0 = 1 ∧
      Relation.ReflTransGen (Step calls htypes digest) s s' ∧
      s'.caller = .finished ∧ s'.returned = [0, 1] ∧
      s'.digests = [(.md5, [7, 8]), (.sha1, [7, 8])] := by
  intro calls htypes digest
  have hentered : Reachable calls htypes digest _ :=
    .single (.update (.enter rfl (by decide) (by decide)))
  have hsent : Reachable calls htypes digest _ :=
    ((hentered.tail (.update (.send (i := 0) rfl rfl (by decide) rfl))).tail
      (.update (.send (i := 1) rfl rfl (by decide) rfl))).tail
      (.update (.sent rfl))
  have hreceived : Reachable calls htypes digest _ :=
    (hsent.tail (.update (.recv (i := 0) rfl rfl))).tail
      (.update (.recv (i := 1) rfl rfl))
  obtain ⟨s', hruns, hfinished⟩ := hreceived.finishes (by decide)
  have hmid := multiHasher_correct (by decide) hreceived
  have hend := multiHasher_correct (by decide) (hreceived.trans hruns)
  obtain ⟨hlength, hdigests⟩ := hend.2.2.2.2 hfinished
  refine ⟨_, s', hreceived, rfl, (hmid.2.2.2.1 0 _ rfl).2.2, hruns, hfinished,
    ?_, ?_⟩
  · rw [hend.2.2.1, hlength]
    rfl
  · rw [hdigests]
    rfl

end Invariant

end Hasher
end E01
end ImageReader
