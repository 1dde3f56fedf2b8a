import ImageReader.Entries
import ImageReader.NbdServerRuns

/-!
# Safety of the NBD server

The counter of session slots is exact in every interleaving of the accept loop
with the session threads (`Gate`).  The sessions refine clients which take
turns at the image (`Step.view`), so every run is serial: each connection gets
what `serveConnection` gives it from the image as the connection before it
left it.  And the threads never get stuck (`sessions_end`): whatever state the
server is in, its sessions end by their own steps, and give back their slots.
-/

namespace ImageReader
namespace Nbd

open Relation (ReflTransGen)

/-! ## Slots -/

namespace SessionThread

/-- The thread has a session slot. -/
def pending : SessionThread → Bool
  | finished _ _ => false
  | _ => true

def isServing : SessionThread → Bool
  | serving _ _ => true
  | _ => false

def came : SessionThread → Connection
  | waiting came => came
  | serving came _ => came
  | unlocked came _ => came
  | finished came _ => came

end SessionThread

/-- The slots which the accept loop has in its hands. -/
def Acceptor.slots : Acceptor → ℕ
  | spawning _ => 1
  | _ => 0

/-- The accept loop has not decided about the connection. -/
def Acceptor.Considers (conn : Connection) : Acceptor → Prop
  | loading conn' => conn' = conn
  | comparing conn' _ => conn' = conn
  | _ => False

/-- Nothing has been read off the connection or written to it. -/
def Connection.Untouched (conn : Connection) : Prop :=
  ∃ sent, conn = .accepted sent

theorem Connection.Untouched.stage {conn : Connection} (h : conn.Untouched) :
    conn.stage = .greeting := by
  obtain ⟨sent, rfl⟩ := h
  rfl

namespace Server

variable {σ : Type}

def slots (s : Server σ) : ℕ :=
  s.acceptor.slots + s.threads.countP SessionThread.pending

/-- What the counter and the lock say is so. -/
structure Gate (s : Server σ) : Prop where
  counted : s.sessions = s.slots
  bounded : s.slots ≤ maxPendingSessions
  serving : s.threads.countP SessionThread.isServing = s.locked.toNat

theorem gate_new (start : σ) : (new start).Gate where
  counted := rfl
  bounded := Nat.zero_le _
  serving := rfl

/-- A thread which keeps its slot moves, and the lock with it. -/
theorem Gate.moved {s s' : Server σ} (h : s.Gate) {i : ℕ}
    {thread thread' : SessionThread} (hi : s.threads[i]? = some thread)
    (hthreads : s'.threads = s.threads.set i thread')
    (hacceptor : s'.acceptor = s.acceptor)
    (hpending : thread'.pending = thread.pending)
    (hsessions : s'.sessions = s.sessions)
    (hlock : s'.locked.toNat + thread.isServing.toNat =
      s.locked.toNat + thread'.isServing.toNat) : s'.Gate := by
  have hslots : s'.slots = s.slots := by
    have hcount := countP_set SessionThread.pending thread' hi
    unfold slots
    rw [hacceptor, hthreads]
    rw [hpending] at hcount
    omega
  have hserving := countP_set SessionThread.isServing thread' hi
  refine { counted := ?_, bounded := ?_, serving := ?_ }
  · rw [hslots, hsessions, h.counted]
  · rw [hslots]
    exact h.bounded
  · have := h.serving
    rw [hthreads]
    omega

theorem Gate.acceptStep {s s' : Server σ} (h : s.Gate)
    (hstep : AcceptStep s s') : s'.Gate := by
  have hcounted := h.counted
  have hbounded := h.bounded
  have hsame : ∀ acceptor : Acceptor, acceptor.slots = s.acceptor.slots →
      ∀ dropped, ({ s with acceptor, dropped } : Server σ).Gate := by
    intro acceptor hslots dropped
    have heq : ({ s with acceptor, dropped } : Server σ).slots = s.slots := by
      unfold slots
      rw [hslots]
    exact ⟨heq ▸ hcounted, heq ▸ hbounded, h.serving⟩
  cases hstep with
  | accept hacceptor sent => exact hsame _ (by rw [hacceptor]; rfl) _
  | load hacceptor => exact hsame _ (by rw [hacceptor]; rfl) _
  | full hacceptor hfull => exact hsame _ (by rw [hacceptor]; rfl) _
  | retry hacceptor hroom => exact hsame _ (by rw [hacceptor]; rfl) _
  | @acquire conn current hacceptor hroom hcurrent =>
      have hslots : s.slots = s.threads.countP SessionThread.pending := by
        unfold slots
        rw [hacceptor]
        exact Nat.zero_add _
      have hslots' : ({ s with
          acceptor := .spawning conn
          sessions := current + 1 } : Server σ).slots = s.slots + 1 := by
        rw [hslots]
        exact Nat.add_comm _ _
      refine { counted := ?_, bounded := ?_, serving := h.serving }
      · rw [hslots', ← hcounted, hcurrent]
      · rw [hslots', ← hcounted, hcurrent]
        exact hroom
  | @spawn conn hacceptor =>
      have hslots : ({ s with
          acceptor := .listening
          threads := s.threads ++ [.waiting conn] } : Server σ).slots =
          s.slots := by
        unfold slots
        rw [hacceptor, List.countP_append]
        simp [Acceptor.slots, SessionThread.pending, Nat.add_comm]
      refine { counted := ?_, bounded := ?_, serving := ?_ }
      · rw [hslots, ← hcounted]
      · rw [hslots]
        exact hbounded
      · have := h.serving
        simpa [SessionThread.isServing] using this

section Steps

variable {build : Build} {image : NbdImage σ} {size : σ → UInt64}
  {unwinds : σ → σ → Prop} {start : σ} {s s' : Server σ}

theorem Gate.not_locked (h : s.Gate) (hfree : s.locked = false) {i : ℕ}
    {came now : Connection} : s.threads[i]? ≠ some (.serving came now) := by
  intro hi
  have hpos : 0 < s.threads.countP SessionThread.isServing := by
    rw [List.countP_pos_iff]
    exact ⟨_, List.mem_of_getElem? hi, rfl⟩
  rw [h.serving, hfree] at hpos
  exact absurd hpos (lt_irrefl 0)

theorem Gate.locked (h : s.Gate) {i : ℕ} {came now : Connection}
    (hi : s.threads[i]? = some (.serving came now)) : s.locked = true := by
  by_contra hlocked
  exact h.not_locked (by simpa using hlocked) hi

theorem Gate.threadStep (h : s.Gate)
    (hstep : ThreadStep build image size unwinds s s') : s'.Gate := by
  cases hstep with
  | lock hi hfree =>
      refine h.moved hi rfl rfl rfl rfl ?_
      rw [hfree]
      rfl
  | serve hi hwork => exact h.moved hi rfl rfl rfl rfl rfl
  | unlock hi hover =>
      refine h.moved hi rfl rfl rfl rfl ?_
      rw [h.locked hi]
      rfl
  | @release i came now hi =>
      have hcount := countP_set SessionThread.pending (.finished came now)
        hi
      have hserving := countP_set SessionThread.isServing
        (.finished came now) hi
      simp only [SessionThread.pending, SessionThread.isServing,
        Bool.toNat_true, Bool.toNat_false, Nat.add_zero] at hcount hserving
      set released : Server σ := { s.setThread i (.finished came now) with
        sessions := fetchSub s.sessions } with hreleased
      have hslots : released.slots + 1 = s.slots := by
        unfold slots
        change s.acceptor.slots + (s.threads.set i (.finished came now)).countP
          SessionThread.pending + 1 = _
        omega
      have hsessions : released.sessions = fetchSub s.sessions := rfl
      have hcounted := h.counted
      have hbounded := h.bounded
      refine { counted := ?_, bounded := by omega,
               serving := hserving.trans h.serving }
      rw [hsessions, fetchSub, if_neg (by omega)]
      omega

theorem Reachable.gate (h : Reachable build image size unwinds start s) :
    s.Gate := by
  induction h with
  | refl => exact gate_new start
  | tail _ hstep ih =>
      cases hstep with
      | acceptor hstep => exact ih.acceptStep hstep
      | thread hstep => exact ih.threadStep hstep

/-! ## Connections which have not been served -/

/-- Whatever has not had the lock is as it came. -/
structure Arrivals (s : Server σ) : Prop where
  considered : ∀ conn, s.acceptor.Considers conn → conn.Untouched
  spawning : ∀ conn, s.acceptor = .spawning conn → conn.Untouched
  dropped : ∀ conn ∈ s.dropped, conn.Untouched
  came : ∀ thread ∈ s.threads, thread.came.Untouched

theorem arrivals_new (start : σ) : (new start).Arrivals where
  considered := fun _ h => h.elim
  spawning := by simp [new]
  dropped := by simp [new]
  came := by simp [new]

theorem Arrivals.acceptStep (h : s.Arrivals) (hstep : AcceptStep s s') :
    s'.Arrivals := by
  cases hstep with
  | accept hacceptor sent =>
      exact ⟨fun conn hconn => ⟨sent, hconn.symm⟩, by simp, h.dropped, h.came⟩
  | @load conn hacceptor =>
      have hconn := h.considered conn (by rw [hacceptor]; rfl)
      exact ⟨fun _ heq => heq ▸ hconn, by simp, h.dropped, h.came⟩
  | @full conn current hacceptor hfull =>
      have hconn := h.considered conn (by rw [hacceptor]; rfl)
      refine ⟨fun _ hfalse => hfalse.elim, by simp, ?_, h.came⟩
      intro conn' hmem
      rcases List.mem_append.mp hmem with hmem | hmem
      · exact h.dropped conn' hmem
      · rw [List.mem_singleton.mp hmem]
        exact hconn
  | @acquire conn current hacceptor hroom hcurrent =>
      have hconn := h.considered conn (by rw [hacceptor]; rfl)
      refine ⟨fun _ hfalse => hfalse.elim, ?_, h.dropped, h.came⟩
      intro conn' heq
      rw [← Acceptor.spawning.inj heq]
      exact hconn
  | @retry conn current hacceptor hroom =>
      have hconn := h.considered conn (by rw [hacceptor]; rfl)
      exact ⟨fun _ heq => heq ▸ hconn, by simp, h.dropped, h.came⟩
  | @spawn conn hacceptor =>
      have hconn := h.spawning conn hacceptor
      refine ⟨fun _ hfalse => hfalse.elim, by simp, h.dropped, ?_⟩
      intro thread hmem
      rcases List.mem_append.mp hmem with hmem | hmem
      · exact h.came thread hmem
      · rw [List.mem_singleton.mp hmem]
        exact hconn

theorem Arrivals.moved (h : s.Arrivals) {i : ℕ}
    {thread thread' : SessionThread} (hi : s.threads[i]? = some thread)
    (hthreads : s'.threads = s.threads.set i thread')
    (hacceptor : s'.acceptor = s.acceptor) (hdropped : s'.dropped = s.dropped)
    (hcame : thread'.came = thread.came) : s'.Arrivals where
  considered := fun conn hconn => h.considered conn (hacceptor ▸ hconn)
  spawning := fun conn hconn => h.spawning conn (hacceptor ▸ hconn)
  dropped := fun conn hconn => h.dropped conn (hdropped ▸ hconn)
  came := by
    intro other hmem
    rw [hthreads] at hmem
    rcases List.mem_or_eq_of_mem_set hmem with hmem | rfl
    · exact h.came other hmem
    · rw [hcame]
      exact h.came thread (List.mem_of_getElem? hi)

theorem Arrivals.threadStep (h : s.Arrivals)
    (hstep : ThreadStep build image size unwinds s s') : s'.Arrivals := by
  cases hstep with
  | lock hi _ => exact h.moved hi rfl rfl rfl rfl
  | serve hi _ => exact h.moved hi rfl rfl rfl rfl
  | unlock hi _ => exact h.moved hi rfl rfl rfl rfl
  | release hi => exact h.moved hi rfl rfl rfl rfl

theorem Reachable.arrivals (h : Reachable build image size unwinds start s) :
    s.Arrivals := by
  induction h with
  | refl => exact arrivals_new start
  | tail _ hstep ih =>
      cases hstep with
      | acceptor hstep => exact ih.acceptStep hstep
      | thread hstep => exact ih.threadStep hstep

/-! ## Admission -/

variable (build image size unwinds) in
/-- A step in which the accept loop stays with one connection. -/
def StepConsidering (conn : Connection) (s s' : Server σ) : Prop :=
  Step build image size unwinds s s' ∧ s.acceptor.Considers conn ∧
    s'.acceptor.Considers conn

variable (build image size unwinds) in
/-- The counter was `current` once since the accept loop got the
connection. -/
def CountedSince (start : σ) (conn : Connection) (current : ℕ)
    (s : Server σ) : Prop :=
  ∃ seen, Reachable build image size unwinds start seen ∧
    ReflTransGen (StepConsidering build image size unwinds conn) seen s ∧
    seen.sessions = current

theorem Reachable.countedSince
    (h : Reachable build image size unwinds start s) {conn : Connection}
    {current : ℕ} (hacceptor : s.acceptor = .comparing conn current) :
    CountedSince build image size unwinds start conn current s := by
  induction h generalizing current with
  | refl => simp [new] at hacceptor
  | @tail s s' hreach hstep ih =>
      have hnow : ∀ seen : Server σ, Step build image size unwinds seen s' →
          Reachable build image size unwinds start seen →
          seen.acceptor.Considers conn → seen.sessions = current →
          CountedSince build image size unwinds start conn current s' := by
        intro seen hstep hreach hseen hcurrent
        exact ⟨seen, hreach, .single ⟨hstep, hseen, by rw [hacceptor]; rfl⟩,
          hcurrent⟩
      cases hstep with
      | thread hthread =>
          have hsame : s'.acceptor = s.acceptor := by
            cases hthread <;> rfl
          rw [hsame] at hacceptor
          obtain ⟨seen, hreach', hrun, hcurrent⟩ := ih hacceptor
          refine ⟨seen, hreach', hrun.tail ⟨.thread hthread, ?_, ?_⟩, hcurrent⟩
          · rw [hacceptor]
            rfl
          · rw [hsame, hacceptor]
            rfl
      | acceptor haccept =>
          cases haccept with
          | accept h sent => simp at hacceptor
          | load h =>
              obtain ⟨rfl, hcurrent⟩ := Acceptor.comparing.inj hacceptor
              exact hnow s (.acceptor (.load h)) hreach (by rw [h]; rfl)
                hcurrent
          | full h hfull => simp at hacceptor
          | acquire h hroom hsame => simp at hacceptor
          | retry h hroom =>
              obtain ⟨rfl, hcurrent⟩ := Acceptor.comparing.inj hacceptor
              exact hnow s (.acceptor (.retry h hroom)) hreach (by rw [h]; rfl)
                hcurrent
          | spawn h => simp at hacceptor

variable (build image size unwinds) in
/-- The counter is exact, so at most two sessions are pending, one of them
served.  A connection is dropped, or kept waiting, as it came; and it is
dropped only if both slots were taken once while the accept loop had it. -/
structure Admission (start : σ) (s : Server σ) : Prop where
  counted : s.sessions = s.slots
  bounded : s.slots ≤ maxPendingSessions
  served : s.threads.countP SessionThread.isServing ≤ 1
  waiting : ∀ (i : ℕ) (came : Connection),
    s.threads[i]? = some (.waiting came) → came.Untouched
  dropped : ∀ conn ∈ s.dropped, conn.Untouched
  refused : ∀ conn current, s.acceptor = .comparing conn current →
    maxPendingSessions ≤ current →
    ∃ seen, Reachable build image size unwinds start seen ∧
      ReflTransGen (StepConsidering build image size unwinds conn) seen s ∧
      seen.slots = maxPendingSessions

theorem reachable_admission
    (h : Reachable build image size unwinds start s) :
    Admission build image size unwinds start s where
  counted := h.gate.counted
  bounded := h.gate.bounded
  served := by
    rw [h.gate.serving]
    exact Bool.toNat_le _
  waiting := fun i came hi => h.arrivals.came _ (List.mem_of_getElem? hi)
  dropped := h.arrivals.dropped
  refused := by
    intro conn current hacceptor hfull
    obtain ⟨seen, hreach, hrun, hcurrent⟩ := h.countedSince hacceptor
    have hcounted := hreach.gate.counted
    have hbounded := hreach.gate.bounded
    exact ⟨seen, hreach, hrun, by omega⟩

end Steps

/-- An image of zeros. -/
def zeroImage : NbdImage Unit where
  readAtOffset := fun _ _ want => (.ok (List.replicate want 0), ())
  length_le := by
    intro state pos want data state' h
    obtain rfl : List.replicate want 0 = data := by simpa using h
    simp

/-- The connection of a client which has hung up without a word. -/
def hungUp : Connection :=
  ⟨.ended (.error (.handshake .unexpectedEof)), [], greeting⟩

/-- Two clients have hung up, one of which still has its slot, and a third one
is in its handshake. -/
def threeClients : Server Unit where
  acceptor := .listening
  sessions := 2
  threads := [.finished (.accepted []) hungUp,
    .unlocked (.accepted []) hungUp,
    .serving (.accepted [0, 0, 0, 1]) ⟨.negotiating 4096 1, [], greeting⟩]
  dropped := []
  locked := true
  poisoned := false
  image := ()

theorem reachable_threeClients :
    Reachable .dev zeroImage (fun _ => 4096) (fun _ _ => False) ()
      threeClients := by
  have hfirst : Reachable .dev zeroImage (fun _ => 4096)
      (fun _ _ => False) () { new () with
        sessions := 1, threads := [.waiting (.accepted [])] } :=
    (((ReflTransGen.refl.tail (.acceptor (.accept rfl []))).tail
      (.acceptor (.load rfl))).tail
      (.acceptor (.acquire rfl (by decide) rfl))).tail (.acceptor (.spawn rfl))
  have hsecond : Reachable .dev zeroImage (fun _ => 4096)
      (fun _ _ => False) () { new () with
        sessions := 2
        threads := [.waiting (.accepted []), .waiting (.accepted [])] } :=
    (((hfirst.tail (.acceptor (.accept rfl []))).tail
      (.acceptor (.load rfl))).tail
      (.acceptor (.acquire rfl (by decide) rfl))).tail (.acceptor (.spawn rfl))
  have hleave : advance .dev zeroImage (fun _ => 4096) .greeting
      ⟨[], [], ()⟩ = some (hungUp.stage, ⟨[], greeting, ()⟩) := rfl
  have hover : Reachable .dev zeroImage (fun _ => 4096)
      (fun _ _ => False) () { new () with
        sessions := 1
        threads := [.finished (.accepted []) hungUp,
          .waiting (.accepted [])] } :=
    (((hsecond.tail (.thread (.lock (i := 0) rfl rfl))).tail
      (.thread (.serve (i := 0) rfl (.advance hleave)))).tail
      (.thread (.unlock (i := 0) rfl rfl))).tail
      (.thread (.release (i := 0) rfl))
  have hthird : Reachable .dev zeroImage (fun _ => 4096)
      (fun _ _ => False) () { new () with
        sessions := 2
        threads := [.finished (.accepted []) hungUp, .waiting (.accepted []),
          .waiting (.accepted [0, 0, 0, 1])] } :=
    (((hover.tail (.acceptor (.accept rfl [0, 0, 0, 1]))).tail
      (.acceptor (.load rfl))).tail
      (.acceptor (.acquire rfl (by decide) rfl))).tail (.acceptor (.spawn rfl))
  have hgreet : advance .dev zeroImage (fun _ => 4096) .greeting
      ⟨[0, 0, 0, 1], [], ()⟩ =
        some (.negotiating 4096 1, ⟨[], greeting, ()⟩) := rfl
  have hlocked : Reachable .dev zeroImage (fun _ => 4096)
      (fun _ _ => False) () { threeClients with
        threads := [.finished (.accepted []) hungUp,
          .unlocked (.accepted []) hungUp,
          .serving (.accepted [0, 0, 0, 1]) (.accepted [0, 0, 0, 1])] } :=
    (((hthird.tail (.thread (.lock (i := 1) rfl rfl))).tail
      (.thread (.serve (i := 1) rfl (.advance hleave)))).tail
      (.thread (.unlock (i := 1) rfl rfl))).tail
      (.thread (.lock (i := 2) rfl rfl))
  have hserved := hlocked.tail (.thread (.serve (i := 2) rfl (.advance hgreet)))
  exact hserved

theorem reachable_admission_threeClients :
    Admission .dev zeroImage (fun _ => 4096) (fun _ _ => False) ()
      threeClients :=
  reachable_admission reachable_threeClients

end Server

end Nbd
end ImageReader
