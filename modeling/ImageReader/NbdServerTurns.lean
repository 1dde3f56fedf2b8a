import ImageReader.NbdServerSafety

/-!
# The sessions of the NBD server, one after the other

The session threads refine clients which take turns at the image
(`ThreadStep.view`), so every run is serial: each connection gets what
`serveConnection` gives it from the image as the connection before it left it.
The threads never get stuck either: whatever state the server is in, they end
by their own steps, and give back their slots.
-/

namespace ImageReader
namespace Nbd

open Relation (ReflTransGen ReflGen)

/-- Connections served one after another. -/
inductive ServedInTurn {σ : Type} (build : Build) (image : NbdImage σ)
    (size : σ → UInt64) (unwinds : σ → σ → Prop) (start : σ) :
    List (ℕ × Connection × Connection) → σ → Prop
  | nil : ServedInTurn build image size unwinds start [] start
  | snoc {turns : List (ℕ × Connection × Connection)} {state state' : σ}
      {i : ℕ} {came now : Connection}
      (h : ServedInTurn build image size unwinds start turns state)
      (hturn : Turn build image size unwinds came state now state') :
      ServedInTurn build image size unwinds start
        (turns ++ [(i, came, now)]) state'

def SessionThread.place : SessionThread → Turns.Place Connection
  | waiting came => .waiting came
  | serving came now => .holding came now
  | unlocked came now => .left came now
  | finished came now => .left came now

namespace Server

variable {σ : Type}

/-- The sessions as clients which take turns. -/
def view (s : Server σ) : Turns.Shared ℕ Connection σ where
  place := fun i => (s.threads[i]?).elim .away SessionThread.place
  resource := s.image

theorem view_place {s : Server σ} {i : ℕ} {thread : SessionThread}
    (h : s.threads[i]? = some thread) : s.view.place i = thread.place := by
  simp [view, h]

theorem view_moved {s : Server σ} {i : ℕ} {thread thread' : SessionThread}
    (h : s.threads[i]? = some thread) :
    (fun j => ((s.threads.set i thread')[j]?).elim .away SessionThread.place) =
      Function.update s.view.place i thread'.place := by
  obtain ⟨hlt, -⟩ := List.getElem?_eq_some_iff.mp h
  funext j
  by_cases hj : j = i
  · subst hj
    rw [Function.update_self, List.getElem?_set_self hlt]
    rfl
  · rw [Function.update_of_ne hj, List.getElem?_set_ne (Ne.symm hj)]
    rfl

section Refinement

variable {build : Build} {image : NbdImage σ} {size : σ → UInt64}
  {unwinds : σ → σ → Prop} {start : σ} {s s' : Server σ}

variable (build image size unwinds) in
def discipline : Turns.Discipline Connection σ where
  work := Works build image size unwinds
  ended := fun conn => conn.stage.isOver = true

theorem AcceptStep.view (h : AcceptStep s s') :
    ReflGen (Turns.Step (discipline build image size unwinds)) s.view
      s'.view := by
  cases h with
  | accept h sent => exact .refl
  | load h => exact .refl
  | full h hfull => exact .refl
  | acquire h hroom hsame => exact .refl
  | retry h hroom => exact .refl
  | @spawn conn h =>
      have hplace : (fun j => ((s.threads ++ [.waiting conn])[j]?).elim .away
          SessionThread.place) = Function.update s.view.place s.threads.length
            (.waiting conn) := by
        funext j
        rcases lt_trichotomy j s.threads.length with hlt | rfl | hgt
        · rw [Function.update_of_ne hlt.ne, List.getElem?_append_left hlt]
          rfl
        · rw [Function.update_self, List.getElem?_append_right (le_refl _)]
          simp [SessionThread.place]
        · rw [Function.update_of_ne hgt.ne',
            List.getElem?_append_right hgt.le]
          have hnew : ([SessionThread.waiting conn])[j - s.threads.length]? =
              none := by
            simp only [List.getElem?_eq_none_iff, List.length_singleton]
            omega
          have hold : s.threads[j]? = none := by
            rw [List.getElem?_eq_none_iff]
            exact hgt.le
          rw [hnew, Server.view]
          simp only
          rw [hold]
      have haway : s.view.place s.threads.length = .away := by
        simp [Server.view]
      have harrive := Turns.Step.arrive
        (d := discipline build image size unwinds) s.threads.length conn haway
      refine .single ?_
      unfold Turns.Shared.move at harrive
      rw [← hplace] at harrive
      exact harrive

theorem ThreadStep.view (hgate : s.Gate)
    (h : ThreadStep build image size unwinds s s') :
    ReflGen (Turns.Step (discipline build image size unwinds)) s.view
      s'.view := by
  cases h with
  | @lock i came hi hfree =>
      have hstep : Turns.Step (discipline build image size unwinds) s.view
          (s.view.move i (.holding came came)) := by
        refine .enter (by rw [view_place hi]; rfl) ?_
        intro j came' now hj
        cases hthread : s.threads[j]? with
        | none => simp [Server.view, hthread] at hj
        | some thread =>
            rw [view_place hthread] at hj
            cases thread with
            | serving came'' now' => exact hgate.not_locked hfree hthread
            | waiting _ => simp [SessionThread.place] at hj
            | unlocked _ _ => simp [SessionThread.place] at hj
            | finished _ _ => simp [SessionThread.place] at hj
      refine .single ?_
      unfold Turns.Shared.move at hstep
      have hmoved := @view_moved _ s i _ (.serving came came) hi
      change _ = Function.update s.view.place i (.holding came came) at hmoved
      rw [← hmoved] at hstep
      exact hstep
  | @serve i came now next state hi hwork =>
      have hstep : Turns.Step (discipline build image size unwinds) s.view
          { s.view.move i (.holding came next) with resource := state } :=
        .work (by rw [view_place hi]; rfl) hwork
      refine .single ?_
      unfold Turns.Shared.move at hstep
      have hmoved := @view_moved _ s i _ (.serving came next) hi
      change _ = Function.update s.view.place i (.holding came next) at hmoved
      rw [← hmoved] at hstep
      exact hstep
  | @unlock i came now hi hover =>
      have hstep : Turns.Step (discipline build image size unwinds) s.view
          (s.view.move i (.left came now)) :=
        .leave (by rw [view_place hi]; rfl) hover
      refine .single ?_
      unfold Turns.Shared.move at hstep
      have hmoved := @view_moved _ s i _ (.unlocked came now) hi
      change _ = Function.update s.view.place i (.left came now) at hmoved
      rw [← hmoved] at hstep
      exact hstep
  | @release i came now hi =>
      have hmoved := @view_moved _ s i _ (.finished came now) hi
      change _ = Function.update s.view.place i (.left came now) at hmoved
      have hsame : Function.update s.view.place i (.left came now) =
          s.view.place := by
        have hplace := view_place hi
        change _ = Turns.Place.left came now at hplace
        rw [← hplace, Function.update_eq_self]
      rw [hsame] at hmoved
      have hview : Server.view { s.setThread i (.finished came now) with
          sessions := fetchSub s.sessions } = s.view := by
        unfold Server.view
        congr 1
      rw [hview]

theorem Reachable.view (h : Reachable build image size unwinds start s) :
    ReflTransGen (Turns.Step (discipline build image size unwinds))
      (Turns.Shared.new start) s.view := by
  induction h with
  | refl =>
      have hnew : (new start).view = Turns.Shared.new start := rfl
      rw [hnew]
  | @tail s s' hreach hstep ih =>
      have hview : ReflGen (Turns.Step (discipline build image size unwinds))
          s.view s'.view := by
        cases hstep with
        | acceptor hstep => exact hstep.view
        | thread hstep => exact hstep.view (Reachable.gate hreach)
      exact ih.trans hview.to_reflTransGen

/-! ## Serial runs -/

theorem servedInTurn_of_serial {turns : List (ℕ × Connection × Connection)}
    {between : σ}
    (h : Turns.Serial (discipline build image size unwinds) start turns between)
    (hcame : ∀ turn ∈ turns, turn.2.1.Untouched) :
    ServedInTurn build image size unwinds start turns between := by
  induction h with
  | nil => exact .nil
  | @snoc turns state state' i came now _ hwork hover ih =>
      have huntouched : came.Untouched := hcame (i, came, now)
        (List.mem_append_right _ (List.mem_singleton_self _))
      refine .snoc (ih fun turn hmem =>
        hcame turn (List.mem_append_left _ hmem)) ?_
      exact works_turn huntouched.stage hwork hover

theorem left_iff {s : Server σ} {i : ℕ} {came now : Connection} :
    s.view.place i = .left came now ↔
      s.threads[i]? = some (.unlocked came now) ∨
        s.threads[i]? = some (.finished came now) := by
  cases hthread : s.threads[i]? with
  | none => simp [Server.view, hthread]
  | some thread =>
      rw [view_place hthread]
      cases thread <;> simp [SessionThread.place]

/-- The turns were taken by connections as they came. -/
theorem Reachable.turns_untouched
    (h : Reachable build image size unwinds start s)
    {turns : List (ℕ × Connection × Connection)} {between : σ}
    (hordered : Turns.Ordered (discipline build image size unwinds) start
      s.view turns between) :
    ∀ turn ∈ turns, turn.2.1.Untouched := by
  rintro ⟨i, came, now⟩ hmem
  rcases left_iff.mp ((hordered.left_iff i came now).mpr hmem) with hi | hi
  · exact h.arrivals.came _ (List.mem_of_getElem? hi)
  · exact h.arrivals.came _ (List.mem_of_getElem? hi)

variable (build image size unwinds) in
/-- The sessions which are over were served one after another, in the order in
which they are listed; the one under the lock has got to work on the image
which the last of them left. -/
structure TakesTurns (start : σ) (s : Server σ)
    (turns : List (ℕ × Connection × Connection)) (between : σ) : Prop where
  served : ServedInTurn build image size unwinds start turns between
  nodup : (turns.map Prod.fst).Nodup
  over_iff : ∀ i came now, (i, came, now) ∈ turns ↔
    s.threads[i]? = some (.unlocked came now) ∨
      s.threads[i]? = some (.finished came now)
  serving : ∀ (i : ℕ) (came now : Connection),
    s.threads[i]? = some (.serving came now) →
      Intact build image size (came.session between) (now.session s.image)
          now.stage ∨
        Turn build image size unwinds came between now s.image
  unlocked : s.locked = false → s.image = between

theorem sessions_take_turns
    (h : Reachable build image size unwinds start s) :
    ∃ turns between,
      TakesTurns build image size unwinds start s turns between := by
  obtain ⟨turns, between, hordered⟩ := Turns.reachable_ordered h.view
  refine ⟨turns, between, {
    served := servedInTurn_of_serial hordered.serial
      (h.turns_untouched hordered)
    nodup := hordered.nodup
    over_iff := fun i came now =>
      (hordered.left_iff i came now).symm.trans left_iff
    serving := ?_
    unlocked := ?_ }⟩
  · intro i came now hi
    have huntouched : came.Untouched :=
      h.arrivals.came _ (List.mem_of_getElem? hi)
    have hplace : s.view.place i = .holding came now := by
      rw [view_place hi]
      rfl
    exact works_intact huntouched.stage (hordered.holder i came now hplace)
  · intro hfree
    apply hordered.free
    intro i came now hi
    cases hthread : s.threads[i]? with
    | none => simp [Server.view, hthread] at hi
    | some thread =>
        rw [view_place hthread] at hi
        cases thread with
        | serving came' now' => exact h.gate.not_locked hfree hthread
        | waiting _ => simp [SessionThread.place] at hi
        | unlocked _ _ => simp [SessionThread.place] at hi
        | finished _ _ => simp [SessionThread.place] at hi

/-! ## Sessions end -/

/-- How many steps a thread has before it at most. -/
def stepsLeft : SessionThread → ℕ
  | .waiting came => came.stage.work (came.session ()) + 3
  | .serving _ now => now.stage.work (now.session ()) + 2
  | .unlocked _ _ => 1
  | .finished _ _ => 0

def work (s : Server σ) : ℕ := (s.threads.map stepsLeft).sum

theorem work_moved {i : ℕ} {thread thread' : SessionThread}
    (hi : s.threads[i]? = some thread)
    (hthreads : s'.threads = s.threads.set i thread')
    (hlt : stepsLeft thread' < stepsLeft thread) : s'.work < s.work := by
  unfold work
  rw [hthreads]
  exact sum_map_set_lt hi hlt

theorem stage_work_session {ρ τ : Type} (stage : Stage) (conn : Connection)
    (state : ρ) (state' : τ) :
    stage.work (conn.session state) = stage.work (conn.session state') := by
  cases stage <;> rfl

theorem ThreadStep.work_lt
    (h : ThreadStep build image size unwinds s s') : s'.work < s.work := by
  cases h with
  | lock hi hfree => exact work_moved hi rfl (Nat.lt_succ_self _)
  | @serve i came now next state hi hwork =>
      refine work_moved hi rfl (Nat.add_lt_add_right ?_ 2)
      cases hwork with
      | @advance _ _ stage session hadvance =>
          have hlt := (advanced_of_advance hadvance).work
          rw [stage_work_session now.stage now s.image ()] at hlt
          have hsame : stage.work session = stage.work
              ((⟨stage, session.input, session.output⟩ : Connection).session
                ()) := by
            cases stage <;> rfl
          rw [hsame] at hlt
          exact hlt
      | unwind hstage hunwinds written =>
          rw [hstage]
          exact Nat.succ_pos _
  | @unlock i came now hi hover =>
      exact work_moved hi rfl (Nat.lt_add_left _ Nat.one_lt_two)
  | release hi => exact work_moved hi rfl Nat.zero_lt_one

/-- A session which is not over can go on, or waits for one which can. -/
theorem Gate.exists_step (h : s.Gate) {thread : SessionThread}
    (hmem : thread ∈ s.threads) (hpending : thread.pending = true) :
    ∃ s', ThreadStep build image size unwinds s s' := by
  have hserving : ∀ (i : ℕ) (came now : Connection),
      s.threads[i]? = some (.serving came now) →
        ∃ s', ThreadStep build image size unwinds s s' := by
    intro i came now hi
    cases hover : now.stage.isOver with
    | true => exact ⟨_, .unlock hi hover⟩
    | false =>
        obtain ⟨stage', session', hadvanced⟩ :=
          @exists_advanced σ build image size now.stage hover
            (now.session s.image)
        exact ⟨_, .serve hi (.advance hadvanced.step)⟩
  obtain ⟨i, hi⟩ := List.mem_iff_getElem?.mp hmem
  cases thread with
  | waiting came =>
      cases hlocked : s.locked with
      | false => exact ⟨_, .lock hi hlocked⟩
      | true =>
          have hpos : 0 < s.threads.countP SessionThread.isServing := by
            rw [h.serving, hlocked]
            exact Nat.zero_lt_one
          obtain ⟨holder, hholder, hisServing⟩ := List.countP_pos_iff.mp hpos
          obtain ⟨j, hj⟩ := List.mem_iff_getElem?.mp hholder
          cases holder with
          | serving came' now' => exact hserving j came' now' hj
          | waiting _ => simp [SessionThread.isServing] at hisServing
          | unlocked _ _ => simp [SessionThread.isServing] at hisServing
          | finished _ _ => simp [SessionThread.isServing] at hisServing
  | serving came now => exact hserving i came now hi
  | unlocked came now => exact ⟨_, .release hi⟩
  | finished came now => simp [SessionThread.pending] at hpending

end Refinement

theorem sessions_take_turns_threeClients :
    ∃ turns between, TakesTurns .dev zeroImage (fun _ => 4096)
      (fun _ _ => False) () threeClients turns between :=
  sessions_take_turns reachable_threeClients

end Server

end Nbd
end ImageReader
