import ImageReader.NbdServer

/-!
# One session of the NBD server

A session thread takes its connection through the negotiation and the requests
in steps.  Each step shortens what is left of the client's bytes, or ends the
session; run to the end, the steps are `serveConnection`.
-/

namespace ImageReader
namespace Nbd

open Relation (ReflTransGen)

/-! ## One step of a session -/

section Shortening

variable {σ E : Type}

/-- An iteration comes back, and takes bytes off the stream if it is not the
last one. -/
def Shortens (session : Session σ) :
    Outcome (E × Session σ) (Step (Session σ) (Session σ)) → Prop
  | .ok (.next session') => session'.input.length < session.input.length
  | .ok (.done session') => session'.input.length ≤ session.input.length
  | .error _ => True
  | .panic _ => False
  | .hang => False

theorem answerOption_shortens {session session' : Session σ}
    (h : session'.input.length < session.input.length)
    (exportSize clientFlags clopt optlen : ℕ) :
    Shortens session
      (answerOption exportSize clientFlags clopt optlen session') := by
  have hfinish : (finishExport session' exportSize clientFlags).input =
      session'.input := by
    unfold finishExport
    split_ifs <;> rfl
  unfold answerOption
  split_ifs with hexport habort hlist hempty hgo
  · change (finishExport session' exportSize clientFlags).input.length ≤ _
    rw [hfinish]
    exact h.le
  · trivial
  · trivial
  · exact h
  · by_cases hclopt : clopt = optGo
    · rw [replyGoOrInfo, decide_eq_true hclopt]
      exact h.le
    · rw [replyGoOrInfo, decide_eq_false hclopt]
      exact h
  · exact h

theorem handshakeBody_shortens (exportSize clientFlags : ℕ)
    (session : Session σ) :
    Shortens session (handshakeBody exportSize clientFlags session) := by
  rcases option_cases session.input with ⟨e, hgives⟩ | ⟨o, tail, hinput⟩
  · obtain ⟨input, hbody⟩ :=
      handshakeBody_givesUp exportSize clientFlags session hgives
    rw [hbody]
    trivial
  · rw [handshakeBody_encode hinput]
    apply answerOption_shortens
    rw [hinput, List.length_append, ClientOption.length_encode]
    change tail.length < _
    omega

/-- A part of an iteration comes back, with no more on the stream than
before. -/
def Leaves (session : Session σ) :
    Outcome (E × Session σ) (Session σ) → Prop
  | .ok session' => session'.input.length ≤ session.input.length
  | .error _ => True
  | .panic _ => False
  | .hang => False

theorem Leaves.shortens {session before : Session σ}
    {x : Outcome (E × Session σ) (Session σ)} {reply : Session σ → Session σ}
    (h : Leaves session x) (hlt : session.input.length < before.input.length)
    (hreply : ∀ session, (reply session).input = session.input) :
    Shortens before (x >>= fun session => pure (.next (reply session))) := by
  cases x with
  | ok session' =>
      change (reply session').input.length < before.input.length
      rw [hreply]
      exact lt_of_le_of_lt h hlt
  | error failure => trivial
  | panic fault => exact h
  | hang => exact h

theorem drain_leaves (build : Build) (len : ℕ) (session : Session σ) :
    Leaves session (drain build len readBufSize session) := by
  unfold drain
  refine loop_rule
    (fun state : ℕ × Session σ =>
      state.2.input.length ≤ session.input.length) Prod.fst (Leaves session)
    ?_ (le_refl _) (Nat.lt_succ_self len)
  rintro ⟨remaining, session'⟩ hle
  unfold drainBody
  simp only at hle ⊢
  split_ifs with hmore
  · have hpositive : 0 < min remaining readBufSize := lt_min hmore (by decide)
    unfold Session.readExact
    split_ifs with henough
    · rw [Outcome.ok_bind]
      simp only
      rw [Build.sub_of_le (min_le_left _ _), Outcome.ok_bind]
      refine ⟨?_, ?_⟩
      · simp only [List.length_drop]
        omega
      · simp only
        omega
    · trivial
  · exact hle

/-- Serving a read takes nothing off the stream. -/
theorem serveRead_leaves (build : Build) (image : NbdImage σ) {exportSize : ℕ}
    (hexport : exportSize < wordLimit) (offset length handle : ℕ)
    (session : Session σ) :
    Leaves session (serveRead build image exportSize offset length handle
      readBufSize session) := by
  by_cases hrefused : Refused exportSize offset length
  · rw [serveRead_refused hrefused]
    exact le_refl _
  · have hend : offset + length < wordLimit := by
      unfold Refused at hrefused
      omega
    have hserved : ServedRead image session offset length handle
        (serveRead build image exportSize offset length handle readBufSize
          session) := serveRead_served hend hrefused
    generalize serveRead build image exportSize offset length handle
      readBufSize session = outcome at hserved
    cases hserved with
    | served _ _ => exact le_refl _
    | failed _ => exact le_refl _
    | broken _ _ => trivial

theorem transmissionBody_shortens (build : Build) (image : NbdImage σ)
    {exportSize : ℕ} (hexport : exportSize < wordLimit)
    (session : Session σ) :
    Shortens session (transmissionBody build image exportSize session) := by
  by_cases hshort : 28 ≤ session.input.length
  swap
  · unfold transmissionBody Session.readExact
    rw [if_neg hshort]
    trivial
  have hlt : (session.input.drop 28).length < session.input.length := by
    rw [List.length_drop]
    omega
  unfold transmissionBody
  rw [Session.readExact, if_pos hshort, Outcome.ok_bind]
  simp only
  cases parseHeader (session.input.take 28) with
  | error err => trivial
  | ok header =>
      simp only
      split_ifs with hread hdisc hflush hwrite
      · exact (serveRead_leaves build image hexport header.offset header.length
          header.handle { session with input := session.input.drop 28 }
          ).shortens hlt fun _ => rfl
      · exact hlt.le
      · exact hlt
      · exact (drain_leaves build header.length
          { session with input := session.input.drop 28 }
          ).shortens hlt fun _ => rfl
      · exact hlt

/-- The greeting comes back with the client's flags, or fails; it leaves the
image alone. -/
theorem greet_cases (session : Session σ) :
    (∃ clientFlags session', greet session = .ok (clientFlags, session') ∧
      session'.input.length ≤ session.input.length ∧
      session'.image = session.image) ∨
    ∃ failure, greet session = .error failure ∧
      failure.2.image = session.image := by
  unfold greet
  simp only
  have hinput : (session.write greeting).input = session.input := rfl
  by_cases hlength : 4 ≤ session.input.length
  · rw [receive_of_le (by rw [hinput]; exact hlength), Outcome.ok_bind]
    simp only
    split_ifs
    · exact Or.inr ⟨_, rfl, rfl⟩
    · refine Or.inl ⟨_, _, rfl, ?_, rfl⟩
      change (session.input.drop 4).length ≤ _
      rw [List.length_drop]
      omega
  · rw [receive_of_lt (by rw [hinput]; exact not_le.mp hlength)]
    exact Or.inr ⟨_, rfl, rfl⟩

end Shortening

/-! ## The steps of one session -/

section Advancing

variable {σ : Type} {build : Build} {image : NbdImage σ} {size : σ → UInt64}

theorem handshake_eq_greet (exportSize : ℕ) (session : Session σ) :
    handshake exportSize session = greet session >>= fun greeted =>
      loop (handshakeBody exportSize greeted.1)
        (greeted.2.input.length + 1) greeted.2 := by
  unfold handshake greet
  simp only
  rw [Outcome.bind_assoc]
  congr 1
  funext received
  split_ifs
  · rfl
  · rfl

/-- What is still to be done in a stage, in one piece. -/
def remaining (build : Build) (image : NbdImage σ) (size : σ → UInt64) :
    Stage → Session σ → Outcome (ServeError × Session σ) (Session σ)
  | .greeting, session => serveConnection build image size session
  | .negotiating exportSize clientFlags, session => do
      let session ← (loop (handshakeBody exportSize.toNat clientFlags)
        (session.input.length + 1) session).mapError handshakeFailed
      (transmission build image exportSize.toNat session).mapError
        sessionFailed
  | .transmitting exportSize, session =>
      (transmission build image exportSize.toNat session).mapError
        sessionFailed
  | .ended (.ok ()), session => .ok session
  | .ended (.error err), session => .error (err, session)
  | .unwound, _ => .hang

/-- A loop over the stream, after its first iteration. -/
theorem loop_shortens {E : Type}
    {body : Session σ → Outcome (E × Session σ) (Step (Session σ) (Session σ))}
    (hbody : ∀ session, Shortens session (body session))
    {session session' : Session σ} (h : body session = .ok (.next session')) :
    loop body (session.input.length + 1) session =
      loop body (session'.input.length + 1) session' := by
  have hlt : ∀ state state', body state = .ok (.next state') →
      state'.input.length < state.input.length := by
    intro state state' hnext
    have hshortens := hbody state
    rw [hnext] at hshortens
    exact hshortens
  rw [loop_next h]
  exact loop_fuel (fun session : Session σ => session.input.length) hlt
    (hlt _ _ h) (Nat.lt_succ_self _)

/-- How much a session has before it at most. -/
def Stage.work (stage : Stage) (session : Session σ) : ℕ :=
  match stage with
  | .greeting => session.input.length + 3
  | .negotiating _ _ => session.input.length + 2
  | .transmitting _ => session.input.length + 1
  | .ended _ => 0
  | .unwound => 0

/-- How far a session has come under the lock. -/
inductive Underway (build : Build) (image : NbdImage σ) (size : σ → UInt64)
    (came : Session σ) : Stage → Session σ → Prop
  | greeting : Underway build image size came .greeting came
  | negotiating {clientFlags : ℕ} {session : Session σ}
      (h : handshake (size came.image).toNat came =
        loop (handshakeBody (size came.image).toNat clientFlags)
          (session.input.length + 1) session) :
      Underway build image size came
        (.negotiating (size came.image) clientFlags) session
  | transmitting {accepted session : Session σ}
      (h : handshake (size came.image).toNat came = .ok accepted)
      (hreach : Reaches (transmissionBody build image (size came.image).toNat)
        accepted session) :
      Underway build image size came (.transmitting (size came.image)) session
  | ended {result : Except ServeError Unit} {session : Session σ} :
      Underway build image size came (.ended result) session

/-- A step leaves the rest to be done, and less of it. -/
structure Advanced (build : Build) (image : NbdImage σ) (size : σ → UInt64)
    (stage : Stage) (session : Session σ) (stage' : Stage)
    (session' : Session σ) : Prop where
  step : advance build image size stage session = some (stage', session')
  rest : remaining build image size stage session =
    remaining build image size stage' session'
  work : stage'.work session' < stage.work session
  underway : ∀ came, Underway build image size came stage session →
    Underway build image size came stage' session'

theorem advanced_greeting (session : Session σ) :
    ∃ stage' session', Advanced build image size .greeting session stage'
      session' := by
  rcases greet_cases session with
    ⟨flags, session', hgreet, hle, himage⟩ | ⟨failure, hgreet, -⟩
  · refine ⟨.negotiating (size session.image) flags, session',
      by simp [advance, hgreet], ?_, ?_, ?_⟩
    · unfold remaining serveConnection
      simp only
      rw [handshake_eq_greet, hgreet, Outcome.ok_bind]
    · simp only [Stage.work]
      omega
    · intro came hunderway
      cases hunderway with
      | greeting =>
          refine .negotiating ?_
          rw [handshake_eq_greet, hgreet, Outcome.ok_bind]
  · refine ⟨.ended (.error (.handshake failure.1)), failure.2,
      by simp [advance, hgreet], ?_, Nat.succ_pos _, fun _ _ => .ended⟩
    unfold remaining serveConnection
    simp only
    rw [handshake_eq_greet, hgreet]
    rfl

theorem advanced_negotiating (exportSize : UInt64) (clientFlags : ℕ)
    (session : Session σ) :
    ∃ stage' session', Advanced build image size
      (.negotiating exportSize clientFlags) session stage' session' := by
  have hshortens : ∀ session : Session σ, Shortens session
      (handshakeBody exportSize.toNat clientFlags session) :=
    handshakeBody_shortens exportSize.toNat clientFlags
  have hbound := hshortens session
  cases hbody : handshakeBody exportSize.toNat clientFlags session with
  | ok step =>
      rw [hbody] at hbound
      cases step with
      | next session' =>
          refine ⟨.negotiating exportSize clientFlags, session',
            by simp [advance, hbody], ?_, Nat.add_lt_add_right hbound 2, ?_⟩
          · unfold remaining
            simp only
            rw [loop_shortens hshortens hbody]
          · intro came hunderway
            cases hunderway with
            | negotiating h =>
                exact .negotiating (h.trans (loop_shortens hshortens hbody))
      | done session' =>
          refine ⟨.transmitting exportSize, session',
            by simp [advance, hbody], ?_,
            Nat.add_lt_add_of_le_of_lt hbound (by decide), ?_⟩
          · unfold remaining
            simp only
            rw [loop_done hbody]
            rfl
          · intro came hunderway
            cases hunderway with
            | negotiating h => exact .transmitting (h.trans (loop_done hbody)) .start
  | error failure =>
      refine ⟨.ended (.error (.handshake failure.1)), failure.2,
        by simp [advance, hbody], ?_, Nat.succ_pos _, fun _ _ => .ended⟩
      unfold remaining
      simp only
      rw [loop_error hbody]
      rfl
  | panic fault =>
      rw [hbody] at hbound
      exact hbound.elim
  | hang =>
      rw [hbody] at hbound
      exact hbound.elim

theorem advanced_transmitting (exportSize : UInt64) (session : Session σ) :
    ∃ stage' session', Advanced build image size (.transmitting exportSize)
      session stage' session' := by
  have hshortens : ∀ session : Session σ, Shortens session
      (transmissionBody build image exportSize.toNat session) :=
    transmissionBody_shortens build image exportSize.toNat_lt
  have hbound := hshortens session
  cases hbody : transmissionBody build image exportSize.toNat session with
  | ok step =>
      rw [hbody] at hbound
      cases step with
      | next session' =>
          refine ⟨.transmitting exportSize, session',
            by simp [advance, hbody], ?_, Nat.add_lt_add_right hbound 1, ?_⟩
          · unfold remaining transmission
            simp only
            rw [loop_shortens hshortens hbody]
          · intro came hunderway
            cases hunderway with
            | transmitting h hreach =>
                exact .transmitting h (hreach.next hbody)
      | done session' =>
          refine ⟨.ended (.ok ()), session', by simp [advance, hbody], ?_,
            Nat.succ_pos _, fun _ _ => .ended⟩
          unfold remaining transmission
          simp only
          rw [loop_done hbody]
          rfl
  | error failure =>
      refine ⟨.ended (.error (.session failure.1)), failure.2,
        by simp [advance, hbody], ?_, Nat.succ_pos _, fun _ _ => .ended⟩
      unfold remaining transmission
      simp only
      rw [loop_error hbody]
      rfl
  | panic fault =>
      rw [hbody] at hbound
      exact hbound.elim
  | hang =>
      rw [hbody] at hbound
      exact hbound.elim

/-- A session which is not over makes a step. -/
theorem exists_advanced {stage : Stage} (hstage : stage.isOver = false)
    (session : Session σ) :
    ∃ stage' session',
      Advanced build image size stage session stage' session' := by
  cases stage with
  | greeting => exact advanced_greeting session
  | negotiating exportSize clientFlags =>
      exact advanced_negotiating exportSize clientFlags session
  | transmitting exportSize => exact advanced_transmitting exportSize session
  | ended result => simp [Stage.isOver] at hstage
  | unwound => simp [Stage.isOver] at hstage

theorem not_over_of_advance {stage : Stage} {session : Session σ}
    {next : Stage × Session σ}
    (h : advance build image size stage session = some next) :
    stage.isOver = false := by
  cases stage with
  | ended result => simp [advance] at h
  | unwound => simp [advance] at h
  | greeting => rfl
  | negotiating exportSize clientFlags => rfl
  | transmitting exportSize => rfl

theorem advanced_of_advance {stage stage' : Stage}
    {session session' : Session σ}
    (h : advance build image size stage session = some (stage', session')) :
    Advanced build image size stage session stage' session' := by
  have hstage := not_over_of_advance h
  obtain ⟨next, session₁, hadvanced⟩ :=
    @exists_advanced σ build image size stage hstage session
  obtain ⟨rfl, rfl⟩ : next = stage' ∧ session₁ = session' := by
    simpa [h] using hadvanced.step.symm
  exact hadvanced

/-- The end of `serve_connection` as its thread sees it. -/
def served (result : Except ServeError Unit) (session : Session σ) :
    Outcome (ServeError × Session σ) (Session σ) :=
  match result with
  | .ok () => .ok session
  | .error err => .error (err, session)

/-- What a connection got under the lock, from the image as it found it to the
image as it left it: what `serveConnection` does, or, where a panic cut it
short, an accepted negotiation, whole requests, and then the panic. -/
inductive Turn (build : Build) (image : NbdImage σ) (size : σ → UInt64)
    (unwinds : σ → σ → Prop) (came : Connection) (state : σ)
    (now : Connection) (state' : σ) : Prop
  | ended {result : Except ServeError Unit}
      (hstage : now.stage = .ended result)
      (h : serveConnection build image size (came.session state) =
        served result (now.session state'))
  | unwound {accepted session : Session σ} (hstage : now.stage = .unwound)
      (haccepted : handshake (size state).toNat (came.session state) =
        .ok accepted)
      (hreach : Reaches (transmissionBody build image (size state).toNat)
        accepted session)
      (hunwinds : unwinds session.image state')
      (hinput : now.input = session.input.drop 28)
      (houtput : session.output <+: now.output)

theorem Turn.isOver {unwinds : σ → σ → Prop} {came now : Connection}
    {state state' : σ}
    (h : Turn build image size unwinds came state now state') :
    now.stage.isOver = true := by
  cases h with
  | ended hstage _ => simp [hstage, Stage.isOver]
  | unwound hstage => simp [hstage, Stage.isOver]

/-- While a session is not cut short, it is under way to what
`serveConnection` does. -/
structure Intact (build : Build) (image : NbdImage σ)
    (size : σ → UInt64) (came session : Session σ) (stage : Stage) : Prop where
  underway : Underway build image size came stage session
  rest : remaining build image size stage session =
    serveConnection build image size came

variable {unwinds : σ → σ → Prop}

/-- A session which is over does nothing more. -/
theorem Works.not_over {conn : Connection} {state : σ} {next : Connection × σ}
    (h : Works build image size unwinds (conn, state) next) :
    conn.stage.isOver = false := by
  cases h with
  | advance hadvance => exact not_over_of_advance hadvance
  | unwind hstage _ _ =>
      rw [hstage]
      rfl

theorem works_intact {came now : Connection} {state state' : σ}
    (hcame : came.stage = .greeting)
    (h : ReflTransGen (Works build image size unwinds) (came, state)
      (now, state')) :
    Intact build image size (came.session state) (now.session state')
        now.stage ∨
      Turn build image size unwinds came state now state' := by
  generalize hend : (now, state') = last at h
  induction h generalizing now state' with
  | refl =>
      obtain ⟨rfl, rfl⟩ := Prod.mk.inj hend
      rw [hcame]
      exact Or.inl ⟨.greeting, rfl⟩
  | @tail mid last _ hwork ih =>
      obtain ⟨conn, image₁⟩ := mid
      rcases ih rfl with hintact | hturn
      · cases hwork with
        | advance hadvance =>
            obtain ⟨rfl, rfl⟩ := Prod.mk.inj hend
            have hadvanced := advanced_of_advance hadvance
            exact Or.inl ⟨hadvanced.underway _ hintact.underway,
              hadvanced.rest.symm.trans hintact.rest⟩
        | unwind hstage hunwinds written =>
            obtain ⟨rfl, rfl⟩ := Prod.mk.inj hend
            have hunderway := hintact.underway
            rw [hstage] at hunderway
            cases hunderway with
            | transmitting haccepted hreach =>
                exact Or.inr (.unwound rfl haccepted hreach hunwinds rfl
                  (List.prefix_append _ _))
      · have hover := hturn.isOver
        rw [hwork.not_over] at hover
        exact absurd hover Bool.false_ne_true

/-- A whole turn. -/
theorem works_turn {came now : Connection} {state state' : σ}
    (hcame : came.stage = .greeting)
    (h : ReflTransGen (Works build image size unwinds) (came, state)
      (now, state')) (hover : now.stage.isOver = true) :
    Turn build image size unwinds came state now state' := by
  rcases works_intact hcame h with hintact | hturn
  · have hrest := hintact.rest
    cases hstage : now.stage with
    | ended result =>
        rw [hstage] at hrest
        refine .ended hstage (hrest.symm.trans ?_)
        cases result <;> rfl
    | unwound =>
        have hunderway := hintact.underway
        rw [hstage] at hunderway
        cases hunderway
    | greeting => simp [hstage, Stage.isOver] at hover
    | negotiating _ _ => simp [hstage, Stage.isOver] at hover
    | transmitting _ => simp [hstage, Stage.isOver] at hover
  · exact hturn

end Advancing

end Nbd
end ImageReader
