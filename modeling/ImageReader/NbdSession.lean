import ImageReader.NbdProtocol

/-!
# NBD conversations

`Conversation` says which replies a sequence of requests may get over an
image: one for every request in turn, until the client disconnects or stops
sending, or until the image fails in the middle of a payload.  The server
holds such a conversation, whatever the image answers, and a client which
knows its own requests reads the replies back off the byte stream.
-/

namespace ImageReader
namespace Nbd

structure Reply where
  error : ℕ
  handle : ℕ
  payload : Bytes
  deriving DecidableEq, Repr

def Reply.encode (reply : Reply) : Bytes :=
  simpleReply reply.error reply.handle ++ reply.payload

/-- Why a read of the image gave no bytes. -/
inductive Failure where
  | eof
  | error (err : IoError)
  deriving DecidableEq, Repr

namespace Failure

def ioError : Failure → IoError
  | eof => ioErr
  | error err => err

def sessionError : Failure → SessionError
  | eof => .unexpectedEofWhileServingRead
  | error err => .image err

end Failure

section Relations

variable {σ : Type} (image : NbdImage σ)

/-- The bytes which successive reads of the image gave for the range of
`length` bytes at `offset`. -/
inductive Delivered (offset length : ℕ) (start : σ) : Bytes → σ → Prop
  | start : Delivered offset length start [] start
  | read {sent data : Bytes} {state state' : σ}
      (hsent : Delivered offset length start sent state)
      (hlt : sent.length < length)
      (hread : image.readAtOffset state (offset + sent.length)
        (min (length - sent.length) readBufSize) = (.ok data, state'))
      (hdata : data ≠ []) :
      Delivered offset length start (sent ++ data) state'

/-- After `sent`, the image had nothing more to give for the range. -/
inductive Fails (offset length : ℕ) (start : σ) :
    Bytes → Failure → σ → Prop
  | eof {sent : Bytes} {state state' : σ}
      (hsent : Delivered image offset length start sent state)
      (hlt : sent.length < length)
      (hread : image.readAtOffset state (offset + sent.length)
        (min (length - sent.length) readBufSize) = (.ok [], state')) :
      Fails offset length start sent .eof state'
  | error {sent : Bytes} {err : IoError} {state state' : σ}
      (hsent : Delivered image offset length start sent state)
      (hlt : sent.length < length)
      (hread : image.readAtOffset state (offset + sent.length)
        (min (length - sent.length) readBufSize) = (.error err, state')) :
      Fails offset length start sent (.error err) state'

/-- The reply to one request after which the conversation goes on. -/
inductive Answers (exportSize : ℕ) (req : Request) (state : σ) :
    Reply → σ → Prop
  | refused (htyp : req.typ.toNat = cmdRead)
      (hrefused : Refused exportSize req.offset.toNat req.length.toNat) :
      Answers exportSize req state ⟨22, req.handle.toNat, []⟩ state
  | failed {failure : Failure} {state' : σ}
      (htyp : req.typ.toNat = cmdRead)
      (hrange : ¬ Refused exportSize req.offset.toNat req.length.toNat)
      (hfails : Fails image req.offset.toNat req.length.toNat state []
        failure state')
      (hcode : 0 < errorCode failure.ioError) :
      Answers exportSize req state
        ⟨errorCode failure.ioError, req.handle.toNat, []⟩ state'
  | served {payload : Bytes} {state' : σ}
      (htyp : req.typ.toNat = cmdRead)
      (hrange : ¬ Refused exportSize req.offset.toNat req.length.toNat)
      (hdelivered : Delivered image req.offset.toNat req.length.toNat state
        payload state')
      (hlength : payload.length = req.length.toNat) :
      Answers exportSize req state ⟨0, req.handle.toNat, payload⟩ state'
  | write (htyp : req.typ.toNat = cmdWrite) :
      Answers exportSize req state ⟨1, req.handle.toNat, []⟩ state
  | flush (htyp : req.typ.toNat = cmdFlush) :
      Answers exportSize req state ⟨0, req.handle.toNat, []⟩ state
  | unsupported
      (htyp : req.typ.toNat ≠ cmdRead ∧ req.typ.toNat ≠ cmdWrite ∧
        req.typ.toNat ≠ cmdDisc ∧ req.typ.toNat ≠ cmdFlush) :
      Answers exportSize req state ⟨38, req.handle.toNat, []⟩ state

/-- A whole transmission phase: the replies to the requests, the requests left
unread, and the error, if any, the session ended with.  The last reply of a
broken conversation stops short of its payload. -/
inductive Conversation (exportSize : ℕ) :
    σ → List Request → List Reply → List Request → Option SessionError → σ →
      Prop
  | closed {state : σ} :
      Conversation exportSize state [] [] [] (some .unexpectedEof) state
  | disconnected {state : σ} {req : Request} {rest : List Request}
      (htyp : req.typ.toNat = cmdDisc) :
      Conversation exportSize state (req :: rest) [] rest none state
  | answered {state state' state'' : σ} {req : Request}
      {rest left : List Request} {reply : Reply} {replies : List Reply}
      {ending : Option SessionError}
      (hanswer : Answers image exportSize req state reply state')
      (hrest : Conversation exportSize state' rest replies left ending
        state'') :
      Conversation exportSize state (req :: rest) (reply :: replies) left
        ending state''
  | broken {state state' : σ} {req : Request} {rest : List Request}
      {sent : Bytes} {failure : Failure}
      (htyp : req.typ.toNat = cmdRead)
      (hrange : ¬ Refused exportSize req.offset.toNat req.length.toNat)
      (hfails : Fails image req.offset.toNat req.length.toNat state sent
        failure state')
      (hsent : sent ≠ []) :
      Conversation exportSize state (req :: rest)
        [⟨0, req.handle.toNat, sent⟩] rest (some failure.sessionError) state'

end Relations

/-- The end of a transmission as its caller sees it. -/
def ended {σ : Type} (ending : Option SessionError) (session : Session σ) :
    Outcome (SessionError × Session σ) (Session σ) :=
  match ending with
  | none => .ok session
  | some err => .error (err, session)

/-! ## Serving a read -/

section Serving

variable {σ : Type} {image : NbdImage σ} {build : Build}

theorem Fails.length_lt {offset length : ℕ} {start state : σ} {sent : Bytes}
    {failure : Failure}
    (h : Fails image offset length start sent failure state) :
    sent.length < length := by
  cases h with
  | eof _ hlt _ => exact hlt
  | error _ hlt _ => exact hlt

/-- The bytes a read has put on the stream: nothing before the first bytes of
the payload are there. -/
def onWire (handle : ℕ) (sent : Bytes) : Bytes :=
  if sent = [] then [] else Reply.encode ⟨0, handle, sent⟩

@[simp] theorem onWire_nil (handle : ℕ) : onWire handle [] = [] := rfl

theorem onWire_of_ne_nil {handle : ℕ} {sent : Bytes} (h : sent ≠ []) :
    onWire handle sent = Reply.encode ⟨0, handle, sent⟩ := by
  simp [onWire, h]

/-- The session of a read after `sent`. -/
def progress (session : Session σ) (state : σ) (handle : ℕ) (sent : Bytes) :
    Session σ :=
  { session with image := state }.write (onWire handle sent)

/-- The loop invariant of `serve_read`. -/
structure Serving (image : NbdImage σ) (session : Session σ)
    (offset length handle : ℕ) (sent : Bytes) (state : ReadState σ) :
    Prop where
  delivered : Delivered image offset length session.image sent
    state.session.image
  session : state.session = progress session state.session.image handle sent
  remaining : state.remaining + sent.length = length
  pos : state.pos = offset + sent.length
  replied : state.replied = true ↔ sent ≠ []

/-- How the loop of `serve_read` ends. -/
def ServedLoop (image : NbdImage σ) (session : Session σ)
    (offset length handle : ℕ) :
    Outcome (SessionError × Session σ) (Bool × Session σ) → Prop
  | .ok (true, session') => ∃ failure state,
      Fails image offset length session.image [] failure state ∧
      session' = writeSimpleError { session with image := state }
        failure.ioError handle
  | .ok (false, session') => ∃ payload state,
      Delivered image offset length session.image payload state ∧
      payload.length = length ∧
      session' = progress session state handle payload
  | .error (err, session') => ∃ sent failure state,
      Fails image offset length session.image sent failure state ∧
      sent ≠ [] ∧ err = failure.sessionError ∧
      session' = progress session state handle sent
  | .panic _ => False
  | .hang => False

theorem progress_append (session : Session σ) (state state' : σ)
    (handle : ℕ) (sent : Bytes) {data : Bytes} (hdata : data ≠ []) :
    (if sent = [] then
        writeSimpleReply
          { progress session state handle sent with image := state' } 0 handle
      else { progress session state handle sent with image := state' }).write
        data =
      progress session state' handle (sent ++ data) := by
  have hne : sent ++ data ≠ [] := by simp [hdata]
  by_cases hsent : sent = []
  · subst hsent
    simp [progress, Session.write, writeSimpleReply, onWire_of_ne_nil hdata,
      Reply.encode]
  · simp [progress, Session.write, onWire_of_ne_nil hsent,
      onWire_of_ne_nil hne, Reply.encode, hsent]

variable {session : Session σ} {offset length handle : ℕ} {sent : Bytes}
  {state : ReadState σ}

/-- A read of the image that gives nothing ends the loop: with an error reply
where nothing is on the stream yet, and with the session otherwise. -/
theorem Serving.fails (hserving : Serving image session offset length handle
      sent state)
    (failure : Failure) {state' : σ}
    (hfails : Fails image offset length session.image sent failure state') :
    Iterates (fun next => ∃ sent, Serving image session offset length handle
        sent next)
      ReadState.remaining (ServedLoop image session offset length handle)
      state.remaining
      (if state.replied = true then
        .error (failure.sessionError,
          { state.session with image := state' })
      else .ok (.done (true, writeSimpleError
        { state.session with image := state' } failure.ioError handle))) := by
  have hprogress : ({ state.session with image := state' } : Session σ) =
      progress session state' handle sent := by
    rw [hserving.session]
    rfl
  by_cases hsent : sent = []
  · have hreplied : ¬ state.replied = true := fun h =>
      hserving.replied.mp h hsent
    subst hsent
    rw [if_neg hreplied, hprogress]
    refine ⟨failure, state', hfails, ?_⟩
    simp [progress]
  · rw [if_pos (hserving.replied.mpr hsent), hprogress]
    exact ⟨sent, failure, state', hfails, hsent, rfl, rfl⟩

/-- The loop after `data` has been read and written out. -/
theorem Serving.delivers
    (hserving : Serving image session offset length handle sent state)
    {data : Bytes} {state' : σ} (hlt : sent.length < length)
    (hread : image.readAtOffset state.session.image (offset + sent.length)
      (min (length - sent.length) readBufSize) = (.ok data, state'))
    (hne : data ≠ []) (hle : data.length ≤ state.remaining) :
    Serving image session offset length handle (sent ++ data) {
      session := (if state.replied = true then
          ({ state.session with image := state' } : Session σ)
        else writeSimpleReply { state.session with image := state' } 0
          handle).write data
      remaining := state.remaining - data.length
      pos := state.pos + data.length
      replied := true } := by
  have hremaining := hserving.remaining
  have hpos := hserving.pos
  have hsession := progress_append session state.session.image state' handle
    sent hne
  rw [← hserving.session] at hsession
  have hcase : (if state.replied = true then
        ({ state.session with image := state' } : Session σ)
      else writeSimpleReply { state.session with image := state' } 0 handle) =
      if sent = [] then
        writeSimpleReply { state.session with image := state' } 0 handle
      else { state.session with image := state' } := by
    by_cases hsent : sent = []
    · rw [if_pos hsent, if_neg fun h => hserving.replied.mp h hsent]
    · rw [if_neg hsent, if_pos (hserving.replied.mpr hsent)]
  rw [hcase, hsession]
  exact {
    delivered := .read hserving.delivered hlt hread hne
    session := rfl
    remaining := by
      simp only [List.length_append]
      omega
    pos := by
      simp only [List.length_append]
      omega
    replied := by simp [hne]
  }

theorem Serving.iterates (hend : offset + length < wordLimit)
    (hserving : Serving image session offset length handle sent state) :
    Iterates (fun next => ∃ sent, Serving image session offset length handle
        sent next)
      ReadState.remaining (ServedLoop image session offset length handle)
      state.remaining
      (serveReadBody build image handle readBufSize state) := by
  have hremaining := hserving.remaining
  have hpos := hserving.pos
  by_cases hmore : 0 < state.remaining
  · have hlt : sent.length < length := by omega
    unfold serveReadBody
    rw [if_pos hmore]
    have hwant : length - sent.length = state.remaining := by omega
    cases hread : image.readAtOffset state.session.image state.pos
        (min state.remaining readBufSize) with
    | mk answer state' =>
        have hread' := hread
        rw [hpos, ← hwant] at hread'
        cases answer with
        | error err =>
            simp only [hread]
            exact hserving.fails (.error err) (.error hserving.delivered hlt hread')
        | ok data =>
            cases data with
            | nil =>
                simp only [hread]
                exact hserving.fails .eof (.eof hserving.delivered hlt hread')
            | cons byte rest =>
                have hlen := image.length_le _ _ _ _ _ hread
                simp only [hread]
                set data := byte :: rest with hdata
                have hne : data ≠ [] := by simp [hdata]
                have hle : data.length ≤ state.remaining :=
                  le_trans hlen (Nat.min_le_left _ _)
                have hpositive : 0 < data.length := List.length_pos_iff.mpr hne
                rw [Build.sub_of_le hle, Outcome.ok_bind,
                  Build.add_of_lt (by omega), Outcome.ok_bind]
                refine ⟨⟨sent ++ data, hserving.delivers hlt hread' hne hle⟩, ?_⟩
                change state.remaining - data.length < state.remaining
                omega
  · unfold serveReadBody
    rw [if_neg hmore]
    exact ⟨sent, state.session.image, hserving.delivered, by omega,
      hserving.session⟩

/-- How `serve_read` ends when the request is not refused. -/
inductive ServedRead (image : NbdImage σ) (session : Session σ)
    (offset length handle : ℕ) :
    Outcome (SessionError × Session σ) (Session σ) → Prop
  | served {payload : Bytes} {state : σ}
      (hdelivered : Delivered image offset length session.image payload state)
      (hlength : payload.length = length) :
      ServedRead image session offset length handle
        (.ok ({ session with image := state }.write
          (Reply.encode ⟨0, handle, payload⟩)))
  | failed {failure : Failure} {state : σ}
      (hfails : Fails image offset length session.image [] failure state) :
      ServedRead image session offset length handle
        (.ok ({ session with image := state }.write
          (Reply.encode ⟨errorCode failure.ioError, handle, []⟩)))
  | broken {sent : Bytes} {failure : Failure} {state : σ}
      (hfails : Fails image offset length session.image sent failure state)
      (hsent : sent ≠ []) :
      ServedRead image session offset length handle
        (.error (failure.sessionError,
          { session with image := state }.write
            (Reply.encode ⟨0, handle, sent⟩)))

theorem serveRead_refused {exportSize : ℕ}
    (h : Refused exportSize offset length) :
    serveRead build image exportSize offset length handle readBufSize
        session =
      .ok (session.write (Reply.encode ⟨22, handle, []⟩)) := by
  simp [serveRead, readRequestError_eq, h, writeSimpleReply, Reply.encode]

theorem serveRead_served {exportSize : ℕ}
    (hend : offset + length < wordLimit)
    (h : ¬ Refused exportSize offset length) :
    ServedRead image session offset length handle
      (serveRead build image exportSize offset length handle readBufSize
        session) := by
  have hloop : ServedLoop image session offset length handle
      (loop (serveReadBody build image handle readBufSize) (length + 1)
        { session, remaining := length, pos := offset, replied := false }) := by
    refine loop_rule
      (fun state => ∃ sent,
        Serving image session offset length handle sent state)
      ReadState.remaining (ServedLoop image session offset length handle)
      ?_ ⟨[], ?_⟩ (Nat.lt_succ_self length)
    · rintro state ⟨sent, hserving⟩
      exact hserving.iterates hend
    · exact {
        delivered := .start
        session := by simp [progress]
        remaining := by simp
        pos := by simp
        replied := by simp
      }
  unfold serveRead
  rw [readRequestError_eq, if_neg h]
  simp only
  revert hloop
  generalize loop (serveReadBody build image handle readBufSize) (length + 1)
    { session, remaining := length, pos := offset, replied := false } = result
  intro hloop
  cases result with
  | ok value =>
      obtain ⟨returned, session'⟩ := value
      cases returned with
      | true =>
          obtain ⟨failure, state, hfails, rfl⟩ := hloop
          have hserved : ServedRead image session offset length handle _ :=
            .failed hfails
          simpa [writeSimpleError, writeSimpleReply, Reply.encode] using hserved
      | false =>
          obtain ⟨payload, state, hdelivered, hlength, rfl⟩ := hloop
          have hserved : ServedRead image session offset length handle _ :=
            .served hdelivered hlength
          by_cases hzero : length = 0
          · have hnil : payload = [] :=
              List.length_eq_zero_iff.mp (hlength.trans hzero)
            simpa [hzero, hnil, progress, writeSimpleReply, Reply.encode]
              using hserved
          · have hne : payload ≠ [] := by
              rintro rfl
              exact hzero hlength.symm
            simpa [hzero, progress, onWire_of_ne_nil hne] using hserved
  | error value =>
      obtain ⟨err, session'⟩ := value
      obtain ⟨sent, failure, state, hfails, hsent, rfl, rfl⟩ := hloop
      have hserved : ServedRead image session offset length handle _ :=
        .broken hfails hsent
      simpa [progress, onWire_of_ne_nil hsent] using hserved
  | panic fault => exact hloop.elim
  | hang => exact hloop.elim

end Serving

/-! ## Draining a write -/

section Draining

variable {σ : Type}

theorem drain_append (build : Build) {session : Session σ} {len : ℕ}
    {payload rest : Bytes} (hinput : session.input = payload ++ rest)
    (hlen : payload.length = len) :
    drain build len readBufSize session =
      .ok { session with input := rest } := by
  unfold drain
  apply loop_rule
    (fun state : ℕ × Session σ => ∃ front, state.1 = front.length ∧
      state.2 = { session with input := front ++ rest })
    Prod.fst
    (fun outcome : Outcome (SessionError × Session σ) (Session σ) =>
      outcome = .ok { session with input := rest })
  · rintro ⟨remaining, session'⟩ ⟨front, hremaining, hsession⟩
    simp only at hremaining hsession
    subst hremaining hsession
    unfold drainBody
    by_cases hmore : 0 < front.length
    · set want := min front.length readBufSize with hwant
      have hwant' : want ≤ front.length := Nat.min_le_left _ _
      have hpositive : 0 < want := lt_min hmore (by decide)
      have hread : ({ session with input := front ++ rest } :
            Session σ).readExact want =
          .ok (front.take want,
            { session with input := front.drop want ++ rest }) := by
        apply Session.readExact_append
        · rw [← List.append_assoc, List.take_append_drop]
        · simp [hwant']
      rw [if_pos hmore]
      simp only
      rw [hread, Outcome.ok_bind, Build.sub_of_le hwant', Outcome.ok_bind]
      refine ⟨⟨front.drop want, by simp, rfl⟩, ?_⟩
      change front.length - want < front.length
      omega
    · rw [if_neg hmore]
      obtain rfl : front = [] := List.length_eq_zero_iff.mp (by omega)
      rfl
  · exact ⟨payload, hlen.symm, by rw [← hinput]⟩
  · exact Nat.lt_succ_self len

end Draining

/-! ## The server holds a conversation -/

section Transmission

variable {σ : Type} {image : NbdImage σ} {build : Build} {exportSize : ℕ}

/-- What the server does with one request of the client. -/
inductive Serves (image : NbdImage σ) (exportSize : ℕ) (req : Request)
    (session : Session σ) (rest : Bytes) :
    Outcome (SessionError × Session σ) (Step (Session σ) (Session σ)) → Prop
  | answered {reply : Reply} {state : σ}
      (hanswer : Answers image exportSize req session.image reply state) :
      Serves image exportSize req session rest
        (.ok (.next ⟨rest, session.output ++ reply.encode, state⟩))
  | disconnected (htyp : req.typ.toNat = cmdDisc) :
      Serves image exportSize req session rest
        (.ok (.done { session with input := rest }))
  | broken {sent : Bytes} {failure : Failure} {state : σ}
      (htyp : req.typ.toNat = cmdRead)
      (hrange : ¬ Refused exportSize req.offset.toNat req.length.toNat)
      (hfails : Fails image req.offset.toNat req.length.toNat session.image
        sent failure state)
      (hsent : sent ≠ []) :
      Serves image exportSize req session rest
        (.error (failure.sessionError,
          ⟨rest, session.output ++
            Reply.encode ⟨0, req.handle.toNat, sent⟩, state⟩))

/-- A reply without a payload is a simple reply. -/
theorem Serves.answered_simple {req : Request} {session : Session σ}
    {rest : Bytes} {code handle : ℕ}
    (hanswer : Answers image exportSize req session.image ⟨code, handle, []⟩
      session.image) :
    Serves image exportSize req session rest
      (.ok (.next (writeSimpleReply { session with input := rest } code
        handle))) := by
  have hserves : Serves image exportSize req session rest
      (.ok (.next ⟨rest, session.output ++ Reply.encode ⟨code, handle, []⟩,
        session.image⟩)) := .answered hanswer
  have hencode : (⟨code, handle, []⟩ : Reply).encode = simpleReply code handle := by
    unfold Reply.encode
    rw [List.append_nil]
  rw [hencode] at hserves
  exact hserves

theorem transmissionBody_serves (hexport : exportSize < wordLimit)
    {session : Session σ} {req : Request} {rest : Bytes}
    (hinput : session.input = req.encode ++ rest) :
    Serves image exportSize req session rest
      (transmissionBody build image exportSize session) := by
  have hheader : session.readExact 28 = .ok (req.header,
      { session with input := req.payload ++ rest }) := by
    apply Session.readExact_append _ req.length_header
    rw [hinput, Request.encode, List.append_assoc]
  have hpayload := req.payload_length
  unfold transmissionBody
  rw [hheader, Outcome.ok_bind]
  simp only [parseHeader_header]
  by_cases hread : req.typ.toNat = cmdRead
  · have hnil : req.payload = [] := by
      rw [hread, if_neg (by decide)] at hpayload
      exact List.length_eq_zero_iff.mp hpayload
    rw [if_pos hread, hnil, List.nil_append]
    by_cases hrefused : Refused exportSize req.offset.toNat req.length.toNat
    · rw [serveRead_refused hrefused]
      exact .answered_simple (.refused hread hrefused)
    · have hend : req.offset.toNat + req.length.toNat < wordLimit := by
        unfold Refused at hrefused
        omega
      have hserved : ServedRead image { session with input := rest }
          req.offset.toNat req.length.toNat req.handle.toNat
          (serveRead build image exportSize req.offset.toNat
            req.length.toNat req.handle.toNat readBufSize
            { session with input := rest }) :=
        serveRead_served hend hrefused
      revert hserved
      generalize serveRead build image exportSize req.offset.toNat
        req.length.toNat req.handle.toNat readBufSize
        { session with input := rest } = outcome
      intro hserved
      cases hserved with
      | served hdelivered hlength =>
          exact .answered (.served hread hrefused hdelivered hlength)
      | failed hfails =>
          exact .answered
            (.failed hread hrefused hfails (errorCode_bounds _).1)
      | broken hfails hsent => exact .broken hread hrefused hfails hsent
  · rw [if_neg hread]
    by_cases hwrite : req.typ.toNat = cmdWrite
    · rw [hwrite, if_pos rfl] at hpayload
      rw [hwrite, if_neg (by decide), if_neg (by decide), if_pos rfl,
        drain_append build rfl hpayload]
      exact .answered_simple (.write hwrite)
    · have hnil : req.payload = [] := by
        rw [if_neg hwrite] at hpayload
        exact List.length_eq_zero_iff.mp hpayload
      rw [hnil, List.nil_append]
      by_cases hdisc : req.typ.toNat = cmdDisc
      · rw [if_pos hdisc]
        exact .disconnected hdisc
      · rw [if_neg hdisc]
        by_cases hflush : req.typ.toNat = cmdFlush
        · rw [if_pos hflush]
          exact .answered_simple (.flush hflush)
        · rw [if_neg hflush, if_neg hwrite]
          exact .answered_simple (.unsupported ⟨hread, hwrite, hdisc, hflush⟩)

theorem transmissionBody_closed {session : Session σ}
    (hinput : session.input = []) :
    transmissionBody build image exportSize session =
      .error (.unexpectedEof, session) := by
  have hsession : ({ session with input := [] } : Session σ) = session := by
    rw [← hinput]
  simp [transmissionBody, Session.readExact, hinput, hsession]

/-- The induction is on the requests: each of them costs the server one
iteration, and `fuel` is enough for all of them. -/
theorem loop_conversation (build : Build) (image : NbdImage σ)
    (hexport : exportSize < wordLimit) (requests : List Request) (fuel : ℕ)
    (hfuel : requests.length < fuel) (session : Session σ)
    (hinput : session.input = requests.flatMap Request.encode) :
    ∃ replies left ending state,
      Conversation image exportSize session.image requests replies left ending
        state ∧
      loop (transmissionBody build image exportSize) fuel session =
        ended ending ⟨left.flatMap Request.encode,
          session.output ++ replies.flatMap Reply.encode, state⟩ := by
  induction requests generalizing fuel session with
  | nil =>
      refine ⟨[], [], some .unexpectedEof, session.image, .closed, ?_⟩
      obtain ⟨fuel, rfl⟩ : ∃ k, fuel = k + 1 :=
        Nat.exists_eq_succ_of_ne_zero (by omega)
      rw [loop_error (transmissionBody_closed hinput)]
      simp [ended, ← hinput]
  | cons req rest ih =>
      obtain ⟨fuel, rfl⟩ : ∃ k, fuel = k + 1 :=
        Nat.exists_eq_succ_of_ne_zero (by simp at hfuel; omega)
      rw [List.flatMap_cons] at hinput
      have hserves : Serves image exportSize req session
          (rest.flatMap Request.encode)
          (transmissionBody build image exportSize session) :=
        transmissionBody_serves hexport hinput
      generalize hbody : transmissionBody build image exportSize session =
        outcome at hserves
      cases hserves with
      | @answered reply state hanswer =>
          rw [loop_next hbody]
          obtain ⟨replies, left, ending, state', hconversation, hloop⟩ :=
            ih fuel (by simpa using hfuel) ⟨rest.flatMap Request.encode,
              session.output ++ reply.encode, state⟩ rfl
          refine ⟨reply :: replies, left, ending, state',
            .answered hanswer hconversation, ?_⟩
          rw [hloop, List.flatMap_cons, List.append_assoc]
      | disconnected htyp =>
          refine ⟨[], rest, none, session.image, .disconnected htyp, ?_⟩
          rw [loop_done hbody]
          simp [ended]
      | @broken sent failure state htyp hrange hfails hsent =>
          refine ⟨[⟨0, req.handle.toNat, sent⟩], rest,
            some failure.sessionError, state,
            .broken htyp hrange hfails hsent, ?_⟩
          rw [loop_error hbody]
          simp [ended]

end Transmission

/-! ## The client reads the replies -/

/-- The replies a client finds on the stream to the requests it sent: it knows
from the request and from the error in a header how many bytes of payload
follow. -/
def clientReplies : List Request → Bytes → List Reply
  | [], _ => []
  | req :: rest, stream =>
      if stream = [] ∨ req.typ.toNat = cmdDisc then []
      else if fromBE (stream.take 4) ≠ simpleReplyMagic then []
      else
        let error := fromBE ((stream.drop 4).take 4)
        let handle := fromBE ((stream.drop 8).take 8)
        let len :=
          if req.typ.toNat = cmdRead ∧ error = 0 then req.length.toNat else 0
        let payload := (stream.drop 16).take len
        { error, handle, payload } :: clientReplies rest (stream.drop (16 + len))

section Client

variable {σ : Type} {image : NbdImage σ} {exportSize : ℕ}

@[simp] theorem clientReplies_nil (requests : List Request) :
    clientReplies requests [] = [] := by
  cases requests with
  | nil => rfl
  | cons req rest => simp [clientReplies]

/-- What every reply owes the client: the handle of the request, and a payload
of the length asked for exactly when the header says success. -/
structure Reply.Answering (reply : Reply) (req : Request) : Prop where
  awaited : req.typ.toNat ≠ cmdDisc
  handle : reply.handle = req.handle.toNat
  error_lt : reply.error < 2 ^ 32
  length : reply.payload.length =
    if req.typ.toNat = cmdRead ∧ reply.error = 0 then req.length.toNat else 0

theorem Answers.answering {req : Request} {reply : Reply} {state state' : σ}
    (h : Answers image exportSize req state reply state') :
    reply.Answering req := by
  cases h with
  | refused htyp _ => exact ⟨by simp [htyp, cmdRead, cmdDisc], rfl, by simp, by simp⟩
  | @failed failure _ htyp _ _ hcode =>
      have hlt := (errorCode_bounds failure.ioError).2
      exact ⟨by simp [htyp, cmdRead, cmdDisc], rfl,
        by simp only; omega, by simp [hcode.ne']⟩
  | served htyp _ _ hlength =>
      exact ⟨by simp [htyp, cmdRead, cmdDisc], rfl, by simp,
        by simp [htyp, hlength]⟩
  | write htyp =>
      exact ⟨by simp [htyp, cmdWrite, cmdDisc], rfl, by simp, by simp⟩
  | flush htyp =>
      exact ⟨by simp [htyp, cmdFlush, cmdDisc], rfl, by simp,
        by simp [htyp, cmdFlush, cmdRead]⟩
  | unsupported htyp => exact ⟨htyp.2.2.1, rfl, by simp, by simp [htyp.1]⟩

theorem clientReplies_encode {req : Request} (rest : List Request)
    (reply : Reply) (stream : Bytes) {len : ℕ}
    (hawaited : req.typ.toNat ≠ cmdDisc)
    (hhandle : reply.handle = req.handle.toNat)
    (herror : reply.error < 2 ^ 32)
    (hlen : len =
      if req.typ.toNat = cmdRead ∧ reply.error = 0 then req.length.toNat else 0)
    (hpayload : (reply.payload ++ stream).take len = reply.payload) :
    clientReplies (req :: rest) (reply.encode ++ stream) =
      reply :: clientReplies rest ((reply.payload ++ stream).drop len) := by
  have hlt := req.handle.toNat_lt
  have hmagic : simpleReplyMagic < 256 ^ 4 := by decide
  have hassoc : reply.encode ++ stream = toBE 4 simpleReplyMagic ++
      (toBE 4 reply.error ++ (toBE 8 reply.handle ++
        (reply.payload ++ stream))) := by
    simp [Reply.encode, simpleReply, List.append_assoc]
  have hne : ¬ (reply.encode ++ stream = [] ∨ req.typ.toNat = cmdDisc) := by
    rintro (hnil | htyp)
    · have := congrArg List.length hnil
      simp [Reply.encode] at this
    · exact hawaited htyp
  have hfront : (reply.encode ++ stream).take 4 = toBE 4 simpleReplyMagic := by
    rw [hassoc]
    exact List.take_left' (by simp)
  have hfour : (reply.encode ++ stream).drop 4 = toBE 4 reply.error ++
      (toBE 8 reply.handle ++ (reply.payload ++ stream)) := by
    rw [hassoc]
    exact List.drop_left' (by simp)
  have height : (reply.encode ++ stream).drop 8 =
      toBE 8 reply.handle ++ (reply.payload ++ stream) := by
    rw [show 8 = 4 + 4 from rfl, ← List.drop_drop, hfour]
    exact List.drop_left' (by simp)
  have hsixteen : (reply.encode ++ stream).drop 16 =
      reply.payload ++ stream := by
    rw [show 16 = 8 + 8 from rfl, ← List.drop_drop, height]
    exact List.drop_left' (by simp)
  have hcode : fromBE (((reply.encode ++ stream).drop 4).take 4) =
      reply.error := by
    rw [hfour, List.take_left' (by simp), fromBE_toBE (by omega)]
  have hname : fromBE (((reply.encode ++ stream).drop 8).take 8) =
      reply.handle := by
    rw [height, List.take_left' (by simp), fromBE_toBE (by omega)]
  rw [clientReplies, if_neg hne,
    if_neg (by rw [hfront, fromBE_toBE hmagic]; simp)]
  simp only [hcode, hname, ← hlen, hsixteen, ← List.drop_drop, hpayload]

/-- A client which knows its own requests stays in step. -/
theorem Conversation.clientReplies_eq {requests left : List Request}
    {replies : List Reply} {ending : Option SessionError} {state state' : σ}
    (h : Conversation image exportSize state requests replies left ending
      state') :
    clientReplies requests (replies.flatMap Reply.encode) = replies := by
  induction h with
  | closed => rfl
  | disconnected _ => simp
  | @answered _ _ _ req _ _ reply replies _ hanswer _ ih =>
      have hreply := hanswer.answering
      rw [List.flatMap_cons, clientReplies_encode _ _ _ hreply.awaited
        hreply.handle hreply.error_lt rfl, ← hreply.length, List.drop_left, ih]
      rw [← hreply.length, List.take_left]
  | @broken _ _ req rest sent _ htyp _ hfails _ =>
      have hlt := hfails.length_lt
      have hencode := clientReplies_encode rest ⟨0, req.handle.toNat, sent⟩ []
        (by simp [htyp, cmdRead, cmdDisc]) rfl (by simp) rfl
        (by simp [htyp, hlt.le])
      simpa [htyp, List.drop_eq_nil_of_le hlt.le] using hencode

end Client

/-! ## Main result -/

/-- Whatever a client sends and whatever the image answers, the transmission
phase is a conversation: the requests left unread are still on the stream, the
replies to the others are on it, and a client reads them back. -/
theorem transmission_holds_conversation {σ : Type} (build : Build)
    (image : NbdImage σ) (exportSize : UInt64) (requests : List Request)
    (state : σ) :
    ∃ replies left ending state',
      Conversation image exportSize.toNat state requests replies left ending
        state' ∧
      transmission build image exportSize.toNat
          ⟨requests.flatMap Request.encode, [], state⟩ =
        ended ending ⟨left.flatMap Request.encode,
          replies.flatMap Reply.encode, state'⟩ ∧
      clientReplies requests (replies.flatMap Reply.encode) = replies := by
  have hlength : requests.length <
      (requests.flatMap Request.encode).length + 1 := by
    induction requests with
    | nil => simp
    | cons req rest ih =>
        simp only [List.length_cons, List.flatMap_cons, List.length_append,
          Request.encode, Request.length_header] at ih ⊢
        omega
  obtain ⟨replies, left, ending, state', hconversation, hloop⟩ :=
    loop_conversation build image exportSize.toNat_lt requests _ hlength
      ⟨requests.flatMap Request.encode, [], state⟩ rfl
  exact ⟨replies, left, ending, state', hconversation, hloop,
    hconversation.clientReplies_eq⟩

end Nbd
end ImageReader
