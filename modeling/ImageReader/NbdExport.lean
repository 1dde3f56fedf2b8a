import ImageReader.NbdServerTurns

/-!
# Exporting the bytes of an image

`Exports` relates the image behind a server to a byte array: a read inside the
array answers with bytes of it, or fails where it may.  An `ExportTalk` is what
a client of the array may hear: the exact bytes of each range it asks for, or
an error, but never anything else.  The transmission phase over an image which
exports the array is such a talk, and so is every session of the server, in
whatever order the sessions are served and whatever other clients send.
-/

namespace ImageReader
namespace Nbd

open Relation (ReflTransGen)

/-- From valid states, reads of the image inside `content` answer with some
bytes of it and leave a valid state; they fail with a plain error, and only at
a range which may fail. -/
def Exports {σ : Type} (image : NbdImage σ) (Valid : σ → Prop)
    (content : Bytes) (mayFail : ℕ → ℕ → Prop) : Prop :=
  ∀ state pos want, Valid state → 0 < want → pos + want ≤ content.length →
    ∃ answer state', image.readAtOffset state pos want = (answer, state') ∧
      Valid state' ∧
      ((∃ data, answer = .ok data ∧ data ≠ [] ∧
          data = Slice.window content pos data.length) ∨
        answer = .error ioErr ∧ mayFail pos want)

/-- A read of the range may fail. -/
def RangeMayFail (mayFail : ℕ → ℕ → Prop) (offset length : ℕ) : Prop :=
  ∃ pos want, offset ≤ pos ∧ pos + want ≤ offset + length ∧ mayFail pos want

/-- The reply which an export of `content` owes for a request. -/
def exportReply (content : Bytes) (req : Request) : Reply :=
  if req.typ.toNat = cmdRead then
    if Refused content.length req.offset.toNat req.length.toNat then
      ⟨22, req.handle.toNat, []⟩
    else ⟨0, req.handle.toNat,
      Slice.window content req.offset.toNat req.length.toNat⟩
  else if req.typ.toNat = cmdWrite then ⟨1, req.handle.toNat, []⟩
  else if req.typ.toNat = cmdFlush then ⟨0, req.handle.toNat, []⟩
  else ⟨38, req.handle.toNat, []⟩

/-- A read inside the export, of a range that may fail. -/
def ReadMayFail (content : Bytes) (mayFail : ℕ → ℕ → Prop)
    (req : Request) : Prop :=
  req.typ.toNat = cmdRead ∧
    ¬ Refused content.length req.offset.toNat req.length.toNat ∧
    RangeMayFail mayFail req.offset.toNat req.length.toNat

/-- What a client of the export may hear: the replies to its requests, the
requests left unread, and the error the session ended with. -/
inductive ExportTalk (content : Bytes) (mayFail : ℕ → ℕ → Prop) :
    List Request → List Reply → List Request → Option SessionError → Prop
  | closed : ExportTalk content mayFail [] [] [] (some .unexpectedEof)
  | disconnected {req : Request} {rest : List Request}
      (htyp : req.typ.toNat = cmdDisc) :
      ExportTalk content mayFail (req :: rest) [] rest none
  | answered {req : Request} {rest left : List Request}
      {replies : List Reply} {ending : Option SessionError}
      (htyp : req.typ.toNat ≠ cmdDisc)
      (h : ExportTalk content mayFail rest replies left ending) :
      ExportTalk content mayFail (req :: rest)
        (exportReply content req :: replies) left ending
  /-- nothing of the range was read -/
  | failed {req : Request} {rest left : List Request}
      {replies : List Reply} {ending : Option SessionError}
      (hfail : ReadMayFail content mayFail req)
      (h : ExportTalk content mayFail rest replies left ending) :
      ExportTalk content mayFail (req :: rest)
        (⟨5, req.handle.toNat, []⟩ :: replies) left ending
  /-- a part of the range was read and sent, and the session ends there -/
  | broken {req : Request} {rest : List Request} {count : ℕ}
      (hfail : ReadMayFail content mayFail req)
      (hcount : 0 < count ∧ count < req.length.toNat) :
      ExportTalk content mayFail (req :: rest)
        [⟨0, req.handle.toNat,
          Slice.window content req.offset.toNat count⟩] rest
        (some (.image ioErr))

/-! ## One range -/

section Ranges

variable {σ : Type} {image : NbdImage σ} {Valid : σ → Prop} {content : Bytes}
  {mayFail : ℕ → ℕ → Prop} {offset length : ℕ} {start state : σ} {sent : Bytes}

theorem readBufSize_pos : 0 < readBufSize := by decide

/-- What has been read of a range is its front. -/
theorem Delivered.exported (hexports : Exports image Valid content mayFail)
    (hrange : offset + length ≤ content.length)
    (h : Delivered image offset length start sent state)
    (hvalid : Valid start) :
    Valid state ∧ sent = Slice.window content offset sent.length := by
  induction h with
  | start => exact ⟨hvalid, by simp⟩
  | @read sent data state state' _ hlt hread hne ih =>
      obtain ⟨hstate, hsent⟩ := ih
      set want := min (length - sent.length) readBufSize with hwant
      have hpositive : 0 < want := lt_min (by omega) readBufSize_pos
      have hle : want ≤ length - sent.length := min_le_left _ _
      obtain ⟨answer, state₁, hread', hstate', hanswer⟩ :=
        hexports state (offset + sent.length) want hstate hpositive (by omega)
      rw [hread] at hread'
      obtain ⟨rfl, rfl⟩ := Prod.mk.inj hread'
      rcases hanswer with ⟨data', hdata, -, hwindow⟩ | ⟨herror, -⟩
      · obtain rfl : data = data' := Except.ok.inj hdata
        refine ⟨hstate', ?_⟩
        rw [List.length_append, ← Slice.window_append, ← hsent, ← hwindow]
      · exact absurd herror (by simp)

/-- A range fails with a plain error, and only if it may. -/
theorem Fails.exported {failure : Failure}
    (hexports : Exports image Valid content mayFail)
    (hrange : offset + length ≤ content.length)
    (h : Fails image offset length start sent failure state)
    (hvalid : Valid start) :
    Valid state ∧ sent = Slice.window content offset sent.length ∧
      failure = .error ioErr ∧ RangeMayFail mayFail offset length := by
  have hread : ∃ before answer,
      Delivered image offset length start sent before ∧
      sent.length < length ∧
      image.readAtOffset before (offset + sent.length)
        (min (length - sent.length) readBufSize) = (answer, state) ∧
      (answer = .ok [] ∨ ∃ err, answer = .error err ∧ failure = .error err) := by
    cases h with
    | eof hsent hlt hread => exact ⟨_, _, hsent, hlt, hread, Or.inl rfl⟩
    | error hsent hlt hread =>
        exact ⟨_, _, hsent, hlt, hread, Or.inr ⟨_, rfl, rfl⟩⟩
  obtain ⟨before, answer, hsent, hlt, hread, hanswer⟩ := hread
  obtain ⟨hbefore, hwindow⟩ := hsent.exported hexports hrange hvalid
  set want := min (length - sent.length) readBufSize with hwant
  have hpositive : 0 < want := lt_min (by omega) readBufSize_pos
  have hle : want ≤ length - sent.length := min_le_left _ _
  obtain ⟨answer', state', hread', hstate', hexported⟩ :=
    hexports before (offset + sent.length) want hbefore hpositive (by omega)
  rw [hread] at hread'
  obtain ⟨rfl, rfl⟩ := Prod.mk.inj hread'
  rcases hexported with ⟨data, rfl, hne, -⟩ | ⟨rfl, hmay⟩
  · rcases hanswer with hnil | ⟨err, herror, -⟩
    · exact absurd (Except.ok.inj hnil) hne
    · exact absurd herror (by simp)
  · rcases hanswer with hnil | ⟨err, herror, hfailure⟩
    · exact absurd hnil (by simp)
    · obtain rfl : ioErr = err := Except.error.inj herror
      exact ⟨hstate', hwindow, hfailure, _, want, by omega, by omega, hmay⟩

end Ranges

/-! ## One conversation -/

section Conversations

variable {σ : Type} {image : NbdImage σ} {Valid : σ → Prop} {content : Bytes}
  {mayFail : ℕ → ℕ → Prop} {state state' : σ}

theorem le_of_not_refused {exportSize offset length : ℕ}
    (h : ¬ Refused exportSize offset length) : offset + length ≤ exportSize := by
  unfold Refused at h
  omega

/-- A reply is the one which the export owes, or reports that the range could
not be read. -/
theorem Answers.exported {req : Request} {reply : Reply}
    (hexports : Exports image Valid content mayFail)
    (h : Answers image content.length req state reply state')
    (hvalid : Valid state) :
    Valid state' ∧ (reply = exportReply content req ∨
      ReadMayFail content mayFail req ∧ reply = ⟨5, req.handle.toNat, []⟩) := by
  cases h with
  | refused htyp hrefused =>
      exact ⟨hvalid, Or.inl (by simp [exportReply, htyp, hrefused])⟩
  | @failed failure _ htyp hrange hfails hcode =>
      obtain ⟨hstate', -, rfl, hmay⟩ := hfails.exported hexports
        (le_of_not_refused hrange) hvalid
      exact ⟨hstate', Or.inr ⟨⟨htyp, hrange, hmay⟩, rfl⟩⟩
  | @served payload _ htyp hrange hdelivered hlength =>
      obtain ⟨hstate', hpayload⟩ := hdelivered.exported hexports
        (le_of_not_refused hrange) hvalid
      refine ⟨hstate', Or.inl ?_⟩
      rw [hpayload, hlength]
      simp [exportReply, htyp, hrange]
  | write htyp =>
      exact ⟨hvalid, Or.inl (by simp [exportReply, htyp, cmdWrite, cmdRead])⟩
  | flush htyp =>
      exact ⟨hvalid, Or.inl (by
        simp [exportReply, htyp, cmdFlush, cmdWrite, cmdRead])⟩
  | unsupported htyp =>
      obtain ⟨hread, hwrite, -, hflush⟩ := htyp
      exact ⟨hvalid, Or.inl (by simp [exportReply, hread, hwrite, hflush])⟩

theorem Conversation.exported {requests left : List Request}
    {replies : List Reply} {ending : Option SessionError}
    (hexports : Exports image Valid content mayFail)
    (h : Conversation image content.length state requests replies left ending
      state')
    (hvalid : Valid state) :
    Valid state' ∧ ExportTalk content mayFail requests replies left ending := by
  induction h with
  | closed => exact ⟨hvalid, .closed⟩
  | disconnected htyp => exact ⟨hvalid, .disconnected htyp⟩
  | answered hanswer _ ih =>
      obtain ⟨hmid, hreply⟩ := hanswer.exported hexports hvalid
      obtain ⟨hstate', htalk⟩ := ih hmid
      refine ⟨hstate', ?_⟩
      rcases hreply with rfl | ⟨hmay, rfl⟩
      · exact .answered hanswer.answering.awaited htalk
      · exact .failed hmay htalk
  | @broken _ _ req rest sent failure htyp hrange hfails hsent =>
      obtain ⟨hstate', hwindow, rfl, hmay⟩ := hfails.exported hexports
        (le_of_not_refused hrange) hvalid
      refine ⟨hstate', ?_⟩
      rw [hwindow]
      exact .broken ⟨htyp, hrange, hmay⟩
        ⟨List.length_pos_iff.mpr hsent, hfails.length_lt⟩

end Conversations

/-! ## Whatever a client sends, the image stays valid -/

section Validity

variable {σ E : Type} {image : NbdImage σ} {Valid : σ → Prop}
  {content : Bytes} {mayFail : ℕ → ℕ → Prop} {build : Build}

/-- An iteration leaves an image of which `P` holds. -/
def LeavesImage (P : σ → Prop) :
    Outcome (E × Session σ) (Step (Session σ) (Session σ)) → Prop
  | .ok (.next session) => P session.image
  | .ok (.done session) => P session.image
  | .error failure => P failure.2.image
  | .panic _ => True
  | .hang => True

theorem handshakeBody_leavesImage (exportSize clientFlags : ℕ)
    (session : Session σ) :
    LeavesImage (· = session.image)
      (handshakeBody exportSize clientFlags session) := by
  rcases option_cases session.input with ⟨e, hgives⟩ | ⟨o, tail, hinput⟩
  · obtain ⟨input, hbody⟩ :=
      handshakeBody_givesUp exportSize clientFlags session hgives
    rw [hbody]
    rfl
  · rw [handshakeBody_encode hinput]
    have hfinish : ∀ session : Session σ,
        (finishExport session exportSize clientFlags).image =
          session.image := by
      intro session
      unfold finishExport
      split_ifs <;> rfl
    unfold answerOption
    split_ifs with hexport habort hlist hempty hgo
    · exact hfinish _
    · rfl
    · rfl
    · rfl
    · by_cases hclopt : o.clopt.toNat = optGo
      · rw [replyGoOrInfo, decide_eq_true hclopt]
        rfl
      · rw [replyGoOrInfo, decide_eq_false hclopt]
        rfl
    · rfl

/-- A part of an iteration leaves an image of which `P` holds. -/
def ImageAfter (P : σ → Prop) :
    Outcome (E × Session σ) (Session σ) → Prop
  | .ok session => P session.image
  | .error failure => P failure.2.image
  | .panic _ => True
  | .hang => True

theorem ImageAfter.leavesImage {P : σ → Prop}
    {x : Outcome (E × Session σ) (Session σ)} {reply : Session σ → Session σ}
    (h : ImageAfter P x)
    (hreply : ∀ session, (reply session).image = session.image) :
    LeavesImage P (x >>= fun session => pure (.next (reply session))) := by
  cases x with
  | ok session =>
      change P (reply session).image
      rw [hreply]
      exact h
  | error failure => exact h
  | panic fault => trivial
  | hang => trivial

theorem serveRead_valid (hexports : Exports image Valid content mayFail)
    (hcontent : content.length < wordLimit) (offset length handle : ℕ)
    {session : Session σ} (hvalid : Valid session.image) :
    ImageAfter Valid (serveRead build image content.length offset length
      handle readBufSize session) := by
  by_cases hrefused : Refused content.length offset length
  · rw [serveRead_refused hrefused]
    exact hvalid
  · have hrange := le_of_not_refused hrefused
    have hserved : ServedRead image session offset length handle
        (serveRead build image content.length offset length handle readBufSize
          session) := serveRead_served (by omega) hrefused
    generalize serveRead build image content.length offset length handle
      readBufSize session = outcome at hserved
    cases hserved with
    | served hdelivered _ =>
        exact (hdelivered.exported hexports hrange hvalid).1
    | failed hfails => exact (hfails.exported hexports hrange hvalid).1
    | broken hfails _ => exact (hfails.exported hexports hrange hvalid).1

theorem drain_imageAfter (build : Build) (len : ℕ) (session : Session σ) :
    ImageAfter (· = session.image) (drain build len readBufSize session) := by
  unfold drain
  refine loop_rule
    (fun state : ℕ × Session σ => state.2.image = session.image) Prod.fst
    (ImageAfter (· = session.image)) ?_ rfl (Nat.lt_succ_self len)
  rintro ⟨remaining, session'⟩ hsame
  unfold drainBody
  simp only at hsame ⊢
  split_ifs with hmore
  · have hpositive : 0 < min remaining readBufSize :=
      lt_min hmore readBufSize_pos
    unfold Session.readExact
    split_ifs with henough
    · rw [Outcome.ok_bind]
      simp only
      rw [Build.sub_of_le (min_le_left _ _), Outcome.ok_bind]
      refine ⟨hsame, ?_⟩
      simp only
      omega
    · exact hsame
  · exact hsame

theorem transmissionBody_valid (hexports : Exports image Valid content mayFail)
    (hcontent : content.length < wordLimit) {session : Session σ}
    (hvalid : Valid session.image) :
    LeavesImage Valid
      (transmissionBody build image content.length session) := by
  by_cases hshort : 28 ≤ session.input.length
  swap
  · unfold transmissionBody Session.readExact
    rw [if_neg hshort]
    exact hvalid
  unfold transmissionBody
  rw [Session.readExact, if_pos hshort, Outcome.ok_bind]
  simp only
  cases parseHeader (session.input.take 28) with
  | error err => exact hvalid
  | ok header =>
      simp only
      split_ifs with hread hdisc hflush hwrite
      · exact ImageAfter.leavesImage (serveRead_valid hexports hcontent _ _ _
          hvalid) fun _ => rfl
      · exact hvalid
      · exact hvalid
      · have hdrain := drain_imageAfter build header.length
          { session with input := session.input.drop 28 }
        have hafter : ImageAfter Valid (drain build header.length readBufSize
            { session with input := session.input.drop 28 }) := by
          cases hcase : drain build header.length readBufSize
              { session with input := session.input.drop 28 } with
          | ok session' =>
              rw [hcase] at hdrain
              change Valid session'.image
              rw [show session'.image = session.image from hdrain]
              exact hvalid
          | error failure =>
              rw [hcase] at hdrain
              change Valid failure.2.image
              rw [show failure.2.image = session.image from hdrain]
              exact hvalid
          | panic fault => trivial
          | hang => trivial
        exact hafter.leavesImage fun _ => rfl
      · exact hvalid

end Validity

/-! ## The sessions of the server -/

section Sessions

variable {σ : Type} {image : NbdImage σ} {Valid : σ → Prop}
  {content : Bytes} {mayFail : ℕ → ℕ → Prop} {build : Build}
  {size : σ → UInt64} {unwinds : σ → σ → Prop}

variable (image Valid content mayFail size unwinds) in
/-- The image behind the server exports the array: it has its size, reads give
its bytes, and none of them panics. -/
structure ServesContent : Prop where
  exports : Exports image Valid content mayFail
  size : ∀ state, Valid state → (size state).toNat = content.length
  calm : ∀ state state', Valid state → ¬ unwinds state state'

theorem ServesContent.length_lt
    (h : ServesContent image Valid content mayFail size unwinds) {state : σ}
    (hvalid : Valid state) : content.length < wordLimit := by
  rw [← h.size state hvalid]
  exact (size state).toNat_lt

/-- A step of a session which is under way keeps the image valid, and is no
panic. -/
theorem ServesContent.advance
    (h : ServesContent image Valid content mayFail size unwinds)
    {came session session' : Session σ} {stage stage' : Stage}
    (hcame : Valid came.image) (hvalid : Valid session.image)
    (hunderway : Underway build image size came stage session)
    (hadvance : Nbd.advance build image size stage session =
      some (stage', session')) :
    Valid session'.image ∧ stage'.isUnwound = false := by
  cases hunderway with
  | greeting =>
      unfold Nbd.advance at hadvance
      rcases greet_cases came with
        ⟨flags, session₁, hgreet, -, himage⟩ | ⟨failure, hgreet, himage⟩
      · simp only [hgreet, Option.some.injEq, Prod.mk.injEq] at hadvance
        obtain ⟨rfl, rfl⟩ := hadvance
        exact ⟨himage ▸ hvalid, rfl⟩
      · simp only [hgreet, Option.some.injEq, Prod.mk.injEq] at hadvance
        obtain ⟨rfl, rfl⟩ := hadvance
        exact ⟨himage ▸ hvalid, rfl⟩
  | @negotiating clientFlags _ _ =>
      unfold Nbd.advance at hadvance
      have hleaves := handshakeBody_leavesImage (size came.image).toNat
        clientFlags session
      cases hbody : handshakeBody (size came.image).toNat clientFlags session with
      | ok step =>
          rw [hbody] at hleaves
          cases step with
          | next session₁ =>
              simp only [hbody, Option.some.injEq, Prod.mk.injEq] at hadvance
              obtain ⟨rfl, rfl⟩ := hadvance
              exact ⟨(show _ = _ from hleaves) ▸ hvalid, rfl⟩
          | done session₁ =>
              simp only [hbody, Option.some.injEq, Prod.mk.injEq] at hadvance
              obtain ⟨rfl, rfl⟩ := hadvance
              exact ⟨(show _ = _ from hleaves) ▸ hvalid, rfl⟩
      | error failure =>
          rw [hbody] at hleaves
          simp only [hbody, Option.some.injEq, Prod.mk.injEq] at hadvance
          obtain ⟨rfl, rfl⟩ := hadvance
          exact ⟨(show _ = _ from hleaves) ▸ hvalid, rfl⟩
      | panic fault => simp [hbody] at hadvance
      | hang => simp [hbody] at hadvance
  | transmitting _ _ =>
      unfold Nbd.advance at hadvance
      simp only [h.size came.image hcame] at hadvance
      have hleaves := @transmissionBody_valid _ image Valid content mayFail
        build h.exports (h.length_lt hcame) session hvalid
      cases hbody : transmissionBody build image content.length session with
      | ok step =>
          rw [hbody] at hleaves
          cases step with
          | next session₁ =>
              simp only [hbody, Option.some.injEq, Prod.mk.injEq] at hadvance
              obtain ⟨rfl, rfl⟩ := hadvance
              exact ⟨hleaves, rfl⟩
          | done session₁ =>
              simp only [hbody, Option.some.injEq, Prod.mk.injEq] at hadvance
              obtain ⟨rfl, rfl⟩ := hadvance
              exact ⟨hleaves, rfl⟩
      | error failure =>
          rw [hbody] at hleaves
          simp only [hbody, Option.some.injEq, Prod.mk.injEq] at hadvance
          obtain ⟨rfl, rfl⟩ := hadvance
          exact ⟨hleaves, rfl⟩
      | panic fault => simp [hbody] at hadvance
      | hang => simp [hbody] at hadvance
  | ended => simp [Nbd.advance] at hadvance

/-- A turn keeps the image valid and does not end in a panic, whatever the
client has sent. -/
theorem ServesContent.turn
    (h : ServesContent image Valid content mayFail size unwinds)
    {came now : Connection} {state state' : σ}
    (hcame : came.stage = .greeting) (hvalid : Valid state)
    (hworks : ReflTransGen (Works build image size unwinds) (came, state)
      (now, state')) : Valid state' ∧ now.stage.isUnwound = false := by
  generalize hend : (now, state') = last at hworks
  induction hworks generalizing now state' with
  | refl =>
      obtain ⟨rfl, rfl⟩ := Prod.mk.inj hend
      exact ⟨hvalid, by rw [hcame]; rfl⟩
  | @tail mid last hbefore hwork ih =>
      obtain ⟨conn, state₁⟩ := mid
      obtain ⟨hmid, -⟩ := ih rfl
      rcases works_intact hcame hbefore with hintact | hturn
      · cases hwork with
        | advance hadvance =>
            obtain ⟨rfl, rfl⟩ := Prod.mk.inj hend
            exact h.advance hvalid hmid hintact.underway hadvance
        | unwind _ hunwinds _ =>
            exact absurd hunwinds (h.calm _ _ hmid)
      · have hover := hturn.isOver
        rw [hwork.not_over] at hover
        exact absurd hover Bool.false_ne_true

end Sessions

/-! ## A client which keeps to the protocol -/

/-- Flags the server takes, options after which the negotiation goes on, one
which starts the transmission, and requests. -/
structure Client where
  clientFlags : ℕ
  opts : List ClientOption
  last : ClientOption
  requests : List Request
  flags : AcceptedFlags clientFlags
  continues : ∀ o ∈ opts, o.Continues
  finishes : last.Finishes

namespace Client

def sends (client : Client) : Bytes :=
  toBE 4 client.clientFlags ++ (encodeAll client.opts ++
    (client.last.encode ++ client.requests.flatMap Request.encode))

/-- What the client gets before the replies to its requests. -/
def negotiated (exportSize : ℕ) (client : Client) : Bytes :=
  greeting ++ (repliesAll exportSize client.clientFlags client.opts ++
    client.last.replies exportSize client.clientFlags)

end Client

/-- How a session ends for its thread. -/
def sessionResult : Option SessionError → Except ServeError Unit
  | none => .ok ()
  | some err => .error (.session err)

/-- What a client has got when its session is over: it can tell the replies
apart, and they are those of an export of `content`. -/
def Heard (content : Bytes) (mayFail : ℕ → ℕ → Prop) (client : Client)
    (now : Connection) : Prop :=
  ∃ replies left ending,
    ExportTalk content mayFail client.requests replies left ending ∧
    now.stage = .ended (sessionResult ending) ∧
    now.input = left.flatMap Request.encode ∧
    now.output = client.negotiated content.length ++
      replies.flatMap Reply.encode ∧
    clientReplies client.requests (replies.flatMap Reply.encode) = replies

theorem length_le_flatMap_encode (requests : List Request) :
    requests.length ≤ (requests.flatMap Request.encode).length := by
  induction requests with
  | nil => exact Nat.zero_le _
  | cons req rest ih =>
      rw [List.flatMap_cons, List.length_append, List.length_cons,
        Request.encode, List.length_append, Request.length_header]
      omega

section Clients

variable {σ : Type} {image : NbdImage σ} {Valid : σ → Prop}
  {content : Bytes} {mayFail : ℕ → ℕ → Prop} {build : Build}
  {size : σ → UInt64} {unwinds : σ → σ → Prop}

/-- A served session is a talk with an export. -/
theorem ServesContent.serveConnection
    (h : ServesContent image Valid content mayFail size unwinds) {state : σ}
    (hvalid : Valid state) (client : Client) :
    ∃ replies left ending state',
      ExportTalk content mayFail client.requests replies left ending ∧
      serveConnection build image size ⟨client.sends, [], state⟩ =
        served (sessionResult ending) ⟨left.flatMap Request.encode,
          client.negotiated content.length ++ replies.flatMap Reply.encode,
          state'⟩ ∧
      clientReplies client.requests (replies.flatMap Reply.encode) =
        replies := by
  have haccepts : HandshakeAccepts content.length
      (⟨client.sends, [], state⟩ : Session σ)
      ⟨client.requests.flatMap Request.encode,
        client.negotiated content.length, state⟩ :=
    ⟨client.clientFlags, client.opts, client.last, client.flags,
      client.continues, client.finishes, rfl, rfl, rfl⟩
  obtain ⟨replies, left, ending, state', hconversation, hloop⟩ :=
    loop_conversation build image (h.length_lt hvalid) client.requests
      ((client.requests.flatMap Request.encode).length + 1)
      (Nat.lt_succ_of_le (length_le_flatMap_encode _))
      ⟨client.requests.flatMap Request.encode,
        client.negotiated content.length, state⟩ rfl
  refine ⟨replies, left, ending, state',
    (hconversation.exported h.exports hvalid).2, ?_,
    hconversation.clientReplies_eq⟩
  unfold Nbd.serveConnection
  simp only
  rw [h.size state hvalid, handshake_of_accepts haccepts]
  have htransmission : transmission build image content.length
      (⟨client.requests.flatMap Request.encode,
        client.negotiated content.length, state⟩ : Session σ) = _ := hloop
  change Outcome.mapError sessionFailed (transmission build image
    content.length _) = _
  rw [htransmission]
  cases ending <;> rfl

/-- What a protocol-abiding client has got after its turn. -/
theorem ServesContent.heard
    (h : ServesContent image Valid content mayFail size unwinds)
    {came now : Connection} {state state' : σ} {client : Client}
    (hcame : came = .accepted client.sends) (hvalid : Valid state)
    (hturn : Turn build image size unwinds came state now state')
    (hcalm : now.stage.isUnwound = false) : Heard content mayFail client now := by
  cases hturn with
  | unwound hstage _ _ _ _ _ => simp [hstage, Stage.isUnwound] at hcalm
  | @ended result hstage hserve =>
      obtain ⟨replies, left, ending, state₁, htalk, hserved, hclient⟩ :=
        @ServesContent.serveConnection _ image Valid content mayFail build size
          unwinds h state hvalid client
      rw [hcame] at hserve
      have heq : served result (now.session state') =
          served (sessionResult ending) ⟨left.flatMap Request.encode,
            client.negotiated content.length ++ replies.flatMap Reply.encode,
            state₁⟩ := hserve.symm.trans hserved
      have hsame : result = sessionResult ending ∧ now.session state' =
          ⟨left.flatMap Request.encode,
            client.negotiated content.length ++ replies.flatMap Reply.encode,
            state₁⟩ := by
        cases result with
        | ok value =>
            cases ending with
            | none => exact ⟨rfl, Outcome.ok.inj heq⟩
            | some err => simp [served, sessionResult] at heq
        | error err =>
            cases ending with
            | none => simp [served, sessionResult] at heq
            | some err' =>
                obtain ⟨rfl, hsession⟩ := Prod.mk.inj (Outcome.error.inj heq)
                exact ⟨rfl, hsession⟩
      obtain ⟨rfl, hsession⟩ := hsame
      exact ⟨replies, left, ending, htalk, hstage,
        congrArg Session.input hsession, congrArg Session.output hsession,
        hclient⟩

/-- Over an image which exports an array, every client of the server which
keeps to the protocol hears the bytes of the array, in whatever order the
sessions are served and whatever the other clients send. -/
theorem sessions_export
    (h : ServesContent image Valid content mayFail size unwinds) {start : σ}
    (hstart : Valid start) {s : Server σ}
    (hreach : Server.Reachable build image size unwinds start s)
    {i : ℕ} {client : Client} {now : Connection}
    (hi : s.threads[i]? = some (.unlocked (.accepted client.sends) now) ∨
      s.threads[i]? = some (.finished (.accepted client.sends) now)) :
    Heard content mayFail client now := by
  obtain ⟨turns, between, hordered⟩ := Turns.reachable_ordered hreach.view
  have hmem := (hordered.left_iff i _ now).mp (Server.left_iff.mpr hi)
  have hserial := hordered.serial.invariant Connection.Untouched Valid
    (fun came now => ∀ client : Client, came = .accepted client.sends →
      Heard content mayFail client now) ?_ hstart
      (hreach.turns_untouched hordered)
  · exact hserial.2 _ hmem client rfl
  · intro came now state state' hcame hvalid hworks hover
    obtain ⟨hvalid', hcalm⟩ := h.turn hcame.stage hvalid hworks
    exact ⟨hvalid', fun client hsends => h.heard hsends hvalid
      (works_turn hcame.stage hworks hover) hcalm⟩

end Clients

/-- Two bytes are asked for, and the session is ended. -/
def readingClient : Client where
  clientFlags := 3
  opts := []
  last := ⟨1, [], Nat.zero_le _⟩
  requests := [⟨0, 0, 7, 0, 2, [], rfl⟩, ⟨0, 2, 8, 0, 0, [], rfl⟩]
  flags := Or.inr rfl
  continues := by simp
  finishes := Or.inl rfl

/-! ## A server of one session -/

section Alone

variable {σ : Type} (build : Build) (image : NbdImage σ) (size : σ → UInt64)
  (unwinds : σ → σ → Prop)

theorem exists_over (conn : Connection) (state : σ) :
    ∃ now state', ReflTransGen (Works build image size unwinds) (conn, state)
      (now, state') ∧ now.stage.isOver = true := by
  generalize hwork : conn.stage.work (conn.session state) = work
  induction work using Nat.strong_induction_on generalizing conn state with
  | _ work ih =>
      cases hover : conn.stage.isOver with
      | true => exact ⟨conn, state, .refl, hover⟩
      | false =>
          obtain ⟨stage', session', hadvanced⟩ :=
            @exists_advanced σ build image size _ hover (conn.session state)
          obtain ⟨now, state', hrest, hend⟩ := ih _
            (hwork ▸ hadvanced.work)
            ⟨stage', session'.input, session'.output⟩ session'.image rfl
          exact ⟨now, state', .head (.advance hadvanced.step) hrest, hend⟩

/-- The one session of the server, under the lock. -/
def Server.serving (came now : Connection) (state : σ) : Server σ where
  acceptor := .listening
  sessions := 1
  threads := [.serving came now]
  dropped := []
  locked := true
  poisoned := false
  image := state

theorem exists_finished (start : σ) (sent : Bytes) :
    ∃ now s, Server.Reachable build image size unwinds start s ∧
      s.threads[0]? = some (.finished (.accepted sent) now) := by
  obtain ⟨now, state, hworks, hover⟩ :=
    exists_over build image size unwinds (.accepted sent) start
  have hlocked : Server.Reachable build image size unwinds start
      (Server.serving (.accepted sent) (.accepted sent) start) :=
    ((((ReflTransGen.refl.tail (.acceptor (.accept rfl sent))).tail
      (.acceptor (.load rfl))).tail
      (.acceptor (.acquire rfl Nat.two_pos rfl))).tail
      (.acceptor (.spawn rfl))).tail (.thread (.lock (i := 0) rfl rfl))
  have hserved := hlocked.trans (hworks.lift
    (fun work : Connection × σ =>
      Server.serving (.accepted sent) work.1 work.2)
    fun _ _ hwork => .thread (.serve (i := 0) rfl hwork))
  exact ⟨now, _, (hserved.tail (.thread (.unlock (i := 0) rfl hover))).tail
    (.thread (.release (i := 0) rfl)), rfl⟩

end Alone

end Nbd
end ImageReader
