import ImageReader.NbdProtocol

/-!
# The NBD negotiation phase

The server greets its client, reads the client's flags, and then answers one
option after the other until one of them starts the transmission or ends the
session.  Every option is read off the stream with its whole payload before it
is looked at, so the stream stays in frame whatever the option is.

What the client sends is described by `ClientOption`, and what is left of the
stream where the server gives up by `Refused`.
-/

namespace ImageReader
namespace Nbd

inductive HandshakeError where
  | unexpectedEof
  | invalidClientFlags
  | invalidClientOptionMagic
  | suspiciousOptionLength
  | clientAbort
  | listWithContent
  deriving DecidableEq, Repr

def clientOptMagic : ℕ := 0x49484156454F5054

def optExportName : ℕ := 1
def optAbort : ℕ := 2
def optList : ℕ := 3
def optInfo : ℕ := 6
def optGo : ℕ := 7

def repAck : ℕ := 1
def repServer : ℕ := 2
def repInfo : ℕ := 3
def repFlagError : ℕ := 2 ^ 31
def repErrUnsup : ℕ := 1 ||| repFlagError

def infoExport : ℕ := 0

def flagFixedNewstyle : ℕ := 1
def flagNoZeroes : ℕ := 2

def flagHasFlags : ℕ := 1
def flagReadOnly : ℕ := 2

def transmissionFlags : ℕ := flagHasFlags ||| flagReadOnly

section Server

variable {σ : Type}

/-- `read_exact` of `len` bytes, as the negotiation reports its failure. -/
def receive (session : Session σ) (len : ℕ) :
    Outcome (HandshakeError × Session σ) (Bytes × Session σ) :=
  (session.readExact len).mapError fun (_, session) => (.unexpectedEof, session)

def optionReply (clopt rtype : ℕ) (data : Bytes) : Bytes :=
  toBE 8 0x0003e889045565a9 ++ toBE 4 clopt ++ toBE 4 rtype ++
    toBE 4 data.length ++ data

def writeOptionReply (session : Session σ) (clopt rtype : ℕ) (data : Bytes) :
    Session σ :=
  session.write (optionReply clopt rtype data)

def finishExport (session : Session σ) (exportSize clientFlags : ℕ) :
    Session σ :=
  let session := session.write (toBE 8 exportSize)
  let session := session.write (toBE 2 (flagHasFlags ||| flagReadOnly))
  if clientFlags &&& flagNoZeroes = 0 then
    session.write (List.replicate 124 0)
  else session

def writeInfoExport (session : Session σ) (clopt exportSize : ℕ) :
    Session σ :=
  writeOptionReply session clopt repInfo
    (toBE 2 infoExport ++ toBE 8 exportSize ++ toBE 2 transmissionFlags)

def replyGoOrInfo (session : Session σ) (clopt exportSize : ℕ) :
    Bool × Session σ :=
  let session := writeInfoExport session clopt exportSize
  let session := writeOptionReply session clopt repAck []
  (decide (clopt = optGo), session)

/-- What is done about an option that has been read. -/
def answerOption (exportSize clientFlags clopt optlen : ℕ)
    (session : Session σ) :
    Outcome (HandshakeError × Session σ) (Step (Session σ) (Session σ)) :=
  if clopt = optExportName then
    .ok (.done (finishExport session exportSize clientFlags))
  else if clopt = optAbort then
    .error (.clientAbort, writeOptionReply session clopt repAck [])
  else if clopt = optList then
    if optlen ≠ 0 then .error (.listWithContent, session)
    else
      let session := writeOptionReply session clopt repServer
        (toBE 4 13 ++ asciiBytes "diskimage-nbd")
      .ok (.next (writeOptionReply session clopt repAck []))
  else if clopt = optGo ∨ clopt = optInfo then
    let (go, session) := replyGoOrInfo session clopt exportSize
    if go then .ok (.done session) else .ok (.next session)
  else .ok (.next (writeOptionReply session clopt repErrUnsup []))

/-- One iteration of the loop in `handshake`. -/
def handshakeBody (exportSize clientFlags : ℕ) (session : Session σ) :
    Outcome (HandshakeError × Session σ) (Step (Session σ) (Session σ)) := do
  let (magic, session) ← receive session 8
  if fromBE magic ≠ clientOptMagic then
    .error (.invalidClientOptionMagic, session)
  else
    let (clopt, session) ← receive session 4
    let (optlen, session) ← receive session 4
    if 100000 < fromBE optlen then
      .error (.suspiciousOptionLength, session)
    else
      let (_opt, session) ← receive session (fromBE optlen)
      answerOption exportSize clientFlags (fromBE clopt) (fromBE optlen)
        session

def greeting : Bytes :=
  asciiBytes "NBDMAGIC" ++ asciiBytes "IHAVEOPT" ++
    toBE 2 (flagFixedNewstyle ||| flagNoZeroes)

/-- Every iteration takes an option off the stream, so the bytes the client has
sent bound their number. -/
def handshake (exportSize : ℕ) (session : Session σ) :
    Outcome (HandshakeError × Session σ) (Session σ) := do
  let session := session.write greeting
  let (clientFlags, session) ← receive session 4
  if fromBE clientFlags ≠ flagFixedNewstyle ∧
      fromBE clientFlags ≠ flagFixedNewstyle ||| flagNoZeroes then
    .error (.invalidClientFlags, session)
  else
    loop (handshakeBody exportSize (fromBE clientFlags))
      (session.input.length + 1) session

end Server

/-! ## What the client sends -/

/-- An option of an acceptable length. -/
structure ClientOption where
  clopt : UInt32
  payload : Bytes
  length_le : payload.length ≤ 100000

namespace ClientOption

def encode (o : ClientOption) : Bytes :=
  toBE 8 clientOptMagic ++ (toBE 4 o.clopt.toNat ++
    (toBE 4 o.payload.length ++ o.payload))

@[simp] theorem length_encode (o : ClientOption) :
    o.encode.length = 16 + o.payload.length := by
  simp only [encode, List.length_append, length_toBE]
  omega

/-- The negotiation goes on after INFO, after an empty LIST, and after an
option the server does not know. -/
def Continues (o : ClientOption) : Prop :=
  o.clopt.toNat = optInfo ∨
    (o.clopt.toNat = optList ∧ o.payload = []) ∨
    o.clopt.toNat ∉ [optExportName, optAbort, optList, optInfo, optGo]

/-- EXPORT_NAME and GO start the transmission. -/
def Finishes (o : ClientOption) : Prop :=
  o.clopt.toNat = optExportName ∨ o.clopt.toNat = optGo

/-- What the client gets for an option. -/
def replies (exportSize clientFlags : ℕ) (o : ClientOption) : Bytes :=
  let clopt := o.clopt.toNat
  if clopt = optExportName then
    toBE 8 exportSize ++ toBE 2 transmissionFlags ++
      if clientFlags = flagFixedNewstyle then List.replicate 124 0 else []
  else if clopt = optAbort then optionReply clopt repAck []
  else if clopt = optList then
    if o.payload = [] then
      optionReply clopt repServer (toBE 4 13 ++ asciiBytes "diskimage-nbd") ++
        optionReply clopt repAck []
    else []
  else if clopt = optInfo ∨ clopt = optGo then
    optionReply clopt repInfo
        (toBE 2 infoExport ++ toBE 8 exportSize ++ toBE 2 transmissionFlags) ++
      optionReply clopt repAck []
  else optionReply clopt repErrUnsup []

theorem cases (o : ClientOption) :
    o.Continues ∨ o.Finishes ∨ o.clopt.toNat = optAbort ∨
      (o.clopt.toNat = optList ∧ o.payload ≠ []) := by
  unfold Continues Finishes
  simp only [List.mem_cons, List.not_mem_nil]
  tauto

end ClientOption

/-- The bytes of a sequence of options. -/
def encodeAll (opts : List ClientOption) : Bytes :=
  (opts.map ClientOption.encode).flatten

def repliesAll (exportSize clientFlags : ℕ) (opts : List ClientOption) :
    Bytes :=
  (opts.map (ClientOption.replies exportSize clientFlags)).flatten

/-- The stream ends inside an option. -/
def Truncated (rest : Bytes) : Prop :=
  rest.length < 8 ∨
    fromBE (rest.take 8) = clientOptMagic ∧
      (rest.length < 16 ∨
        fromBE ((rest.drop 12).take 4) ≤ 100000 ∧
          rest.length < 16 + fromBE ((rest.drop 12).take 4))

/-- Why the server gives up at what is left of the stream, and what it writes
before it does. -/
inductive GivesUp : Bytes → HandshakeError → Bytes → Prop
  | truncated {rest : Bytes} (htruncated : Truncated rest) :
      GivesUp rest .unexpectedEof []
  | badMagic {rest : Bytes} (hlength : 8 ≤ rest.length)
      (hmagic : fromBE (rest.take 8) ≠ clientOptMagic) :
      GivesUp rest .invalidClientOptionMagic []
  | tooLong {rest : Bytes} (hlength : 16 ≤ rest.length)
      (hmagic : fromBE (rest.take 8) = clientOptMagic)
      (hoptlen : 100000 < fromBE ((rest.drop 12).take 4)) :
      GivesUp rest .suspiciousOptionLength []
  | abort {o : ClientOption} {tail : Bytes}
      (hclopt : o.clopt.toNat = optAbort) :
      GivesUp (o.encode ++ tail) .clientAbort (optionReply optAbort repAck [])
  | list {o : ClientOption} {tail : Bytes}
      (hclopt : o.clopt.toNat = optList) (hpayload : o.payload ≠ []) :
      GivesUp (o.encode ++ tail) .listWithContent []

/-- What is left of the stream starts with an option, or the server gives up
there. -/
theorem option_cases (rest : Bytes) :
    (∃ e, GivesUp rest e []) ∨ ∃ o tail, rest = ClientOption.encode o ++ tail := by
  by_cases hmagicLen : rest.length < 8
  · exact Or.inl ⟨_, .truncated (Or.inl hmagicLen)⟩
  by_cases hmagic : fromBE (rest.take 8) = clientOptMagic
  swap
  · exact Or.inl ⟨_, .badMagic (not_lt.mp hmagicLen) hmagic⟩
  by_cases hheaderLen : rest.length < 16
  · exact Or.inl ⟨_, .truncated (Or.inr ⟨hmagic, Or.inl hheaderLen⟩)⟩
  by_cases hoptlen : fromBE ((rest.drop 12).take 4) ≤ 100000
  swap
  · exact Or.inl ⟨_, .tooLong (by omega) hmagic (by omega)⟩
  by_cases hpayload : rest.length < 16 + fromBE ((rest.drop 12).take 4)
  · exact Or.inl ⟨_, .truncated (Or.inr ⟨hmagic, Or.inr ⟨hoptlen, hpayload⟩⟩)⟩
  -- the four fields, each as the number that was read in its place
  have hfield : ∀ front : Bytes, ∀ len, front.length = len →
      toBE len (fromBE front) = front := by
    rintro front len rfl
    exact toBE_fromBE front
  have hclopt : fromBE ((rest.drop 8).take 4) < 2 ^ 32 := by
    have := fromBE_lt ((rest.drop 8).take 4)
    rw [List.length_take, List.length_drop] at this
    have hfour : min 4 (rest.length - 8) = 4 := by omega
    rw [hfour] at this
    omega
  have hlength : ((rest.drop 16).take
      (fromBE ((rest.drop 12).take 4))).length =
        fromBE ((rest.drop 12).take 4) := by
    rw [List.length_take, List.length_drop]
    omega
  refine Or.inr ⟨⟨UInt32.ofNat (fromBE ((rest.drop 8).take 4)),
    (rest.drop 16).take (fromBE ((rest.drop 12).take 4)), by omega⟩,
    rest.drop (16 + fromBE ((rest.drop 12).take 4)), ?_⟩
  unfold ClientOption.encode
  simp only
  rw [hlength, ← hmagic, hfield (rest.take 8) 8 (by
      rw [List.length_take]
      omega), UInt32.toNat_ofNat_of_lt' hclopt,
    hfield ((rest.drop 8).take 4) 4 (by
      rw [List.length_take, List.length_drop]
      omega),
    hfield ((rest.drop 12).take 4) 4 (by
      rw [List.length_take, List.length_drop]
      omega)]
  simp only [List.append_assoc]
  rw [← List.drop_drop, List.take_append_drop]
  have hjoin : ∀ off len, (rest.drop off).take len ++ rest.drop (off + len) =
      rest.drop off := by
    intro off len
    rw [← List.drop_drop, List.take_append_drop]
  rw [hjoin 12 4, hjoin 8 4, List.take_append_drop]

/-- Every stream is a sequence of options after which the negotiation goes on,
and then an option which starts the transmission, or a place where the server
gives up. -/
theorem stream_cases (input : Bytes) :
    ∃ opts rest, (∀ o ∈ opts, ClientOption.Continues o) ∧
      input = encodeAll opts ++ rest ∧
      ((∃ last tail, ClientOption.Finishes last ∧ rest = last.encode ++ tail) ∨
        ∃ e written, GivesUp rest e written) := by
  induction hlength : input.length using Nat.strong_induction_on
    generalizing input with
  | _ len ih =>
      rcases option_cases input with ⟨e, hgives⟩ | ⟨o, tail, rfl⟩
      · exact ⟨[], input, by simp, rfl, Or.inr ⟨e, [], hgives⟩⟩
      · rcases o.cases with hcont | hfinish | habort | ⟨hlist, hpayload⟩
        · have hlt : tail.length < len := by
            rw [← hlength, List.length_append, ClientOption.length_encode]
            omega
          obtain ⟨opts, rest, hopts, rfl, hend⟩ := ih _ hlt tail rfl
          refine ⟨o :: opts, rest, ?_, ?_, hend⟩
          · intro o' ho'
            rcases List.mem_cons.mp ho' with rfl | ho'
            · exact hcont
            · exact hopts o' ho'
          · simp [encodeAll]
        · exact ⟨[], _, by simp, rfl, Or.inl ⟨o, tail, hfinish, rfl⟩⟩
        · exact ⟨[], _, by simp, rfl, Or.inr ⟨_, _, .abort habort⟩⟩
        · exact ⟨[], _, by simp, rfl,
            Or.inr ⟨_, _, .list hlist hpayload⟩⟩

/-! ## Running the negotiation -/

section Runs

variable {σ : Type} {session : Session σ} {exportSize clientFlags : ℕ}

theorem receive_append {len : ℕ} {front rest : Bytes}
    (hinput : session.input = front ++ rest) (hlen : front.length = len) :
    receive session len = .ok (front, { session with input := rest }) := by
  unfold receive
  rw [Session.readExact_append hinput hlen]
  rfl

theorem receive_of_le {len : ℕ} (h : len ≤ session.input.length) :
    receive session len = .ok (session.input.take len,
      { session with input := session.input.drop len }) := by
  unfold receive Session.readExact
  rw [if_pos h]
  rfl

theorem receive_of_lt {len : ℕ} (h : session.input.length < len) :
    receive session len =
      .error (.unexpectedEof, { session with input := [] }) := by
  unfold receive Session.readExact
  rw [if_neg (by omega)]
  rfl

theorem handshakeBody_encode {o : ClientOption} {tail : Bytes}
    (hinput : session.input = o.encode ++ tail) :
    handshakeBody exportSize clientFlags session =
      answerOption exportSize clientFlags o.clopt.toNat o.payload.length
        { session with input := tail } := by
  have hclopt := o.clopt.toNat_lt
  have hlength := o.length_le
  unfold handshakeBody
  unfold ClientOption.encode at hinput
  rw [List.append_assoc] at hinput
  rw [receive_append hinput (length_toBE _ _), Outcome.ok_bind]
  simp only
  rw [fromBE_toBE (by decide), if_neg (by simp),
    receive_append (List.append_assoc _ _ _) (length_toBE _ _),
    Outcome.ok_bind]
  simp only
  rw [receive_append (List.append_assoc _ _ _) (length_toBE _ _),
    Outcome.ok_bind]
  simp only
  rw [fromBE_toBE (by omega), fromBE_toBE (by omega), if_neg (by omega),
    receive_append rfl rfl, Outcome.ok_bind]

theorem answerOption_continues {o : ClientOption} (h : o.Continues) :
    answerOption exportSize clientFlags o.clopt.toNat o.payload.length
        session =
      .ok (.next (session.write (o.replies exportSize clientFlags))) := by
  unfold answerOption ClientOption.replies
  rcases h with hinfo | ⟨hlist, hpayload⟩ | hunknown
  · simp [hinfo, optInfo, optExportName, optAbort, optList, optGo,
      replyGoOrInfo, writeInfoExport, writeOptionReply]
  · simp [hlist, hpayload, optExportName, optAbort, optList,
      writeOptionReply]
  · simp only [List.mem_cons, List.not_mem_nil, or_false, not_or] at hunknown
    obtain ⟨hname, habort, hlist, hinfo, hgo⟩ := hunknown
    simp [hname, habort, hlist, hinfo, hgo, writeOptionReply]

theorem answerOption_finishes {o : ClientOption} (h : o.Finishes)
    (hflags : clientFlags = 1 ∨ clientFlags = 3) :
    answerOption exportSize clientFlags o.clopt.toNat o.payload.length
        session =
      .ok (.done (session.write (o.replies exportSize clientFlags))) := by
  unfold answerOption ClientOption.replies
  rcases h with hname | hgo
  · rcases hflags with rfl | rfl <;>
      simp [hname, finishExport, flagNoZeroes, flagFixedNewstyle,
        transmissionFlags]
  · simp [hgo, optInfo, optExportName, optAbort, optList, optGo,
      replyGoOrInfo, writeInfoExport, writeOptionReply]

theorem handshakeBody_truncated (h : Truncated session.input) :
    handshakeBody exportSize clientFlags session =
      .error (.unexpectedEof, { session with input := [] }) := by
  unfold handshakeBody
  rcases h with hshort | ⟨hmagic, hrest⟩
  · rw [receive_of_lt hshort]
    rfl
  by_cases hfirst : session.input.length < 8
  · rw [receive_of_lt hfirst]
    rfl
  rw [receive_of_le (not_lt.mp hfirst), Outcome.ok_bind]
  simp only
  rw [if_neg (not_not.mpr hmagic)]
  by_cases hsecond : session.input.length < 12
  · rw [receive_of_lt (by simp only [List.length_drop]; omega)]
    rfl
  rw [receive_of_le (by simp only [List.length_drop]; omega), Outcome.ok_bind]
  simp only [List.drop_drop, Nat.reduceAdd]
  by_cases hthird : session.input.length < 16
  · rw [receive_of_lt (by simp only [List.length_drop]; omega)]
    rfl
  rw [receive_of_le (by simp only [List.length_drop]; omega), Outcome.ok_bind]
  simp only [List.drop_drop, Nat.reduceAdd]
  obtain ⟨hoptlen, hpayload⟩ := hrest.resolve_left hthird
  rw [if_neg (not_lt.mpr hoptlen),
    receive_of_lt (by simp only [List.length_drop]; omega)]
  rfl

theorem handshakeBody_givesUp (exportSize clientFlags : ℕ)
    (session : Session σ) {e : HandshakeError} {written : Bytes}
    (h : GivesUp session.input e written) :
    ∃ input, handshakeBody exportSize clientFlags session =
      .error (e, { session with
        input, output := session.output ++ written }) := by
  generalize hinput : session.input = rest at h
  cases h with
  | truncated htruncated =>
      rw [← hinput] at htruncated
      refine ⟨[], ?_⟩
      rw [handshakeBody_truncated htruncated, List.append_nil]
  | badMagic hlength hmagic =>
      refine ⟨rest.drop 8, ?_⟩
      unfold handshakeBody
      rw [receive_of_le (by rw [hinput]; omega), Outcome.ok_bind, List.append_nil]
      simp only [hinput]
      rw [if_pos hmagic]
  | tooLong hlength hmagic hoptlen =>
      refine ⟨rest.drop 16, ?_⟩
      unfold handshakeBody
      rw [receive_of_le (by rw [hinput]; omega), Outcome.ok_bind, List.append_nil]
      simp only [hinput]
      rw [if_neg (not_not.mpr hmagic),
        receive_of_le (by simp only [List.length_drop]; omega),
        Outcome.ok_bind]
      simp only [List.drop_drop, Nat.reduceAdd]
      rw [receive_of_le (by simp only [List.length_drop]; omega),
        Outcome.ok_bind]
      simp only [List.drop_drop, Nat.reduceAdd]
      rw [if_pos hoptlen]
  | @abort o tail hclopt =>
      refine ⟨tail, ?_⟩
      rw [handshakeBody_encode hinput]
      unfold answerOption
      rw [hclopt]
      rfl
  | @list o tail hclopt hpayload =>
      refine ⟨tail, ?_⟩
      rw [handshakeBody_encode hinput, List.append_nil]
      unfold answerOption
      rw [hclopt, if_neg (by decide), if_neg (by decide), if_pos rfl,
        if_pos (by simpa using hpayload)]

/-- The loop gets through options after which it goes on, one iteration for
each. -/
theorem loop_encodeAll {opts : List ClientOption} {rest : Bytes} (fuel : ℕ)
    (hopts : ∀ o ∈ opts, o.Continues)
    (hinput : session.input = encodeAll opts ++ rest) :
    loop (handshakeBody exportSize clientFlags) (opts.length + fuel) session =
      loop (handshakeBody exportSize clientFlags) fuel
        { session with
          input := rest
          output := session.output ++
            repliesAll exportSize clientFlags opts } := by
  induction opts generalizing session with
  | nil =>
      obtain rfl : session.input = rest := by simpa [encodeAll] using hinput
      simp [repliesAll]
  | cons o opts ih =>
      have hhead : session.input =
          o.encode ++ (encodeAll opts ++ rest) := by
        rw [hinput]
        simp [encodeAll]
      have hstep : handshakeBody exportSize clientFlags session =
          .ok (.next (({ session with
            input := encodeAll opts ++ rest } : Session σ).write
              (o.replies exportSize clientFlags))) := by
        rw [handshakeBody_encode hhead,
          answerOption_continues (hopts o List.mem_cons_self)]
      rw [List.length_cons, Nat.add_right_comm, loop_next hstep,
        ih (fun o' ho' => hopts o' (List.mem_cons_of_mem _ ho')) rfl]
      simp [Session.write, repliesAll]

theorem length_le_encodeAll (opts : List ClientOption) :
    opts.length ≤ (encodeAll opts).length := by
  induction opts with
  | nil => exact Nat.zero_le _
  | cons o opts ih =>
      have hcons : encodeAll (o :: opts) = o.encode ++ encodeAll opts := rfl
      rw [hcons, List.length_append, ClientOption.length_encode,
        List.length_cons]
      omega

theorem loop_stream (exportSize clientFlags : ℕ) (session : Session σ)
    {opts : List ClientOption} {rest : Bytes}
    (hopts : ∀ o ∈ opts, o.Continues)
    (hinput : session.input = encodeAll opts ++ rest) :
    ∃ fuel, loop (handshakeBody exportSize clientFlags)
        (session.input.length + 1) session =
      loop (handshakeBody exportSize clientFlags) (fuel + 1)
        { session with
          input := rest
          output := session.output ++
            repliesAll exportSize clientFlags opts } := by
  have hle : opts.length ≤ session.input.length := by
    have := length_le_encodeAll opts
    rw [hinput, List.length_append]
    omega
  refine ⟨session.input.length - opts.length, ?_⟩
  rw [← loop_encodeAll _ hopts hinput]
  congr 1
  omega

/-! ## The result of the negotiation -/

/-- The flags the server takes. -/
def AcceptedFlags (clientFlags : ℕ) : Prop :=
  clientFlags = flagFixedNewstyle ∨
    clientFlags = flagFixedNewstyle ||| flagNoZeroes

/-- The negotiation ends well: `last` starts the transmission, and what follows
it is left on the stream. -/
def HandshakeAccepts (exportSize : ℕ) (session session' : Session σ) : Prop :=
  ∃ clientFlags opts last, AcceptedFlags clientFlags ∧
    (∀ o ∈ opts, ClientOption.Continues o) ∧ ClientOption.Finishes last ∧
    session.input = toBE 4 clientFlags ++
      (encodeAll opts ++ (last.encode ++ session'.input)) ∧
    session'.output = session.output ++ (greeting ++
      (repliesAll exportSize clientFlags opts ++
        last.replies exportSize clientFlags)) ∧
    session'.image = session.image

/-- The negotiation fails with `e` after `output` was written. -/
inductive HandshakeFails (exportSize : ℕ) (session : Session σ) :
    HandshakeError → Bytes → Prop
  | noFlags (hlength : session.input.length < 4) :
      HandshakeFails exportSize session .unexpectedEof (session.output ++ greeting)
  | badFlags (hlength : 4 ≤ session.input.length)
      (hflags : ¬ AcceptedFlags (fromBE (session.input.take 4))) :
      HandshakeFails exportSize session .invalidClientFlags
        (session.output ++ greeting)
  | gaveUp {clientFlags : ℕ} {opts : List ClientOption} {rest written : Bytes}
      {e : HandshakeError} (hflags : AcceptedFlags clientFlags)
      (hopts : ∀ o ∈ opts, o.Continues)
      (hinput : session.input =
        toBE 4 clientFlags ++ (encodeAll opts ++ rest))
      (hgives : GivesUp rest e written) :
      HandshakeFails exportSize session e (session.output ++ (greeting ++
        (repliesAll exportSize clientFlags opts ++ written)))

theorem handshake_flags {clientFlags : ℕ} {rest : Bytes}
    (hflags : AcceptedFlags clientFlags)
    (hinput : session.input = toBE 4 clientFlags ++ rest) :
    handshake exportSize session =
      loop (handshakeBody exportSize clientFlags) (rest.length + 1)
        { session with input := rest, output := session.output ++ greeting } := by
  have hword : clientFlags < 256 ^ 4 := by
    rcases hflags with rfl | rfl <;> decide
  unfold handshake
  simp only
  have hreceive : receive (session.write greeting) 4 =
      .ok (toBE 4 clientFlags, { session.write greeting with input := rest }) :=
    receive_append hinput (length_toBE _ _)
  rw [hreceive, Outcome.ok_bind]
  simp only
  rw [fromBE_toBE hword, if_neg]
  · rfl
  · rintro ⟨hone, hthree⟩
    exact hflags.elim hone hthree

theorem handshake_of_accepts {session' : Session σ}
    (h : HandshakeAccepts exportSize session session') :
    handshake exportSize session = .ok session' := by
  obtain ⟨clientFlags, opts, last, hflags, hopts, hlast, hinput, houtput,
    himage⟩ := h
  obtain ⟨fuel, hloop⟩ := loop_stream exportSize clientFlags
    { session with
      input := encodeAll opts ++ (last.encode ++ session'.input)
      output := session.output ++ greeting } hopts rfl
  rw [handshake_flags hflags hinput, hloop]
  apply loop_done
  rw [handshakeBody_encode rfl, answerOption_finishes hlast hflags]
  cases session' with
  | mk input output image =>
      simp only at houtput himage
      simp [Session.write, houtput, himage]

theorem handshake_of_fails {e : HandshakeError} {output : Bytes}
    (h : HandshakeFails exportSize session e output) :
    ∃ session', handshake exportSize session = .error (e, session') ∧
      session'.output = output := by
  cases h with
  | noFlags hlength =>
      have hreceive : receive (session.write greeting) 4 = _ :=
        receive_of_lt hlength
      refine ⟨{ session.write greeting with input := [] }, ?_, rfl⟩
      unfold handshake
      simp only
      rw [hreceive]
      rfl
  | badFlags hlength hflags =>
      refine ⟨{ session with
        input := session.input.drop 4
        output := session.output ++ greeting }, ?_, rfl⟩
      have hreceive : receive (session.write greeting) 4 = _ :=
        receive_of_le hlength
      unfold handshake
      simp only
      rw [hreceive, Outcome.ok_bind]
      exact if_pos (not_or.mp hflags)
  | @gaveUp clientFlags opts rest written e hflags hopts hinput hgives =>
      obtain ⟨fuel, hloop⟩ := loop_stream exportSize clientFlags
        { session with
          input := encodeAll opts ++ rest
          output := session.output ++ greeting } hopts rfl
      obtain ⟨input, hbody⟩ := handshakeBody_givesUp exportSize clientFlags
        { session with
          input := rest
          output := session.output ++ greeting ++
            repliesAll exportSize clientFlags opts } hgives
      rw [handshake_flags hflags hinput, hloop, loop_error hbody]
      exact ⟨_, rfl, by simp⟩

theorem accepts_or_fails (exportSize : ℕ) (session : Session σ) :
    (∃ session', HandshakeAccepts exportSize session session') ∨
      ∃ e output, HandshakeFails exportSize session e output := by
  by_cases hlength : session.input.length < 4
  · exact Or.inr ⟨_, _, .noFlags hlength⟩
  have hfour : (session.input.take 4).length = 4 := by
    rw [List.length_take]
    omega
  have hsplit : session.input =
      toBE 4 (fromBE (session.input.take 4)) ++ session.input.drop 4 := by
    have hbytes := toBE_fromBE (session.input.take 4)
    rw [hfour] at hbytes
    rw [hbytes, List.take_append_drop]
  by_cases hflags : AcceptedFlags (fromBE (session.input.take 4))
  · obtain ⟨opts, rest, hopts, hdrop, hend⟩ :=
      stream_cases (session.input.drop 4)
    rw [hdrop] at hsplit
    rcases hend with ⟨last, tail, hlast, rfl⟩ | ⟨e, written, hgives⟩
    · exact Or.inl ⟨⟨tail, _, session.image⟩, _, opts, last, hflags, hopts,
        hlast, hsplit, rfl, rfl⟩
    · exact Or.inr ⟨e, _, .gaveUp hflags hopts hsplit hgives⟩
  · exact Or.inr ⟨_, _, .badFlags (not_lt.mp hlength) hflags⟩

/-- The negotiation stays in frame: it succeeds on exactly the streams that are
flags, options, and an option that starts the transmission, and leaves what
follows; every other stream is an error; and the client gets the greeting and
one answer for each option, in order. -/
theorem handshake_spec (exportSize : ℕ) (session : Session σ) :
    (∀ session', handshake exportSize session = .ok session' ↔
      HandshakeAccepts exportSize session session') ∧
    (∀ e output, (∃ session', handshake exportSize session =
        .error (e, session') ∧ session'.output = output) ↔
      HandshakeFails exportSize session e output) ∧
    (handshake exportSize session).Returns := by
  rcases accepts_or_fails exportSize session with
    ⟨session', haccepts⟩ | ⟨e, output, hfails⟩
  · have hok := handshake_of_accepts haccepts
    refine ⟨?_, ?_, Or.inl ⟨session', hok⟩⟩
    · intro session''
      constructor
      · intro hok'
        obtain rfl : session' = session'' := by simpa [hok] using hok'
        exact haccepts
      · exact handshake_of_accepts
    · intro e output
      constructor
      · rintro ⟨session'', herror, -⟩
        simp [hok] at herror
      · exact handshake_of_fails
  · obtain ⟨session', herror, houtput⟩ := handshake_of_fails hfails
    refine ⟨?_, ?_, Or.inr ⟨_, herror⟩⟩
    · intro session''
      constructor
      · intro hok
        simp [herror] at hok
      · exact handshake_of_accepts
    · intro e' output'
      constructor
      · rintro ⟨session'', herror', houtput'⟩
        obtain ⟨rfl, rfl⟩ : e = e' ∧ session' = session'' := by
          simpa [herror] using herror'
        rw [← houtput', houtput]
        exact hfails
      · exact handshake_of_fails

end Runs

end Nbd
end ImageReader
