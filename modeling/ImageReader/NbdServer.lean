import ImageReader.NbdHandshake
import ImageReader.NbdSession
import ImageReader.Turns

/-!
# The NBD server

The accept loop gives a connection a session slot and a thread, as long as
fewer than `maxPendingSessions` slots are taken, and drops it otherwise.  A
session thread waits for the lock on the image, holds it for the whole
connection, and gives back first the lock and then its slot; a panic of the
image's code unwinds the thread the same way, and poisons the lock.

`serveConnection` is what a thread does under the lock.  The steps of a server
are smaller: one atomic access to the counter, one iteration of the
negotiation, one request.  What a client sends until it closes its end is
known from the start; its thread may take its steps at any time.
-/

namespace ImageReader
namespace Nbd

open Relation (ReflTransGen)

/-- At most one active session plus one waiting on the reader lock. -/
def maxPendingSessions : ℕ := 2

inductive ServeError where
  | handshake (err : HandshakeError)
  | session (err : SessionError)
  deriving DecidableEq, Repr

/-! ## One connection -/

section Serve

variable {σ : Type} (build : Build) (image : NbdImage σ) (size : σ → UInt64)

def handshakeFailed (failure : HandshakeError × Session σ) :
    ServeError × Session σ :=
  (.handshake failure.1, failure.2)

def sessionFailed (failure : SessionError × Session σ) :
    ServeError × Session σ :=
  (.session failure.1, failure.2)

def serveConnection (session : Session σ) :
    Outcome (ServeError × Session σ) (Session σ) := do
  let exportSize := (size session.image).toNat
  let session ← (handshake exportSize session).mapError handshakeFailed
  (transmission build image exportSize session).mapError sessionFailed

/-- Where a thread is which holds the lock. -/
inductive Stage where
  | greeting
  | negotiating (exportSize : UInt64) (clientFlags : ℕ)
  | transmitting (exportSize : UInt64)
  | ended (result : Except ServeError Unit)
  /-- a panic has unwound the stack of the thread -/
  | unwound

/-- `serve_connection` has been left. -/
def Stage.isOver : Stage → Bool
  | ended _ => true
  | unwound => true
  | _ => false

def Stage.isUnwound : Stage → Bool
  | unwound => true
  | _ => false

/-- The part of `handshake` before its loop. -/
def greet (session : Session σ) :
    Outcome (HandshakeError × Session σ) (ℕ × Session σ) := do
  let session := session.write greeting
  let (clientFlags, session) ← receive session 4
  if fromBE clientFlags ≠ flagFixedNewstyle ∧
      fromBE clientFlags ≠ flagFixedNewstyle ||| flagNoZeroes then
    .error (.invalidClientFlags, session)
  else pure (fromBE clientFlags, session)

/-- One step of a thread under the lock. -/
def advance : Stage → Session σ → Option (Stage × Session σ)
  | .greeting, session =>
      match greet session with
      | .ok (clientFlags, session') =>
          some (.negotiating (size session.image) clientFlags, session')
      | .error (err, session') =>
          some (.ended (.error (.handshake err)), session')
      | .panic _ => none
      | .hang => none
  | .negotiating exportSize clientFlags, session =>
      match handshakeBody exportSize.toNat clientFlags session with
      | .ok (.next session') =>
          some (.negotiating exportSize clientFlags, session')
      | .ok (.done session') => some (.transmitting exportSize, session')
      | .error (err, session') =>
          some (.ended (.error (.handshake err)), session')
      | .panic _ => none
      | .hang => none
  | .transmitting exportSize, session =>
      match transmissionBody build image exportSize.toNat session with
      | .ok (.next session') => some (.transmitting exportSize, session')
      | .ok (.done session') => some (.ended (.ok ()), session')
      | .error (err, session') =>
          some (.ended (.error (.session err)), session')
      | .panic _ => none
      | .hang => none
  | .ended _, _ => none
  | .unwound, _ => none

end Serve

/-- A connection: the bytes of its client which have not been read, and those
which have been written to it. -/
structure Connection where
  stage : Stage
  input : Bytes
  output : Bytes

/-- `sent` is all that the client will send. -/
def Connection.accepted (sent : Bytes) : Connection := ⟨.greeting, sent, []⟩

def Connection.session {σ : Type} (conn : Connection) (state : σ) : Session σ :=
  ⟨conn.input, conn.output, state⟩

/-- What the thread of a connection does to it and to the image under the
lock.  A panic comes out of the image's code, so a request has been read by
then and a part of the reply may have been written; `unwinds` says what the
image may be after it. -/
inductive Works {σ : Type} (build : Build) (image : NbdImage σ)
    (size : σ → UInt64) (unwinds : σ → σ → Prop) :
    Connection × σ → Connection × σ → Prop
  | advance {conn : Connection} {state : σ} {stage : Stage}
      {session : Session σ}
      (h : advance build image size conn.stage (conn.session state) =
        some (stage, session)) :
      Works build image size unwinds (conn, state)
        (⟨stage, session.input, session.output⟩, session.image)
  | unwind {conn : Connection} {state state' : σ} {exportSize : UInt64}
      (hstage : conn.stage = .transmitting exportSize)
      (h : unwinds state state') (written : Bytes) :
      Works build image size unwinds (conn, state)
        (⟨.unwound, conn.input.drop 28, conn.output ++ written⟩, state')

/-! ## The server -/

/-- Where the accept loop is; in `spawning` it has a slot in its hands. -/
inductive Acceptor where
  | listening
  | loading (conn : Connection)
  | comparing (conn : Connection) (current : ℕ)
  | spawning (conn : Connection)

/-- Where a session thread is, with its connection as it came and as it is. -/
inductive SessionThread where
  | waiting (came : Connection)
  | serving (came now : Connection)
  /-- the lock has been given back, the slot has not -/
  | unlocked (came now : Connection)
  | finished (came now : Connection)

structure Server (σ : Type) where
  acceptor : Acceptor
  sessions : ℕ
  threads : List SessionThread
  dropped : List Connection
  locked : Bool
  poisoned : Bool
  image : σ

namespace Server

variable {σ : Type}

def new (start : σ) : Server σ where
  acceptor := .listening
  sessions := 0
  threads := []
  dropped := []
  locked := false
  poisoned := false
  image := start

/-- `fetch_sub(1)` -/
def fetchSub (n : ℕ) : ℕ := if n = 0 then wordLimit - 1 else n - 1

def setThread (s : Server σ) (i : ℕ) (thread : SessionThread) : Server σ :=
  { s with threads := s.threads.set i thread }

/-- A step of the accept loop. -/
inductive AcceptStep : Server σ → Server σ → Prop
  | accept {s : Server σ} (h : s.acceptor = .listening) (sent : Bytes) :
      AcceptStep s { s with acceptor := .loading (.accepted sent) }
  | load {s : Server σ} {conn : Connection} (h : s.acceptor = .loading conn) :
      AcceptStep s { s with acceptor := .comparing conn s.sessions }
  | full {s : Server σ} {conn : Connection} {current : ℕ}
      (h : s.acceptor = .comparing conn current)
      (hfull : maxPendingSessions ≤ current) :
      AcceptStep s { s with
        acceptor := .listening, dropped := s.dropped ++ [conn] }
  | acquire {s : Server σ} {conn : Connection} {current : ℕ}
      (h : s.acceptor = .comparing conn current)
      (hroom : current < maxPendingSessions) (hsame : s.sessions = current) :
      AcceptStep s { s with
        acceptor := .spawning conn, sessions := current + 1 }
  /-- the counter was another one, or the exchange has failed spuriously -/
  | retry {s : Server σ} {conn : Connection} {current : ℕ}
      (h : s.acceptor = .comparing conn current)
      (hroom : current < maxPendingSessions) :
      AcceptStep s { s with acceptor := .comparing conn s.sessions }
  | spawn {s : Server σ} {conn : Connection} (h : s.acceptor = .spawning conn) :
      AcceptStep s { s with
        acceptor := .listening, threads := s.threads ++ [.waiting conn] }

section Steps

variable (build : Build) (image : NbdImage σ) (size : σ → UInt64)
  (unwinds : σ → σ → Prop)

/-- A step of a session thread.  A poisoned lock is taken like any other. -/
inductive ThreadStep : Server σ → Server σ → Prop
  | lock {s : Server σ} {i : ℕ} {came : Connection}
      (h : s.threads[i]? = some (.waiting came)) (hfree : s.locked = false) :
      ThreadStep s { s.setThread i (.serving came came) with locked := true }
  | serve {s : Server σ} {i : ℕ} {came now next : Connection} {state : σ}
      (h : s.threads[i]? = some (.serving came now))
      (hwork : Works build image size unwinds (now, s.image) (next, state)) :
      ThreadStep s { s.setThread i (.serving came next) with image := state }
  | unlock {s : Server σ} {i : ℕ} {came now : Connection}
      (h : s.threads[i]? = some (.serving came now))
      (hover : now.stage.isOver) :
      ThreadStep s { s.setThread i (.unlocked came now) with
        locked := false
        poisoned := s.poisoned || now.stage.isUnwound }
  | release {s : Server σ} {i : ℕ} {came now : Connection}
      (h : s.threads[i]? = some (.unlocked came now)) :
      ThreadStep s { s.setThread i (.finished came now) with
        sessions := fetchSub s.sessions }

inductive Step : Server σ → Server σ → Prop
  | acceptor {s s' : Server σ} (h : AcceptStep s s') : Step s s'
  | thread {s s' : Server σ}
      (h : ThreadStep build image size unwinds s s') : Step s s'

def Reachable (start : σ) (s : Server σ) : Prop :=
  ReflTransGen (Step build image size unwinds) (new start) s

end Steps

end Server

end Nbd
end ImageReader
