import PerCoreShard.Library.Transition
import PerCoreShard.Session.HttpSession

/-! `Session`: a relay of raw bytes in both directions. The two directions run as two loops of
reads and writes that share the sockets and `close`. An operation that was started comes to
its end at the socket first; its completion is then queued in the event loop, and the handler
runs when it is delivered. A pointer that was moved out and is used all the same is noted in the
log. -/
namespace PerCoreShard
open Library

namespace Session

inductive Op
  | connect
  | readDownstream
  | writeUpstream (data : Bytes)
  | readUpstream
  | writeDownstream (data : Bytes)
  deriving DecidableEq, Repr

def Op.onDownstream : Op → Bool
  | .readDownstream | .writeDownstream _ => true
  | _ => false

def Op.onUpstream : Op → Bool
  | .writeUpstream _ | .readUpstream => true
  | _ => false

/-- An operation that was started, with its completion once that is queued. -/
structure Flight where
  op : Op
  completion : Option Completion := none
  deriving DecidableEq, Repr

inductive Effect
  | onAccept
  | onClose
  | selectEndpoint (index : ℕ)
  | acquireConnection (index : ℕ)
  | upstreamConnectError
  | connected (socket : SocketId)
  | acquireBuffer (id : ℕ)
  | releaseBuffer (buffer : Buffer)
  | readDownstream
  | writeUpstream (data : Bytes)
  | readUpstream
  | writeDownstream (data : Bytes)
  | bytesDownstreamToUpstream (n : ℕ)
  | bytesUpstreamToDownstream (n : ℕ)
  | closeDownstream
  | cancelUpstream
  | releaseConnection (index : ℕ) (socket : SocketId)
  | closeUpstream (socket : SocketId)
  /-- An operation came to its end, other than by being aborted. -/
  | finished (op : Op) (ok : Bool)
  /-- A null `upstream_`, `down_to_up_buf_` or `up_to_down_buf_` is dereferenced. -/
  | nullPointer
  deriving DecidableEq, Repr

end Session

structure Session where
  upstream : Option SocketId := none
  endpointIndex : ℕ := 0
  upstreamHealthy : Bool := true
  downToUpBuf : Option Buffer := none
  upToDownBuf : Option Buffer := none
  closing : Bool := false
  flights : List Session.Flight := []
  log : List Session.Effect := []
  deriving DecidableEq, Repr

namespace Session

/-- What the surroundings answer to the synchronous calls of one handler: the two buffers
`acquire` hands out and what `upstream_->is_open()` returns. -/
structure Answers where
  downToUp : Buffer
  upToDown : Buffer
  upstreamOpen : Bool := true
  deriving DecidableEq, Repr

def emit (s : Session) (e : Effect) : Session := { s with log := s.log ++ [e] }

/-- Start an operation. -/
def begin_ (s : Session) (op : Op) : Session := { s with flights := s.flights ++ [⟨op,none⟩] }

/-- What is aborted completes with an error, unless its completion is already queued. -/
def abort (onSocket : Op → Bool) (f : Flight) : Flight :=
  if onSocket f.op && f.completion.isNone then { f with completion := some ⟨false,[],0,none⟩ } else f

def abortAll (s : Session) (onSocket : Op → Bool) : Session :=
  { s with flights := s.flights.map (abort onSocket) }

/-- The upstream connection goes back to the pool, or it is closed. -/
def giveUpUpstream (s : Session) (a : Answers) : Session :=
  match s.upstream with
  | none => s
  | some socket =>
    if s.upstreamHealthy && a.upstreamOpen then
      { ((s.abortAll Op.onUpstream).emit .cancelUpstream).emit
        (.releaseConnection s.endpointIndex socket) with upstream := none }
    else (s.abortAll Op.onUpstream).emit (.closeUpstream socket)

def releaseDownToUpBuf (s : Session) : Session :=
  match s.downToUpBuf with
  | some b => { s.emit (.releaseBuffer b) with downToUpBuf := none }
  | none => s

def releaseUpToDownBuf (s : Session) : Session :=
  match s.upToDownBuf with
  | some b => { s.emit (.releaseBuffer b) with upToDownBuf := none }
  | none => s

def close (s : Session) (a : Answers) : Session :=
  if s.closing then s
  else
    (({ s with closing := true }.abortAll Op.onDownstream).emit .closeDownstream).giveUpUpstream a
      |>.releaseDownToUpBuf.releaseUpToDownBuf.emit .onClose

def relayDownstreamToUpstream (s : Session) : Session :=
  match s.downToUpBuf with
  | some _ => (s.emit .readDownstream).begin_ .readDownstream
  | none => s.emit .nullPointer

def relayUpstreamToDownstream (s : Session) : Session :=
  match s.upstream,s.upToDownBuf with
  | some _,some _ => (s.emit .readUpstream).begin_ .readUpstream
  | _,_ => s.emit .nullPointer

def onDownstreamRead (s : Session) (c : Completion) (a : Answers) : Session :=
  if !c.ok then s.close a
  else
    match s.upstream,s.downToUpBuf with
    | some _,some b =>
      ({ s with downToUpBuf := some (b.write c.data) }.emit (.writeUpstream c.data)).begin_
        (.writeUpstream c.data)
    | _,_ => s.emit .nullPointer

def onUpstreamWritten (s : Session) (c : Completion) (a : Answers) : Session :=
  if !c.ok then { s with upstreamHealthy := false }.close a
  else (s.emit (.bytesDownstreamToUpstream c.written)).relayDownstreamToUpstream

def onUpstreamRead (s : Session) (c : Completion) (a : Answers) : Session :=
  if !c.ok then { s with upstreamHealthy := false }.close a
  else
    match s.upToDownBuf with
    | some b =>
      ({ s with upToDownBuf := some (b.write c.data) }.emit (.writeDownstream c.data)).begin_
        (.writeDownstream c.data)
    | none => s.emit .nullPointer

def onDownstreamWritten (s : Session) (c : Completion) (a : Answers) : Session :=
  if !c.ok then s.close a
  else (s.emit (.bytesUpstreamToDownstream c.written)).relayUpstreamToDownstream

def onUpstreamReady (s : Session) (a : Answers) : Session :=
  ({ s with downToUpBuf := some a.downToUp, upToDownBuf := some a.upToDown }.emit
    (.acquireBuffer a.downToUp.id)).emit (.acquireBuffer a.upToDown.id)
    |>.relayDownstreamToUpstream.relayUpstreamToDownstream

/-- The callback `connect_upstream` passes to `acquire_connection`. -/
def onConnected (s : Session) (c : Completion) (a : Answers) : Session :=
  match c.ok,c.socket with
  | true,some socket =>
    ({ s with upstream := some socket }.emit (.connected socket)).onUpstreamReady a
  | _,_ => { s.emit .upstreamConnectError with upstreamHealthy := false }.close a

/-- A pooled connection is handed over before `acquire_connection` returns. -/
def start (endpoint : ℕ) (pooled : Option SocketId) (a : Answers) : Session :=
  let s : Session := { endpointIndex := endpoint
                       log := [.onAccept,.selectEndpoint endpoint,.acquireConnection endpoint] }
  match pooled with
  | some socket => s.onConnected ⟨true,[],0,some socket⟩ a
  | none => s.begin_ .connect

/-- Run the completion handler of one operation. -/
def handle (s : Session) (op : Op) (c : Completion) (a : Answers) : Session :=
  match op with
  | .connect => s.onConnected c a
  | .readDownstream => s.onDownstreamRead c a
  | .writeUpstream _ => s.onUpstreamWritten c a
  | .readUpstream => s.onUpstreamRead c a
  | .writeDownstream _ => s.onDownstreamWritten c a

/-- An operation comes to its end, or a completion is delivered, whichever of those that are
queued. -/
inductive Event
  | finish (op : Op) (c : Completion)
  | deliver (op : Op) (c : Completion) (a : Answers)
  deriving DecidableEq, Repr

def finish (s : Session) (op : Op) (c : Completion) : Session :=
  { s with flights := s.flights.erase ⟨op,none⟩ ++ [Flight.mk op (some c)] }.emit (.finished op c.ok)

def deliver (s : Session) (op : Op) (c : Completion) (a : Answers) : Session :=
  { s with flights := s.flights.erase ⟨op,some c⟩ }.handle op c a

/-- The buffers have the size of the pool. -/
def Answers.Sized (bufferSize : ℕ) (a : Answers) : Prop :=
  a.downToUp.data.length = bufferSize ∧ a.upToDown.data.length = bufferSize

instance (bufferSize : ℕ) (a : Answers) : Decidable (a.Sized bufferSize) :=
  inferInstanceAs (Decidable (_ ∧ _))

/-- The events a state admits. -/
def Enabled (bufferSize : ℕ) (s : Session) : Event → Prop
  | .finish op c => Flight.mk op none ∈ s.flights ∧ c.data.length ≤ bufferSize
  | .deliver op c a => Flight.mk op (some c) ∈ s.flights ∧ a.Sized bufferSize

instance (bufferSize : ℕ) (s : Session) (e : Event) : Decidable (Enabled bufferSize s e) := by
  cases e <;> exact inferInstanceAs (Decidable (_ ∧ _))

def next (s : Session) : Event → Session
  | .finish op c => s.finish op c
  | .deliver op c a => s.deliver op c a

/-- The runs of a session: completions are queued and delivered in any order. -/
def system (bufferSize : ℕ) : System Session Event where
  initial s := ∃ endpoint pooled a, a.Sized bufferSize ∧ s = start endpoint pooled a
  step s e s' := Enabled bufferSize s e ∧ s' = s.next e

end Session
end PerCoreShard
