import PerCoreShard.Library.Transition
import PerCoreShard.Net.RaceWithTimeout

/-! `UpstreamManager`: the endpoints of a shard, their idle connections and the connects in
flight. Every function is the change it makes to the manager and to what the event loop and
the callers know, with what happened recorded in `log`. -/
namespace PerCoreShard
open Library

/-- `UpstreamManager::Endpoint`. -/
structure UpstreamEndpoint where
  host : Bytes
  port : ℕ
  resolved : NetEndpoint := {}
  deriving DecidableEq, Repr

structure UpstreamManager where
  endpoints : List UpstreamEndpoint
  nextEndpoint : ℕ := 0
  idlePools : List (List SocketId)
  connectionPoolMaxIdlePerEndpoint : ℕ
  deriving DecidableEq, Repr

namespace UpstreamManager

def create (upstreams : List (Bytes × ℕ)) (maxIdle : ℕ) : UpstreamManager where
  endpoints := upstreams.map fun u => { host := u.1, port := u.2 }
  idlePools := List.replicate upstreams.length []
  connectionPoolMaxIdlePerEndpoint := maxIdle

/-- The idle connections of an endpoint, the one to be taken next last. -/
def pool (m : UpstreamManager) (index : ℕ) : List SocketId := m.idlePools.getD index []

def setPool (m : UpstreamManager) (index : ℕ) (sockets : List SocketId) : UpstreamManager :=
  { m with idlePools := m.idlePools.set index sockets }

def selectEndpoint (m : UpstreamManager) : ℕ × UpstreamManager :=
  (m.nextEndpoint,{ m with nextEndpoint := (m.nextEndpoint + 1) % m.endpoints.length })

/-- `resolve_all`, given what the resolver answers: nothing when it fails or finds nothing. -/
def resolveAll (m : UpstreamManager) (resolve : Bytes → ℕ → Option NetEndpoint) :
    UpstreamManager :=
  { m with endpoints := m.endpoints.map fun ep =>
      { ep with resolved := (resolve ep.host ep.port).getD ep.resolved } }

theorem pool_setPool {m : UpstreamManager} {index : ℕ} (h : index < m.idlePools.length)
    (sockets : List SocketId) (i : ℕ) :
    (m.setPool index sockets).pool i = if i = index then sockets else m.pool i := by
  by_cases hi : i = index
  · subst hi
    simp [pool,setPool,h]
  · simp [pool,setPool,hi,Ne.symm hi]

theorem lt_of_mem_pool {m : UpstreamManager} {i : ℕ} {socket : SocketId}
    (h : socket ∈ m.pool i) : i < m.idlePools.length := by
  by_contra hlt
  simp [pool,List.getElem?_eq_none (Nat.le_of_not_lt hlt)] at h

end UpstreamManager

inductive UpstreamEffect
  | select (index : ℕ)
  | acquire (call index : ℕ) (fresh : Bool)
  | connect (socket : SocketId) (index : ℕ) (target : NetEndpoint)
  | connectDone (socket : SocketId) (err : NetError)
  | timerDone (socket : SocketId) (err : NetError)
  | cancelTimer (socket : SocketId)
  | cancelConnect (socket : SocketId)
  /-- The callback of an acquire call. -/
  | callback (call index : ℕ) (err : NetError) (socket : Option SocketId)
  | release (index : ℕ) (socket : SocketId)
  | pool (index : ℕ) (socket : SocketId)
  | close (socket : SocketId)
  /-- The caller that holds a socket closes and destroys it. -/
  | discard (socket : SocketId)
  deriving DecidableEq, Repr

/-- A connect of `connect_fresh`: what its three lambdas and the handlers of the race share, and
which of the handlers are still to be called. -/
structure ConnectAttempt where
  call : ℕ
  index : ℕ
  socket : SocketId
  race : Race := {}
  connecting : Bool := true
  waiting : Bool := true
  deriving DecidableEq, Repr

/-- The manager of a shard with its connects, and the numbers of the sockets created and of the
acquire calls made so far. -/
structure Upstreams where
  manager : UpstreamManager
  attempts : List ConnectAttempt := []
  sockets : ℕ := 0
  calls : ℕ := 0
  log : List UpstreamEffect := []
  deriving DecidableEq, Repr

namespace Upstreams

def emit (u : Upstreams) (e : UpstreamEffect) : Upstreams := { u with log := u.log ++ [e] }

def selectEndpoint (u : Upstreams) : Upstreams :=
  { u with manager := u.manager.selectEndpoint.2 }.emit (.select u.manager.selectEndpoint.1)

/-- An acquire call gets a number, by which its callback is known. -/
def beginAcquire (u : Upstreams) (index : ℕ) (fresh : Bool) : Upstreams :=
  { u with calls := u.calls + 1 }.emit (.acquire u.calls index fresh)

def connectFresh (u : Upstreams) (call index : ℕ) : Upstreams :=
  let target := ((u.manager.endpoints[index]?).map UpstreamEndpoint.resolved).getD {}
  let attempt : ConnectAttempt := { call := call, index := index, socket := u.sockets }
  { u with
    sockets := u.sockets + 1
    attempts := u.attempts ++ [attempt] }.emit
    (.connect u.sockets index target)

def takePooled (u : Upstreams) (call index : ℕ) (socket : SocketId) : Upstreams :=
  { u with manager := u.manager.setPool index (u.manager.pool index).dropLast }.emit
    (.callback call index .none (some socket))

def acquireConnection (u : Upstreams) (index : ℕ) : Upstreams :=
  match (u.manager.pool index).getLast? with
  | some socket => (u.beginAcquire index false).takePooled u.calls index socket
  | none => (u.beginAcquire index false).connectFresh u.calls index

def acquireFreshConnection (u : Upstreams) (index : ℕ) : Upstreams :=
  (u.beginAcquire index true).connectFresh u.calls index

/-- The lambda that hands the result of a race to the callback. -/
def deliverResult (u : Upstreams) (a : ConnectAttempt) (err : NetError) : Upstreams :=
  if !err.ok then u.emit (.callback a.call a.index err none)
  else u.emit (.callback a.call a.index .none (some a.socket))

def perform (a : ConnectAttempt) (u : Upstreams) : RaceAction → Upstreams
  | .cancelTimer => u.emit (.cancelTimer a.socket)
  | .cancelOp => u.emit (.cancelConnect a.socket)
  | .onDone err => u.deliverResult a err

/-- The connect of the attempt with the given number has completed. -/
def onConnectDone (u : Upstreams) (k : ℕ) (a : ConnectAttempt) (err : NetError) : Upstreams :=
  (a.race.onOp err).1.foldl (perform a)
    ({ u with
      attempts := u.attempts.set k
        { a with race := (a.race.onOp err).2, connecting := false } }.emit
      (.connectDone a.socket err))

/-- The timer of the attempt with the given number has expired or was cancelled. -/
def onTimerDone (u : Upstreams) (k : ℕ) (a : ConnectAttempt) (err : NetError) : Upstreams :=
  (a.race.onTimer err).1.foldl (perform a)
    ({ u with
      attempts := u.attempts.set k
        { a with race := (a.race.onTimer err).2, waiting := false } }.emit
      (.timerDone a.socket err))

def releaseConnection (u : Upstreams) (index : ℕ) (socket : SocketId) : Upstreams :=
  if u.manager.connectionPoolMaxIdlePerEndpoint ≤ (u.manager.pool index).length then
    (u.emit (.release index socket)).emit (.close socket)
  else
    { u.emit (.release index socket) with
      manager := u.manager.setPool index (u.manager.pool index ++ [socket]) }.emit
      (.pool index socket)

end Upstreams

/-- Where a socket is. A socket in the hands of a caller is there on account of one acquire
call. -/
inductive Place
  | unborn
  | connecting (index : ℕ)
  | lost
  | connected (index : ℕ)
  | held (call index : ℕ)
  | released (index : ℕ)
  | pooled (index : ℕ)
  | gone
  deriving DecidableEq, Repr

/-- The place of a socket after an effect. -/
def Place.after (socket : SocketId) (p : Place) : UpstreamEffect → Place
  | .connect s index _ => if s = socket then .connecting index else p
  | .connectDone s err =>
    if s = socket then
      match p with
      | .connecting index => if err.ok then .connected index else .lost
      | _ => p
    else p
  | .cancelConnect s => if s = socket then .lost else p
  | .callback call index _ (some s) => if s = socket then .held call index else p
  | .release index s => if s = socket then .released index else p
  | .pool index s => if s = socket then .pooled index else p
  | .close s | .discard s => if s = socket then .gone else p
  | _ => p

def placeOf (log : List UpstreamEffect) (socket : SocketId) : Place :=
  log.foldl (Place.after socket) .unborn

@[simp] theorem placeOf_nil (socket : SocketId) : placeOf [] socket = .unborn := rfl

@[simp] theorem placeOf_append (log : List UpstreamEffect) (e : UpstreamEffect)
    (socket : SocketId) : placeOf (log ++ [e]) socket = (placeOf log socket).after socket e := by
  simp [placeOf]

inductive UpstreamRequest
  | select
  | acquire (index : ℕ)
  | acquireFresh (index : ℕ)
  | release (index : ℕ) (socket : SocketId)
  | discard (socket : SocketId)
  deriving DecidableEq, Repr

inductive UpstreamEvent
  | request (r : UpstreamRequest)
  | connectDone (k : ℕ) (err : NetError)
  | timerDone (k : ℕ) (err : NetError)
  | refresh (resolve : Bytes → ℕ → Option NetEndpoint)

namespace Upstreams

def serve (u : Upstreams) : UpstreamRequest → Upstreams
  | .select => u.selectEndpoint
  | .acquire index => u.acquireConnection index
  | .acquireFresh index => u.acquireFreshConnection index
  | .release index socket => u.releaseConnection index socket
  | .discard socket => u.emit (.discard socket)

/-- Callers ask for endpoints there are, and release what they hold to the endpoint they have
it from. -/
def Proper (u : Upstreams) : UpstreamRequest → Prop
  | .select => True
  | .acquire index | .acquireFresh index => index < u.manager.endpoints.length
  | .release index socket => ∃ call, placeOf u.log socket = .held call index
  | .discard socket => ∃ call index, placeOf u.log socket = .held call index

/-- One call of the manager, one completion, or a refresh of the addresses. A callback is the
last thing that a call or a handler does, so whatever it asks of the manager in turn is asked
by the steps after it. -/
inductive Step (u : Upstreams) : UpstreamEvent → Upstreams → Prop
  | request (r : UpstreamRequest) (h : u.Proper r) : Step u (.request r) (u.serve r)
  | connectDone (k : ℕ) (a : ConnectAttempt) (err : NetError) (h : u.attempts[k]? = some a)
    (hc : a.connecting = true) : Step u (.connectDone k err) (u.onConnectDone k a err)
  | timerDone (k : ℕ) (a : ConnectAttempt) (err : NetError) (h : u.attempts[k]? = some a)
    (hw : a.waiting = true) : Step u (.timerDone k err) (u.onTimerDone k a err)
  | refresh (resolve : Bytes → ℕ → Option NetEndpoint) :
    Step u (.refresh resolve) { u with manager := u.manager.resolveAll resolve }

/-- The manager of a configuration, which names at least one upstream. -/
def system (maxIdle : ℕ) : System Upstreams UpstreamEvent where
  initial u := ∃ upstreams, upstreams ≠ [] ∧ u = { manager := .create upstreams maxIdle }
  step := Step

end Upstreams
end PerCoreShard
