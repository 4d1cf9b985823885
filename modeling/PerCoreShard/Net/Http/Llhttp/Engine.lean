import PerCoreShard.Library.Transducer
import PerCoreShard.Net.Http.Types

/-! The vendored llhttp as its callers see it: a byte automaton that invokes callbacks and
may stop with an error. Its generated state table stays a parameter. The adapter's
callbacks all return `HPE_OK`, so they have no influence on the run. A span that llhttp
reports in one piece is here a sequence of shorter ones; the adapters only append spans. -/
namespace PerCoreShard
open Library

/-- The members of `llhttp_t` that `on_headers_complete` reads. -/
structure StartLine where
  method : Bytes := []
  httpMajor : ℕ
  httpMinor : ℕ
  statusCode : ℕ := 0
  deriving DecidableEq, Repr

inductive Callback
  | onMessageBegin
  | onUrl (span : Bytes)
  | onStatus (span : Bytes)
  | onHeaderField (span : Bytes)
  | onHeaderFieldComplete
  | onHeaderValue (span : Bytes)
  | onHeaderValueComplete
  | onHeadersComplete (line : StartLine)
  | onBody (span : Bytes)
  /-- Carries `llhttp_should_keep_alive` as it is inside the callback. -/
  | onMessageComplete (shouldKeepAlive : Bool)
  deriving DecidableEq, Repr

/-- The part of a message the callbacks are in; trailer fields come in the body part. -/
inductive Section
  | idle
  | head
  | body
  deriving DecidableEq, Repr

def Section.after : Section → Callback → Option Section
  | .idle,.onMessageBegin => some .head
  | .idle,_ => none
  | .head,.onHeadersComplete _ => some .body
  | .head,.onMessageBegin => none
  | .head,.onBody _ => none
  | .head,.onMessageComplete _ => none
  | .head,_ => some .head
  | .body,.onMessageComplete _ => some .idle
  | .body,.onMessageBegin => none
  | .body,.onHeadersComplete _ => none
  | .body,_ => some .body

/-- The part of a message reached by a sequence of callbacks, if they come in order. -/
def Section.follow : Section → List Callback → Option Section
  | s,[] => some s
  | s,c::cs => (s.after c).bind fun t => t.follow cs

theorem Section.follow_append (s : Section) (cs ds : List Callback) :
    s.follow (cs ++ ds) = (s.follow cs).bind fun t => t.follow ds := by
  induction cs generalizing s with
  | nil => rfl
  | cons c cs ih =>
    simp only [List.cons_append,follow]
    cases s.after c with
    | none => rfl
    | some t => exact ih t

inductive Errno
  | ok
  | paused
  | error
  deriving DecidableEq, Repr

/-- llhttp for one message type, as `llhttp_init` sets it up. -/
structure Llhttp extends Transducer UInt8 Callback where
  /-- `llhttp_should_keep_alive` of the current state. -/
  shouldKeepAlive : State → Bool
  /-- Where `llhttp_get_error_pos` points after an execute that failed, counted from the
  start of what was read. -/
  errorPos : State → Bytes → Option ℕ
  errorPos_le : ∀ s raw p, errorPos s raw = some p → p ≤ raw.length
  /-- The callbacks of consecutive messages come in stream order. -/
  ordered : ∀ raw, (Section.idle.follow (toTransducer.run start raw).out).isSome = true

structure Execution (σ : Type) where
  callbacks : List Callback
  state : σ
  errno : Errno
  errorPos : Option ℕ

/-- `llhttp_execute` followed by `llhttp_get_error_pos`. -/
def Llhttp.execute (ll : Llhttp) (s : ll.State) (raw : Bytes) : Execution ll.State where
  callbacks := (ll.run s raw).out
  state := (ll.run s raw).state
  errno := if (ll.run s raw).failed then .error else .ok
  errorPos := if (ll.run s raw).failed then ll.errorPos s raw else none

end PerCoreShard
