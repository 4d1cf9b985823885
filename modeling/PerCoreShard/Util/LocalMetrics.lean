import Mathlib.Data.UInt

/-! The counters of a shard. They are incremented and decremented modulo `2^64`. -/
namespace PerCoreShard

structure LocalMetrics where
  connectionsAccepted : UInt64 := 0
  connectionsActive : UInt64 := 0
  connectionsClosed : UInt64 := 0
  bytesDownstreamToUpstream : UInt64 := 0
  bytesUpstreamToDownstream : UInt64 := 0
  upstreamConnectErrors : UInt64 := 0
  requestsHandled : UInt64 := 0
  upstreamRetries : UInt64 := 0
  deriving DecidableEq, Repr

/-- The counters, by name. -/
inductive Counter
  | connectionsAccepted
  | connectionsActive
  | connectionsClosed
  | bytesDownstreamToUpstream
  | bytesUpstreamToDownstream
  | upstreamConnectErrors
  | requestsHandled
  | upstreamRetries
  deriving DecidableEq, Repr

namespace LocalMetrics

def load (m : LocalMetrics) : Counter → UInt64
  | .connectionsAccepted => m.connectionsAccepted
  | .connectionsActive => m.connectionsActive
  | .connectionsClosed => m.connectionsClosed
  | .bytesDownstreamToUpstream => m.bytesDownstreamToUpstream
  | .bytesUpstreamToDownstream => m.bytesUpstreamToDownstream
  | .upstreamConnectErrors => m.upstreamConnectErrors
  | .requestsHandled => m.requestsHandled
  | .upstreamRetries => m.upstreamRetries

def onAccept (m : LocalMetrics) : LocalMetrics :=
  { m with
    connectionsAccepted := m.connectionsAccepted + 1
    connectionsActive := m.connectionsActive + 1 }

def onClose (m : LocalMetrics) : LocalMetrics :=
  { m with
    connectionsClosed := m.connectionsClosed + 1
    connectionsActive := m.connectionsActive - 1 }

/-- The counters of connections, when `opened` are open and `closed` were closed. -/
structure Counts (m : LocalMetrics) (opened closed : ℕ) : Prop where
  accepted : m.connectionsAccepted = .ofNat (opened + closed)
  active : m.connectionsActive = .ofNat opened
  closed : m.connectionsClosed = .ofNat closed

theorem ofNat_succ (n : ℕ) : UInt64.ofNat (n + 1) = .ofNat n + 1 := UInt64.ofNat_add n 1

theorem Counts.onAccept {m : LocalMetrics} {opened closed : ℕ} (h : m.Counts opened closed) :
    m.onAccept.Counts (opened + 1) closed where
  accepted := by
    change m.connectionsAccepted + 1 = _
    rw [h.accepted,Nat.add_right_comm,ofNat_succ]
  active := by
    change m.connectionsActive + 1 = _
    rw [h.active,ofNat_succ]
  closed := h.closed

/-- A connection that is closed was counted as open, so nothing wraps. -/
theorem Counts.onClose {m : LocalMetrics} {opened closed : ℕ} (h : m.Counts (opened + 1) closed) :
    m.onClose.Counts opened (closed + 1) where
  accepted := by
    change m.connectionsAccepted = _
    rw [h.accepted,Nat.add_right_comm,Nat.add_assoc]
  active := by
    change m.connectionsActive - 1 = _
    rw [h.active,ofNat_succ,UInt64.add_sub_cancel]
  closed := by
    change m.connectionsClosed + 1 = _
    rw [h.closed,ofNat_succ]

theorem Counts.balance {m : LocalMetrics} {opened closed : ℕ} (h : m.Counts opened closed) :
    m.connectionsActive = m.connectionsAccepted - m.connectionsClosed := by
  rw [h.active,h.accepted,h.closed,UInt64.ofNat_add,UInt64.add_sub_cancel]

end LocalMetrics
end PerCoreShard
