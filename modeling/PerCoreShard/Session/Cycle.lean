import PerCoreShard.Library.History
import PerCoreShard.Session.HttpSession

/-! The protocol of one request cycle: what the log of a cycle amounts to, and which effects
may be added to it. It is stated on logs alone, without the members of `HttpSession`. -/
namespace PerCoreShard
open Library LlhttpParser

/-- Entries made while a read of the client is processed and nothing was sent on yet. -/
def Effect.ofRead : Effect → Bool
  | .downstreamRead _ | .requestError _ | .requestHandled | .filterRequest _ _ _ | .startRequest _ => true
  | .gateRequest _ | .provideRequest _ _ => true
  | _ => false

/-- The response a filter answers with when it rejects. -/
def FilterHeaderResult.reply : FilterHeaderResult → Option (ResponseHead × Bytes)
  | .continue_ => none
  | .respond response => some (response.head,response.body)

def GateResult.reply : GateResult → Option (ResponseHead × Bytes)
  | .reject head body => some (head,body)
  | _ => none

def Effect.reply : Effect → Option (ResponseHead × Bytes)
  | .filterRequest _ result _ | .filterResponse _ result _ => result.reply
  | .gateRequest call | .gateResponse call => call.result.reply
  | _ => none

structure Cycle where
  request : Ledger RequestHead := {}
  response : Ledger ResponseHead := {}
  /-- The number of bytes behind the error in the read that raised it. -/
  unread : Option ℕ := none
  endpoint : Option ℕ := none
  wroteOnce : Bool := false
  retries : ℕ := 0
  responding : Bool := false
  /-- A filter or the gate has rejected the request or the response. -/
  refused : Bool := false
  direct : Bool := false
  /-- The response the session has been told to give itself, and whether it is the one that is
  being written. -/
  reply : Option (ResponseHead × Bytes) := none
  replying : Bool := false
  /-- The bytes handed to downstream writes, and those of them that were handed over before
  the current response was started. -/
  issued : Bytes := []
  earlier : Bytes := []

namespace Cycle

def record (c : Cycle) : Effect → Cycle
  | .downstreamRead data =>
    { c with request := { c.request with reads := c.request.reads ++ [data] } }
  | .requestError consumed =>
    { c with unread := some ((c.request.reads.getLast?.getD []).length - consumed) }
  | .filterRequest head result filtered =>
    { c with
      request := { c.request with filtered := some (head,result,filtered) }
      refused := c.refused || result.rejects }
  | .startRequest head => { c with request := { c.request with head := some head } }
  | .gateRequest call =>
    { c with
      request := { c.request with gates := c.request.gates ++ [call] }
      refused := c.refused || call.result.rejects }
  | .provideRequest chunk isLast =>
    { c with request := { c.request with provided := c.request.provided ++ [(chunk,isLast)] } }
  | .selectEndpoint index => { c with endpoint := some index }
  | .connected _ _ => { c with request := { c.request with sent := [] } }
  | .closeUpstream _ => { c with request := { c.request with sent := [] } }
  | .upstreamWritten data _ =>
    { c with request := { c.request with sent := c.request.sent ++ data }, wroteOnce := true }
  | .upstreamWriteFailed data written =>
    { c with request := { c.request with sent := c.request.sent ++ data.take written } }
  | .upstreamRetry _ => { c with retries := c.retries + 1 }
  | .startResponsePhase => { c with response := { c.response with reads := [] }, responding := true }
  | .upstreamRead data =>
    { c with response := { c.response with reads := c.response.reads ++ [data] } }
  | .filterResponse head result filtered =>
    { c with
      response := { c.response with filtered := some (head,result,filtered) }
      refused := c.refused || result.rejects }
  | .startResponse head =>
    { c with
      response := { c.response with head := some head, provided := [], sent := [] }
      earlier := c.issued
      replying := c.direct }
  | .gateResponse call =>
    { c with
      response := { c.response with gates := c.response.gates ++ [call] }
      refused := c.refused || call.result.rejects }
  | .provideResponse chunk isLast =>
    { c with response := { c.response with provided := c.response.provided ++ [(chunk,isLast)] } }
  | .writeDownstream data => { c with issued := c.issued ++ data }
  | .downstreamWritten data _ =>
    { c with response := { c.response with sent := c.response.sent ++ data } }
  | .respondDirectly head body => { c with direct := true, reply := some (head,body) }
  | _ => c

/-- No error, or one at the very end of the read that raised it. -/
def ErrorUnseen (c : Cycle) : Prop := c.unread = none ∨ c.unread = some 0

/-- The request has been passed on by the filters and may go to an upstream. -/
structure Forwarding (c : Cycle) : Prop where
  notDirect : c.direct = false
  notRefused : c.refused = false
  started : c.request.head.isSome = true
  errorUnseen : c.ErrorUnseen

/-- A request that was sent to its end, and a response that was relayed to its end. -/
structure Answered (c : Cycle) (G : Gateway) : Prop where
  notDirect : c.direct = false
  notRefused : c.refused = false
  responding : c.responding = true
  messageDone : (c.response.parse G.responseLlhttp).messageDone = true
  final : PerCoreShard.final c.response.provided = true
  started : c.response.head.isSome = true
  sent : c.response.sent = c.response.wire
  issued : c.issued = c.earlier ++ c.response.sent
  requestSent : c.request.sent = c.request.wire

/-- A complete message that was not refused has been handed to its serializer to the end. -/
structure Settled (c : Cycle) (G : Gateway) : Prop where
  request : c.refused = false → (c.request.parse G.requestLlhttp).messageDone = true →
    (c.request.parse G.requestLlhttp).hasError = true ∨ final c.request.provided = true
  response : c.refused = false → c.responding = true →
    (c.response.parse G.responseLlhttp).messageDone = true →
    (c.response.parse G.responseLlhttp).hasError = true ∨ final c.response.provided = true

/-- The head a filtered request head is sent as. -/
def forwardedHead (filtered : RequestHead) : RequestHead :=
  { filtered with
    headers := setHeader filtered.headers (ascii "Connection") (ascii "keep-alive") }

/-- The head a filtered response head is relayed as. -/
def relayedHead (filtered : ResponseHead) (keepAlive : Bool) : ResponseHead :=
  { filtered with
    headers := setHeader filtered.headers (ascii "Connection")
      (if keepAlive then ascii "keep-alive" else ascii "close") }

/-- The response announces its own length. -/
def framed (head : ResponseHead) : Bool :=
  hasHeader head.headers (ascii "Content-Length") || hasChunkedEncoding head.headers

/-- What must be true when an effect is added to a log with the given last entry. -/
def Allows (G : Gateway) (c : Cycle) (last : Option Effect) : Effect → Prop
  | .readDownstream =>
    c.direct = false ∧ c.refused = false ∧ c.responding = false ∧ c.ErrorUnseen
  | .downstreamRead _ =>
    c.direct = false ∧ c.responding = false ∧
      (c.request.parse G.requestLlhttp).messageDone = false ∧ c.request.Drained G.requestLlhttp ∧
      ((c.request.parse G.requestLlhttp).headerDone = true → c.request.head.isSome = true)
  | .requestError consumed =>
    c.direct = false ∧ c.responding = false ∧ c.unread = none ∧
      ∃ before raw, last = some (.downstreamRead raw) ∧ c.request.reads = before ++ [raw] ∧
      (parsed G.requestLlhttp RequestHead before.flatten).hasError = false ∧
      (c.request.parse G.requestLlhttp).hasError = true ∧
      consumed = (G.requestLlhttp.errorPos
        (parsed G.requestLlhttp RequestHead before.flatten).parser raw).getD 0
  | .requestHandled => last.any Effect.ofRead = true
  | .filterRequest head result filtered =>
    last = some .requestHandled ∧ c.direct = false ∧ c.responding = false ∧ c.refused = false ∧
      c.request.filtered = none ∧ c.request.head = none ∧
      (c.request.parse G.requestLlhttp).headerDone = true ∧
      head = (c.request.parse G.requestLlhttp).head ∧
      ∃ ctx ctx', G.filterChain.applyRequest head ctx = (result,filtered,ctx')
  | .startRequest head' =>
    last.any Effect.ofRead = true ∧ c.request.head = none ∧ c.request.sent = [] ∧
      c.request.provided = [] ∧ ∃ head filtered,
        c.request.filtered = some (head,.continue_,filtered) ∧ head' = forwardedHead filtered
  | .gateRequest call =>
    last.any Effect.ofRead = true ∧ c.direct = false ∧ c.responding = false ∧ c.refused = false ∧
      c.request.GateStep G.requestLlhttp G.filterChain G.bodyBufferHighWatermarkBytes true call
  | .provideRequest chunk isLast =>
    last.any Effect.ofRead = true ∧ c.direct = false ∧
      c.request.ProvideStep G.requestLlhttp chunk isLast
  | .selectEndpoint _ => c.Forwarding ∧ c.endpoint = none
  | .acquireConnection index => c.Forwarding ∧ c.endpoint = some index ∧ c.retries = 0
  | .acquireFreshConnection index => c.Forwarding ∧ c.endpoint = some index ∧ c.retries = 1
  | .connected _ pooled =>
    c.endpoint.isSome = true ∧ (pooled = true → c.retries = 0) ∧ c.refused = false
  | .dropUpstream _ => c.refused = false
  | .writeUpstream data => c.Forwarding ∧ c.request.Next data
  | .upstreamWritten data _ => c.request.Next data
  | .upstreamWriteFailed data _ =>
    c.request.Next data ∧ (c.wroteOnce = false → c.request.sent = [])
  | .upstreamRetry (.afterWrite n) =>
    c.retries = 0 ∧ c.wroteOnce = false ∧
      ∃ data written, last = some (.upstreamWriteFailed data written) ∧ n = data.length
  | .upstreamRetry (.afterRead snapshot) =>
    c.retries = 0 ∧ c.responding = true ∧ c.response.reads = [] ∧
      final c.request.provided = true ∧ snapshot = c.request.wire ∧
      c.request.sent = c.request.wire ∧ last = some .upstreamReadFailed
  | .startResponsePhase =>
    c.Forwarding ∧ final c.request.provided = true ∧ c.request.sent = c.request.wire ∧
      c.response.reads = []
  | .upstreamRead _ =>
    c.direct = false ∧ c.responding = true ∧
      (c.response.parse G.responseLlhttp).messageDone = false ∧
      c.response.Drained G.responseLlhttp ∧
      ((c.response.parse G.responseLlhttp).headerDone = true → c.response.head.isSome = true)
  | .filterResponse head result filtered =>
    c.direct = false ∧ c.responding = true ∧ c.refused = false ∧ c.response.filtered = none ∧
      c.issued = [] ∧ (c.response.parse G.responseLlhttp).headerDone = true ∧
      head = (c.response.parse G.responseLlhttp).head ∧
      ∃ ctx ctx', G.filterChain.applyResponse head ctx = (result,filtered,ctx')
  | .startResponse head' =>
    (∃ body, last = some (.respondDirectly head' body)) ∨
      (c.direct = false ∧ c.responding = true ∧ c.response.head = none ∧ c.issued = [] ∧
        ∃ head filtered keepAlive, c.response.filtered = some (head,.continue_,filtered) ∧
          (keepAlive = true → framed filtered = true) ∧ head' = relayedHead filtered keepAlive)
  | .gateResponse call =>
    c.direct = false ∧ c.responding = true ∧ c.refused = false ∧
      c.response.GateStep G.responseLlhttp G.filterChain G.bodyBufferHighWatermarkBytes false call
  | .provideResponse chunk isLast =>
    (c.direct = true ∧ c.response.provided = [] ∧ isLast = true ∧
      ∃ head, last = some (.startResponse head) ∧ c.reply = some (head,chunk)) ∨
      (c.direct = false ∧ c.responding = true ∧ c.response.ProvideStep G.responseLlhttp chunk isLast)
  | .respondDirectly head body =>
    c.direct = false ∧ c.refused = true ∧
      (c.issued = [] ∨ ∃ call head body, last = some (.gateResponse call) ∧
        call.result = .reject head body) ∧
      ∃ x, last = some x ∧ x.reply = some (head,body)
  | .writeDownstream data =>
    c.issued = c.earlier ++ c.response.sent ∧ c.response.Next data ∧
      (c.refused = true → c.replying = true)
  | .downstreamWritten data _ => c.response.Next data
  | .releaseConnection index _ =>
    c.Answered G ∧ c.endpoint = some index ∧
      (c.response.parse G.responseLlhttp).shouldKeepAlive = true
  | .resetForNextRequest =>
    c.Answered G ∧
      (∃ head filtered, c.response.filtered = some (head,.continue_,filtered) ∧
        framed filtered = true ∧ c.response.head = some (relayedHead filtered true)) ∧
      ((c.response.parse G.responseLlhttp).shouldKeepAlive = true →
        ∃ index socket, last = some (.releaseConnection index socket))
  | _ => True

end Cycle

/-- The state a log of one cycle leads to. -/
def cycleOf (log : List Effect) : Cycle := log.foldl Cycle.record {}

@[simp] theorem cycleOf_append (log : List Effect) (e : Effect) :
    cycleOf (log ++ [e]) = (cycleOf log).record e := by
  simp [cycleOf]

/-- Every effect of the log was allowed when it was added. -/
def Conforms (G : Gateway) (log : List Effect) : Prop :=
  AtEvery (fun past e => (cycleOf past).Allows G past.getLast? e) log

theorem conforms_append {G : Gateway} {log : List Effect} {e : Effect} :
    Conforms G (log ++ [e]) ↔ Conforms G log ∧ (cycleOf log).Allows G log.getLast? e := by
  simp [Conforms]

end PerCoreShard
