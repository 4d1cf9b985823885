import PerCoreShard.Filter.BodyFilterGate
import PerCoreShard.Net.Http.Native.Serializer
import PerCoreShard.Net.Types
import PerCoreShard.Session.Ledger
import PerCoreShard.Session.Relay
import PerCoreShard.Util.BufferPool

/-! `HttpSession`: one downstream connection, one request after the other. Every callback of
the source is a function from session states to session states. What the session does to
its surroundings is recorded in `log`, one list per request cycle, and what it has started
and not yet heard of is kept in `pending`. -/
namespace PerCoreShard

/-- What the sessions of a shard are constructed with. -/
structure Gateway where
  requestLlhttp : Llhttp
  responseLlhttp : Llhttp
  Ctx : Type
  filterChain : FilterChain Ctx
  /-- `filter_ctx_ = FilterContext{}`; the members of the filter objects stay. -/
  freshContext : Ctx → Ctx
  bodyBufferHighWatermarkBytes : ℕ
  bufferSize : ℕ

/-- An asynchronous operation with what its completion handler captures. -/
inductive Op
  | readRequest
  | connect
  | writeRequest (data : Bytes)
  | retryConnect (n : ℕ)
  | retryWrite (data : Bytes)
  | rereadConnect
  | rereadWrite (data : Bytes)
  | readResponse
  | writeResponse (data : Bytes)
  deriving DecidableEq, Repr

/-- Why a request is sent again, with what will be sent: the first bytes of `write_buf_` or
the snapshot. -/
inductive Retry
  | afterWrite (n : ℕ)
  | afterRead (snapshot : Bytes)
  deriving DecidableEq, Repr

inductive Effect
  | onAccept
  | onClose
  | requestHandled
  | upstreamRetry (cause : Retry)
  | upstreamConnectError
  | bytesDownstreamToUpstream (n : ℕ)
  | bytesUpstreamToDownstream (n : ℕ)
  | acquireBuffer (id : ℕ)
  | releaseBuffer (buffer : Buffer)
  | readDownstream
  | downstreamRead (data : Bytes)
  | downstreamReadFailed
  | writeDownstream (data : Bytes)
  | downstreamWritten (data : Bytes) (written : ℕ)
  | downstreamWriteFailed (data : Bytes) (written : ℕ)
  | closeDownstream
  | selectEndpoint (index : ℕ)
  | acquireConnection (index : ℕ)
  | acquireFreshConnection (index : ℕ)
  | releaseConnection (index : ℕ) (socket : SocketId)
  | connected (socket : SocketId) (pooled : Bool)
  | writeUpstream (data : Bytes)
  | upstreamWritten (data : Bytes) (written : ℕ)
  | upstreamWriteFailed (data : Bytes) (written : ℕ)
  | readUpstream
  | upstreamRead (data : Bytes)
  | upstreamReadFailed
  | closeUpstream (socket : SocketId)
  /-- A socket destroyed because `upstream_` is assigned another one. -/
  | dropUpstream (socket : SocketId)
  /-- `feed` has set `has_error_`, having consumed that many bytes. -/
  | requestError (consumed : ℕ)
  | filterRequest (head : RequestHead) (result : FilterHeaderResult) (filtered : RequestHead)
  | startRequest (head : RequestHead)
  | gateRequest (call : GateCall)
  | provideRequest (chunk : Bytes) (isLast : Bool)
  | startResponsePhase
  | filterResponse (head : ResponseHead) (result : FilterHeaderResult) (filtered : ResponseHead)
  | startResponse (head : ResponseHead)
  | gateResponse (call : GateCall)
  | provideResponse (chunk : Bytes) (isLast : Bool)
  | respondDirectly (head : ResponseHead) (body : Bytes)
  | resetForNextRequest
  deriving DecidableEq, Repr

structure HttpSession (G : Gateway) where
  upstream : Option SocketId := none
  filterCtx : G.Ctx
  bodyFilterGate : BodyFilterGate := {}
  endpointIndex : ℕ := 0
  upstreamConnecting : Bool := false
  upstreamWroteOnce : Bool := false
  upstreamRetryUsed : Bool := false
  upstreamWholeRequestCaptured : Bool := false
  upstreamWholeRequestSnapshot : Bytes := []
  upstreamResponseReadAny : Bool := false
  readBuf : Option Buffer
  writeBuf : Option Buffer
  requestParser : LlhttpRequestParser G.requestLlhttp := .create _ _
  requestSerializer : Serializer := {}
  requestFiltered : Bool := false
  requestSerializerStarted : Bool := false
  requestFinalBodyProvided : Bool := false
  responseParser : Option (LlhttpResponseParser G.responseLlhttp) := none
  responseSerializer : Serializer := {}
  responseFiltered : Bool := false
  responseSerializerStarted : Bool := false
  responseFinalBodyProvided : Bool := false
  directResponseMode : Bool := false
  downstreamWantsKeepAlive : Bool := false
  downstreamKeepAliveEffective : Bool := false
  closing : Bool := false
  pending : List Op := []
  /-- What happened in the current request cycle. -/
  log : List Effect := []
  /-- The logs of the cycles that ended in `reset_for_next_request`. -/
  past : List (List Effect) := []

/-- What the surroundings answer to synchronous calls during one callback: the endpoint
`select_endpoint` returns, the pooled socket `acquire_connection` may hand over at once,
and what other sessions have done to the shared filter objects since the last callback. -/
structure Answers (G : Gateway) where
  endpoint : ℕ := 0
  pooled : Option SocketId := none
  touch : G.Ctx → G.Ctx := id

/-- The arguments of a completion handler: the error, the bytes read or the number of bytes
written, or the connected socket. -/
structure Completion where
  ok : Bool
  data : Bytes := []
  written : ℕ := 0
  socket : Option SocketId := none
  deriving DecidableEq, Repr

structure Event (G : Gateway) where
  op : Op
  completion : Completion
  answers : Answers G := {}

namespace HttpSession
variable {G : Gateway}

def emit (s : HttpSession G) (e : Effect) : HttpSession G := { s with log := s.log ++ [e] }

def await (s : HttpSession G) (op : Op) : HttpSession G := { s with pending := s.pending ++ [op] }

def writeBufSize (s : HttpSession G) : ℕ := (s.writeBuf.map fun b => b.data.length).getD 0

/-- The first `n` bytes of `write_buf_`. -/
def writeBufFront (s : HttpSession G) (n : ℕ) : Bytes :=
  ((s.writeBuf.map fun b => b.data).getD []).take n

def closeUpstreamSocket (s : HttpSession G) : HttpSession G :=
  match s.upstream with
  | some socket => s.emit (.closeUpstream socket)
  | none => s

def releaseReadBuf (s : HttpSession G) : HttpSession G :=
  match s.readBuf with
  | some b => { s.emit (.releaseBuffer b) with readBuf := none }
  | none => s

def releaseWriteBuf (s : HttpSession G) : HttpSession G :=
  match s.writeBuf with
  | some b => { s.emit (.releaseBuffer b) with writeBuf := none }
  | none => s

def close (s : HttpSession G) : HttpSession G :=
  if s.closing then s
  else
    ({ s with closing := true }.emit .closeDownstream).closeUpstreamSocket.releaseReadBuf
      |>.releaseWriteBuf.emit .onClose

def readRequestChunk (s : HttpSession G) : HttpSession G :=
  (s.emit .readDownstream).await .readRequest

def resetForNextRequest (s : HttpSession G) : HttpSession G :=
  readRequestChunk
    { s with
      requestParser := .create _ _
      requestSerializer := {}
      requestFiltered := false
      requestSerializerStarted := false
      requestFinalBodyProvided := false
      upstreamConnecting := false
      upstreamWroteOnce := false
      upstreamRetryUsed := false
      upstreamWholeRequestCaptured := false
      upstreamWholeRequestSnapshot := []
      upstreamResponseReadAny := false
      responseParser := none
      responseSerializer := {}
      responseFiltered := false
      responseSerializerStarted := false
      responseFinalBodyProvided := false
      directResponseMode := false
      downstreamWantsKeepAlive := false
      downstreamKeepAliveEffective := false
      filterCtx := G.freshContext s.filterCtx
      bodyFilterGate := .reset
      past := s.past ++ [s.log ++ [.resetForNextRequest]]
      log := [] }

def readResponseChunk (s : HttpSession G) : HttpSession G :=
  (s.emit .readUpstream).await .readResponse

/-- `response_parser_ && response_parser_->should_keep_alive()`. -/
def responseShouldKeepAlive (s : HttpSession G) : Bool :=
  (s.responseParser.map fun p => p.shouldKeepAlive).getD false

/-- `response_parser_ && !response_parser_->message_done()`. -/
def responseIncomplete (s : HttpSession G) : Bool :=
  (s.responseParser.map fun p => !p.messageDone).getD false

def releaseUpstream (s : HttpSession G) : HttpSession G :=
  match s.upstream with
  | some socket =>
    if !s.directResponseMode && s.responseShouldKeepAlive then
      { s with upstream := none }.emit (.releaseConnection s.endpointIndex socket)
    else s
  | none => s

/-- The end of a response: pool the upstream connection if the response allows it, then take
the next request or close, decided independently. -/
def finishCycle (s : HttpSession G) : HttpSession G :=
  let s := s.releaseUpstream
  if !s.directResponseMode && s.downstreamKeepAliveEffective then s.resetForNextRequest
  else s.close

def pullAndWriteResponseToDownstream (s : HttpSession G) : HttpSession G :=
  let r := s.responseSerializer.pull s.writeBufSize
  let s := { s with responseSerializer := r.2, writeBuf := s.writeBuf.map fun b : Buffer => b.write r.1 }
  if r.1.isEmpty then
    if r.2.done then s.finishCycle
    else if !s.directResponseMode && s.responseIncomplete then s.readResponseChunk
    else s.close
  else (s.emit (.writeDownstream r.1)).await (.writeResponse r.1)

def startResponse (s : HttpSession G) (head : ResponseHead) : HttpSession G :=
  { s with responseSerializer := .startResponse head, responseSerializerStarted := true }.emit
    (.startResponse head)

def provideResponse (s : HttpSession G) (chunk : Bytes) (isLast : Bool) : HttpSession G :=
  { s with
    responseSerializer := s.responseSerializer.provideBody chunk isLast }.emit
    (.provideResponse chunk isLast)

def respondDirectly (s : HttpSession G) (head : ResponseHead) (body : Bytes) : HttpSession G :=
  ({ s with directResponseMode := true }.emit (.respondDirectly head body)).startResponse head
    |>.provideResponse body true |>.pullAndWriteResponseToDownstream

def startResponsePhase (s : HttpSession G) : HttpSession G :=
  ({ s with responseParser := some (.create _ _), responseSerializer := {} }.emit
    .startResponsePhase).readResponseChunk

/-- Remember the request when this one write carries all of it. -/
def captureWholeRequest (s : HttpSession G) (data : Bytes) : HttpSession G :=
  if !s.upstreamWroteOnce && s.requestSerializer.done then
    { s with upstreamWholeRequestSnapshot := data, upstreamWholeRequestCaptured := true }
  else s

def pullAndWriteRequestToUpstream (s : HttpSession G) : HttpSession G :=
  let r := s.requestSerializer.pull s.writeBufSize
  let s := { s with requestSerializer := r.2, writeBuf := s.writeBuf.map fun b : Buffer => b.write r.1 }
  if r.1.isEmpty then
    if r.2.done then s.startResponsePhase
    else if !s.requestParser.messageDone then s.readRequestChunk
    else s.close
  else ((s.captureWholeRequest r.1).emit (.writeUpstream r.1)).await (.writeRequest r.1)

/-- `upstream_ = std::move(socket)`. -/
def takeUpstream (s : HttpSession G) (socket : SocketId) (pooled : Bool) : HttpSession G :=
  let s := match s.upstream with
    | some old => s.emit (.dropUpstream old)
    | none => s
  { s with upstream := some socket }.emit (.connected socket pooled)

/-- The callback `connect_upstream` passes to `acquire_connection`. -/
def onConnected (s : HttpSession G) (c : Completion) (pooled : Bool) : HttpSession G :=
  match c.ok,c.socket with
  | true,some socket => (s.takeUpstream socket pooled).pullAndWriteRequestToUpstream
  | _,_ => (s.emit .upstreamConnectError).close

/-- A pooled connection is handed over before `acquire_connection` returns. -/
def connectUpstream (s : HttpSession G) (a : Answers G) : HttpSession G :=
  let s := ({ s with endpointIndex := a.endpoint }.emit (.selectEndpoint a.endpoint)).emit
    (.acquireConnection a.endpoint)
  match a.pooled with
  | some socket => s.onConnected ⟨true,[],0,some socket⟩ true
  | none => s.await .connect

def provideRequest (s : HttpSession G) (chunk : Bytes) (isLast : Bool) : HttpSession G :=
  { s with
    requestSerializer := s.requestSerializer.provideBody chunk isLast }.emit
    (.provideRequest chunk isLast)

/-- The result is `false` when the filters rejected the chunk. -/
def processRequestDataChunk (s : HttpSession G) (chunk : Bytes) (endStream : Bool) :
    Bool × HttpSession G :=
  let r := s.bodyFilterGate.applyRequest G.filterChain G.bodyBufferHighWatermarkBytes chunk
    endStream s.filterCtx
  let s := { s with bodyFilterGate := r.2.1, filterCtx := r.2.2 }.emit
    (.gateRequest ⟨chunk,endStream,r.1,r.2.1.requestState⟩)
  match r.1 with
  | .reject head body => (false,s.respondDirectly head body)
  | .stillBuffering => (true,s)
  | .forward data =>
    (true,{ s with
      requestFinalBodyProvided := endStream || s.requestFinalBodyProvided }.provideRequest data
      endStream)

def readRequestBody (s : HttpSession G) : Bytes × HttpSession G :=
  ((s.requestParser.readBody bodyScratchSize).1,
    { s with requestParser := (s.requestParser.readBody bodyScratchSize).2 })

def drainRequestBodyIntoSerializer (s : HttpSession G) : HttpSession G :=
  drainLoop readRequestBody (fun chunk endStream s => s.processRequestDataChunk chunk endStream)
    (fun s => s.requestParser.messageDone) (s.requestParser.scratch.length + 2) none s

def feedRequest (raw : Bytes) (s : HttpSession G) : ℕ × HttpSession G :=
  let r := s.requestParser.feed raw
  let failed := r.2.hasError && !s.requestParser.hasError
  let s := { s with requestParser := r.2 }
  (r.1,if failed then s.emit (.requestError r.1) else s)

/-- `if (!request_filtered_ && request_parser_->header_done())`; the result is `false` when a
filter responded directly. -/
def filterRequestHead (s : HttpSession G) : Bool × HttpSession G :=
  if !s.requestFiltered && s.requestParser.headerDone then
    let head := s.requestParser.head
    let r := G.filterChain.applyRequest head s.filterCtx
    let s := ({ s with
      requestFiltered := true
      downstreamWantsKeepAlive := s.requestParser.shouldKeepAlive
      filterCtx := r.2.2 }.emit .requestHandled).emit (.filterRequest head r.1 r.2.1)
    match r.1 with
    | .respond response => (false,s.respondDirectly response.head response.body)
    | .continue_ =>
      let head' := { r.2.1 with
        headers := setHeader r.2.1.headers (ascii "Connection") (ascii "keep-alive") }
      (true,{ s with
        requestSerializer := .startRequest head'
        requestSerializerStarted := true }.emit (.startRequest head'))
  else (true,s)

def drainRequest (s : HttpSession G) : Bool × HttpSession G :=
  if s.requestSerializerStarted then
    (!s.drainRequestBodyIntoSerializer.directResponseMode,s.drainRequestBodyIntoSerializer)
  else (true,s)

def requestStuck (s : HttpSession G) : Bool × HttpSession G :=
  if s.requestParser.hasError then (false,s.close) else (true,s)

/-- `if (request_parser_->message_done() && !request_final_body_provided_)`. -/
def provideFinalRequestBody (s : HttpSession G) : HttpSession G :=
  if s.requestParser.messageDone && !s.requestFinalBodyProvided then
    { s with requestFinalBodyProvided := true }.provideRequest [] true
  else s

/-- What `process_downstream_chunk` does after its loop. -/
def continueRequest (s : HttpSession G) (a : Answers G) : HttpSession G :=
  if !s.requestSerializerStarted then s.readRequestChunk
  else
    let s := s.provideFinalRequestBody
    if !s.upstreamConnecting then { s with upstreamConnecting := true }.connectUpstream a
    else if s.upstream.isSome then s.pullAndWriteRequestToUpstream
    else s

def processDownstreamChunk (s : HttpSession G) (raw : Bytes) (a : Answers G) : HttpSession G :=
  let r := relayLoop feedRequest filterRequestHead drainRequest requestStuck (raw.length + 1) raw s
  if r.1 then r.2.continueRequest a else r.2

/-- `upstream_->close(); upstream_.reset()`. -/
def discardUpstream (s : HttpSession G) : HttpSession G :=
  { s.closeUpstreamSocket with upstream := none }

def retryUpstreamWriteOnce (s : HttpSession G) (n : ℕ) : HttpSession G :=
  ((s.emit (.upstreamRetry (.afterWrite n))).discardUpstream.emit
    (.acquireFreshConnection s.endpointIndex)).await (.retryConnect n)

def retryUpstreamAfterReadFailure (s : HttpSession G) : HttpSession G :=
  ((s.emit (.upstreamRetry (.afterRead s.upstreamWholeRequestSnapshot))).discardUpstream.emit
    (.acquireFreshConnection s.endpointIndex)).await .rereadConnect

def onRetryConnected (s : HttpSession G) (n : ℕ) (c : Completion) : HttpSession G :=
  match c.ok,c.socket with
  | true,some socket =>
    ((s.takeUpstream socket false).emit (.writeUpstream (s.writeBufFront n))).await
      (.retryWrite (s.writeBufFront n))
  | _,_ => (s.emit .upstreamConnectError).close

def onRereadConnected (s : HttpSession G) (c : Completion) : HttpSession G :=
  match c.ok,c.socket with
  | true,some socket =>
    ((s.takeUpstream socket false).emit (.writeUpstream s.upstreamWholeRequestSnapshot)).await
      (.rereadWrite s.upstreamWholeRequestSnapshot)
  | _,_ => (s.emit .upstreamConnectError).close

/-- A write that succeeded, with the counter it feeds. -/
def upstreamWritten (s : HttpSession G) (data : Bytes) (c : Completion) : HttpSession G :=
  (s.emit (.upstreamWritten data c.written)).emit (.bytesDownstreamToUpstream c.written)

def onRequestWritten (s : HttpSession G) (data : Bytes) (c : Completion) : HttpSession G :=
  if !c.ok then
    let s := s.emit (.upstreamWriteFailed data c.written)
    if !s.upstreamWroteOnce && !s.upstreamRetryUsed then
      { s with upstreamRetryUsed := true }.retryUpstreamWriteOnce data.length
    else s.close
  else ({ s with upstreamWroteOnce := true }.upstreamWritten data c).pullAndWriteRequestToUpstream

def onRetryWritten (s : HttpSession G) (data : Bytes) (c : Completion) : HttpSession G :=
  if !c.ok then (s.emit (.upstreamWriteFailed data c.written)).close
  else ({ s with upstreamWroteOnce := true }.upstreamWritten data c).pullAndWriteRequestToUpstream

def onRereadWritten (s : HttpSession G) (data : Bytes) (c : Completion) : HttpSession G :=
  if !c.ok then (s.emit (.upstreamWriteFailed data c.written)).close
  else (s.upstreamWritten data c).startResponsePhase

def processResponseDataChunk (s : HttpSession G) (chunk : Bytes) (endStream : Bool) :
    Bool × HttpSession G :=
  let r := s.bodyFilterGate.applyResponse G.filterChain G.bodyBufferHighWatermarkBytes chunk
    endStream s.filterCtx
  let s := { s with bodyFilterGate := r.2.1, filterCtx := r.2.2 }.emit
    (.gateResponse ⟨chunk,endStream,r.1,r.2.1.responseState⟩)
  match r.1 with
  | .reject head body => (false,s.respondDirectly head body)
  | .stillBuffering => (true,s)
  | .forward data =>
    (true,{ s with
      responseFinalBodyProvided := endStream || s.responseFinalBodyProvided }.provideResponse data
      endStream)

/-- The parser of the response phase; a null `response_parser_` is never used. -/
def theResponseParser (s : HttpSession G) : LlhttpResponseParser G.responseLlhttp :=
  s.responseParser.getD (.create _ _)

def readResponseBody (s : HttpSession G) : Bytes × HttpSession G :=
  ((s.theResponseParser.readBody bodyScratchSize).1,
    { s with responseParser := some (s.theResponseParser.readBody bodyScratchSize).2 })

def drainResponseBodyIntoSerializer (s : HttpSession G) : HttpSession G :=
  drainLoop readResponseBody (fun chunk endStream s => s.processResponseDataChunk chunk endStream)
    (fun s => s.theResponseParser.messageDone) (s.theResponseParser.scratch.length + 2) none s

def feedResponse (raw : Bytes) (s : HttpSession G) : ℕ × HttpSession G :=
  ((s.theResponseParser.feed raw).1,
    { s with responseParser := some (s.theResponseParser.feed raw).2 })

/-- `if (!response_filtered_ && response_parser_->header_done())`. Keep-alive is promised
downstream only when the client wants it and the response announces its length. -/
def filterResponseHead (s : HttpSession G) : Bool × HttpSession G :=
  if !s.responseFiltered && s.theResponseParser.headerDone then
    let head := s.theResponseParser.head
    let r := G.filterChain.applyResponse head s.filterCtx
    let s := { s with responseFiltered := true, filterCtx := r.2.2 }.emit
      (.filterResponse head r.1 r.2.1)
    match r.1 with
    | .respond response => (false,s.respondDirectly response.head response.body)
    | .continue_ =>
      let framed := hasHeader r.2.1.headers (ascii "Content-Length") ||
        hasChunkedEncoding r.2.1.headers
      let effective := s.downstreamWantsKeepAlive && framed
      let head' := { r.2.1 with
        headers := setHeader r.2.1.headers (ascii "Connection")
          (if effective then ascii "keep-alive" else ascii "close") }
      (true,{ s with downstreamKeepAliveEffective := effective }.startResponse head')
  else (true,s)

def drainResponse (s : HttpSession G) : Bool × HttpSession G :=
  if s.responseSerializerStarted then
    (!s.drainResponseBodyIntoSerializer.directResponseMode,s.drainResponseBodyIntoSerializer)
  else (true,s)

def responseStuck (s : HttpSession G) : Bool × HttpSession G :=
  if s.theResponseParser.hasError then (false,s.close) else (true,s)

def provideFinalResponseBody (s : HttpSession G) : HttpSession G :=
  if s.theResponseParser.messageDone && !s.responseFinalBodyProvided then
    { s with responseFinalBodyProvided := true }.provideResponse [] true
  else s

/-- What `process_upstream_chunk` does after its loop. -/
def continueResponse (s : HttpSession G) : HttpSession G :=
  if !s.responseSerializerStarted then s.readResponseChunk
  else s.provideFinalResponseBody.pullAndWriteResponseToDownstream

def processUpstreamChunk (s : HttpSession G) (raw : Bytes) : HttpSession G :=
  let r := relayLoop feedResponse filterResponseHead drainResponse responseStuck (raw.length + 1)
    raw s
  if r.1 then r.2.continueResponse else r.2

def onRequestRead (s : HttpSession G) (c : Completion) (a : Answers G) : HttpSession G :=
  if !c.ok then (s.emit .downstreamReadFailed).close
  else
    ({ s with readBuf := s.readBuf.map fun b : Buffer => b.write c.data }.emit
      (.downstreamRead c.data)).processDownstreamChunk c.data a

def onResponseRead (s : HttpSession G) (c : Completion) : HttpSession G :=
  if !c.ok then
    let s := s.emit .upstreamReadFailed
    if !s.upstreamResponseReadAny && s.upstreamWholeRequestCaptured && !s.upstreamRetryUsed then
      { s with upstreamRetryUsed := true }.retryUpstreamAfterReadFailure
    else s.close
  else
    ({ s with
      readBuf := s.readBuf.map fun b : Buffer => b.write c.data
      upstreamResponseReadAny := true }.emit (.upstreamRead c.data)).processUpstreamChunk c.data

def onResponseWritten (s : HttpSession G) (data : Bytes) (c : Completion) : HttpSession G :=
  if !c.ok then (s.emit (.downstreamWriteFailed data c.written)).close
  else
    ((s.emit (.downstreamWritten data c.written)).emit
      (.bytesUpstreamToDownstream c.written)).pullAndWriteResponseToDownstream

/-- `start`, with the buffers the pool hands out. -/
def start (ctx : G.Ctx) (readBuf writeBuf : Buffer) : HttpSession G :=
  readRequestChunk
    { filterCtx := ctx
      readBuf := some readBuf
      writeBuf := some writeBuf
      log := [.onAccept,.acquireBuffer readBuf.id,.acquireBuffer writeBuf.id] }

/-- Run the completion handler of one operation. -/
def handle (s : HttpSession G) (e : Event G) : HttpSession G :=
  match e.op with
  | .readRequest => s.onRequestRead e.completion e.answers
  | .connect => s.onConnected e.completion false
  | .writeRequest data => s.onRequestWritten data e.completion
  | .retryConnect n => s.onRetryConnected n e.completion
  | .retryWrite data => s.onRetryWritten data e.completion
  | .rereadConnect => s.onRereadConnected e.completion
  | .rereadWrite data => s.onRereadWritten data e.completion
  | .readResponse => s.onResponseRead e.completion
  | .writeResponse data => s.onResponseWritten data e.completion

/-- The event loop delivers the completion of a pending operation. -/
def deliver (s : HttpSession G) (e : Event G) : HttpSession G :=
  handle { s with
    pending := s.pending.erase e.op
    filterCtx := e.answers.touch s.filterCtx } e

end HttpSession
end PerCoreShard
