import PerCoreShard.Session.Accounts
import PerCoreShard.Session.Prompt
import PerCoreShard.Session.SerializerCalls

/-! The callbacks of the session with `pull_and_write_request_to_upstream` and
`pull_and_write_response_to_downstream` as parameters. What these two functions do for a
serializer that was not started, and on their branches marked as unreachable, makes no
difference to any run. -/
namespace PerCoreShard
open Library

/-- What is called where the source calls `pull_and_write_request_to_upstream` and
`pull_and_write_response_to_downstream`. -/
structure Pulls (G : Gateway) where
  request : HttpSession G → HttpSession G
  response : HttpSession G → HttpSession G

/-- The two functions of the source. -/
def Pulls.source (G : Gateway) : Pulls G :=
  ⟨HttpSession.pullAndWriteRequestToUpstream,HttpSession.pullAndWriteResponseToDownstream⟩

namespace HttpSession
variable {G : Gateway} (P : Pulls G)

def respondDirectlyWith (s : HttpSession G) (head : ResponseHead) (body : Bytes) : HttpSession G :=
  P.response ((({ s with directResponseMode := true }.emit (.respondDirectly head body)).startResponse
    head).provideResponse body true)

def onConnectedWith (s : HttpSession G) (c : Completion) (pooled : Bool) : HttpSession G :=
  match c.ok,c.socket with
  | true,some socket => P.request (s.takeUpstream socket pooled)
  | _,_ => (s.emit .upstreamConnectError).close

def connectUpstreamWith (s : HttpSession G) (a : Answers G) : HttpSession G :=
  let s := ({ s with endpointIndex := a.endpoint }.emit (.selectEndpoint a.endpoint)).emit
    (.acquireConnection a.endpoint)
  match a.pooled with
  | some socket => s.onConnectedWith P ⟨true,[],0,some socket⟩ true
  | none => s.await .connect

def processRequestDataChunkWith (s : HttpSession G) (chunk : Bytes) (endStream : Bool) :
    Bool × HttpSession G :=
  match (s.requestCall chunk endStream).result with
  | .reject head body => (false,(s.afterRequestGate chunk endStream).respondDirectlyWith P head body)
  | .stillBuffering => (true,s.afterRequestGate chunk endStream)
  | .forward data =>
    (true,{ s.afterRequestGate chunk endStream with
      requestFinalBodyProvided := endStream || s.requestFinalBodyProvided }.provideRequest data
      endStream)

def drainRequestWith (s : HttpSession G) : Bool × HttpSession G :=
  if s.requestSerializerStarted then
    let t := drainLoop readRequestBody
      (fun chunk endStream s => s.processRequestDataChunkWith P chunk endStream)
      (fun s => s.requestParser.messageDone) (s.requestParser.scratch.length + 2) none s
    (!t.directResponseMode,t)
  else (true,s)

def filterRequestHeadWith (s : HttpSession G) : Bool × HttpSession G :=
  if !s.requestFiltered && s.requestParser.headerDone then
    match s.requestFilterResult.1 with
    | .respond response =>
      (false,s.afterRequestFilter.respondDirectlyWith P response.head response.body)
    | .continue_ => (true,s.afterRequestFilter.forwardRequestHead s.requestFilterResult.2.1)
  else (true,s)

def continueRequestWith (s : HttpSession G) (a : Answers G) : HttpSession G :=
  if !s.requestSerializerStarted then s.readRequestChunk
  else
    let s := s.provideFinalRequestBody
    if !s.upstreamConnecting then { s with upstreamConnecting := true }.connectUpstreamWith P a
    else if s.upstream.isSome then P.request s
    else s

def processDownstreamChunkWith (s : HttpSession G) (raw : Bytes) (a : Answers G) : HttpSession G :=
  let r := relayLoop feedRequest (filterRequestHeadWith P) (drainRequestWith P) requestStuck
    (raw.length + 1) raw s
  if r.1 then r.2.continueRequestWith P a else r.2

def onRequestWrittenWith (s : HttpSession G) (data : Bytes) (c : Completion) : HttpSession G :=
  if !c.ok then
    let s := s.emit (.upstreamWriteFailed data c.written)
    if !s.upstreamWroteOnce && !s.upstreamRetryUsed then
      { s with upstreamRetryUsed := true }.retryUpstreamWriteOnce data.length
    else s.close
  else P.request ({ s with upstreamWroteOnce := true }.upstreamWritten data c)

def onRetryWrittenWith (s : HttpSession G) (data : Bytes) (c : Completion) : HttpSession G :=
  if !c.ok then (s.emit (.upstreamWriteFailed data c.written)).close
  else P.request ({ s with upstreamWroteOnce := true }.upstreamWritten data c)

def processResponseDataChunkWith (s : HttpSession G) (chunk : Bytes) (endStream : Bool) :
    Bool × HttpSession G :=
  match (s.responseCall chunk endStream).result with
  | .reject head body => (false,(s.afterResponseGate chunk endStream).respondDirectlyWith P head body)
  | .stillBuffering => (true,s.afterResponseGate chunk endStream)
  | .forward data =>
    (true,{ s.afterResponseGate chunk endStream with
      responseFinalBodyProvided := endStream || s.responseFinalBodyProvided }.provideResponse data
      endStream)

def drainResponseWith (s : HttpSession G) : Bool × HttpSession G :=
  if s.responseSerializerStarted then
    let t := drainLoop readResponseBody
      (fun chunk endStream s => s.processResponseDataChunkWith P chunk endStream)
      (fun s => s.theResponseParser.messageDone) (s.theResponseParser.scratch.length + 2) none s
    (!t.directResponseMode,t)
  else (true,s)

def filterResponseHeadWith (s : HttpSession G) : Bool × HttpSession G :=
  if !s.responseFiltered && s.theResponseParser.headerDone then
    match s.responseFilterResult.1 with
    | .respond response =>
      (false,s.afterResponseFilter.respondDirectlyWith P response.head response.body)
    | .continue_ => (true,s.afterResponseFilter.relayResponseHead s.responseFilterResult.2.1)
  else (true,s)

def continueResponseWith (s : HttpSession G) : HttpSession G :=
  if !s.responseSerializerStarted then s.readResponseChunk
  else P.response s.provideFinalResponseBody

def processUpstreamChunkWith (s : HttpSession G) (raw : Bytes) : HttpSession G :=
  let r := relayLoop feedResponse (filterResponseHeadWith P) (drainResponseWith P) responseStuck
    (raw.length + 1) raw s
  if r.1 then r.2.continueResponseWith P else r.2

def onRequestReadWith (s : HttpSession G) (c : Completion) (a : Answers G) : HttpSession G :=
  if !c.ok then (s.emit .downstreamReadFailed).close
  else (s.noteRequestRead c.data).processDownstreamChunkWith P c.data a

def onResponseReadWith (s : HttpSession G) (c : Completion) : HttpSession G :=
  if !c.ok then
    let s := s.emit .upstreamReadFailed
    if !s.upstreamResponseReadAny && s.upstreamWholeRequestCaptured && !s.upstreamRetryUsed then
      { s with upstreamRetryUsed := true }.retryUpstreamAfterReadFailure
    else s.close
  else (s.noteResponseRead c.data).processUpstreamChunkWith P c.data

def onResponseWrittenWith (s : HttpSession G) (data : Bytes) (c : Completion) : HttpSession G :=
  if !c.ok then (s.emit (.downstreamWriteFailed data c.written)).close
  else
    P.response ((s.emit (.downstreamWritten data c.written)).emit
      (.bytesUpstreamToDownstream c.written))

/-- The handlers that connect for a retry, and the one of the write after a failed read, do not
pull. -/
def handleWith (s : HttpSession G) (e : Event G) : HttpSession G :=
  match e.op with
  | .readRequest => s.onRequestReadWith P e.completion e.answers
  | .connect => s.onConnectedWith P e.completion false
  | .writeRequest data => s.onRequestWrittenWith P data e.completion
  | .retryConnect n => s.onRetryConnected n e.completion
  | .retryWrite data => s.onRetryWrittenWith P data e.completion
  | .rereadConnect => s.onRereadConnected e.completion
  | .rereadWrite data => s.onRereadWritten data e.completion
  | .readResponse => s.onResponseReadWith P e.completion
  | .writeResponse data => s.onResponseWrittenWith P data e.completion

def deliverWith (s : HttpSession G) (e : Event G) : HttpSession G :=
  handleWith P { s with
    pending := s.pending.erase e.op
    filterCtx := e.answers.touch s.filterCtx } e

/-- With the functions of the source these are the callbacks of the source. -/
theorem deliverWith_source (s : HttpSession G) (e : Event G) :
    s.deliverWith (.source G) e = s.deliver e := rfl

/-- The pull returned 0, and the serializer waits for a body that is already complete. -/
def requestStranded (s : HttpSession G) : Bool :=
  (s.requestSerializer.pull s.writeBufSize).1.isEmpty &&
    !(s.requestSerializer.pull s.writeBufSize).2.done && s.requestParser.messageDone

/-- The pull returned 0, and the serializer waits for a body that is complete or is the session's
own. -/
def responseStranded (s : HttpSession G) : Bool :=
  (s.responseSerializer.pull s.writeBufSize).1.isEmpty &&
    !(s.responseSerializer.pull s.writeBufSize).2.done &&
    !(!s.directResponseMode && s.responseIncomplete)

end HttpSession

/-- The functions of the source, except where the serializer was not started or the branch
marked as unreachable would be taken. -/
def Pulls.guarded {G : Gateway} (P : Pulls G) : Pulls G where
  request s := if .start ∈ serializerCalls true s.log ∧ s.requestStranded = false then
    s.pullAndWriteRequestToUpstream else P.request s
  response s := if .start ∈ serializerCalls false s.log ∧ s.responseStranded = false then
    s.pullAndWriteResponseToDownstream else P.response s

namespace HttpSession
variable {G : Gateway} (P : Pulls G)

theorem stranded_of_pull {z : Serializer} {size : ℕ} (hz : z.Coherent) (hsize : 0 < size)
    (hl : z.isLastProvided = true) :
    ((z.pull size).1.isEmpty && !(z.pull size).2.done) = false := by
  cases hempty : (z.pull size).1.isEmpty with
  | false => rfl
  | true =>
    have hout := (hz.pull size).out
    rw [List.isEmpty_iff.mp hempty,Eq.comm,List.take_eq_nil_iff] at hout
    simp [hz.done_of_nothing_left hsize (hout.resolve_left (by omega)) hl]

/-- A request whose serializer has all that was read of it. -/
theorem guarded_request {s : HttpSession G} {c : Cycle} (h : Live s c [])
    (ha : Agrees s.requestDirection c.request [] []) (hh : c.request.head.isSome = true)
    (hf : (c.request.parse G.requestLlhttp).messageDone = true → final c.request.provided = true)
    (hsize : 0 < s.writeBufSize) :
    P.guarded.request s = s.pullAndWriteRequestToUpstream := by
  refine if_pos ⟨?_,?_⟩
  · rw [serializerCalls_request h.sound.rules,h.log]
    exact List.mem_of_mem_head? (Ledger.started_of_head hh)
  · cases hm : s.requestParser.messageDone with
    | false => simp [requestStranded,hm]
    | true =>
      have hlast := ha.lastProvided.trans (hf (ha.messageDone.symm.trans hm))
      have hstranded := stranded_of_pull (ha.coherent hh) hsize hlast
      unfold requestStranded
      rw [show s.requestSerializer = s.requestDirection.serializer from rfl,hstranded]
      rfl

theorem guarded_response {s : HttpSession G} {c : Cycle} (h : ProvidedResponse s c)
    (hsize : 0 < s.writeBufSize) :
    P.guarded.response s = s.pullAndWriteResponseToDownstream := by
  have ha := h.answering.response.agrees
  refine if_pos ⟨?_,?_⟩
  · rw [serializerCalls_response h.live.sound.rules,h.live.log,
      renewed_of_not_direct h.answering.request.notDirect]
    exact List.mem_of_mem_head? (Ledger.started_of_head h.head)
  · unfold responseStranded
    rw [h.answering.response.incomplete,h.answering.request.direct]
    cases hm : (c.response.parse G.responseLlhttp).messageDone with
    | false => simp
    | true =>
      have hlast := ha.lastProvided.trans (h.complete hm)
      have hstranded := stranded_of_pull (ha.coherent h.head) hsize hlast
      rw [show s.responseSerializer = s.responseDirection.serializer from rfl,hstranded]
      rfl

/-- A response of the session itself that is being written. -/
theorem guarded_replying {s : HttpSession G} {c : Cycle} (h : Live s c []) (hr : Replying s c [])
    (hsize : 0 < s.writeBufSize) :
    P.guarded.response s = s.pullAndWriteResponseToDownstream := by
  have hstarted : c.response.head.isSome = true := by
    rw [← h.log]
    exact head_of_replying h.sound.rules (h.log ▸ hr.isReplying)
  refine if_pos ⟨?_,?_⟩
  · rw [serializerCalls_response h.sound.rules,h.log]
    simp only [Cycle.renewed,hr.isReplying,Bool.not_true,Bool.and_false,Bool.false_eq_true,if_false]
    exact List.mem_of_mem_head? (Ledger.started_of_head hstarted)
  · unfold responseStranded
    rw [stranded_of_pull hr.coherent hsize hr.complete]
    rfl

/-- The start of a response of the session itself, in whatever state it is. -/
theorem guarded_respondDirectly {s : HttpSession G} (hsize : 0 < s.writeBufSize)
    (head : ResponseHead) (body : Bytes) :
    s.respondDirectlyWith P.guarded head body = s.respondDirectly head body := by
  refine if_pos ⟨?_,?_⟩
  · simp [startResponse,provideResponse,emit,serializerCalls,Effect.newSerializer,
      Effect.serializerCall]
  · have hz : ((Serializer.start head.bytes head.headers).provideBody body true).Coherent :=
      (Serializer.coherent_start head.headers (Serializer.response_bytes_ne_nil head)).provideBody
        rfl body true
    unfold responseStranded
    exact (congrArg (· && _) (stranded_of_pull hz (by exact hsize) rfl)).trans rfl

/-- A session that processes a read, with room in its write buffer. -/
def RoomToWrite (s : HttpSession G) : Prop := s.directResponseMode = false ∧ 0 < s.writeBufSize

theorem sameOn_processRequestDataChunk (chunk : Bytes) (endStream : Bool) :
    SameOn RoomToWrite (fun s : HttpSession G => s.processRequestDataChunk chunk endStream)
      (fun s => s.processRequestDataChunkWith P.guarded chunk endStream) := by
  intro s hs
  dsimp only
  rw [processRequestDataChunk_eq]
  unfold processRequestDataChunkWith
  cases (s.requestCall chunk endStream).result with
  | reject head body =>
    have hsize : 0 < (s.afterRequestGate chunk endStream).writeBufSize := hs.2
    simp only [guarded_respondDirectly P hsize head body,Bool.false_eq_true,false_implies,and_self]
  | stillBuffering => exact ⟨rfl,fun _ => hs⟩
  | forward data => exact ⟨rfl,fun _ => hs⟩

theorem rejects_processRequestDataChunk (chunk : Bytes) (endStream : Bool) (s : HttpSession G)
    (hs : RoomToWrite s) : Outcome RoomToWrite (fun t => t.directResponseMode = true)
      (s.processRequestDataChunk chunk endStream) := by
  rw [processRequestDataChunk_eq]
  cases (s.requestCall chunk endStream).result with
  | reject head body => exact direct_respondDirectly _ _ _
  | stillBuffering => exact hs
  | forward data => exact hs

theorem sameOn_drainRequest :
    SameOn RoomToWrite (drainRequest (G := G)) (drainRequestWith P.guarded) := by
  intro s hs
  unfold drainRequest drainRequestWith
  split
  · have hread : ∀ t : HttpSession G, RoomToWrite t → RoomToWrite t.readRequestBody.2 :=
      fun _ ht => ht
    rw [drainLoop_congr readRequestBody _ _ hread (sameOn_processRequestDataChunk P) _ _ s hs]
    refine ⟨rfl,fun hgo => ?_⟩
    rcases drainLoop_outcome readRequestBody
      (fun chunk endStream s => s.processRequestDataChunk chunk endStream)
      (fun s => s.requestParser.messageDone) hread rejects_processRequestDataChunk
      (s.requestParser.scratch.length + 2) none s hs with h | h
    · exact h
    · rw [drainRequestBodyIntoSerializer,h] at hgo
      cases hgo
  · exact ⟨rfl,fun _ => hs⟩

theorem sameOn_filterRequestHead :
    SameOn RoomToWrite (filterRequestHead (G := G)) (filterRequestHeadWith P.guarded) := by
  intro s hs
  rw [filterRequestHead_eq]
  unfold filterRequestHeadWith
  split
  · cases s.requestFilterResult.1 with
    | respond response =>
      have hsize : 0 < s.afterRequestFilter.writeBufSize := hs.2
      simp only [guarded_respondDirectly P hsize,Bool.false_eq_true,false_implies,and_self]
    | continue_ => exact ⟨rfl,fun _ => hs⟩
  · exact ⟨rfl,fun _ => hs⟩

theorem room_feedRequest (raw : Bytes) (s : HttpSession G) (hs : RoomToWrite s) :
    RoomToWrite (s.feedRequest raw).2 := by
  unfold feedRequest
  dsimp only
  split <;> exact hs

theorem room_requestStuck (s : HttpSession G) (hs : RoomToWrite s) :
    Outcome RoomToWrite (fun _ => True) s.requestStuck := by
  unfold requestStuck
  split
  · trivial
  · exact hs

theorem relayRequestWith_guarded {s : HttpSession G} (hs : RoomToWrite s) (fuel : ℕ) (raw : Bytes) :
    relayLoop feedRequest (filterRequestHeadWith P.guarded) (drainRequestWith P.guarded)
        requestStuck fuel raw s =
      relayLoop feedRequest filterRequestHead drainRequest requestStuck fuel raw s :=
  relayLoop_congr room_feedRequest (sameOn_filterRequestHead P) (sameOn_drainRequest P) fuel raw s hs

theorem onConnectedWith_guarded {s : HttpSession G} {c : Cycle} (h : Acquiring s c)
    (hsize : 0 < s.writeBufSize) (comp : Completion) (pooled : Bool) :
    s.onConnectedWith P.guarded comp pooled = s.onConnected comp pooled := by
  obtain ⟨ok,data,written,socket⟩ := comp
  match ok,socket with
  | true,some socket =>
    have hlive := h.live.takeUpstream h.unsent socket pooled h.sending.chosen (fun _ => h.retries)
      h.sending.notRefused
    have hsending := h.sending.takeUpstream socket pooled
    have hsize' : 0 < (s.takeUpstream socket pooled).writeBufSize := by
      rw [takeUpstream_spec]
      exact hsize
    exact guarded_request P hlive hsending.agrees hsending.head hsending.complete hsize'
  | true,none | false,_ => rfl

theorem continueRequestWith_guarded {s : HttpSession G} {c : Cycle} (h : RelayedRequest s c)
    (hsize : 0 < s.writeBufSize) (a : Answers G) :
    s.continueRequestWith P.guarded a = s.continueRequest a := by
  unfold continueRequestWith continueRequest
  cases hs : s.requestSerializerStarted with
  | false => rfl
  | true =>
    obtain ⟨c',h'⟩ := h.live.provideFinalRequestBody h.reading h.receiving h.unseen h.turned hs
    have hsize' : 0 < s.provideFinalRequestBody.writeBufSize := by
      unfold provideFinalRequestBody
      split <;> exact hsize
    generalize s.provideFinalRequestBody = t at h' hsize'
    simp only [Bool.not_true,Bool.false_eq_true,if_false]
    cases hc : t.upstreamConnecting with
    | false =>
      obtain ⟨c'',hacquiring⟩ := h'.live.acquireConnection h'.receiving h'.head h'.unseen h'.drained
        h'.complete hc a
      simp only [Bool.not_false,if_true]
      obtain ⟨endpoint,pooled,touch⟩ := a
      cases pooled with
      | none => rfl
      | some socket => exact onConnectedWith_guarded P hacquiring hsize' ⟨true,[],0,some socket⟩ true
    | true =>
      simp only [Bool.not_true,Bool.false_eq_true,if_false]
      rw [guarded_request P h'.live h'.receiving.agrees h'.head h'.complete hsize']

theorem onRequestReadWith_guarded {s : HttpSession G} {c : Cycle} (h : Live s c [])
    (hw : Waits s c .readRequest) (hs : RoomToWrite s) (comp : Completion) (a : Answers G) :
    s.onRequestReadWith P.guarded comp a = s.onRequestRead comp a := by
  obtain ⟨hr,he,hdr,hm,hh⟩ := hw
  have hroom : RoomToWrite (s.noteRequestRead comp.data) := hs
  have hkept := relayLoop_outcome room_feedRequest
    (fun t ht => (sameOn_filterRequestHead P).outcome ht)
    (fun t ht => (sameOn_drainRequest P).outcome ht) room_requestStuck
    (comp.data.length + 1) comp.data _ hroom
  have hloop := h.relayRequest hr he hdr hm hh comp.data
  unfold onRequestReadWith onRequestRead processDownstreamChunkWith processDownstreamChunk
  dsimp only
  split
  · rfl
  · rw [relayRequestWith_guarded P hroom]
    change _ = if (relayLoop _ _ _ _ _ _ (s.noteRequestRead comp.data)).1 = true then _ else _
    split
    next hgo =>
      obtain ⟨c',h'⟩ := hloop.resume (by simp [hgo])
      exact continueRequestWith_guarded P h' (hkept.resume (by simp [hgo])).2 a
    · rfl

theorem sameOn_processResponseDataChunk (chunk : Bytes) (endStream : Bool) :
    SameOn RoomToWrite (fun s : HttpSession G => s.processResponseDataChunk chunk endStream)
      (fun s => s.processResponseDataChunkWith P.guarded chunk endStream) := by
  intro s hs
  dsimp only
  rw [processResponseDataChunk_eq]
  unfold processResponseDataChunkWith
  cases (s.responseCall chunk endStream).result with
  | reject head body =>
    have hsize : 0 < (s.afterResponseGate chunk endStream).writeBufSize := hs.2
    simp only [guarded_respondDirectly P hsize head body,Bool.false_eq_true,false_implies,and_self]
  | stillBuffering => exact ⟨rfl,fun _ => hs⟩
  | forward data => exact ⟨rfl,fun _ => hs⟩

theorem rejects_processResponseDataChunk (chunk : Bytes) (endStream : Bool) (s : HttpSession G)
    (hs : RoomToWrite s) : Outcome RoomToWrite (fun t => t.directResponseMode = true)
      (s.processResponseDataChunk chunk endStream) := by
  rw [processResponseDataChunk_eq]
  cases (s.responseCall chunk endStream).result with
  | reject head body => exact direct_respondDirectly _ _ _
  | stillBuffering => exact hs
  | forward data => exact hs

theorem sameOn_drainResponse :
    SameOn RoomToWrite (drainResponse (G := G)) (drainResponseWith P.guarded) := by
  intro s hs
  unfold drainResponse drainResponseWith
  split
  · have hread : ∀ t : HttpSession G, RoomToWrite t → RoomToWrite t.readResponseBody.2 :=
      fun _ ht => ht
    rw [drainLoop_congr readResponseBody _ _ hread (sameOn_processResponseDataChunk P) _ _ s hs]
    refine ⟨rfl,fun hgo => ?_⟩
    rcases drainLoop_outcome readResponseBody
      (fun chunk endStream s => s.processResponseDataChunk chunk endStream)
      (fun s => s.theResponseParser.messageDone) hread rejects_processResponseDataChunk
      (s.theResponseParser.scratch.length + 2) none s hs with h | h
    · exact h
    · rw [drainResponseBodyIntoSerializer,h] at hgo
      cases hgo
  · exact ⟨rfl,fun _ => hs⟩

theorem sameOn_filterResponseHead :
    SameOn RoomToWrite (filterResponseHead (G := G)) (filterResponseHeadWith P.guarded) := by
  intro s hs
  rw [filterResponseHead_eq]
  unfold filterResponseHeadWith
  split
  · cases s.responseFilterResult.1 with
    | respond response =>
      have hsize : 0 < s.afterResponseFilter.writeBufSize := hs.2
      simp only [guarded_respondDirectly P hsize,Bool.false_eq_true,false_implies,and_self]
    | continue_ => exact ⟨rfl,fun _ => hs⟩
  · exact ⟨rfl,fun _ => hs⟩

theorem room_feedResponse (raw : Bytes) (s : HttpSession G) (hs : RoomToWrite s) :
    RoomToWrite (s.feedResponse raw).2 := hs

theorem room_responseStuck (s : HttpSession G) (hs : RoomToWrite s) :
    Outcome RoomToWrite (fun _ => True) s.responseStuck := by
  unfold responseStuck
  split
  · trivial
  · exact hs

theorem continueResponseWith_guarded {s : HttpSession G} {c : Cycle} (h : RelayedResponse s c)
    (hsize : 0 < s.writeBufSize) : s.continueResponseWith P.guarded = s.continueResponse := by
  unfold continueResponseWith continueResponse
  cases hs : s.responseSerializerStarted with
  | false => rfl
  | true =>
    obtain ⟨c',h'⟩ := h.live.provideFinalResponseBody h.answering h.turned hs
    have hsize' : 0 < s.provideFinalResponseBody.writeBufSize := by
      unfold provideFinalResponseBody
      split <;> exact hsize
    exact guarded_response P h' hsize'

theorem onResponseReadWith_guarded {s : HttpSession G} {c : Cycle} (h : Live s c [])
    (hw : Waits s c .readResponse) (hs : RoomToWrite s) (comp : Completion) :
    s.onResponseReadWith P.guarded comp = s.onResponseRead comp := by
  obtain ⟨ha,hdr,hm,hh⟩ := hw
  have hroom : RoomToWrite (s.noteResponseRead comp.data) := hs
  have hkept := relayLoop_outcome room_feedResponse
    (fun t ht => (sameOn_filterResponseHead P).outcome ht)
    (fun t ht => (sameOn_drainResponse P).outcome ht) room_responseStuck
    (comp.data.length + 1) comp.data _ hroom
  have hloop := h.relayResponse ha hdr hm hh comp.data
  unfold onResponseReadWith onResponseRead processUpstreamChunkWith processUpstreamChunk
  dsimp only
  split
  · rfl
  · rw [relayLoop_congr room_feedResponse (sameOn_filterResponseHead P) (sameOn_drainResponse P)
      _ _ _ hroom]
    change _ = if (relayLoop _ _ _ _ _ _ (s.noteResponseRead comp.data)).1 = true then _ else _
    split
    next hgo =>
      obtain ⟨c',h'⟩ := hloop.resume (by simp [hgo])
      exact continueResponseWith_guarded P h' (hkept.resume (by simp [hgo])).2
    · rfl

theorem guarded_upstreamWritten {s : HttpSession G} {c : Cycle} {data : Bytes} (h : Live s c [])
    (hs : Sending s c data) (hsize : 0 < s.writeBufSize) (comp : Completion) :
    P.guarded.request ({ s with upstreamWroteOnce := true }.upstreamWritten data comp) =
      ({ s with upstreamWroteOnce := true }.upstreamWritten data comp).pullAndWriteRequestToUpstream :=
  have hs' := hs.upstreamWritten comp
  guarded_request P (h.upstreamWritten hs comp) hs'.agrees hs'.head hs'.complete (by exact hsize)

theorem onResponseWrittenWith_guarded {s : HttpSession G} {c : Cycle} {data : Bytes}
    (h : Live s c []) (hw : Waits s c (.writeResponse data)) (hsize : 0 < s.writeBufSize)
    (comp : Completion) :
    s.onResponseWrittenWith P.guarded data comp = s.onResponseWritten data comp := by
  unfold onResponseWrittenWith onResponseWritten
  split
  · rfl
  · obtain ⟨c',h',hr | hp⟩ := h.responseWritten hw comp
    · exact guarded_replying P h' hr (by exact hsize)
    · exact guarded_response P hp (by exact hsize)

/-- One callback, from whatever state a run has reached. -/
theorem deliverWith_guarded {s : HttpSession G} {e : Event G} (hs : Suspended s)
    (he : e.op ∈ s.pending) (hsize : 0 < s.writeBufSize) :
    s.deliverWith P.guarded e = s.deliver e := by
  cases hs with
  | closed _ _ hidle => simp [hidle] at he
  | waiting op c live waits =>
    rw [live.pending,List.mem_singleton] at he
    have hl : Live { s with
        pending := s.pending.erase e.op, filterCtx := e.answers.touch s.filterCtx } c [] :=
      { live with
        sound := ⟨live.sound.rules,live.sound.past⟩
        pending := by simp [live.pending,he] }
    have hw := waits.frame (s.pending.erase e.op) (e.answers.touch s.filterCtx)
    have hsize' : 0 < ({ s with
      pending := s.pending.erase e.op
      filterCtx := e.answers.touch s.filterCtx } : HttpSession G).writeBufSize := hsize
    unfold deliverWith deliver handleWith handle
    rw [he]
    rw [he] at hl hw hsize'
    cases op with
    | readRequest => exact onRequestReadWith_guarded P hl hw ⟨hw.1.direct,hsize'⟩ _ _
    | connect =>
      exact onConnectedWith_guarded P ⟨hl,hw.1,hw.2.1,hw.2.2.1,hw.2.2.2⟩ hsize' _ _
    | writeRequest data =>
      dsimp only
      unfold onRequestWrittenWith onRequestWritten
      rw [guarded_upstreamWritten P hl hw.1 hsize']
    | retryConnect n => rfl
    | retryWrite data =>
      dsimp only
      unfold onRetryWrittenWith onRetryWritten
      rw [guarded_upstreamWritten P hl hw.1 hsize']
    | rereadConnect => rfl
    | rereadWrite data => rfl
    | readResponse => exact onResponseReadWith_guarded P hl hw ⟨hw.1.request.direct,hsize'⟩ _
    | writeResponse data => exact onResponseWrittenWith_guarded P hl hw hsize' _

/-- The serializers are used as they are to be: every call follows their contract, and what
the session would do on a pull from a serializer that was not started, or on a branch marked as
unreachable, makes no difference to it. -/
structure ObeysContract (s : HttpSession G) : Prop where
  calls : ∀ log ∈ s.cycles, ∀ isRequest, FollowsContract isRequest log
  pulls : ∀ (P : Pulls G) (e : Event G), e.op ∈ s.pending →
    s.deliverWith P.guarded e = s.deliver e

theorem obeys_contract (hsize : 0 < G.bufferSize) {s : HttpSession G}
    (h : (system G).Reaches s) : ObeysContract s where
  calls log hlog isRequest := by
    cases isRequest with
    | true => exact followsContract_request (conforms_of_reaches h hlog)
    | false => exact followsContract_response (conforms_of_reaches h hlog)
  pulls P e he := by
    have hs := suspended_of_reaches h
    refine deliverWith_guarded P hs he ?_
    rw [writeBufSize_of_reaches h (hs.isOpen he)]
    exact hsize

/-- A request and its response are on their way. -/
theorem obeys_contract_sample : ObeysContract (strictRun [] 128
    [.read (ascii "GET / HTTP/1.1\r\n\r\n"),.connected 7,.wrote 42,
      .read (ascii "HTTP/1.1 200 OK\r\nContent-Length: 2\r\n\r\nok")]) :=
  obeys_contract (by decide) (reaches_strictRun (by decide +kernel))

end HttpSession
end PerCoreShard
