import PerCoreShard.Session.Alike

/-! Requests on one connection do not influence each other: two sessions that are about to
read a request, whatever they have been through before, do the same from then on when they
are told the same. -/
namespace PerCoreShard
open Library

namespace HttpSession
variable {G : Gateway} {past past' : List Effect} {taken : Bool} {s t : HttpSession G}

/-- Two sessions that are alike and in the middle of processing a read. -/
structure Together (past past' : List Effect) (taken : Bool) (s t : HttpSession G) : Prop
    extends Alike past past' taken s t where
  idle : s.pending = []
  direct : s.directResponseMode = false
  connecting : taken = false → s.upstreamConnecting = false

namespace Together

theorem step (h : Together past past' taken s t) {s' t' : HttpSession G}
    (h' : Alike past past' taken s' t') (hp : s'.pending = s.pending)
    (hd : s'.directResponseMode = s.directResponseMode)
    (hc : s'.upstreamConnecting = s.upstreamConnecting) : Together past past' taken s' t' :=
  ⟨h',hp.trans h.idle,hd.trans h.direct,fun ht => hc.trans (h.connecting ht)⟩

theorem feedRequest (raw : Bytes) (h : Together past past' taken s t) :
    (s.feedRequest raw).1 = (t.feedRequest raw).1 ∧
      Together past past' taken (s.feedRequest raw).2 (t.feedRequest raw).2 := by
  have hfed := h.map (fun u => { u with requestParser := (u.requestParser.feed raw).2 })
    fun _ => ⟨rfl,rfl,rfl⟩
  have hn := h.same (fun u => (u.requestParser.feed raw).1) fun _ => rfl
  refine ⟨hn,?_⟩
  unfold HttpSession.feedRequest
  dsimp only
  rw [← h.same (fun u => (u.requestParser.feed raw).2.hasError && !u.requestParser.hasError)
    fun _ => rfl,← hn]
  split
  · exact h.step (hfed.emit rfl) rfl rfl rfl
  · exact h.step hfed rfl rfl rfl

theorem afterRequestGate (h : Together past past' taken s t) (chunk : Bytes) (endStream : Bool) :
    Together past past' taken (s.afterRequestGate chunk endStream)
      (t.afterRequestGate chunk endStream) := by
  have hgate := h.map (fun u => { u with
    bodyFilterGate := (u.bodyFilterGate.applyRequest G.filterChain G.bodyBufferHighWatermarkBytes
      chunk endStream u.filterCtx).2.1
    filterCtx := (u.bodyFilterGate.applyRequest G.filterChain G.bodyBufferHighWatermarkBytes
      chunk endStream u.filterCtx).2.2 }) fun _ => ⟨rfl,rfl,rfl⟩
  exact h.step (h.note hgate (fun u => .gateRequest (u.requestCall chunk endStream)) rfl
    fun _ => rfl) rfl rfl rfl

theorem processRequestDataChunk (chunk : Bytes) (endStream : Bool)
    (h : Together past past' taken s t) :
    Twin (Together past past' taken)
      (fun s t => Parallel past past' s t ∧ s.directResponseMode = true)
      (s.processRequestDataChunk chunk endStream) (t.processRequestDataChunk chunk endStream) := by
  have hgate := h.afterRequestGate chunk endStream
  rw [processRequestDataChunk_eq,processRequestDataChunk_eq,
    ← h.same (fun u => (u.requestCall chunk endStream).result) fun _ => rfl]
  split
  · exact .returning ⟨hgate.parallel_respondDirectly hgate.idle _ _,direct_respondDirectly _ _ _⟩
  · exact .going hgate
  next data _ =>
    have hfinal := hgate.map (fun u => { u with
      requestFinalBodyProvided := endStream || u.requestFinalBodyProvided }) fun _ => ⟨rfl,rfl,rfl⟩
    exact .going (hgate.step (hfinal.provideRequest data endStream) rfl rfl rfl)

/-- The two drains of a direction, given how one piece is processed. -/
theorem drained {d : HttpSession G → HttpSession G} (h : Together past past' taken (d s) (d t) ∨
      (Parallel past past' (d s) (d t) ∧ (d s).directResponseMode = true)) :
    Twin (Together past past' taken) (Parallel past past') (!(d s).directResponseMode,d s)
      (!(d t).directResponseMode,d t) := by
  rcases h with h | ⟨h,hd⟩
  · have hd' := (h.same (fun u => u.directResponseMode) fun _ => rfl).symm.trans h.direct
    rw [h.direct,hd']
    exact .going h
  · obtain ⟨_,ha,-⟩ := id h
    have hd' := (ha.same (fun u => u.directResponseMode) fun _ => rfl).symm.trans hd
    rw [hd,hd']
    exact .returning h

theorem drainRequest (h : Together past past' taken s t) :
    Twin (Together past past' taken) (Parallel past past') s.drainRequest t.drainRequest := by
  unfold HttpSession.drainRequest
  rw [← h.same (fun u => u.requestSerializerStarted) fun _ => rfl]
  split
  · refine drained (d := drainRequestBodyIntoSerializer) ?_
    unfold drainRequestBodyIntoSerializer
    rw [← h.same (fun u => u.requestParser.scratch.length + 2) fun _ => rfl]
    refine drainLoop_twin _ _ _ (fun s t h => ⟨?_,?_⟩) (fun s t h => ?_)
      (fun chunk endStream s t h => h.processRequestDataChunk chunk endStream) _ _ _ _ h
    · exact h.same (fun u => (u.requestParser.readBody bodyScratchSize).1) fun _ => rfl
    · exact h.step (h.map (fun u => { u with
        requestParser := (u.requestParser.readBody bodyScratchSize).2 }) fun _ => ⟨rfl,rfl,rfl⟩) rfl rfl rfl
    · exact h.same (fun u => u.requestParser.messageDone) fun _ => rfl
  · exact .going h

theorem filterRequestHead (h : Together past past' taken s t) :
    Twin (Together past past' taken) (Parallel past past') s.filterRequestHead
      t.filterRequestHead := by
  rw [filterRequestHead_eq,filterRequestHead_eq,
    ← h.same (fun u => !u.requestFiltered && u.requestParser.headerDone) fun _ => rfl,
    ← h.same (fun u => u.requestFilterResult.1) fun _ => rfl,
    ← h.same (fun u => u.requestFilterResult.2.1) fun _ => rfl]
  split
  · have hnoted := (h.map (fun u => { u with
      requestFiltered := true
      downstreamWantsKeepAlive := u.requestParser.shouldKeepAlive
      filterCtx := u.requestFilterResult.2.2 }) fun _ => ⟨rfl,rfl,rfl⟩).emit (e := .requestHandled) rfl
    have hfiltered : Together past past' taken s.afterRequestFilter t.afterRequestFilter :=
      h.step (h.note hnoted (fun u => .filterRequest u.requestParser.head u.requestFilterResult.1
        u.requestFilterResult.2.1) rfl fun _ => rfl) rfl rfl rfl
    split
    · exact .returning (hfiltered.parallel_respondDirectly hfiltered.idle _ _)
    · have hforward := (hfiltered.map (fun u => { u with
        requestSerializer := .startRequest (Cycle.forwardedHead s.requestFilterResult.2.1)
        requestSerializerStarted := true }) fun _ => ⟨rfl,rfl,rfl⟩).emit
        (e := .startRequest (Cycle.forwardedHead s.requestFilterResult.2.1)) rfl
      exact .going (hfiltered.step hforward rfl rfl rfl)
  · exact .going h

theorem requestStuck (h : Together past past' taken s t) :
    Twin (Together past past' taken) (Parallel past past') s.requestStuck t.requestStuck := by
  unfold HttpSession.requestStuck
  rw [← h.same (fun u => u.requestParser.hasError) fun _ => rfl]
  split
  · exact .returning (h.parallel_close h.idle)
  · exact .going h

theorem provideFinalRequestBody (h : Together past past' taken s t) :
    Together past past' taken s.provideFinalRequestBody t.provideFinalRequestBody := by
  unfold HttpSession.provideFinalRequestBody
  rw [← h.same (fun u => u.requestParser.messageDone && !u.requestFinalBodyProvided) fun _ => rfl]
  split
  · have hfinal := h.map (fun u => { u with requestFinalBodyProvided := true }) fun _ => ⟨rfl,rfl,rfl⟩
    exact h.step (hfinal.provideRequest [] true) rfl rfl rfl
  · exact h

theorem continueRequest (h : Together past past' taken s t) (a : Answers G) :
    Parallel past past' (s.continueRequest a) (t.continueRequest a) := by
  have hfinal := h.provideFinalRequestBody
  unfold HttpSession.continueRequest
  dsimp only
  rw [← h.same (fun u => !u.requestSerializerStarted) fun _ => rfl,
    ← hfinal.same (fun u => !u.upstreamConnecting) fun _ => rfl]
  split
  · exact h.parallel_readRequestChunk h.idle h.connecting
  · split
    · have hconnecting := hfinal.map (fun u => { u with upstreamConnecting := true })
        fun _ => ⟨rfl,rfl,rfl⟩
      exact hconnecting.parallel_connectUpstream hfinal.idle a
    next hc =>
      -- a connection was acquired, and then the sessions agree in it
      cases taken with
      | false => simp [hfinal.connecting rfl] at hc
      | true =>
        rw [← (hfinal.late rfl).1]
        split
        · exact hfinal.parallel_pullAndWriteRequest hfinal.idle
        · exact hfinal.parallel hfinal.idle

theorem processDownstreamChunk (h : Together past past' taken s t) (raw : Bytes) (a : Answers G) :
    Parallel past past' (s.processDownstreamChunk raw a) (t.processDownstreamChunk raw a) := by
  have hloop := relayLoop_twin (fun raw s t h => h.feedRequest raw)
    (fun s t h => h.filterRequestHead) (fun s t h => h.drainRequest) (fun s t h => h.requestStuck)
    (raw.length + 1) raw s t h
  unfold HttpSession.processDownstreamChunk
  dsimp only
  rw [← hloop.1]
  split
  next hgo => exact (hloop.resume (by simp [hgo])).continueRequest a
  next hgo => exact hloop.ended hgo

theorem feedResponse (raw : Bytes) (h : Together past past' true s t) :
    (s.feedResponse raw).1 = (t.feedResponse raw).1 ∧
      Together past past' true (s.feedResponse raw).2 (t.feedResponse raw).2 :=
  ⟨h.same (fun u => (u.theResponseParser.feed raw).1) fun _ => rfl,h.step (h.mapLate (fun u => { u with
    responseParser := some (u.theResponseParser.feed raw).2 }) fun _ => ⟨rfl,rfl⟩) rfl rfl rfl⟩

theorem afterResponseGate (h : Together past past' taken s t) (chunk : Bytes) (endStream : Bool) :
    Together past past' taken (s.afterResponseGate chunk endStream)
      (t.afterResponseGate chunk endStream) := by
  have hgate := h.map (fun u => { u with
    bodyFilterGate := (u.bodyFilterGate.applyResponse G.filterChain G.bodyBufferHighWatermarkBytes
      chunk endStream u.filterCtx).2.1
    filterCtx := (u.bodyFilterGate.applyResponse G.filterChain G.bodyBufferHighWatermarkBytes
      chunk endStream u.filterCtx).2.2 }) fun _ => ⟨rfl,rfl,rfl⟩
  exact h.step (h.note hgate (fun u => .gateResponse (u.responseCall chunk endStream)) rfl
    fun _ => rfl) rfl rfl rfl

theorem processResponseDataChunk (chunk : Bytes) (endStream : Bool)
    (h : Together past past' taken s t) :
    Twin (Together past past' taken)
      (fun s t => Parallel past past' s t ∧ s.directResponseMode = true)
      (s.processResponseDataChunk chunk endStream) (t.processResponseDataChunk chunk endStream) := by
  have hgate := h.afterResponseGate chunk endStream
  rw [processResponseDataChunk_eq,processResponseDataChunk_eq,
    ← h.same (fun u => (u.responseCall chunk endStream).result) fun _ => rfl]
  split
  · exact .returning ⟨hgate.parallel_respondDirectly hgate.idle _ _,direct_respondDirectly _ _ _⟩
  · exact .going hgate
  next data _ =>
    have hfinal := hgate.map (fun u => { u with
      responseFinalBodyProvided := endStream || u.responseFinalBodyProvided }) fun _ => ⟨rfl,rfl,rfl⟩
    exact .going (hgate.step (hfinal.provideResponse data endStream) rfl rfl rfl)

theorem drainResponse (h : Together past past' true s t) :
    Twin (Together past past' true) (Parallel past past') s.drainResponse t.drainResponse := by
  unfold HttpSession.drainResponse
  rw [← h.same (fun u => u.responseSerializerStarted) fun _ => rfl]
  split
  · refine drained (d := drainResponseBodyIntoSerializer) ?_
    unfold drainResponseBodyIntoSerializer
    rw [← h.same (fun u => u.theResponseParser.scratch.length + 2) fun _ => rfl]
    refine drainLoop_twin _ _ _ (fun s t h => ⟨?_,?_⟩) (fun s t h => ?_)
      (fun chunk endStream s t h => h.processResponseDataChunk chunk endStream) _ _ _ _ h
    · exact h.same (fun u => (u.theResponseParser.readBody bodyScratchSize).1) fun _ => rfl
    · exact h.step (h.mapLate (fun u => { u with
        responseParser := some (u.theResponseParser.readBody bodyScratchSize).2 })
          fun _ => ⟨rfl,rfl⟩) rfl rfl rfl
    · exact h.same (fun u => u.theResponseParser.messageDone) fun _ => rfl
  · exact .going h

theorem filterResponseHead (h : Together past past' taken s t) :
    Twin (Together past past' taken) (Parallel past past') s.filterResponseHead
      t.filterResponseHead := by
  rw [filterResponseHead_eq,filterResponseHead_eq,
    ← h.same (fun u => !u.responseFiltered && u.theResponseParser.headerDone) fun _ => rfl,
    ← h.same (fun u => u.responseFilterResult.1) fun _ => rfl,
    ← h.same (fun u => u.responseFilterResult.2.1) fun _ => rfl]
  split
  · have hnoted := h.map (fun u => { u with
      responseFiltered := true, filterCtx := u.responseFilterResult.2.2 }) fun _ => ⟨rfl,rfl,rfl⟩
    have hfiltered : Together past past' taken s.afterResponseFilter t.afterResponseFilter :=
      h.step (h.note hnoted (fun u => .filterResponse u.theResponseParser.head
        u.responseFilterResult.1 u.responseFilterResult.2.1) rfl fun _ => rfl) rfl rfl rfl
    split
    · exact .returning (hfiltered.parallel_respondDirectly hfiltered.idle _ _)
    · exact .going (hfiltered.step (hfiltered.relayResponseHead _) rfl rfl rfl)
  · exact .going h

theorem responseStuck (h : Together past past' taken s t) :
    Twin (Together past past' taken) (Parallel past past') s.responseStuck t.responseStuck := by
  unfold HttpSession.responseStuck
  rw [← h.same (fun u => u.theResponseParser.hasError) fun _ => rfl]
  split
  · exact .returning (h.parallel_close h.idle)
  · exact .going h

theorem continueResponse (h : Together past past' true s t) :
    Parallel past past' s.continueResponse t.continueResponse := by
  unfold HttpSession.continueResponse HttpSession.provideFinalResponseBody
  rw [← h.same (fun u => !u.responseSerializerStarted) fun _ => rfl,
    ← h.same (fun u => u.theResponseParser.messageDone && !u.responseFinalBodyProvided) fun _ => rfl]
  split
  · exact h.parallel_readResponseChunk h.idle
  · split
    · have hfinal := h.map (fun u => { u with responseFinalBodyProvided := true }) fun _ => ⟨rfl,rfl,rfl⟩
      exact (hfinal.provideResponse [] true).parallel_pullAndWriteResponse h.idle
    · exact h.parallel_pullAndWriteResponse h.idle

theorem processUpstreamChunk (h : Together past past' true s t) (raw : Bytes) :
    Parallel past past' (s.processUpstreamChunk raw) (t.processUpstreamChunk raw) := by
  have hloop := relayLoop_twin (fun raw s t h => h.feedResponse raw)
    (fun s t h => h.filterResponseHead) (fun s t h => h.drainResponse)
    (fun s t h => h.responseStuck) (raw.length + 1) raw s t h
  unfold HttpSession.processUpstreamChunk
  dsimp only
  rw [← hloop.1]
  split
  next hgo => exact (hloop.resume (by simp [hgo])).continueResponse
  next hgo => exact hloop.ended hgo

end Together

namespace Alike

theorem parallel_onRequestRead (h : Alike past past' taken s t) (hp : s.pending = [])
    (hd : s.directResponseMode = false) (hc : taken = false → s.upstreamConnecting = false)
    (c : Completion) (a : Answers G) :
    Parallel past past' (s.onRequestRead c a) (t.onRequestRead c a) := by
  have hread := (h.map (fun u => { u with
    readBuf := u.readBuf.map fun b : Buffer => b.write c.data }) fun _ => ⟨rfl,rfl,rfl⟩).emit
    (e := .downstreamRead c.data) rfl
  have htogether : Together past past' taken _ _ := ⟨hread,hp,hd,hc⟩
  unfold HttpSession.onRequestRead
  split
  · exact (h.emit rfl).parallel_close hp
  · exact htogether.processDownstreamChunk c.data a

theorem parallel_retryUpstreamWriteOnce (h : Alike past past' true s t) (hp : s.pending = [])
    {n : ℕ} (hfront : s.writeBufFront n = t.writeBufFront n) :
    Parallel past past' (s.retryUpstreamWriteOnce n) (t.retryUpstreamWriteOnce n) := by
  have hdiscard := (h.emit (e := .upstreamRetry (.afterWrite n)) rfl).discardUpstream
  unfold HttpSession.retryUpstreamWriteOnce
  rw [← (h.late rfl).2]
  refine (hdiscard.emit rfl).parallel_await ?_ ⟨rfl,?_⟩
  · rw [discardUpstream_spec]
    exact hp
  · rw [discardUpstream_spec,discardUpstream_spec]
    exact hfront

theorem parallel_retryUpstreamAfterReadFailure (h : Alike past past' true s t)
    (hp : s.pending = []) : Parallel past past' s.retryUpstreamAfterReadFailure
      t.retryUpstreamAfterReadFailure := by
  have hretry := h.note h (fun u => .upstreamRetry (.afterRead u.upstreamWholeRequestSnapshot)) rfl fun _ => rfl
  unfold HttpSession.retryUpstreamAfterReadFailure
  rw [← (h.late rfl).2]
  refine (hretry.discardUpstream.emit rfl).parallel_await ?_ rfl
  rw [discardUpstream_spec]
  exact hp

theorem parallel_onRequestWritten (h : Alike past past' true s t) (hp : s.pending = [])
    {data : Bytes} (hfront : s.writeBufFront data.length = t.writeBufFront data.length)
    (c : Completion) : Parallel past past' (s.onRequestWritten data c) (t.onRequestWritten data c) := by
  have hfailed := h.emit (e := .upstreamWriteFailed data c.written) rfl
  have hwrote := ((h.map (fun u => { u with upstreamWroteOnce := true }) fun _ => ⟨rfl,rfl,rfl⟩).emit
    (e := .upstreamWritten data c.written) rfl).emit
    (e := .bytesDownstreamToUpstream c.written) rfl
  unfold HttpSession.onRequestWritten
  dsimp only
  split
  · rw [← hfailed.same (fun u => !u.upstreamWroteOnce && !u.upstreamRetryUsed) fun _ => rfl]
    split
    · have hused := hfailed.map (fun u => { u with upstreamRetryUsed := true }) fun _ => ⟨rfl,rfl,rfl⟩
      exact hused.parallel_retryUpstreamWriteOnce hp hfront
    · exact hfailed.parallel_close hp
  · exact hwrote.parallel_pullAndWriteRequest hp

theorem parallel_onRetryConnected (h : Alike past past' true s t) (hp : s.pending = [])
    {n : ℕ} (hfront : s.writeBufFront n = t.writeBufFront n) (c : Completion) :
    Parallel past past' (s.onRetryConnected n c) (t.onRetryConnected n c) := by
  unfold HttpSession.onRetryConnected
  rw [← hfront]
  split
  next socket _ _ =>
    refine ((h.takeUpstream (h.late rfl).2 socket false).emit rfl).parallel_await ?_ rfl
    rw [takeUpstream_spec]
    exact hp
  · exact (h.emit rfl).parallel_close hp

theorem parallel_onRetryWritten (h : Alike past past' true s t) (hp : s.pending = [])
    (data : Bytes) (c : Completion) :
    Parallel past past' (s.onRetryWritten data c) (t.onRetryWritten data c) := by
  have hwrote := ((h.map (fun u => { u with upstreamWroteOnce := true }) fun _ => ⟨rfl,rfl,rfl⟩).emit
    (e := .upstreamWritten data c.written) rfl).emit
    (e := .bytesDownstreamToUpstream c.written) rfl
  unfold HttpSession.onRetryWritten
  split
  · exact (h.emit rfl).parallel_close hp
  · exact hwrote.parallel_pullAndWriteRequest hp

theorem parallel_onRereadConnected (h : Alike past past' true s t) (hp : s.pending = [])
    (c : Completion) : Parallel past past' (s.onRereadConnected c) (t.onRereadConnected c) := by
  unfold HttpSession.onRereadConnected
  rw [← h.same (fun u => u.upstreamWholeRequestSnapshot) fun _ => rfl]
  split
  next socket _ _ =>
    refine ((h.takeUpstream (h.late rfl).2 socket false).emit rfl).parallel_await ?_ rfl
    rw [takeUpstream_spec]
    exact hp
  · exact (h.emit rfl).parallel_close hp

theorem parallel_onRereadWritten (h : Alike past past' true s t) (hp : s.pending = [])
    (data : Bytes) (c : Completion) :
    Parallel past past' (s.onRereadWritten data c) (t.onRereadWritten data c) := by
  have hwrote := (h.emit (e := .upstreamWritten data c.written) rfl).emit
    (e := .bytesDownstreamToUpstream c.written) rfl
  unfold HttpSession.onRereadWritten
  split
  · exact (h.emit rfl).parallel_close hp
  · exact hwrote.parallel_startResponsePhase hp

theorem parallel_onResponseRead (h : Alike past past' true s t) (hp : s.pending = [])
    (hd : s.directResponseMode = false) (c : Completion) :
    Parallel past past' (s.onResponseRead c) (t.onResponseRead c) := by
  have hfailed := h.emit (e := .upstreamReadFailed) rfl
  have hread := (h.map (fun u => { u with
    readBuf := u.readBuf.map fun b : Buffer => b.write c.data
    upstreamResponseReadAny := true }) fun _ => ⟨rfl,rfl,rfl⟩).emit (e := .upstreamRead c.data) rfl
  have htogether : Together past past' true _ _ := ⟨hread,hp,hd,fun ht => by cases ht⟩
  unfold HttpSession.onResponseRead
  dsimp only
  split
  · rw [← hfailed.same (fun u => !u.upstreamResponseReadAny && u.upstreamWholeRequestCaptured &&
      !u.upstreamRetryUsed) fun _ => rfl]
    split
    · have hused := hfailed.map (fun u => { u with upstreamRetryUsed := true }) fun _ => ⟨rfl,rfl,rfl⟩
      exact hused.parallel_retryUpstreamAfterReadFailure hp
    · exact hfailed.parallel_close hp
  · exact htogether.processUpstreamChunk c.data

theorem parallel_onResponseWritten (h : Alike past past' taken s t) (hp : s.pending = [])
    (data : Bytes) (c : Completion) :
    Parallel past past' (s.onResponseWritten data c) (t.onResponseWritten data c) := by
  have hwrote := (h.emit (e := .downstreamWritten data c.written) rfl).emit
    (e := .bytesUpstreamToDownstream c.written) rfl
  unfold HttpSession.onResponseWritten
  split
  · exact (h.emit rfl).parallel_close hp
  · exact hwrote.parallel_pullAndWriteResponse hp

end Alike

theorem parallel_deliver (h : Parallel past past' s t) (hs : Suspended s) {e : Event G}
    (he : e.op ∈ s.pending) : Parallel past past' (s.deliver e) (t.deliver e) := by
  obtain ⟨taken,ha,hdue⟩ := h
  have hdue := hdue e.op he
  have hp := hs.erase he
  have hd := hs.indirect he
  have hbase := ha.map (fun u => { u with
    pending := u.pending.erase e.op, filterCtx := e.answers.touch u.filterCtx }) fun _ => ⟨rfl,rfl,rfl⟩
  obtain ⟨op,c,a⟩ := e
  cases op with
  | readRequest => exact hbase.parallel_onRequestRead hp (hd (.inl rfl)) hdue c a
  | connect => exact hbase.parallel_onConnected hp hdue c false
  | writeRequest data =>
    obtain ⟨rfl,hfront⟩ := hdue
    exact hbase.parallel_onRequestWritten hp hfront c
  | retryConnect n =>
    obtain ⟨rfl,hfront⟩ := hdue
    exact hbase.parallel_onRetryConnected hp hfront c
  | retryWrite data =>
    obtain rfl : taken = true := hdue
    exact hbase.parallel_onRetryWritten hp data c
  | rereadConnect =>
    obtain rfl : taken = true := hdue
    exact hbase.parallel_onRereadConnected hp c
  | rereadWrite data =>
    obtain rfl : taken = true := hdue
    exact hbase.parallel_onRereadWritten hp data c
  | readResponse =>
    obtain rfl : taken = true := hdue
    exact hbase.parallel_onResponseRead hp (hd (.inr rfl)) c
  | writeResponse data => exact hbase.parallel_onResponseWritten hp data c

theorem parallel_play (h : Parallel past past' s t) (hs : Suspended s)
    (xs : List (Completion × Answers G)) : Parallel past past' (s.play xs) (t.play xs) := by
  induction xs generalizing s t with
  | nil => exact h
  | cons x xs ih =>
    have hpending : s.pending = t.pending := by
      obtain ⟨_,ha,-⟩ := h
      exact ha.same (fun u => u.pending) fun _ => rfl
    cases hop : s.pending with
    | nil => rwa [play_of_idle hop,play_of_idle (hpending ▸ hop)]
    | cons op ops =>
      have he : op ∈ s.pending := by simp [hop]
      have hresume : s.resume x = s.deliver ⟨op,x.1,x.2⟩ := by simp [resume,hop]
      have hresume' : t.resume x = t.deliver ⟨op,x.1,x.2⟩ := by simp [resume,← hpending,hop]
      change Parallel past past' ((s.resume x).play xs) ((t.resume x).play xs)
      rw [hresume,hresume']
      exact ih (parallel_deliver h hs he) (suspended_deliver hs he)

/-- A session that has just executed `start` or `reset_for_next_request`. -/
def AtRequest (fresh : G.Ctx) (s : HttpSession G) : Prop :=
  (system G).Reaches s ∧
    ((∃ readBuf writeBuf, s = start fresh readBuf writeBuf) ∨
      ∃ u : HttpSession G, s = u.resetForNextRequest)

/-- A callback has turned to the next request as its last act, or the request is the same. -/
def Renewed (cycles : List (List Effect)) (s : HttpSession G) : Prop :=
  (∃ u : HttpSession G, s = u.resetForNextRequest) ∨ s.past = cycles

theorem past_close (s : HttpSession G) : s.close.past = s.past := by
  obtain ⟨_,_,_,_,heq⟩ := s.close_frame
  rw [heq]

theorem renewed_finishCycle (s : HttpSession G) : Renewed s.past s.finishCycle := by
  have hrelease : s.releaseUpstream.past = s.past := by
    obtain heq | ⟨socket,-,heq⟩ := s.releaseUpstream_cases <;> rw [heq]
  unfold finishCycle
  dsimp only
  split
  · exact .inl ⟨_,rfl⟩
  · exact .inr ((past_close _).trans hrelease)

theorem renewed_pullAndWriteResponse {cycles : List (List Effect)} (hp : s.past = cycles) :
    Renewed cycles s.pullAndWriteResponseToDownstream := by
  subst hp
  rw [pullAndWriteResponseToDownstream_eq]
  split
  · split
    · exact renewed_finishCycle s.afterResponsePull
    · split
      · exact .inr rfl
      · exact .inr (past_close _)
  · exact .inr rfl

/-- A session that responds directly does not take another request. -/
theorem past_pullAndWriteDirect (hd : s.directResponseMode = true) :
    s.pullAndWriteResponseToDownstream.past = s.past := by
  have hdirect : s.afterResponsePull.directResponseMode = true := hd
  rw [pullAndWriteResponseToDownstream_eq,finishCycle_of_direct hdirect,hd]
  split
  · split
    · exact past_close _
    · exact past_close _
  · rfl

theorem past_respondDirectly (s : HttpSession G) (head : ResponseHead) (body : Bytes) :
    (s.respondDirectly head body).past = s.past := past_pullAndWriteDirect rfl

theorem past_startResponsePhase (s : HttpSession G) : s.startResponsePhase.past = s.past := rfl

theorem past_pullAndWriteRequest (s : HttpSession G) :
    s.pullAndWriteRequestToUpstream.past = s.past := by
  rw [pullAndWriteRequestToUpstream_eq]
  split
  · split
    · rfl
    · split
      · rfl
      · exact past_close _
  · unfold captureWholeRequest
    split <;> rfl

theorem past_retryUpstreamWriteOnce (s : HttpSession G) (n : ℕ) :
    (s.retryUpstreamWriteOnce n).past = s.past := by
  unfold retryUpstreamWriteOnce
  rw [discardUpstream_spec]
  rfl

theorem past_retryUpstreamAfterReadFailure (s : HttpSession G) :
    s.retryUpstreamAfterReadFailure.past = s.past := by
  unfold retryUpstreamAfterReadFailure
  rw [discardUpstream_spec]
  rfl

theorem past_onConnected (s : HttpSession G) (c : Completion) (pooled : Bool) :
    (s.onConnected c pooled).past = s.past := by
  unfold onConnected
  split
  · rw [past_pullAndWriteRequest,takeUpstream_spec]
  · exact past_close _

theorem past_continueRequest (s : HttpSession G) (a : Answers G) :
    (s.continueRequest a).past = s.past := by
  have hfinal : s.provideFinalRequestBody.past = s.past := by
    unfold provideFinalRequestBody
    split <;> rfl
  unfold continueRequest connectUpstream
  dsimp only
  split
  · rfl
  · split
    · split
      · exact (past_onConnected _ _ _).trans hfinal
      · exact hfinal
    · split
      · exact (past_pullAndWriteRequest _).trans hfinal
      · exact hfinal

theorem phases_past (cycles : List (List Effect)) : Phases (G := G)
    (fun s => s.directResponseMode = false ∧ s.past = cycles) (fun s => s.past = cycles) where
  frame _ _ _ hd _ hpast h := ⟨hd.trans h.1,hpast.trans h.2⟩
  direct _ h := h.1
  respond s head body h := (past_respondDirectly s head body).trans h.2
  close s h := (past_close s).trans h.2

theorem past_processDownstreamChunk (hd : s.directResponseMode = false) (raw : Bytes)
    (a : Answers G) : (s.processDownstreamChunk raw a).past = s.past := by
  have hloop := (phases_past s.past).relayRequest (raw.length + 1) raw s ⟨hd,rfl⟩
  unfold processDownstreamChunk
  dsimp only
  split
  next hgo => exact (past_continueRequest _ a).trans (hloop.resume (by simp [hgo])).2
  next hgo => exact hloop.ended hgo

theorem renewed_processUpstreamChunk (hd : s.directResponseMode = false) (raw : Bytes) :
    Renewed s.past (s.processUpstreamChunk raw) := by
  have hloop := (phases_past s.past).relayResponse (raw.length + 1) raw s ⟨hd,rfl⟩
  unfold processUpstreamChunk
  dsimp only
  split
  next hgo =>
    have hp := (hloop.resume (by simp [hgo])).2
    unfold continueResponse provideFinalResponseBody
    split
    · exact .inr hp
    · split <;> exact renewed_pullAndWriteResponse hp
  next hgo => exact .inr (hloop.ended hgo)

theorem renewed_handle {e : Event G}
    (hd : e.op = .readRequest ∨ e.op = .readResponse → s.directResponseMode = false) :
    Renewed s.past (s.handle e) := by
  obtain ⟨op,c,a⟩ := e
  cases op with
  | readRequest =>
    change Renewed s.past (s.onRequestRead c a)
    unfold onRequestRead
    split
    · exact .inr (past_close _)
    · exact .inr (past_processDownstreamChunk (by exact hd (.inl rfl)) c.data a)
  | connect => exact .inr (past_onConnected s c false)
  | writeRequest data =>
    change Renewed s.past (s.onRequestWritten data c)
    unfold onRequestWritten
    dsimp only
    split
    · split
      · exact .inr (past_retryUpstreamWriteOnce _ _)
      · exact .inr (past_close _)
    · exact .inr (past_pullAndWriteRequest _)
  | retryConnect n =>
    change Renewed s.past (s.onRetryConnected n c)
    unfold onRetryConnected
    split
    · rw [takeUpstream_spec]
      exact .inr rfl
    · exact .inr (past_close _)
  | retryWrite data =>
    change Renewed s.past (s.onRetryWritten data c)
    unfold onRetryWritten
    split
    · exact .inr (past_close _)
    · exact .inr (past_pullAndWriteRequest _)
  | rereadConnect =>
    change Renewed s.past (s.onRereadConnected c)
    unfold onRereadConnected
    split
    · rw [takeUpstream_spec]
      exact .inr rfl
    · exact .inr (past_close _)
  | rereadWrite data =>
    change Renewed s.past (s.onRereadWritten data c)
    unfold onRereadWritten
    split
    · exact .inr (past_close _)
    · exact .inr (past_startResponsePhase _)
  | readResponse =>
    change Renewed s.past (s.onResponseRead c)
    unfold onResponseRead
    dsimp only
    split
    · split
      · exact .inr (past_retryUpstreamAfterReadFailure _)
      · exact .inr (past_close _)
    · exact renewed_processUpstreamChunk (by exact hd (.inr rfl)) c.data
  | writeResponse data =>
    change Renewed s.past (s.onResponseWritten data c)
    unfold onResponseWritten
    split
    · exact .inr (past_close _)
    · exact renewed_pullAndWriteResponse rfl

/-- Every callback after which a request is over has just executed `reset_for_next_request`. -/
theorem atRequest_deliver {e : Event G} (fresh : G.Ctx) (h : (system G).Reaches s)
    (he : e.op ∈ s.pending) (hlen : e.completion.data.length ≤ G.bufferSize)
    (hpast : (s.deliver e).past ≠ s.past) : AtRequest fresh (s.deliver e) := by
  refine ⟨.step h trivial ⟨he,hlen,rfl⟩,.inr ?_⟩
  have hrenewed : Renewed s.past (s.deliver e) :=
    renewed_handle (s := { s with
      pending := s.pending.erase e.op, filterCtx := e.answers.touch s.filterCtx })
      ((suspended_of_reaches h).indirect he)
  exact hrenewed.resolve_right hpast

/-- All such sessions agree in everything but their buffers, records and connections. -/
theorem AtRequest.core_eq {fresh : G.Ctx} (hfresh : ∀ ctx, G.freshContext ctx = fresh)
    (h : AtRequest fresh s) : s.core =
      { filterCtx := fresh, readBuf := none, writeBuf := none, pending := [.readRequest] } := by
  obtain ⟨hr,⟨_,_,rfl⟩ | ⟨u,rfl⟩⟩ := h
  · rfl
  · cases suspended_of_reaches hr with
    | closed _ _ hidle =>
      have hpending : u.resetForNextRequest.pending = u.pending ++ [.readRequest] := rfl
      simp [hpending] at hidle
    | waiting op c live _ =>
      have hopen : u.closing = false := live.isOpen
      have hpending : u.pending ++ [.readRequest] = [] ++ [op] := live.pending
      obtain ⟨hidle,-⟩ := List.append_inj' hpending rfl
      simp [HttpSession.core,HttpSession.resetForNextRequest,HttpSession.readRequestChunk,
        HttpSession.emit,HttpSession.await,BodyFilterGate.reset,hopen,hidle,hfresh]

theorem parallel_of_atRequest {fresh : G.Ctx} (hfresh : ∀ ctx, G.freshContext ctx = fresh)
    (hs : AtRequest fresh s) (ht : AtRequest fresh t) :
    Parallel s.history t.history s t := by
  have hcore := hs.core_eq hfresh
  have hcore' := ht.core_eq hfresh
  have hof : ∀ {β : Type} (f : HttpSession G → β), f s.core = f _ := fun f => congrArg f hcore
  have hopen : s.closing = false := hof fun u => u.closing
  have hopen' : t.closing = false := congrArg HttpSession.closing hcore'
  have hpending : s.pending = [.readRequest] := hof fun u => u.pending
  refine ⟨false,⟨⟨[],[],by simp,by simp,rfl,rfl,rfl⟩,hcore.trans hcore'.symm,?_,
    (fun hl => by cases hl),fun _ => hof fun u => u.responseParser⟩,fun op hop => ?_⟩
  · rw [writeBufSize_of_reaches hs.1 hopen,writeBufSize_of_reaches ht.1 hopen']
  · rw [hpending,List.mem_singleton] at hop
    subst hop
    exact fun _ => hof fun u => u.upstreamConnecting

/-- From the moment a session turns to its next request, what it does depends on what it is
told from then on, and not on the requests before. -/
theorem requests_independent {fresh : G.Ctx} (hfresh : ∀ ctx, G.freshContext ctx = fresh)
    (hs : AtRequest fresh s) (ht : AtRequest fresh t) (xs : List (Completion × Answers G)) :
    observed false (s.since (s.play xs)) = observed false (t.since (t.play xs)) ∧
      (s.play xs).closing = (t.play xs).closing ∧ (s.play xs).pending = (t.play xs).pending := by
  obtain ⟨taken,ha,-⟩ :=
    parallel_play (parallel_of_atRequest hfresh hs ht) (suspended_of_reaches hs.1) xs
  obtain ⟨es,es',hes,hes',hobs,-,-⟩ := ha.record
  refine ⟨?_,ha.same (fun u => u.closing) fun _ => rfl,ha.same (fun u => u.pending) fun _ => rfl⟩
  rw [since,since,hes,hes',List.drop_left,List.drop_left,hobs]

/-- A connection with one answered request behind it, and its `200`. -/
def answeredOnce : HttpSession (.strict [] 128) :=
  (strictRun [] 128 [.read (ascii "GET /a HTTP/1.1\r\n\r\n"),.connected 7,.wrote 43,
    .read (ascii "HTTP/1.1 200 OK\r\nContent-Length: 0\r\n\r\n")]).deliver
    ⟨.writeResponse (ascii "HTTP/1.1 200 OK\r\nContent-Length: 0\r\nConnection: keep-alive\r\n\r\n"),
      .wrote 62,{}⟩

/-- A second request that is refused by its connection. -/
def refusedNext : List (Completion × Answers (.strict [] 128)) :=
  [(.read (ascii "GET /b HTTP/1.1\r\n\r\n"),{}),(.failed 0,{})]

theorem requests_independent_answered :
    answeredOnce.past.length = 1 ∧ answeredOnce.readBuf ≠ (strictStart [] 128).readBuf ∧
      observed false ((strictStart [] 128).since ((strictStart [] 128).play refusedNext)) =
        observed false (answeredOnce.since (answeredOnce.play refusedNext)) ∧
      ((strictStart [] 128).play refusedNext).closing = (answeredOnce.play refusedNext).closing ∧
      ((strictStart [] 128).play refusedNext).pending = (answeredOnce.play refusedNext).pending := by
  have hfirst : AtRequest () (strictStart [] 128) :=
    ⟨.initial ⟨(),_,_,List.length_replicate,List.length_replicate,rfl⟩,.inl ⟨_,_,rfl⟩⟩
  have hnext : AtRequest () answeredOnce :=
    atRequest_deliver () (reaches_strictRun (by decide +kernel)) (by decide +kernel)
      (by decide +kernel) (by decide +kernel)
  exact ⟨by decide +kernel,by decide +kernel,
    requests_independent (fun _ => rfl) hfirst hnext refusedNext⟩

end HttpSession
end PerCoreShard
