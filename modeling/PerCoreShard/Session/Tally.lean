import Mathlib.Algebra.BigOperators.Group.List.Basic
import PerCoreShard.Session.Flight
import PerCoreShard.Util.LocalMetrics

/-! What a session tells the counters of its shard. An entry that adds to a counter never stands
alone: what the counter is there to count is on record with it, once for each time it was
counted. -/
namespace PerCoreShard
open Library

/-- What an entry adds to the counters. -/
def Effect.adds : Effect → Counter → ℤ
  | .onAccept => Pi.single .connectionsAccepted 1 + Pi.single .connectionsActive 1
  | .onClose => Pi.single .connectionsClosed 1 - Pi.single .connectionsActive 1
  | .bytesDownstreamToUpstream n => Pi.single .bytesDownstreamToUpstream n
  | .bytesUpstreamToDownstream n => Pi.single .bytesUpstreamToDownstream n
  | .upstreamConnectError => Pi.single .upstreamConnectErrors 1
  | .requestHandled => Pi.single .requestsHandled 1
  | .upstreamRetry _ => Pi.single .upstreamRetries 1
  | _ => 0

/-- What an entry records of that which the counters are there to count: clients taken on and
let go, bytes the sockets took, heads shown to the filters, connections asked for afresh, and
connects that were asked for less those that were made. -/
def Effect.tells : Effect → Counter → ℤ
  | .onAccept => Pi.single .connectionsAccepted 1 + Pi.single .connectionsActive 1
  | .closeDownstream => Pi.single .connectionsClosed 1 - Pi.single .connectionsActive 1
  | .upstreamWritten _ written => Pi.single .bytesDownstreamToUpstream written
  | .downstreamWritten _ written => Pi.single .bytesUpstreamToDownstream written
  | .acquireConnection _ => Pi.single .upstreamConnectErrors 1
  | .acquireFreshConnection _ =>
    Pi.single .upstreamConnectErrors 1 + Pi.single .upstreamRetries 1
  | .connected _ _ => -Pi.single .upstreamConnectErrors 1
  | .filterRequest _ _ _ => Pi.single .requestsHandled 1
  | _ => 0

/-- What an entry adds beyond what it records. -/
def Effect.surplus (e : Effect) : Counter → ℤ := e.adds - e.tells

/-- A connect that is under way has been asked for, and is neither made nor counted. -/
def Op.surplus : Op → Counter → ℤ
  | .connect | .retryConnect _ | .rereadConnect => Pi.single .upstreamConnectErrors 1
  | _ => 0

/-- What a record adds to the counters. -/
def tally (log : List Effect) : Counter → ℤ := (log.map Effect.adds).sum

/-- What a record says has happened. -/
def told (log : List Effect) : Counter → ℤ := (log.map Effect.tells).sum

theorem tally_append (log more : List Effect) : tally (log ++ more) = tally log + tally more := by
  simp [tally]

theorem sum_surplus (log : List Effect) :
    (log.map Effect.surplus).sum = tally log - told log := by
  induction log with
  | nil => rfl
  | cons e log ih =>
    simp only [List.map_cons,List.sum_cons,ih,Effect.surplus,tally,told]
    exact sub_add_sub_comm _ _ _ _

/-- Only the number of open connections ever goes down. -/
theorem Effect.adds_nonneg (e : Effect) {c : Counter} (hc : c ≠ .connectionsActive) :
    0 ≤ e.adds c := by
  cases e <;> cases c <;> simp_all [Effect.adds]

theorem tally_nonneg (log : List Effect) {c : Counter} (hc : c ≠ .connectionsActive) :
    0 ≤ tally log c := by
  induction log with
  | nil => exact le_refl 0
  | cons e log ih => exact Int.add_nonneg (e.adds_nonneg hc) ih

namespace HttpSession
variable {G : Gateway} {s : HttpSession G}

/-- What the session has added beyond what it has recorded and waits for. -/
def books (s : HttpSession G) : Counter → ℤ :=
  (s.history.map Effect.surplus).sum + (s.pending.map Op.surplus).sum

theorem books_emit (s : HttpSession G) (e : Effect) : (s.emit e).books = s.books + e.surplus := by
  have hpending : (s.emit e).pending = s.pending := rfl
  unfold books
  rw [history_emit,hpending,List.map_append,List.sum_append,List.map_singleton,List.sum_singleton]
  exact add_right_comm _ _ _

theorem books_await (s : HttpSession G) (op : Op) :
    (s.await op).books = s.books + op.surplus := by
  have hhistory : (s.await op).history = s.history := rfl
  have hpending : (s.await op).pending = s.pending ++ [op] := rfl
  unfold books
  rw [hhistory,hpending,List.map_append,List.sum_append,List.map_singleton,List.sum_singleton]
  exact (add_assoc _ _ _).symm

theorem books_note {e : Effect} (h : e.surplus = 0) (s : HttpSession G) :
    (s.emit e).books = s.books := by
  rw [books_emit,h,add_zero]

/-- Two entries that cancel. -/
theorem books_pair {e f : Effect} (h : e.surplus + f.surplus = 0) (s : HttpSession G) :
    ((s.emit e).emit f).books = s.books := by
  rw [books_emit,books_emit,add_assoc,h,add_zero]

/-- A record that grew, with nothing more to wait for. -/
theorem books_of_log {t : HttpSession G} {es : List Effect} (hpast : t.past = s.past)
    (hlog : t.log = s.log ++ es) (hpending : t.pending = s.pending)
    (hes : (es.map Effect.surplus).sum = 0) : t.books = s.books := by
  unfold books
  rw [history_of_log hpast hlog,hpending,List.map_append,List.sum_append,hes,add_zero]

/-- The start of an operation is on record. -/
theorem books_start {e : Effect} {op : Op} (h : e.surplus + op.surplus = 0)
    (s : HttpSession G) : ((s.emit e).await op).books = s.books := by
  rw [books_await,books_emit,add_assoc,h,add_zero]

theorem books_close (s : HttpSession G) : s.close.books = s.books := by
  cases hc : s.closing with
  | true => rw [close_of_closing hc]
  | false =>
    rw [close_eq hc]
    have hsum : (s.closingEffects.map Effect.surplus).sum = 0 := by
      funext c
      cases hu : s.upstream <;> cases hr : s.readBuf <;> cases hw : s.writeBuf <;>
        simp only [closingEffects,hu,hr,hw] <;> cases c <;> rfl
    exact books_of_log rfl rfl rfl hsum

theorem books_readRequestChunk (s : HttpSession G) : s.readRequestChunk.books = s.books :=
  books_start rfl s

theorem books_readResponseChunk (s : HttpSession G) : s.readResponseChunk.books = s.books :=
  books_start rfl s

theorem books_resetForNextRequest (s : HttpSession G) :
    s.resetForNextRequest.books = s.books := by
  have hpending : s.resetForNextRequest.pending = s.pending ++ [.readRequest] := rfl
  unfold books
  rw [history_resetForNextRequest,hpending,List.map_append,List.sum_append,List.map_append,
    List.sum_append]
  have hplain : ([Effect.resetForNextRequest,.readDownstream].map Effect.surplus).sum = 0 := rfl
  have hwait : ([Op.readRequest].map Op.surplus).sum = 0 := rfl
  rw [hplain,hwait,add_zero,add_zero]

theorem books_releaseUpstream (s : HttpSession G) : s.releaseUpstream.books = s.books := by
  obtain heq | ⟨socket,-,heq⟩ := s.releaseUpstream_cases <;> rw [heq]
  exact books_note (e := .releaseConnection s.endpointIndex socket) rfl s

theorem books_finishCycle (s : HttpSession G) : s.finishCycle.books = s.books := by
  have h := books_releaseUpstream s
  unfold finishCycle
  dsimp only
  split
  · exact (books_resetForNextRequest _).trans h
  · exact (books_close _).trans h

theorem books_pullAndWriteResponse (s : HttpSession G) :
    s.pullAndWriteResponseToDownstream.books = s.books := by
  rw [pullAndWriteResponseToDownstream_eq]
  split
  · split
    · exact books_finishCycle _
    · split
      · exact books_readResponseChunk _
      · exact books_close _
  · exact books_start rfl _

theorem books_startResponse (s : HttpSession G) (head : ResponseHead) :
    (s.startResponse head).books = s.books := books_note rfl _

theorem books_provideResponse (s : HttpSession G) (chunk : Bytes) (isLast : Bool) :
    (s.provideResponse chunk isLast).books = s.books := books_note rfl _

theorem books_respondDirectly (s : HttpSession G) (head : ResponseHead) (body : Bytes) :
    (s.respondDirectly head body).books = s.books := by
  have h : ({ s with directResponseMode := true }.emit (.respondDirectly head body)).books =
      s.books := books_note rfl _
  refine (books_pullAndWriteResponse _).trans ?_
  exact (books_provideResponse _ _ _).trans ((books_startResponse _ _).trans h)

theorem books_startResponsePhase (s : HttpSession G) : s.startResponsePhase.books = s.books :=
  (books_readResponseChunk _).trans (books_note (e := .startResponsePhase) rfl _)

theorem books_pullAndWriteRequest (s : HttpSession G) :
    s.pullAndWriteRequestToUpstream.books = s.books := by
  rw [pullAndWriteRequestToUpstream_eq]
  split
  · split
    · exact books_startResponsePhase _
    · split
      · exact books_readRequestChunk _
      · exact books_close _
  · obtain ⟨captured,snapshot,heq,-⟩ := s.afterRequestPull.captureWholeRequest_eq
      (s.requestSerializer.pull s.writeBufSize).1
    rw [heq]
    exact books_start rfl _

theorem books_processRequestDataChunk (s : HttpSession G) (chunk : Bytes) (endStream : Bool) :
    (s.processRequestDataChunk chunk endStream).2.books = s.books := by
  have h : (s.afterRequestGate chunk endStream).books = s.books := books_note rfl _
  rw [processRequestDataChunk_eq]
  split
  · exact (books_respondDirectly _ _ _).trans h
  · exact h
  · exact (books_note rfl _).trans h

theorem books_processResponseDataChunk (s : HttpSession G) (chunk : Bytes) (endStream : Bool) :
    (s.processResponseDataChunk chunk endStream).2.books = s.books := by
  have h : (s.afterResponseGate chunk endStream).books = s.books := books_note rfl _
  rw [processResponseDataChunk_eq]
  split
  · exact (books_respondDirectly _ _ _).trans h
  · exact h
  · exact (books_note rfl _).trans h

/-- A connect that was asked for is made or counted as an error. -/
theorem books_takeUpstream (s : HttpSession G) (socket : SocketId) (pooled : Bool) :
    (s.takeUpstream socket pooled).books = s.books + Op.surplus .connect := by
  have hconnected : (Effect.connected socket pooled).surplus = Op.surplus .connect := by
    funext c
    cases c <;> rfl
  have hdrop : ((s.upstream.map Effect.dropUpstream).toList.map Effect.surplus).sum = 0 := by
    cases s.upstream <;> rfl
  let t := { s with
    upstream := some socket, log := s.log ++ (s.upstream.map Effect.dropUpstream).toList }
  have ht : t.books = s.books := books_of_log rfl rfl rfl hdrop
  rw [takeUpstream_spec,← hconnected,← ht]
  exact books_emit t (.connected socket pooled)

theorem books_connectFailed (s : HttpSession G) :
    (s.emit .upstreamConnectError).close.books = s.books + Op.surplus .connect := by
  have herror : Effect.surplus .upstreamConnectError = Op.surplus .connect := by
    funext c
    cases c <;> rfl
  rw [books_close,books_emit,herror]

theorem books_onConnected (s : HttpSession G) (c : Completion) (pooled : Bool) :
    (s.onConnected c pooled).books = s.books + Op.surplus .connect := by
  unfold onConnected
  split
  · exact (books_pullAndWriteRequest _).trans (books_takeUpstream s _ pooled)
  · exact books_connectFailed s

theorem surplus_acquireConnection (index : ℕ) :
    (Effect.acquireConnection index).surplus + Op.surplus .connect = 0 := by
  funext c
  cases c <;> rfl

theorem books_connectUpstream (s : HttpSession G) (a : Answers G) :
    (s.connectUpstream a).books = s.books := by
  have hselected : ({ s with endpointIndex := a.endpoint }.emit
      (.selectEndpoint a.endpoint)).books = s.books := books_note rfl _
  have h := surplus_acquireConnection a.endpoint
  unfold connectUpstream
  dsimp only
  split
  · rw [books_onConnected,books_emit,add_assoc,h,add_zero,hselected]
  · exact (books_start h _).trans hselected

theorem books_discardUpstream (s : HttpSession G) : s.discardUpstream.books = s.books := by
  rw [discardUpstream_spec]
  refine books_of_log rfl rfl rfl ?_
  cases s.upstream <;> rfl

/-- A retry is counted and a connection is asked for afresh. -/
theorem books_retry (s : HttpSession G) (cause : Retry) {op : Op}
    (hop : op.surplus = Op.surplus .connect) :
    (((s.emit (.upstreamRetry cause)).discardUpstream.emit
      (.acquireFreshConnection s.endpointIndex)).await op).books = s.books := by
  have hcancel : (Effect.upstreamRetry cause).surplus +
      ((Effect.acquireFreshConnection s.endpointIndex).surplus + Op.surplus .connect) = 0 := by
    funext c
    cases c <;> rfl
  rw [books_await,books_emit,books_discardUpstream,books_emit,hop,add_assoc,add_assoc,hcancel,
    add_zero]

theorem books_retryUpstreamWriteOnce (s : HttpSession G) (n : ℕ) :
    (s.retryUpstreamWriteOnce n).books = s.books := books_retry s (.afterWrite n) rfl

theorem books_retryUpstreamAfterReadFailure (s : HttpSession G) :
    s.retryUpstreamAfterReadFailure.books = s.books :=
  books_retry s (.afterRead s.upstreamWholeRequestSnapshot) rfl

theorem books_feedRequest (raw : Bytes) (s : HttpSession G) :
    (s.feedRequest raw).2.books = s.books := by
  unfold feedRequest
  dsimp only
  split
  · exact books_note rfl _
  · rfl

/-- A head is counted when it is shown to the filters. -/
theorem books_filterRequestHead (s : HttpSession G) : s.filterRequestHead.2.books = s.books := by
  have h : s.afterRequestFilter.books = s.books := by
    refine books_pair ?_ _
    funext c
    cases c <;> rfl
  rw [filterRequestHead_eq]
  split
  · split
    · exact (books_respondDirectly _ _ _).trans h
    · exact (books_note rfl _).trans h
  · rfl

theorem books_drainRequest (s : HttpSession G) : s.drainRequest.2.books = s.books := by
  unfold drainRequest
  split
  · exact drainLoop_related _ _ _ (Q := fun s t : HttpSession G => t.books = s.books)
      (fun _ => rfl) (fun _ _ _ h h' => h'.trans h) (fun _ => rfl)
      (fun chunk endStream t => books_processRequestDataChunk t chunk endStream) _ _ _
  · rfl

theorem books_requestStuck (s : HttpSession G) : s.requestStuck.2.books = s.books := by
  unfold requestStuck
  split
  · exact books_close s
  · rfl

theorem books_continueRequest (s : HttpSession G) (a : Answers G) :
    (s.continueRequest a).books = s.books := by
  have hfinal : s.provideFinalRequestBody.books = s.books := by
    unfold provideFinalRequestBody
    split
    · exact books_note rfl _
    · rfl
  unfold continueRequest
  split
  · exact books_readRequestChunk s
  · dsimp only
    split
    · exact (books_connectUpstream _ a).trans hfinal
    · split
      · exact (books_pullAndWriteRequest _).trans hfinal
      · exact hfinal

theorem books_processDownstreamChunk (s : HttpSession G) (raw : Bytes) (a : Answers G) :
    (s.processDownstreamChunk raw a).books = s.books := by
  have hloop := relayLoop_related (Q := fun s t : HttpSession G => t.books = s.books)
    (fun _ => rfl) (fun _ _ _ h h' => h'.trans h) books_feedRequest books_filterRequestHead
    books_drainRequest books_requestStuck (raw.length + 1) raw s
  unfold processDownstreamChunk
  dsimp only
  split
  · exact (books_continueRequest _ a).trans hloop
  · exact hloop

theorem books_feedResponse (raw : Bytes) (s : HttpSession G) :
    (s.feedResponse raw).2.books = s.books := rfl

theorem books_filterResponseHead (s : HttpSession G) : s.filterResponseHead.2.books = s.books := by
  have h : s.afterResponseFilter.books = s.books := books_note rfl _
  rw [filterResponseHead_eq]
  split
  · split
    · exact (books_respondDirectly _ _ _).trans h
    · exact (books_note rfl _).trans h
  · rfl

theorem books_drainResponse (s : HttpSession G) : s.drainResponse.2.books = s.books := by
  unfold drainResponse
  split
  · exact drainLoop_related _ _ _ (Q := fun s t : HttpSession G => t.books = s.books)
      (fun _ => rfl) (fun _ _ _ h h' => h'.trans h) (fun _ => rfl)
      (fun chunk endStream t => books_processResponseDataChunk t chunk endStream) _ _ _
  · rfl

theorem books_responseStuck (s : HttpSession G) : s.responseStuck.2.books = s.books := by
  unfold responseStuck
  split
  · exact books_close s
  · rfl

theorem books_continueResponse (s : HttpSession G) : s.continueResponse.books = s.books := by
  have hfinal : s.provideFinalResponseBody.books = s.books := by
    unfold provideFinalResponseBody
    split
    · exact books_note rfl _
    · rfl
  unfold continueResponse
  split
  · exact books_readResponseChunk s
  · exact (books_pullAndWriteResponse _).trans hfinal

theorem books_processUpstreamChunk (s : HttpSession G) (raw : Bytes) :
    (s.processUpstreamChunk raw).books = s.books := by
  have hloop := relayLoop_related (Q := fun s t : HttpSession G => t.books = s.books)
    (fun _ => rfl) (fun _ _ _ h h' => h'.trans h) books_feedResponse books_filterResponseHead
    books_drainResponse books_responseStuck (raw.length + 1) raw s
  unfold processUpstreamChunk
  dsimp only
  split
  · exact (books_continueResponse _).trans hloop
  · exact hloop

/-- A write is counted with the bytes it has written. -/
theorem books_upstreamWritten (s : HttpSession G) (data : Bytes) (c : Completion) :
    (s.upstreamWritten data c).books = s.books := by
  refine books_pair ?_ s
  funext counter
  cases counter <;> simp [Effect.surplus,Effect.adds,Effect.tells]

theorem books_onRequestRead (s : HttpSession G) (c : Completion) (a : Answers G) :
    (s.onRequestRead c a).books = s.books := by
  have hnote : (s.noteRequestRead c.data).books = s.books := books_note rfl _
  unfold onRequestRead
  split
  · exact (books_close _).trans (books_note rfl s)
  · exact (books_processDownstreamChunk (s.noteRequestRead c.data) c.data a).trans hnote

theorem books_onRequestWritten (s : HttpSession G) (data : Bytes) (c : Completion) :
    (s.onRequestWritten data c).books = s.books := by
  have hfailed : (s.emit (.upstreamWriteFailed data c.written)).books = s.books :=
    books_note rfl s
  have hwrote : { s with upstreamWroteOnce := true }.books = s.books := rfl
  unfold onRequestWritten
  dsimp only
  split
  · split
    · exact (books_retryUpstreamWriteOnce _ _).trans hfailed
    · exact (books_close _).trans hfailed
  · exact (books_pullAndWriteRequest _).trans ((books_upstreamWritten _ data c).trans hwrote)

theorem books_onRetryConnected (s : HttpSession G) (n : ℕ) (c : Completion) :
    (s.onRetryConnected n c).books = s.books + Op.surplus .connect := by
  unfold onRetryConnected
  split
  next socket _ _ =>
    have hstart : (((s.takeUpstream socket false).emit (.writeUpstream (s.writeBufFront n))).await
        (.retryWrite (s.writeBufFront n))).books = (s.takeUpstream socket false).books :=
      books_start rfl _
    exact hstart.trans (books_takeUpstream s socket false)
  · exact books_connectFailed s

theorem books_onRereadConnected (s : HttpSession G) (c : Completion) :
    (s.onRereadConnected c).books = s.books + Op.surplus .connect := by
  unfold onRereadConnected
  split
  next socket _ _ =>
    have hstart : (((s.takeUpstream socket false).emit
        (.writeUpstream s.upstreamWholeRequestSnapshot)).await
        (.rereadWrite s.upstreamWholeRequestSnapshot)).books = (s.takeUpstream socket false).books :=
      books_start rfl _
    exact hstart.trans (books_takeUpstream s socket false)
  · exact books_connectFailed s

theorem books_onRetryWritten (s : HttpSession G) (data : Bytes) (c : Completion) :
    (s.onRetryWritten data c).books = s.books := by
  have hwrote : { s with upstreamWroteOnce := true }.books = s.books := rfl
  unfold onRetryWritten
  split
  · exact (books_close _).trans (books_note rfl s)
  · exact (books_pullAndWriteRequest _).trans ((books_upstreamWritten _ data c).trans hwrote)

theorem books_onRereadWritten (s : HttpSession G) (data : Bytes) (c : Completion) :
    (s.onRereadWritten data c).books = s.books := by
  unfold onRereadWritten
  split
  · exact (books_close _).trans (books_note rfl s)
  · exact (books_startResponsePhase _).trans (books_upstreamWritten s data c)

theorem books_onResponseRead (s : HttpSession G) (c : Completion) :
    (s.onResponseRead c).books = s.books := by
  have hfailed : (s.emit .upstreamReadFailed).books = s.books := books_note rfl s
  have hnote : (s.noteResponseRead c.data).books = s.books := books_note rfl _
  unfold onResponseRead
  dsimp only
  split
  · split
    · exact (books_retryUpstreamAfterReadFailure _).trans hfailed
    · exact (books_close _).trans hfailed
  · exact (books_processUpstreamChunk (s.noteResponseRead c.data) c.data).trans hnote

theorem books_onResponseWritten (s : HttpSession G) (data : Bytes) (c : Completion) :
    (s.onResponseWritten data c).books = s.books := by
  unfold onResponseWritten
  split
  · exact (books_close _).trans (books_note rfl s)
  · refine (books_pullAndWriteResponse _).trans (books_pair ?_ s)
    funext counter
    cases counter <;> simp [Effect.surplus,Effect.adds,Effect.tells]

/-- Only the end of a connect is still to be counted when its callback begins. -/
theorem books_handle (s : HttpSession G) (e : Event G) :
    (s.handle e).books = s.books + e.op.surplus := by
  obtain ⟨op,c,a⟩ := e
  cases op with
  | readRequest => exact (books_onRequestRead s c a).trans (add_zero _).symm
  | connect => exact books_onConnected s c false
  | writeRequest data => exact (books_onRequestWritten s data c).trans (add_zero _).symm
  | retryConnect n => exact books_onRetryConnected s n c
  | retryWrite data => exact (books_onRetryWritten s data c).trans (add_zero _).symm
  | rereadConnect => exact books_onRereadConnected s c
  | rereadWrite data => exact (books_onRereadWritten s data c).trans (add_zero _).symm
  | readResponse => exact (books_onResponseRead s c).trans (add_zero _).symm
  | writeResponse data => exact (books_onResponseWritten s data c).trans (add_zero _).symm

/-- A callback takes its operation off what the session waits for. -/
theorem books_deliver {e : Event G} (he : e.op ∈ s.pending) : (s.deliver e).books = s.books := by
  let t := { s with pending := s.pending.erase e.op, filterCtx := e.answers.touch s.filterCtx }
  have hhistory : t.history = s.history := rfl
  have hpending : t.pending = s.pending.erase e.op := rfl
  have hsum := List.sum_map_erase Op.surplus he
  refine (books_handle t e).trans ?_
  unfold books
  rw [hhistory,hpending,← hsum,add_assoc,add_comm e.op.surplus]

/-- Between two callbacks the session has added to each counter what it has recorded. -/
theorem books_of_reaches (h : (system G).Reaches s) : s.books = 0 := by
  refine h.invariant (I := fun s => s.books = 0) ?_ ?_
  · rintro _ ⟨ctx,readBuf,writeBuf,-,-,rfl⟩
    funext c
    cases c <;> rfl
  · rintro s e _ hs ⟨he,-,rfl⟩
    exact (books_deliver he).trans hs

end HttpSession
end PerCoreShard
