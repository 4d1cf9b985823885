import PerCoreShard.Session.Acts

/-! One callback of a session: it puts the completion it was called with on record, and all
else that it does is a composition of acts. -/
namespace PerCoreShard

namespace HttpSession
variable {G : Gateway}

theorem acts_feedRequest (raw : Bytes) (s : HttpSession G) : Acts s (s.feedRequest raw).2 := by
  have h : Acts s { s with requestParser := (s.requestParser.feed raw).2 } :=
    .same rfl id
  unfold feedRequest
  dsimp only
  split
  · exact h.emit rfl rfl
  · exact h

theorem acts_filterRequestHead (s : HttpSession G) : Acts s s.filterRequestHead.2 := by
  have h : Acts s s.afterRequestFilter := by
    refine Acts.emit (Acts.emit ?_ rfl rfl) rfl rfl
    exact .same rfl id
  have hforward : ∀ t : HttpSession G, ∀ head, Acts t (t.forwardRequestHead head) := by
    intro t head
    refine Acts.emit ?_ rfl rfl
    exact .same rfl id
  rw [filterRequestHead_eq]
  split
  · split
    · exact h.trans (acts_respondDirectly _ _ _)
    · exact h.trans (hforward _ _)
  · exact .refl s

theorem acts_drainRequest (s : HttpSession G) : Acts s s.drainRequest.2 := by
  unfold drainRequest
  split
  · exact drainLoop_related _ _ _ Acts.refl (fun _ _ _ => Acts.trans) (fun _ => .same rfl id)
      (fun _ _ _ => acts_processRequestDataChunk _ _ _) _ _ _
  · exact .refl s

theorem acts_requestStuck (s : HttpSession G) : Acts s s.requestStuck.2 := by
  unfold requestStuck
  split
  · exact .close s
  · exact .refl s

theorem acts_provideFinalRequestBody (s : HttpSession G) :
    Acts s s.provideFinalRequestBody := by
  have h : Acts s { s with requestFinalBodyProvided := true } := .same rfl id
  unfold provideFinalRequestBody
  split
  · exact h.trans (acts_provideRequest _ _ _)
  · exact .refl s

theorem closing_provideFinalRequestBody (s : HttpSession G) :
    s.provideFinalRequestBody.closing = s.closing := by
  unfold provideFinalRequestBody
  split <;> rfl

theorem acts_continueRequest {s : HttpSession G} (ho : s.closing = false) (a : Answers G) :
    Acts s (s.continueRequest a) := by
  have hfinal := acts_provideFinalRequestBody s
  have ho' := (closing_provideFinalRequestBody s).trans ho
  unfold continueRequest
  split
  · exact acts_readRequestChunk s
  · dsimp only
    split
    · refine Acts.trans ?_ (acts_connectUpstream (by exact ho') a)
      exact hfinal.trans (.same rfl id)
    · split
      · exact hfinal.trans (acts_pullAndWriteRequest _)
      · exact hfinal

/-- `I` holds of a session while a read is processed and no filter has rejected, and `E` once
the session has responded directly or closed. -/
structure Phases (I E : HttpSession G → Prop) : Prop where
  frame : ∀ s t, t.closing = s.closing → t.directResponseMode = s.directResponseMode →
    t.pending = s.pending → t.past = s.past → I s → I t
  direct : ∀ s, I s → s.directResponseMode = false
  respond : ∀ s head body, I s → E (s.respondDirectly head body)
  close : ∀ s, I s → E s.close

section
variable {I E : HttpSession G → Prop} (hP : Phases I E)
include hP

theorem Phases.feedRequest (raw : Bytes) (s : HttpSession G) (hs : I s) :
    I (s.feedRequest raw).2 := by
  unfold HttpSession.feedRequest
  dsimp only
  split <;> exact hP.frame s _ rfl rfl rfl rfl hs

theorem Phases.filterRequestHead (s : HttpSession G) (hs : I s) :
    Outcome I E s.filterRequestHead := by
  rw [filterRequestHead_eq]
  split
  · split
    next => exact hP.respond _ _ _ (hP.frame s _ rfl rfl rfl rfl hs)
    next => exact hP.frame s _ rfl rfl rfl rfl hs
  · exact hs

theorem Phases.processRequestDataChunk (chunk : Bytes) (endStream : Bool) (s : HttpSession G)
    (hs : I s) : Outcome I (fun t => E t ∧ t.directResponseMode = true)
      (s.processRequestDataChunk chunk endStream) := by
  rw [processRequestDataChunk_eq]
  split
  · exact ⟨hP.respond _ _ _ (hP.frame s _ rfl rfl rfl rfl hs),direct_respondDirectly _ _ _⟩
  · exact hP.frame s _ rfl rfl rfl rfl hs
  · exact hP.frame s _ rfl rfl rfl rfl hs

theorem Phases.drainRequest (s : HttpSession G) (hs : I s) :
    Outcome I (fun t => E t ∧ t.directResponseMode = true) s.drainRequest := by
  unfold HttpSession.drainRequest
  split
  · rcases drainLoop_outcome readRequestBody
      (fun chunk endStream s => s.processRequestDataChunk chunk endStream)
      (fun s => s.requestParser.messageDone) (fun t ht => hP.frame t _ rfl rfl rfl rfl ht)
      hP.processRequestDataChunk (s.requestParser.scratch.length + 2) none s hs with hI | hE
    · have hd := hP.direct _ hI
      simpa only [Outcome,drainRequestBodyIntoSerializer,hd,Bool.not_false,if_true] using hI
    · have hd := hE.2
      simpa only [Outcome,drainRequestBodyIntoSerializer,hd,Bool.not_true,Bool.false_eq_true,
        if_false] using hE
  · exact hs

theorem Phases.requestStuck (s : HttpSession G) (hs : I s) : Outcome I E s.requestStuck := by
  unfold HttpSession.requestStuck
  split
  · exact hP.close s hs
  · exact hs

theorem Phases.relayRequest (fuel : ℕ) (raw : Bytes) (s : HttpSession G) (hs : I s) :
    Outcome I E (relayLoop HttpSession.feedRequest HttpSession.filterRequestHead
      HttpSession.drainRequest HttpSession.requestStuck fuel raw s) :=
  relayLoop_outcome hP.feedRequest hP.filterRequestHead
    (fun t ht => (hP.drainRequest t ht).imp And.left) hP.requestStuck fuel raw s hs

end

/-- A session is open until a filter rejects. -/
theorem phases_open : Phases (G := G)
    (fun s => s.closing = false ∧ s.directResponseMode = false) fun _ => True where
  frame _ _ hc hd _ _ h := ⟨hc.trans h.1,hd.trans h.2⟩
  direct _ h := h.2
  respond _ _ _ _ := trivial
  close _ _ := trivial

theorem acts_processDownstreamChunk {s : HttpSession G} (ho : s.closing = false)
    (hd : s.directResponseMode = false) (raw : Bytes) (a : Answers G) :
    Acts s (s.processDownstreamChunk raw a) := by
  have hloop := relayLoop_related Acts.refl (fun _ _ _ => Acts.trans) acts_feedRequest
    acts_filterRequestHead acts_drainRequest acts_requestStuck (raw.length + 1) raw s
  have hopen := phases_open.relayRequest (raw.length + 1) raw s ⟨ho,hd⟩
  unfold processDownstreamChunk
  dsimp only
  split
  next hend =>
    exact hloop.trans (acts_continueRequest (hopen.resume (by simp [hend])).1 a)
  next => exact hloop

theorem acts_feedResponse (raw : Bytes) (s : HttpSession G) : Acts s (s.feedResponse raw).2 :=
  .same rfl id

theorem acts_filterResponseHead (s : HttpSession G) : Acts s s.filterResponseHead.2 := by
  have h : Acts s s.afterResponseFilter := by
    refine Acts.emit ?_ rfl rfl
    exact .same rfl id
  have hrelay : ∀ t : HttpSession G, ∀ head, Acts t (t.relayResponseHead head) := by
    intro t head
    refine Acts.emit ?_ rfl rfl
    exact .same rfl id
  rw [filterResponseHead_eq]
  split
  · split
    · exact h.trans (acts_respondDirectly _ _ _)
    · exact h.trans (hrelay _ _)
  · exact .refl s

theorem acts_drainResponse (s : HttpSession G) : Acts s s.drainResponse.2 := by
  unfold drainResponse
  split
  · exact drainLoop_related _ _ _ Acts.refl (fun _ _ _ => Acts.trans) (fun _ => .same rfl id)
      (fun _ _ _ => acts_processResponseDataChunk _ _ _) _ _ _
  · exact .refl s

theorem acts_responseStuck (s : HttpSession G) : Acts s s.responseStuck.2 := by
  unfold responseStuck
  split
  · exact .close s
  · exact .refl s

section
variable {I E : HttpSession G → Prop} (hP : Phases I E)
include hP

theorem Phases.feedResponse (raw : Bytes) (s : HttpSession G) (hs : I s) :
    I (s.feedResponse raw).2 := hP.frame s _ rfl rfl rfl rfl hs

theorem Phases.filterResponseHead (s : HttpSession G) (hs : I s) :
    Outcome I E s.filterResponseHead := by
  rw [filterResponseHead_eq]
  split
  · split
    next => exact hP.respond _ _ _ (hP.frame s _ rfl rfl rfl rfl hs)
    next => exact hP.frame s _ rfl rfl rfl rfl hs
  · exact hs

theorem Phases.processResponseDataChunk (chunk : Bytes) (endStream : Bool) (s : HttpSession G)
    (hs : I s) : Outcome I (fun t => E t ∧ t.directResponseMode = true)
      (s.processResponseDataChunk chunk endStream) := by
  rw [processResponseDataChunk_eq]
  split
  · exact ⟨hP.respond _ _ _ (hP.frame s _ rfl rfl rfl rfl hs),direct_respondDirectly _ _ _⟩
  · exact hP.frame s _ rfl rfl rfl rfl hs
  · exact hP.frame s _ rfl rfl rfl rfl hs

theorem Phases.drainResponse (s : HttpSession G) (hs : I s) :
    Outcome I (fun t => E t ∧ t.directResponseMode = true) s.drainResponse := by
  unfold HttpSession.drainResponse
  split
  · rcases drainLoop_outcome readResponseBody
      (fun chunk endStream s => s.processResponseDataChunk chunk endStream)
      (fun s => s.theResponseParser.messageDone) (fun t ht => hP.frame t _ rfl rfl rfl rfl ht)
      hP.processResponseDataChunk (s.theResponseParser.scratch.length + 2) none s hs with hI | hE
    · have hd := hP.direct _ hI
      simpa only [Outcome,drainResponseBodyIntoSerializer,hd,Bool.not_false,if_true] using hI
    · have hd := hE.2
      simpa only [Outcome,drainResponseBodyIntoSerializer,hd,Bool.not_true,Bool.false_eq_true,
        if_false] using hE
  · exact hs

theorem Phases.responseStuck (s : HttpSession G) (hs : I s) : Outcome I E s.responseStuck := by
  unfold HttpSession.responseStuck
  split
  · exact hP.close s hs
  · exact hs

theorem Phases.relayResponse (fuel : ℕ) (raw : Bytes) (s : HttpSession G) (hs : I s) :
    Outcome I E (relayLoop HttpSession.feedResponse HttpSession.filterResponseHead
      HttpSession.drainResponse HttpSession.responseStuck fuel raw s) :=
  relayLoop_outcome hP.feedResponse hP.filterResponseHead
    (fun t ht => (hP.drainResponse t ht).imp And.left) hP.responseStuck fuel raw s hs

end

theorem acts_provideFinalResponseBody (s : HttpSession G) :
    Acts s s.provideFinalResponseBody := by
  have h : Acts s { s with responseFinalBodyProvided := true } := .same rfl id
  unfold provideFinalResponseBody
  split
  · exact h.trans (acts_provideResponse _ _ _)
  · exact .refl s

theorem acts_continueResponse (s : HttpSession G) : Acts s s.continueResponse := by
  unfold continueResponse
  split
  · exact acts_readResponseChunk s
  · exact (acts_provideFinalResponseBody s).trans (acts_pullAndWriteResponse _)

theorem acts_processUpstreamChunk (s : HttpSession G) (raw : Bytes) :
    Acts s (s.processUpstreamChunk raw) := by
  have hloop := relayLoop_related Acts.refl (fun _ _ _ => Acts.trans) acts_feedResponse
    acts_filterResponseHead acts_drainResponse acts_responseStuck (raw.length + 1) raw s
  unfold processUpstreamChunk
  dsimp only
  split
  · exact hloop.trans (acts_continueResponse _)
  · exact hloop

/-- How the completion of an operation is recorded; connects leave no entry of this kind. -/
def inputEntry (op : Op) (c : Completion) : List Effect :=
  match op with
  | .readRequest => [if c.ok then .downstreamRead c.data else .downstreamReadFailed]
  | .writeRequest data | .retryWrite data | .rereadWrite data =>
    [if c.ok then .upstreamWritten data c.written else .upstreamWriteFailed data c.written]
  | .readResponse => [if c.ok then .upstreamRead c.data else .upstreamReadFailed]
  | .writeResponse data =>
    [if c.ok then .downstreamWritten data c.written else .downstreamWriteFailed data c.written]
  | .connect | .retryConnect _ | .rereadConnect => []

/-- The session with the completion on record and nothing done about it. -/
def heard (s : HttpSession G) (e : Event G) : HttpSession G :=
  { s with log := s.log ++ inputEntry e.op e.completion }

theorem acts_retryUpstreamWriteOnce {s : HttpSession G} (ho : s.closing = false) (n : ℕ) :
    Acts s (s.retryUpstreamWriteOnce n) :=
  ((((Acts.refl s).emit rfl rfl).trans (.discardUpstream ho)).emit rfl rfl).await _

theorem acts_retryUpstreamAfterReadFailure {s : HttpSession G} (ho : s.closing = false) :
    Acts s s.retryUpstreamAfterReadFailure :=
  ((((Acts.refl s).emit rfl rfl).trans (.discardUpstream ho)).emit rfl rfl).await _

theorem acts_onRetryConnected {s : HttpSession G} (ho : s.closing = false) (n : ℕ)
    (c : Completion) : Acts s (s.onRetryConnected n c) := by
  unfold onRetryConnected
  split
  · exact ((Acts.takeUpstream ho _ _).emit rfl rfl).await _
  · exact ((Acts.refl s).emit rfl rfl).trans (.close _)

theorem acts_onRereadConnected {s : HttpSession G} (ho : s.closing = false) (c : Completion) :
    Acts s (s.onRereadConnected c) := by
  unfold onRereadConnected
  split
  · exact ((Acts.takeUpstream ho _ _).emit rfl rfl).await _
  · exact ((Acts.refl s).emit rfl rfl).trans (.close _)

theorem acts_upstreamWritten (s : HttpSession G) (data : Bytes) (c : Completion) :
    Acts (s.emit (.upstreamWritten data c.written))
      ({ s with upstreamWroteOnce := true }.upstreamWritten data c) := by
  have hwrote : Acts (s.emit (.upstreamWritten data c.written))
      ({ s with upstreamWroteOnce := true }.emit (.upstreamWritten data c.written)) := .same rfl id
  exact hwrote.emit rfl rfl

theorem acts_onRequestWritten {s : HttpSession G} (ho : s.closing = false) (data : Bytes)
    (c : Completion) : Acts (s.emit (if c.ok then .upstreamWritten data c.written
      else .upstreamWriteFailed data c.written)) (s.onRequestWritten data c) := by
  have hused : ∀ t : HttpSession G, Acts t { t with upstreamRetryUsed := true } := fun t => .same rfl id
  unfold onRequestWritten
  dsimp only
  cases hc : c.ok with
  | false =>
    simp only [Bool.not_false,if_true,Bool.false_eq_true,if_false]
    split
    · exact (hused _).trans (acts_retryUpstreamWriteOnce (by exact ho) _)
    · exact .close _
  | true =>
    simp only [Bool.not_true,Bool.false_eq_true,if_false,if_true]
    exact (acts_upstreamWritten s data c).trans (acts_pullAndWriteRequest _)

theorem acts_onRetryWritten (s : HttpSession G) (data : Bytes) (c : Completion) :
    Acts (s.emit (if c.ok then .upstreamWritten data c.written
      else .upstreamWriteFailed data c.written)) (s.onRetryWritten data c) := by
  unfold onRetryWritten
  cases hc : c.ok with
  | false => simpa using Acts.close _
  | true => simpa using (acts_upstreamWritten s data c).trans (acts_pullAndWriteRequest _)

theorem acts_onRereadWritten (s : HttpSession G) (data : Bytes) (c : Completion) :
    Acts (s.emit (if c.ok then .upstreamWritten data c.written
      else .upstreamWriteFailed data c.written)) (s.onRereadWritten data c) := by
  have hwrote : Acts (s.emit (.upstreamWritten data c.written)) (s.upstreamWritten data c) :=
    (Acts.refl _).emit rfl rfl
  unfold onRereadWritten
  cases hc : c.ok with
  | false => simpa using Acts.close _
  | true => simpa using hwrote.trans (acts_startResponsePhase _)

/-- A read goes to the front of the read buffer. -/
theorem acts_read {s t : HttpSession G} {data : Bytes} (hlen : data.length ≤ G.bufferSize)
    (h : t.vitals =
      { s with readBuf := s.readBuf.map fun b : Buffer => b.write data }.vitals)
    (hd : s.directResponseMode = true → t.directResponseMode = true) : Acts s t := by
  simp only [vitals,Prod.mk.injEq] at h
  obtain ⟨hlog,hpast,hc,hu,hr,hw⟩ := h
  refine .frame ⟨hlog,hpast,hc,hu,?_,by rw [hw],fun hs => ⟨?_,by simpa [hw] using hs.2⟩,hd⟩
  · rw [hr,Option.map_map]
    rfl
  · cases hb : s.readBuf with
    | none => simp [hr,hb]
    | some b =>
      have hsize := hs.1 b hb
      simp only [hr,hb,Option.map_some,Option.mem_def,Option.some.injEq,forall_eq']
      rw [Buffer.length_write (by omega),hsize]

theorem acts_onRequestRead {s : HttpSession G} (ho : s.closing = false)
    (hd : s.directResponseMode = false) {c : Completion}
    (hlen : c.data.length ≤ G.bufferSize) (a : Answers G) :
    Acts (s.emit (if c.ok then .downstreamRead c.data else .downstreamReadFailed))
      (s.onRequestRead c a) := by
  have hnote : Acts (s.emit (.downstreamRead c.data)) (s.noteRequestRead c.data) := acts_read hlen rfl id
  unfold onRequestRead
  cases hc : c.ok with
  | false => simpa using Acts.close _
  | true =>
    simp only [Bool.not_true,Bool.false_eq_true,if_false,if_true]
    exact hnote.trans (acts_processDownstreamChunk (by exact ho) (by exact hd) c.data a)

theorem acts_onResponseRead {s : HttpSession G} (ho : s.closing = false) {c : Completion}
    (hlen : c.data.length ≤ G.bufferSize) :
    Acts (s.emit (if c.ok then .upstreamRead c.data else .upstreamReadFailed))
      (s.onResponseRead c) := by
  have hnote : Acts (s.emit (.upstreamRead c.data)) (s.noteResponseRead c.data) := acts_read hlen rfl id
  have hused : ∀ t : HttpSession G, Acts t { t with upstreamRetryUsed := true } := fun t => .same rfl id
  unfold onResponseRead
  dsimp only
  cases hc : c.ok with
  | false =>
    simp only [Bool.not_false,if_true,Bool.false_eq_true,if_false]
    split
    · exact (hused _).trans (acts_retryUpstreamAfterReadFailure (by exact ho))
    · exact .close _
  | true =>
    simp only [Bool.not_true,Bool.false_eq_true,if_false,if_true]
    exact hnote.trans (acts_processUpstreamChunk _ c.data)

theorem acts_onResponseWritten (s : HttpSession G) (data : Bytes) (c : Completion) :
    Acts (s.emit (if c.ok then .downstreamWritten data c.written
      else .downstreamWriteFailed data c.written)) (s.onResponseWritten data c) := by
  unfold onResponseWritten
  cases hc : c.ok with
  | false => simpa using Acts.close _
  | true => simpa using ((Acts.refl _).emit rfl rfl).trans (acts_pullAndWriteResponse _)

/-- A callback of an open session puts the completion on record and then acts. -/
theorem acts_deliver {s : HttpSession G} {e : Event G} (hs : Suspended s) (he : e.op ∈ s.pending)
    (hlen : e.completion.data.length ≤ G.bufferSize) : Acts (s.heard e) (s.deliver e) := by
  have ho := hs.isOpen he
  have hdirect := hs.indirect he
  obtain ⟨op,c,a⟩ := e
  let base : HttpSession G :=
    { s with pending := s.pending.erase op, filterCtx := a.touch s.filterCtx }
  have hframe : Acts (s.heard ⟨op,c,a⟩) (base.heard ⟨op,c,a⟩) := .same rfl id
  refine hframe.trans ?_
  change Acts (base.heard ⟨op,c,a⟩) (handle base ⟨op,c,a⟩)
  have hbase : base.closing = false := ho
  have hindirect : op = .readRequest ∨ op = .readResponse → base.directResponseMode = false := hdirect
  generalize base = t at hbase hindirect
  have hunheard : ∀ op', inputEntry op' c = [] → t.heard ⟨op',c,a⟩ = t := by
    intro op' h
    simp only [heard,h,List.append_nil]
  cases op with
  | readRequest => exact acts_onRequestRead hbase (hindirect (.inl rfl)) hlen a
  | connect =>
    rw [hunheard .connect rfl]
    exact acts_onConnected hbase c false
  | writeRequest data => exact acts_onRequestWritten hbase data c
  | retryConnect n =>
    rw [hunheard (.retryConnect n) rfl]
    exact acts_onRetryConnected hbase n c
  | retryWrite data => exact acts_onRetryWritten t data c
  | rereadConnect =>
    rw [hunheard .rereadConnect rfl]
    exact acts_onRereadConnected hbase c
  | rereadWrite data => exact acts_onRereadWritten t data c
  | readResponse => exact acts_onResponseRead hbase hlen
  | writeResponse data => exact acts_onResponseWritten t data c

end HttpSession
end PerCoreShard
