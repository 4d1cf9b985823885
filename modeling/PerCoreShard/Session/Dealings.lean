import PerCoreShard.Session.Accounts

/-! What one callback asks of `UpstreamManager`, and what becomes of the sockets a session is
given. Apart from closing its connection a callback does one thing at most: it gives the
connection back, or asks for one, or takes the one it was given. -/
namespace PerCoreShard
open Library

/-- The calls of the manager, and the entries about the sockets it hands out. -/
def Effect.deals : Effect → Bool
  | .selectEndpoint _ | .acquireConnection _ | .acquireFreshConnection _ => true
  | .connected _ _ | .dropUpstream _ | .closeUpstream _ | .releaseConnection _ _ => true
  | _ => false

/-- The operation ends with the callback of an acquire call. -/
def Op.connects : Op → Bool
  | .connect | .retryConnect _ | .rereadConnect => true
  | _ => false

namespace HttpSession
variable {G : Gateway}

/-- What closing does to a connection, if there is one. -/
def closes (upstream : Option SocketId) : List Effect := (upstream.map Effect.closeUpstream).toList

/-- The record of what was done from `s` to `t`, as far as the manager is concerned. -/
def Deals (s t : HttpSession G) (es : List Effect) : Prop :=
  ∃ xs, t.history = s.history ++ xs ∧ xs.filter Effect.deals = es

theorem Deals.trans {s t u : HttpSession G} {es es' : List Effect} (h : Deals s t es)
    (h' : Deals t u es') : Deals s u (es ++ es') := by
  obtain ⟨xs,hx,rfl⟩ := h
  obtain ⟨ys,hy,rfl⟩ := h'
  exact ⟨xs ++ ys,by rw [hy,hx,List.append_assoc],List.filter_append xs ys⟩

theorem deals_of_log {s t : HttpSession G} (es : List Effect) (hpast : t.past = s.past)
    (hlog : t.log = s.log ++ es) : Deals s t (es.filter Effect.deals) :=
  ⟨es,history_of_log hpast hlog,rfl⟩

/-- The manager was asked for nothing from `s` to `t`; a session that closed has closed its
connection. -/
structure Apart (s t : HttpSession G) : Prop where
  record : Deals s t (if t.closing && !s.closing then closes s.upstream else [])
  upstream : t.upstream = s.upstream
  endpoint : t.endpointIndex = s.endpointIndex
  connecting : t.upstreamConnecting = true → s.upstreamConnecting = true
  closing : s.closing = true → t.closing = true
  pending : ∀ op ∈ t.pending, op ∈ s.pending ∨ op.connects = false

/-- The members these laws are about. -/
def standing (s : HttpSession G) :
    List Effect × List (List Effect) × Option SocketId × ℕ × Bool × Bool × List Op :=
  (s.log,s.past,s.upstream,s.endpointIndex,s.upstreamConnecting,s.closing,s.pending)

namespace Apart

theorem same {s t : HttpSession G} (h : t.standing = s.standing) : Apart s t := by
  simp only [standing,Prod.mk.injEq] at h
  obtain ⟨hlog,hpast,hu,hi,hc,ho,hp⟩ := h
  refine ⟨?_,hu,hi,fun hn => hc ▸ hn,fun hn => ho.trans hn,fun op hop => .inl (hp ▸ hop)⟩
  have hnone : (t.closing && !s.closing) = false := by rw [ho]; exact Bool.and_not_self _
  rw [hnone]
  exact deals_of_log [] hpast (by simp [hlog])

theorem refl (s : HttpSession G) : Apart s s := .same rfl

theorem trans {s t u : HttpSession G} (h : Apart s t) (h' : Apart t u) : Apart s u where
  record := by
    have hrecord := h.record.trans h'.record
    rw [h.upstream] at hrecord
    have hs := h.closing
    have ht := h'.closing
    cases hc : s.closing <;> cases hc' : t.closing <;> cases hc'' : u.closing <;>
      simp_all
  upstream := h'.upstream.trans h.upstream
  endpoint := h'.endpoint.trans h.endpoint
  connecting hu := h.connecting (h'.connecting hu)
  closing hs := h'.closing (h.closing hs)
  pending op hop := by
    rcases h'.pending op hop with hop | hop
    · exact h.pending op hop
    · exact .inr hop

theorem emit {s t : HttpSession G} (h : Apart s t) {e : Effect} (he : e.deals = false) :
    Apart s (t.emit e) := by
  refine h.trans ⟨?_,rfl,rfl,id,id,fun _ => .inl⟩
  have hrecord : Deals t (t.emit e) ([e].filter Effect.deals) :=
    deals_of_log [e] rfl rfl
  simpa [he] using hrecord

theorem await {s t : HttpSession G} (h : Apart s t) {op : Op} (hop : op.connects = false) :
    Apart s (t.await op) := by
  refine h.trans ⟨?_,rfl,rfl,id,id,fun x hx => ?_⟩
  · have hrecord : Deals t (t.await op) ([].filter Effect.deals) :=
      deals_of_log [] rfl (by simp [HttpSession.await])
    simpa [HttpSession.await] using hrecord
  · rcases List.mem_append.mp hx with hx | hx
    · exact .inl hx
    · exact .inr (List.mem_singleton.mp hx ▸ hop)

theorem close (s : HttpSession G) : Apart s s.close := by
  cases hc : s.closing with
  | true =>
    rw [close_of_closing hc]
    exact .refl s
  | false =>
    rw [close_eq hc]
    refine ⟨?_,rfl,rfl,id,fun _ => rfl,fun _ => .inl⟩
    have hfilter : s.closingEffects.filter Effect.deals = closes s.upstream := by
      cases hu : s.upstream <;> cases hr : s.readBuf <;> cases hw : s.writeBuf <;>
        simp [closingEffects,closes,hu,hr,hw,Effect.deals,List.filter_cons]
    simp only [hc,Bool.not_false,Bool.and_self,if_true]
    rw [← hfilter]
    exact deals_of_log s.closingEffects rfl rfl

theorem resetForNextRequest (s : HttpSession G) : Apart s s.resetForNextRequest := by
  refine ⟨⟨_,history_resetForNextRequest s,?_⟩,rfl,rfl,(fun hn => by cases hn),id,fun op hop => ?_⟩
  · have hopen : (s.resetForNextRequest.closing && !s.closing) = false := Bool.and_not_self s.closing
    rw [hopen]
    rfl
  · rcases List.mem_append.mp hop with hop | hop
    · exact .inl hop
    · exact .inr (List.mem_singleton.mp hop ▸ rfl)

end Apart

theorem apart_readRequestChunk (s : HttpSession G) : Apart s s.readRequestChunk :=
  ((Apart.refl s).emit rfl).await rfl

theorem apart_readResponseChunk (s : HttpSession G) : Apart s s.readResponseChunk :=
  ((Apart.refl s).emit rfl).await rfl

theorem apart_startResponse (s : HttpSession G) (head : ResponseHead) :
    Apart s (s.startResponse head) := by
  refine Apart.emit ?_ rfl
  exact .same rfl

theorem apart_provideResponse (s : HttpSession G) (chunk : Bytes) (isLast : Bool) :
    Apart s (s.provideResponse chunk isLast) := by
  refine Apart.emit ?_ rfl
  exact .same rfl

theorem apart_provideRequest (s : HttpSession G) (chunk : Bytes) (isLast : Bool) :
    Apart s (s.provideRequest chunk isLast) := by
  refine Apart.emit ?_ rfl
  exact .same rfl

theorem apart_pullAndWriteDirect {s : HttpSession G} (hd : s.directResponseMode = true) :
    Apart s s.pullAndWriteResponseToDownstream := by
  have h : Apart s s.afterResponsePull := .same rfl
  have hdirect : s.afterResponsePull.directResponseMode = true := hd
  rw [pullAndWriteResponseToDownstream_eq,finishCycle_of_direct hdirect,hd]
  split
  · split
    · exact h.trans (.close _)
    · exact h.trans (.close _)
  · exact (h.emit rfl).await rfl

/-- A session that answers itself has no use for a connection. -/
theorem apart_respondDirectly (s : HttpSession G) (head : ResponseHead) (body : Bytes) :
    Apart s (s.respondDirectly head body) := by
  have h : Apart s ({ s with directResponseMode := true }.emit (.respondDirectly head body)) := by
    refine Apart.emit ?_ rfl
    exact .same rfl
  exact ((h.trans (apart_startResponse _ _)).trans (apart_provideResponse _ _ _)).trans
    (apart_pullAndWriteDirect rfl)

theorem apart_startResponsePhase (s : HttpSession G) : Apart s s.startResponsePhase := by
  refine Apart.trans (Apart.emit ?_ rfl) (apart_readResponseChunk _)
  exact .same rfl

theorem apart_pullAndWriteRequest (s : HttpSession G) :
    Apart s s.pullAndWriteRequestToUpstream := by
  have h : Apart s s.afterRequestPull := .same rfl
  rw [pullAndWriteRequestToUpstream_eq]
  split
  · split
    · exact h.trans (apart_startResponsePhase _)
    · split
      · exact h.trans (apart_readRequestChunk _)
      · exact h.trans (.close _)
  · obtain ⟨captured,snapshot,heq,-⟩ := s.afterRequestPull.captureWholeRequest_eq
      (s.requestSerializer.pull s.writeBufSize).1
    rw [heq]
    refine Apart.await (Apart.emit ?_ rfl) rfl
    exact h.trans (.same rfl)

theorem apart_provideFinalRequestBody (s : HttpSession G) :
    Apart s s.provideFinalRequestBody := by
  unfold provideFinalRequestBody
  split
  · refine Apart.trans ?_ (apart_provideRequest _ _ _)
    exact .same rfl
  · exact .refl s

theorem apart_provideFinalResponseBody (s : HttpSession G) :
    Apart s s.provideFinalResponseBody := by
  unfold provideFinalResponseBody
  split
  · refine Apart.trans ?_ (apart_provideResponse _ _ _)
    exact .same rfl
  · exact .refl s

theorem apart_feedRequest (raw : Bytes) (s : HttpSession G) : Apart s (s.feedRequest raw).2 := by
  unfold feedRequest
  dsimp only
  split
  · refine Apart.emit ?_ rfl
    exact .same rfl
  · exact .same rfl

theorem apart_filterRequestHead (s : HttpSession G) : Apart s s.filterRequestHead.2 := by
  have h : Apart s s.afterRequestFilter := by
    refine Apart.emit (Apart.emit ?_ rfl) rfl
    exact .same rfl
  have hforward : ∀ (t : HttpSession G) head, Apart t (t.forwardRequestHead head) := by
    intro t head
    refine Apart.emit ?_ rfl
    exact .same rfl
  rw [filterRequestHead_eq]
  split
  · split
    · exact h.trans (apart_respondDirectly _ _ _)
    · exact h.trans (hforward _ _)
  · exact .refl s

theorem apart_processRequestDataChunk (s : HttpSession G) (chunk : Bytes) (endStream : Bool) :
    Apart s (s.processRequestDataChunk chunk endStream).2 := by
  have h : Apart s (s.afterRequestGate chunk endStream) := by
    refine Apart.emit ?_ rfl
    exact .same rfl
  rw [processRequestDataChunk_eq]
  split
  · exact h.trans (apart_respondDirectly _ _ _)
  · exact h
  · refine Apart.trans ?_ (apart_provideRequest _ _ _)
    exact h.trans (.same rfl)

theorem apart_relayRequest (fuel : ℕ) (raw : Bytes) (s : HttpSession G) :
    Apart s (relayLoop feedRequest filterRequestHead drainRequest requestStuck fuel raw s).2 := by
  refine relayLoop_related Apart.refl (fun _ _ _ => Apart.trans) apart_feedRequest
    apart_filterRequestHead (fun t => ?_) (fun t => ?_) fuel raw s
  · unfold drainRequest
    split
    · exact drainLoop_related _ _ _ Apart.refl (fun _ _ _ => Apart.trans) (fun _ => .same rfl)
        (fun _ _ _ => apart_processRequestDataChunk _ _ _) _ _ _
    · exact .refl t
  · unfold requestStuck
    split
    · exact .close t
    · exact .refl t

theorem apart_filterResponseHead (s : HttpSession G) : Apart s s.filterResponseHead.2 := by
  have h : Apart s s.afterResponseFilter := by
    refine Apart.emit ?_ rfl
    exact .same rfl
  have hrelay : ∀ (t : HttpSession G) head, Apart t (t.relayResponseHead head) := by
    intro t head
    refine Apart.emit ?_ rfl
    exact .same rfl
  rw [filterResponseHead_eq]
  split
  · split
    · exact h.trans (apart_respondDirectly _ _ _)
    · exact h.trans (hrelay _ _)
  · exact .refl s

theorem apart_processResponseDataChunk (s : HttpSession G) (chunk : Bytes) (endStream : Bool) :
    Apart s (s.processResponseDataChunk chunk endStream).2 := by
  have h : Apart s (s.afterResponseGate chunk endStream) := by
    refine Apart.emit ?_ rfl
    exact .same rfl
  rw [processResponseDataChunk_eq]
  split
  · exact h.trans (apart_respondDirectly _ _ _)
  · exact h
  · refine Apart.trans ?_ (apart_provideResponse _ _ _)
    exact h.trans (.same rfl)

theorem apart_relayResponse (fuel : ℕ) (raw : Bytes) (s : HttpSession G) :
    Apart s (relayLoop feedResponse filterResponseHead drainResponse responseStuck fuel raw s).2 := by
  refine relayLoop_related Apart.refl (fun _ _ _ => Apart.trans) (fun _ _ => .same rfl)
    apart_filterResponseHead (fun t => ?_) (fun t => ?_) fuel raw s
  · unfold drainResponse
    split
    · exact drainLoop_related _ _ _ Apart.refl (fun _ _ _ => Apart.trans) (fun _ => .same rfl)
        (fun _ _ _ => apart_processResponseDataChunk _ _ _) _ _ _
    · exact .refl t
  · unfold responseStuck
    split
    · exact .close t
    · exact .refl t

/-- The session has given its connection back. -/
def withoutUpstream (s : HttpSession G) (socket : SocketId) : HttpSession G :=
  { s with upstream := none, log := s.log ++ [.releaseConnection s.endpointIndex socket] }

/-- Nothing was asked of the manager, or the connection was given back first. -/
inductive GivesBack (s t : HttpSession G) : Prop
  | apart (h : Apart s t)
  | released (socket : SocketId) (held : s.upstream = some socket)
    (direct : s.directResponseMode = false) (h : Apart (s.withoutUpstream socket) t)

theorem givesBack_finishCycle (s : HttpSession G) : GivesBack s s.finishCycle := by
  have hend : ∀ u : HttpSession G, Apart u
      (if !u.directResponseMode && u.downstreamKeepAliveEffective then u.resetForNextRequest
        else u.close) := by
    intro u
    split
    · exact .resetForNextRequest u
    · exact .close u
  have hfinish : s.finishCycle = (if !s.releaseUpstream.directResponseMode &&
      s.releaseUpstream.downstreamKeepAliveEffective then s.releaseUpstream.resetForNextRequest
        else s.releaseUpstream.close) := rfl
  rw [hfinish]
  unfold releaseUpstream
  split
  next socket hu =>
    split
    next hr =>
      simp only [Bool.and_eq_true,Bool.not_eq_true'] at hr
      exact .released socket hu hr.1 (hend _)
    next => exact .apart (hend s)
  next => exact .apart (hend s)

theorem givesBack_pullAndWriteResponse (s : HttpSession G) :
    GivesBack s s.pullAndWriteResponseToDownstream := by
  have h : Apart s s.afterResponsePull := .same rfl
  have hgiven : ∀ socket, Apart (s.withoutUpstream socket)
      (s.afterResponsePull.withoutUpstream socket) := fun _ => .same rfl
  rw [pullAndWriteResponseToDownstream_eq]
  split
  · split
    · cases givesBack_finishCycle s.afterResponsePull with
      | apart h' => exact .apart (h.trans h')
      | released socket hu hd h' => exact .released socket hu hd ((hgiven socket).trans h')
    · split
      · exact .apart (h.trans (apart_readResponseChunk _))
      · exact .apart (h.trans (.close _))
  · exact .apart ((h.emit rfl).await rfl)

/-- What one callback of a session that waited for `e.op` asked of the manager. -/
inductive Dealing (s : HttpSession G) (e : Event G) (t : HttpSession G) : Prop
  | apart (h : Apart { s with pending := [] } t)
    (refused : e.op.connects = true → t.closing = true ∧
      ∀ socket, ¬(e.completion.ok = true ∧ e.completion.socket = some socket))
  | asked (op : e.op = .readRequest) (pooled : e.answers.pooled = none)
    (record : Deals s t
      [.selectEndpoint e.answers.endpoint,.acquireConnection e.answers.endpoint])
    (upstream : t.upstream = s.upstream) (endpoint : t.endpointIndex = e.answers.endpoint)
    (isOpen : t.closing = false) (pending : t.pending = [.connect])
  | handed (socket : SocketId) (u : HttpSession G) (op : e.op = .readRequest)
    (pooled : e.answers.pooled = some socket)
    (record : Deals s u ([.selectEndpoint e.answers.endpoint,
      .acquireConnection e.answers.endpoint] ++ (s.upstream.map Effect.dropUpstream).toList ++
        [.connected socket true]))
    (upstream : u.upstream = some socket) (endpoint : u.endpointIndex = e.answers.endpoint)
    (isOpen : u.closing = false) (pending : u.pending = []) (h : Apart u t)
  | taken (socket : SocketId) (u : HttpSession G) (op : e.op.connects = true)
    (completion : e.completion.ok = true ∧ e.completion.socket = some socket)
    (record : Deals s u ((s.upstream.map Effect.dropUpstream).toList ++ [.connected socket false]))
    (upstream : u.upstream = some socket) (endpoint : u.endpointIndex = s.endpointIndex)
    (isOpen : u.closing = false) (pending : u.pending = []) (h : Apart u t)
  | retried (op : e.op.connects = false)
    (record : Deals s t (closes s.upstream ++ [.acquireFreshConnection s.endpointIndex]))
    (upstream : t.upstream = none) (endpoint : t.endpointIndex = s.endpointIndex)
    (isOpen : t.closing = false) (pending : ∃ op, t.pending = [op] ∧ op.connects = true)
    (fresh : .connect ∉ t.pending)
  | released (socket : SocketId) (u : HttpSession G) (op : e.op.connects = false)
    (held : s.upstream = some socket) (chosen : s.upstreamConnecting = true)
    (record : Deals s u [.releaseConnection s.endpointIndex socket]) (upstream : u.upstream = none)
    (endpoint : u.endpointIndex = s.endpointIndex) (isOpen : u.closing = false)
    (pending : u.pending = []) (h : Apart u t)

theorem Apart.unclosed {s t : HttpSession G} (h : Apart s t) (ho : t.closing = false) :
    Deals s t [] := by
  have hrecord := h.record
  rw [ho] at hrecord
  exact hrecord

theorem Apart.idle {s t : HttpSession G} (h : Apart s t) (hs : s.pending = []) :
    t.pending.any Op.connects = false := by
  rw [List.any_eq_false]
  intro op hop
  have := (h.pending op hop).resolve_left (by simp [hs])
  simp [this]

/-- The entries of a session that takes a socket. -/
theorem deals_takeUpstream (s : HttpSession G) (socket : SocketId) (pooled : Bool) :
    Deals s (s.takeUpstream socket pooled)
      ((s.upstream.map Effect.dropUpstream).toList ++ [.connected socket pooled]) := by
  rw [takeUpstream_spec,List.append_assoc]
  have h : ((s.upstream.map Effect.dropUpstream).toList ++ [Effect.connected socket pooled]).filter
      Effect.deals = (s.upstream.map Effect.dropUpstream).toList ++ [.connected socket pooled] := by
    cases s.upstream <;> rfl
  rw [← h]
  exact deals_of_log _ rfl (by rw [h])

theorem takeUpstream_hand (s : HttpSession G) (socket : SocketId) (pooled : Bool) :
    (s.takeUpstream socket pooled).upstream = some socket ∧
      (s.takeUpstream socket pooled).endpointIndex = s.endpointIndex ∧
      (s.takeUpstream socket pooled).closing = s.closing ∧
      (s.takeUpstream socket pooled).pending = s.pending := by
  rw [takeUpstream_spec]
  exact ⟨rfl,rfl,rfl,rfl⟩

/-- The entries of a session that throws its socket away and asks for another. -/
theorem deals_retry {s t : HttpSession G} (cause : Retry) (hpast : t.past = s.past)
    (hlog : t.log = s.log ++ (.upstreamRetry cause::closes s.upstream ++
      [.acquireFreshConnection s.endpointIndex])) :
    Deals s t (closes s.upstream ++ [.acquireFreshConnection s.endpointIndex]) := by
  have h : (Effect.upstreamRetry cause::closes s.upstream ++
      [Effect.acquireFreshConnection s.endpointIndex]).filter Effect.deals =
        closes s.upstream ++ [.acquireFreshConnection s.endpointIndex] := by
    unfold closes
    cases s.upstream <;> rfl
  rw [← h]
  exact deals_of_log _ hpast hlog

section
variable {s u : HttpSession G} {e : Event G}

theorem dealing_connectUpstream (h : Apart { s with pending := [] } u) (op : e.op = .readRequest)
    (ho : u.closing = false) (hp : u.pending = []) :
    Dealing s e ({ u with upstreamConnecting := true }.connectUpstream e.answers) := by
  have hu : u.upstream = s.upstream := h.upstream
  have hrecord : Deals s u [] := h.unclosed ho
  set v : HttpSession G := (({ u with
    upstreamConnecting := true
    endpointIndex := e.answers.endpoint }.emit (.selectEndpoint e.answers.endpoint)).emit
      (.acquireConnection e.answers.endpoint)) with hv
  have hasked : Deals s v
      [.selectEndpoint e.answers.endpoint,.acquireConnection e.answers.endpoint] :=
    hrecord.trans (deals_of_log [.selectEndpoint e.answers.endpoint,
      .acquireConnection e.answers.endpoint] rfl (by simp [hv,HttpSession.emit]))
  have hnone : e.answers.pooled = none →
      { u with upstreamConnecting := true }.connectUpstream e.answers = v.await .connect := by
    intro hpooled
    rw [HttpSession.connectUpstream,hpooled]
  have hsome : ∀ socket, e.answers.pooled = some socket →
      { u with upstreamConnecting := true }.connectUpstream e.answers =
        v.onConnected ⟨true,[],0,some socket⟩ true := by
    intro socket hpooled
    rw [HttpSession.connectUpstream,hpooled]
  cases hpooled : e.answers.pooled with
  | none =>
    rw [hnone hpooled]
    refine .asked op hpooled hasked hu rfl ho ?_
    change u.pending ++ [Op.connect] = _
    rw [hp]
    rfl
  | some socket =>
    rw [hsome socket hpooled]
    have hvu : v.upstream = s.upstream := hu
    have htaken := hasked.trans (deals_takeUpstream v socket true)
    rw [hvu,← List.append_assoc] at htaken
    obtain ⟨hheld,hindex,hopen,hidle⟩ := takeUpstream_hand v socket true
    exact .handed socket (v.takeUpstream socket true) op hpooled htaken hheld hindex
      (hopen.trans ho) (hidle.trans hp) (apart_pullAndWriteRequest _)

theorem Dealing.of_apart (h : Apart { s with pending := [] } u) (op : e.op.connects = false) :
    Dealing s e u :=
  .apart h fun hn => by
    rw [op] at hn
    cases hn

theorem dealing_continueRequest (h : Apart { s with pending := [] } u) (op : e.op = .readRequest)
    (ho : u.closing = false) (hp : u.pending = []) :
    Dealing s e (u.continueRequest e.answers) := by
  have hfinal := h.trans (apart_provideFinalRequestBody u)
  have hop : e.op.connects = false := by rw [op]; rfl
  have ho' := (closing_provideFinalRequestBody u).trans ho
  have hp' : u.provideFinalRequestBody.pending = [] := by
    unfold provideFinalRequestBody
    split <;> exact hp
  unfold continueRequest
  split
  · exact .of_apart (h.trans (apart_readRequestChunk _)) hop
  · dsimp only
    split
    · exact dealing_connectUpstream hfinal op ho' hp'
    · split
      · exact .of_apart (hfinal.trans (apart_pullAndWriteRequest _)) hop
      · exact .of_apart hfinal hop

/-- What a retry does, whichever of the two it is. -/
theorem dealing_retry {cause : Retry} {op : Op} (h : Apart { s with pending := [] } u)
    (hop : e.op.connects = false) (ho : u.closing = false) (hp : u.pending = [])
    (hconnects : op.connects = true) (hfresh : op ≠ .connect) :
    Dealing s e (((u.emit (.upstreamRetry cause)).discardUpstream.emit
      (.acquireFreshConnection u.endpointIndex)).await op) := by
  have hrecord := (h.unclosed ho).trans (deals_retry (s := u)
    (t := ((u.emit (.upstreamRetry cause)).discardUpstream.emit
      (.acquireFreshConnection u.endpointIndex)).await op) cause ?_ ?_)
  · rw [h.upstream,h.endpoint] at hrecord
    refine .retried hop (h.endpoint ▸ hrecord) ?_ ?_ ?_ ⟨op,?_,hconnects⟩ ?_
    all_goals rw [discardUpstream_spec]
    · rfl
    · exact h.endpoint
    · exact ho
    · change u.pending ++ [op] = [op]
      rw [hp]
      rfl
    · change .connect ∉ u.pending ++ [op]
      rw [hp]
      simpa using hfresh.symm
  · rw [discardUpstream_spec]
    rfl
  · rw [discardUpstream_spec]
    simp [HttpSession.emit,HttpSession.await,closes]

/-- A callback that is given a socket takes it. -/
theorem dealing_taken {socket : SocketId} (h : Apart { s with pending := [] } u)
    (hop : e.op.connects = true)
    (hc : e.completion.ok = true ∧ e.completion.socket = some socket) (ho : u.closing = false)
    (hp : u.pending = []) {t : HttpSession G} (ht : Apart (u.takeUpstream socket false) t) :
    Dealing s e t := by
  obtain ⟨hheld,hindex,hopen,hidle⟩ := takeUpstream_hand u socket false
  have hrecord := (h.unclosed ho).trans (deals_takeUpstream u socket false)
  rw [h.upstream] at hrecord
  exact .taken socket (u.takeUpstream socket false) hop hc hrecord hheld (hindex.trans h.endpoint)
    (hopen.trans ho) (hidle.trans hp) ht

/-- A callback that is given none closes the session. -/
theorem dealing_unconnected (h : Apart { s with pending := [] } u)
    (hc : ∀ socket, ¬(e.completion.ok = true ∧ e.completion.socket = some socket)) :
    Dealing s e (u.emit .upstreamConnectError).close := by
  exact .apart ((h.emit rfl).trans (.close _)) fun _ => ⟨closing_close _,hc⟩

theorem dealing_givesBack (h : Apart { s with pending := [] } u) (hop : e.op.connects = false)
    (ho : u.closing = false) (hp : u.pending = [])
    (hchosen : u.directResponseMode = false → s.upstreamConnecting = true) {t : HttpSession G}
    (ht : GivesBack u t) : Dealing s e t := by
  cases ht with
  | apart ht => exact .of_apart (h.trans ht) hop
  | released socket hu hd ht =>
    have hgiven : Deals u (u.withoutUpstream socket) [.releaseConnection u.endpointIndex socket] :=
      deals_of_log [.releaseConnection u.endpointIndex socket] rfl rfl
    have hrecord := (h.unclosed ho).trans hgiven
    exact .released socket (u.withoutUpstream socket) hop (h.upstream ▸ hu) (hchosen hd)
      (h.endpoint ▸ hrecord) rfl h.endpoint ho hp ht

/-- A session processes a read until a filter rejects. -/
theorem phases_idle : Phases (G := G)
    (fun s => s.closing = false ∧ s.directResponseMode = false ∧ s.pending = []) fun _ => True where
  frame _ _ hc hd hp _ h := ⟨hc.trans h.1,hd.trans h.2.1,hp.trans h.2.2⟩
  direct _ h := h.2.1
  respond _ _ _ _ := trivial
  close _ _ := trivial

theorem dealing_onRequestRead (h : Apart { s with pending := [] } u) (op : e.op = .readRequest)
    (ho : u.closing = false) (hp : u.pending = []) (hd : u.directResponseMode = false) :
    Dealing s e (u.onRequestRead e.completion e.answers) := by
  have hop : e.op.connects = false := by rw [op]; rfl
  have hnoted : Apart u (u.noteRequestRead e.completion.data) := by
    refine Apart.emit ?_ rfl
    exact .same rfl
  have hloop := (h.trans hnoted).trans (apart_relayRequest (e.completion.data.length + 1)
    e.completion.data (u.noteRequestRead e.completion.data))
  have hidle := phases_idle.relayRequest (e.completion.data.length + 1) e.completion.data
    (u.noteRequestRead e.completion.data) ⟨ho,hd,hp⟩
  unfold onRequestRead processDownstreamChunk
  dsimp only
  split
  · exact .of_apart ((h.emit rfl).trans (.close _)) hop
  · split
    next hgo =>
      obtain ⟨ho',-,hp'⟩ := hidle.resume (by rw [Bool.not_eq_false]; exact hgo)
      exact dealing_continueRequest hloop op ho' hp'
    next => exact .of_apart hloop hop

theorem dealing_onResponseRead (h : Apart { s with pending := [] } u) (op : e.op = .readResponse)
    (ho : u.closing = false) (hp : u.pending = []) (hd : u.directResponseMode = false)
    (hchosen : s.upstreamConnecting = true) : Dealing s e (u.onResponseRead e.completion) := by
  have hop : e.op.connects = false := by rw [op]; rfl
  have hnoted : Apart u (u.noteResponseRead e.completion.data) := by
    refine Apart.emit ?_ rfl
    exact .same rfl
  have hloop := (h.trans hnoted).trans (apart_relayResponse (e.completion.data.length + 1)
    e.completion.data (u.noteResponseRead e.completion.data))
  have hidle := phases_idle.relayResponse (e.completion.data.length + 1) e.completion.data
    (u.noteResponseRead e.completion.data) ⟨ho,hd,hp⟩
  unfold onResponseRead processUpstreamChunk
  dsimp only
  split
  · have hfailed := h.emit (e := .upstreamReadFailed) rfl
    split
    · refine dealing_retry (u := { u.emit .upstreamReadFailed with upstreamRetryUsed := true })
        (hfailed.trans (.same rfl)) hop ho hp rfl (by simp)
    · exact .of_apart (hfailed.trans (.close _)) hop
  · split
    next hgo =>
      obtain ⟨ho',-,hp'⟩ := hidle.resume (by rw [Bool.not_eq_false]; exact hgo)
      unfold continueResponse
      split
      · exact .of_apart (hloop.trans (apart_readResponseChunk _)) hop
      · have hfinal := hloop.trans (apart_provideFinalResponseBody _)
        refine dealing_givesBack hfinal hop ?_ ?_ (fun _ => hchosen) (givesBack_pullAndWriteResponse _)
        all_goals unfold provideFinalResponseBody
        · split <;> exact ho'
        · split <;> exact hp'
    next => exact .of_apart hloop hop

theorem dealing_onResponseWritten (h : Apart { s with pending := [] } u) (data : Bytes)
    (hop : e.op.connects = false) (ho : u.closing = false) (hp : u.pending = [])
    (hchosen : u.directResponseMode = false → s.upstreamConnecting = true) :
    Dealing s e (u.onResponseWritten data e.completion) := by
  unfold onResponseWritten
  split
  · exact .of_apart ((h.emit rfl).trans (.close _)) hop
  · exact dealing_givesBack ((h.emit rfl).emit rfl) hop ho hp hchosen
      (givesBack_pullAndWriteResponse _)

theorem dealing_onRequestWritten (h : Apart { s with pending := [] } u) (data : Bytes)
    (hop : e.op.connects = false) (ho : u.closing = false) (hp : u.pending = []) :
    Dealing s e (u.onRequestWritten data e.completion) := by
  unfold onRequestWritten
  dsimp only
  split
  · have hfailed := h.emit (e := .upstreamWriteFailed data e.completion.written) rfl
    split
    · refine dealing_retry (u := { u.emit (.upstreamWriteFailed data e.completion.written) with
        upstreamRetryUsed := true }) (hfailed.trans (.same rfl)) hop ho hp rfl (by simp)
    · exact .of_apart (hfailed.trans (.close _)) hop
  · refine .of_apart (Apart.trans (Apart.emit (Apart.emit ?_ rfl) rfl)
      (apart_pullAndWriteRequest _)) hop
    exact h.trans (.same rfl)

theorem apart_onRetryWritten (u : HttpSession G) (data : Bytes) (c : Completion) :
    Apart u (u.onRetryWritten data c) := by
  unfold onRetryWritten
  split
  · exact ((Apart.refl u).emit rfl).trans (.close _)
  · refine Apart.trans (Apart.emit (Apart.emit ?_ rfl) rfl) (apart_pullAndWriteRequest _)
    exact .same rfl

theorem apart_onRereadWritten (u : HttpSession G) (data : Bytes) (c : Completion) :
    Apart u (u.onRereadWritten data c) := by
  unfold onRereadWritten
  split
  · exact ((Apart.refl u).emit rfl).trans (.close _)
  · exact (((Apart.refl u).emit rfl).emit rfl).trans (apart_startResponsePhase _)

end

/-- A session that may give its connection back has asked for it in the cycle. -/
theorem Suspended.chosen {s : HttpSession G} {op : Op} (hs : Suspended s) (he : op ∈ s.pending)
    (hop : op = .readResponse ∨ ∃ data, op = .writeResponse data)
    (hd : s.directResponseMode = false) : s.upstreamConnecting = true := by
  cases hs with
  | closed _ _ hidle => simp [hidle] at he
  | waiting op' c live waits =>
    rw [live.pending,List.mem_singleton] at he
    subst he
    have hanswering : Answering s c [] [] ∨ ∃ data, Answering s c [] data := by
      rcases hop with rfl | ⟨data,rfl⟩
      · exact .inl waits.1
      · rcases waits with hr | ⟨ha,-⟩
        · rw [hr.direct] at hd
          cases hd
        · exact .inr ⟨data,ha⟩
    rcases hanswering with ha | ⟨data,ha⟩
    · exact ha.request.connecting.trans ha.chosen
    · exact ha.request.connecting.trans ha.chosen

/-- What a callback asks of the manager is one of a few things. -/
theorem dealing_deliver {s : HttpSession G} {e : Event G} (hs : Suspended s)
    (he : e.op ∈ s.pending) : Dealing s e (s.deliver e) := by
  have ho := hs.isOpen he
  have herase := hs.erase he
  have hindirect := hs.indirect he
  have hchosen := hs.chosen he
  obtain ⟨op,c,a⟩ := e
  set u : HttpSession G := { s with
    pending := s.pending.erase op, filterCtx := a.touch s.filterCtx } with hu
  have h : Apart { s with pending := [] } u := .same (by simp [standing,hu,herase])
  have hopen : u.closing = false := ho
  have hidle : u.pending = [] := herase
  have hunconnected : ∀ x : HttpSession G, x = (u.emit .upstreamConnectError).close →
      (∀ socket, ¬(c.ok = true ∧ c.socket = some socket)) → Dealing s ⟨op,c,a⟩ x := by
    rintro x rfl hc
    exact dealing_unconnected h hc
  change Dealing s ⟨op,c,a⟩ (handle u ⟨op,c,a⟩)
  cases op with
  | readRequest => exact dealing_onRequestRead h rfl hopen hidle (hindirect (.inl rfl))
  | connect =>
    change Dealing s _ (u.onConnected c false)
    unfold onConnected
    split
    next socket hok hsocket =>
      exact dealing_taken h rfl ⟨hok,hsocket⟩ hopen hidle (apart_pullAndWriteRequest _)
    next hn => exact hunconnected _ rfl fun socket hc => hn socket hc.1 hc.2
  | writeRequest data => exact dealing_onRequestWritten h data rfl hopen hidle
  | retryConnect n =>
    change Dealing s _ (u.onRetryConnected n c)
    unfold onRetryConnected
    split
    next socket hok hsocket =>
      exact dealing_taken h rfl ⟨hok,hsocket⟩ hopen hidle (((Apart.refl _).emit rfl).await rfl)
    next hn => exact hunconnected _ rfl fun socket hc => hn socket hc.1 hc.2
  | retryWrite data => exact .of_apart (h.trans (apart_onRetryWritten u data c)) rfl
  | rereadConnect =>
    change Dealing s _ (u.onRereadConnected c)
    unfold onRereadConnected
    split
    next socket hok hsocket =>
      exact dealing_taken h rfl ⟨hok,hsocket⟩ hopen hidle (((Apart.refl _).emit rfl).await rfl)
    next hn => exact hunconnected _ rfl fun socket hc => hn socket hc.1 hc.2
  | rereadWrite data => exact .of_apart (h.trans (apart_onRereadWritten u data c)) rfl
  | readResponse =>
    exact dealing_onResponseRead h rfl hopen hidle (hindirect (.inr rfl))
      (hchosen (.inl rfl) (hindirect (.inr rfl)))
  | writeResponse data =>
    exact dealing_onResponseWritten h data rfl hopen hidle (hchosen (.inr ⟨data,rfl⟩))

/-- A session that is given the connection it waits for goes on writing. -/
theorem writing_of_connected {s : HttpSession G} (h : Suspended s) (hsize : 0 < s.writeBufSize)
    {op : Op} (hop : op ∈ s.pending) (hconnects : op.connects = true) (socket : SocketId)
    (x : Answers G) : Writing (s.deliver ⟨op,⟨true,[],0,some socket⟩,x⟩) := by
  cases h with
  | closed _ _ hidle => simp [hidle] at hop
  | waiting op' c live waits =>
    rw [live.pending,List.mem_singleton] at hop
    subst hop
    have hw := waits.frame (s.pending.erase op) (x.touch s.filterCtx)
    have htake := fun t : HttpSession G => t.takeUpstream_eq socket false
    have hin : ∀ (t : HttpSession G) op', op' ∈ (t.await op').pending := fun t op' =>
      List.mem_append_right _ (List.mem_singleton_self _)
    unfold deliver handle
    cases op with
    | connect =>
      obtain ⟨log,heq⟩ :=
        htake { s with pending := s.pending.erase .connect, filterCtx := x.touch s.filterCtx }
      refine (hw.1.takeUpstream socket false).writing hw.2.2.2 ?_ ?_ <;> rw [heq]
      · exact live.isOpen
      · exact hsize
    | retryConnect n =>
      obtain ⟨log,heq⟩ := htake
        { s with pending := s.pending.erase (.retryConnect n), filterCtx := x.touch s.filterCtx }
      dsimp only [onRetryConnected]
      rw [heq]
      exact ⟨live.isOpen,_,.inr (.inl (hin _ _))⟩
    | rereadConnect =>
      obtain ⟨log,heq⟩ := htake
        { s with pending := s.pending.erase .rereadConnect, filterCtx := x.touch s.filterCtx }
      dsimp only [onRereadConnected]
      rw [heq]
      exact ⟨live.isOpen,_,.inr (.inr (hin _ _))⟩
    | _ => cases hconnects

end HttpSession
end PerCoreShard
