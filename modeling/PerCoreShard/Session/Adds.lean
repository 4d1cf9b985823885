import PerCoreShard.Session.History

/-! Which functions of the session ask the gate about the request and write to the upstream:
what each of them adds to the log, as far as these two kinds of entries go. -/
namespace PerCoreShard
open Library

/-- The gate is asked about a piece of the request. -/
def Effect.asks : Effect → Bool
  | .gateRequest _ => true
  | _ => false

/-- Bytes of the request are handed to an upstream socket. -/
def Effect.writes : Effect → Bool
  | .writeUpstream _ => true
  | _ => false

namespace HttpSession
variable {G : Gateway} {p : Effect → Bool}

/-- From `s` to `t` the log of the cycle grew, by entries that satisfy `p`. -/
structure Adds (p : Effect → Bool) (s t : HttpSession G) : Prop where
  past : t.past = s.past
  log : ∃ es, t.log = s.log ++ es ∧ ∀ e ∈ es, p e = true

/-- Every property of the entries that holds of those with `p` is kept, over the end of a cycle
as well. -/
def Keeps (p : Effect → Bool) (s t : HttpSession G) : Prop :=
  ∀ R : List Effect → Effect → Prop, (∀ past e, p e = true → R past e) → Each R s → Each R t

namespace Adds

theorem same {s t : HttpSession G} (hlog : t.log = s.log) (hpast : t.past = s.past) : Adds p s t :=
  ⟨hpast,[],by simp [hlog],by simp⟩

theorem refl (s : HttpSession G) : Adds p s s := .same rfl rfl

theorem trans {s t u : HttpSession G} (h : Adds p s t) (h' : Adds p t u) : Adds p s u := by
  obtain ⟨es,hlog,hes⟩ := h.log
  obtain ⟨es',hlog',hes'⟩ := h'.log
  exact ⟨h'.past.trans h.past,es ++ es',by rw [hlog',hlog,List.append_assoc],
    List.forall_mem_append.mpr ⟨hes,hes'⟩⟩

theorem emit {s t : HttpSession G} (h : Adds p s t) {e : Effect} (he : p e = true) :
    Adds p s (t.emit e) :=
  h.trans ⟨rfl,[e],rfl,by simpa using he⟩

theorem keeps {s t : HttpSession G} (h : Adds p s t) : Keeps p s t := by
  obtain ⟨es,hlog,hes⟩ := h.log
  exact fun R hR hs => hs.extend h.past hlog
    (along_of_forall (fun e he past => hR past e (hes e he)) s.log)

end Adds

theorem Keeps.trans {s t u : HttpSession G} (h : Keeps p s t) (h' : Keeps p t u) : Keeps p s u :=
  fun R hR hs => h' R hR (h R hR hs)

section
variable (hp : ∀ e : Effect, e.asks = false → e.writes = false → p e = true)
include hp

theorem adds_close (s : HttpSession G) : Adds p s s.close := by
  cases hc : s.closing with
  | true => exact .same (by rw [close_of_closing hc]) (by rw [close_of_closing hc])
  | false =>
    have hes : ∀ e ∈ s.closingEffects, e.asks = false ∧ e.writes = false := by
      cases hu : s.upstream <;> cases hr : s.readBuf <;> cases hw : s.writeBuf <;>
        simp [closingEffects,hu,hr,hw,Effect.asks,Effect.writes]
    rw [close_eq hc]
    exact ⟨rfl,_,rfl,fun e he => hp e (hes e he).1 (hes e he).2⟩

theorem adds_readRequestChunk (s : HttpSession G) : Adds p s s.readRequestChunk :=
  ((Adds.refl s).emit (hp .readDownstream rfl rfl)).trans (.same rfl rfl)

theorem adds_readResponseChunk (s : HttpSession G) : Adds p s s.readResponseChunk :=
  ((Adds.refl s).emit (hp .readUpstream rfl rfl)).trans (.same rfl rfl)

theorem adds_startResponse (s : HttpSession G) (head : ResponseHead) :
    Adds p s (s.startResponse head) := by
  refine Adds.emit ?_ (hp _ rfl rfl)
  exact .same rfl rfl

theorem adds_provideResponse (s : HttpSession G) (chunk : Bytes) (isLast : Bool) :
    Adds p s (s.provideResponse chunk isLast) := by
  refine Adds.emit ?_ (hp _ rfl rfl)
  exact .same rfl rfl

theorem adds_provideRequest (s : HttpSession G) (chunk : Bytes) (isLast : Bool) :
    Adds p s (s.provideRequest chunk isLast) := by
  refine Adds.emit ?_ (hp _ rfl rfl)
  exact .same rfl rfl

theorem adds_pullAndWriteDirect {s : HttpSession G} (hd : s.directResponseMode = true) :
    Adds p s s.pullAndWriteResponseToDownstream := by
  have h : Adds p s s.afterResponsePull := .same rfl rfl
  have hdirect : s.afterResponsePull.directResponseMode = true := hd
  rw [pullAndWriteResponseToDownstream_eq,finishCycle_of_direct hdirect,hd]
  split
  · split
    · exact h.trans (adds_close hp _)
    · exact h.trans (adds_close hp _)
  · exact (h.emit (hp _ rfl rfl)).trans (.same rfl rfl)

/-- A session that answers itself does not go back for another request. -/
theorem adds_respondDirectly (s : HttpSession G) (head : ResponseHead) (body : Bytes) :
    Adds p s (s.respondDirectly head body) := by
  have h : Adds p s ({ s with directResponseMode := true }.emit (.respondDirectly head body)) := by
    refine Adds.emit ?_ (hp _ rfl rfl)
    exact .same rfl rfl
  exact ((h.trans (adds_startResponse hp _ _)).trans (adds_provideResponse hp _ _ _)).trans
    (adds_pullAndWriteDirect hp rfl)

theorem keeps_finishCycle (s : HttpSession G) : Keeps p s s.finishCycle := by
  have hrelease : Adds p s s.releaseUpstream := by
    obtain heq | ⟨socket,-,heq⟩ := s.releaseUpstream_cases
    · exact .same (by rw [heq]) (by rw [heq])
    · rw [heq]
      exact ⟨rfl,_,rfl,by simpa using hp (.releaseConnection s.endpointIndex socket) rfl rfl⟩
  unfold finishCycle
  dsimp only
  split
  · refine hrelease.keeps.trans fun R hR hs log hlog => ?_
    rcases List.mem_append.mp hlog with hpast | hlast
    · rcases List.mem_append.mp hpast with hpast | hnew
      · exact hs log (List.mem_append_left _ hpast)
      · rw [List.mem_singleton.mp hnew]
        exact (atEvery_append R _ _).mpr ⟨hs _ (by simp [cycles]),hR _ _ (hp _ rfl rfl),trivial⟩
    · rw [List.mem_singleton.mp hlast]
      exact ⟨hR _ _ (hp _ rfl rfl),trivial⟩
  · exact (hrelease.trans (adds_close hp _)).keeps

theorem keeps_pullAndWriteResponse (s : HttpSession G) :
    Keeps p s s.pullAndWriteResponseToDownstream := by
  have h : Adds p s s.afterResponsePull := .same rfl rfl
  rw [pullAndWriteResponseToDownstream_eq]
  split
  · split
    · exact h.keeps.trans (keeps_finishCycle hp _)
    · split
      · exact (h.trans (adds_readResponseChunk hp _)).keeps
      · exact (h.trans (adds_close hp _)).keeps
  · exact ((h.emit (hp _ rfl rfl)).trans (.same rfl rfl)).keeps

theorem adds_startResponsePhase (s : HttpSession G) : Adds p s s.startResponsePhase := by
  refine Adds.trans (Adds.emit ?_ (hp _ rfl rfl)) (adds_readResponseChunk hp _)
  exact .same rfl rfl

theorem adds_filterResponseHead (s : HttpSession G) : Adds p s s.filterResponseHead.2 := by
  have h : Adds p s s.afterResponseFilter := by
    refine Adds.emit ?_ (hp _ rfl rfl)
    exact .same rfl rfl
  have hrelay : ∀ (t : HttpSession G) head, Adds p t (t.relayResponseHead head) := by
    intro t head
    refine Adds.emit ?_ (hp _ rfl rfl)
    exact .same rfl rfl
  rw [filterResponseHead_eq]
  split
  · split
    · exact h.trans (adds_respondDirectly hp _ _ _)
    · exact h.trans (hrelay _ _)
  · exact .refl s

theorem adds_processResponseDataChunk (s : HttpSession G) (chunk : Bytes) (endStream : Bool) :
    Adds p s (s.processResponseDataChunk chunk endStream).2 := by
  have h : Adds p s (s.afterResponseGate chunk endStream) := by
    refine Adds.emit ?_ (hp _ rfl rfl)
    exact .same rfl rfl
  rw [processResponseDataChunk_eq]
  split
  · exact h.trans (adds_respondDirectly hp _ _ _)
  · exact h
  · refine Adds.trans ?_ (adds_provideResponse hp _ _ _)
    exact h.trans (.same rfl rfl)

theorem adds_drainResponse (s : HttpSession G) : Adds p s s.drainResponse.2 := by
  unfold drainResponse
  split
  · exact drainLoop_related _ _ _ Adds.refl (fun _ _ _ => Adds.trans) (fun _ => .same rfl rfl)
      (fun _ _ _ => adds_processResponseDataChunk hp _ _ _) _ _ _
  · exact .refl s

theorem adds_responseStuck (s : HttpSession G) : Adds p s s.responseStuck.2 := by
  unfold responseStuck
  split
  · exact adds_close hp s
  · exact .refl s

theorem keeps_processUpstreamChunk (s : HttpSession G) (raw : Bytes) :
    Keeps p s (s.processUpstreamChunk raw) := by
  have hfeed : ∀ raw (t : HttpSession G), Adds p t (t.feedResponse raw).2 :=
    fun _ _ => .same rfl rfl
  have hloop := relayLoop_related Adds.refl (fun _ _ _ => Adds.trans) hfeed
    (adds_filterResponseHead hp) (adds_drainResponse hp) (adds_responseStuck hp)
    (raw.length + 1) raw s
  have hfinal : ∀ t : HttpSession G, Adds p t t.provideFinalResponseBody := by
    intro t
    unfold provideFinalResponseBody
    split
    · refine Adds.trans ?_ (adds_provideResponse hp _ _ _)
      exact .same rfl rfl
    · exact .refl t
  unfold processUpstreamChunk continueResponse
  dsimp only
  split
  · split
    · exact (hloop.trans (adds_readResponseChunk hp _)).keeps
    · exact (hloop.trans (hfinal _)).keeps.trans (keeps_pullAndWriteResponse hp _)
  · exact hloop.keeps

theorem adds_discardUpstream (s : HttpSession G) : Adds p s s.discardUpstream := by
  rw [discardUpstream_spec]
  exact ⟨rfl,_,rfl,by simpa using fun u _ => hp (.closeUpstream u) rfl rfl⟩

theorem keeps_onResponseRead (s : HttpSession G) (c : Completion) :
    Keeps p s (s.onResponseRead c) := by
  unfold onResponseRead
  dsimp only
  split
  · have h : Adds p s (s.emit .upstreamReadFailed) := (Adds.refl s).emit (hp _ rfl rfl)
    split
    · refine Adds.keeps (Adds.trans (Adds.emit (Adds.trans (Adds.emit ?_ (hp _ rfl rfl))
        (adds_discardUpstream hp _)) (hp _ rfl rfl)) (.same rfl rfl))
      exact h.trans (.same rfl rfl)
    · exact (h.trans (adds_close hp _)).keeps
  · refine Keeps.trans (Adds.keeps (Adds.emit ?_ (hp _ rfl rfl))) (keeps_processUpstreamChunk hp _ _)
    exact .same rfl rfl

theorem keeps_onResponseWritten (s : HttpSession G) (data : Bytes) (c : Completion) :
    Keeps p s (s.onResponseWritten data c) := by
  unfold onResponseWritten
  split
  · exact (((Adds.refl s).emit (hp _ rfl rfl)).trans (adds_close hp _)).keeps
  · exact (((Adds.refl s).emit (hp _ rfl rfl)).emit (hp _ rfl rfl)).keeps.trans
      (keeps_pullAndWriteResponse hp _)

theorem adds_takeUpstream (s : HttpSession G) (socket : SocketId) (pooled : Bool) :
    Adds p s (s.takeUpstream socket pooled) := by
  rw [takeUpstream_spec,List.append_assoc]
  refine ⟨rfl,_,rfl,List.forall_mem_append.mpr ⟨?_,?_⟩⟩
  · simpa using fun u _ => hp (.dropUpstream u) rfl rfl
  · simpa using hp (.connected socket pooled) rfl rfl

/-- What a connection attempt comes to that hands over no socket. -/
theorem adds_connectError (s : HttpSession G) :
    Adds p s (s.emit .upstreamConnectError).close :=
  ((Adds.refl s).emit (hp _ rfl rfl)).trans (adds_close hp _)

theorem adds_acquire (s : HttpSession G) (a : Answers G) :
    Adds p s (({ s with endpointIndex := a.endpoint }.emit (.selectEndpoint a.endpoint)).emit
      (.acquireConnection a.endpoint)) := by
  refine Adds.emit (Adds.emit ?_ (hp _ rfl rfl)) (hp _ rfl rfl)
  exact .same rfl rfl

theorem adds_connectUpstream_of_none (s : HttpSession G) {a : Answers G} (h : a.pooled = none) :
    Adds p s (s.connectUpstream a) := by
  unfold connectUpstream
  simp only [h]
  exact (adds_acquire hp s a).trans (.same rfl rfl)

theorem adds_provideFinalRequestBody (s : HttpSession G) :
    Adds p s s.provideFinalRequestBody := by
  unfold provideFinalRequestBody
  split
  · refine Adds.trans ?_ (adds_provideRequest hp _ _ _)
    exact .same rfl rfl
  · exact .refl s

/-- The socket that is at hand when the loop of `process_downstream_chunk` has ended. -/
def socketAtHand (s : HttpSession G) (a : Answers G) : Option SocketId :=
  if s.upstreamConnecting then s.upstream else a.pooled

/-- With no socket at hand nothing is written. -/
theorem adds_continueRequest_of_none {s : HttpSession G} {a : Answers G}
    (h : s.socketAtHand a = none) : Adds p s (s.continueRequest a) := by
  have hfinal := adds_provideFinalRequestBody hp s
  have hconnecting : s.provideFinalRequestBody.upstreamConnecting = s.upstreamConnecting := by
    unfold provideFinalRequestBody
    split <;> rfl
  have hupstream : s.provideFinalRequestBody.upstream = s.upstream := by
    unfold provideFinalRequestBody
    split <;> rfl
  unfold socketAtHand at h
  unfold continueRequest
  split
  · exact adds_readRequestChunk hp s
  · dsimp only
    rw [hconnecting,hupstream]
    cases hc : s.upstreamConnecting with
    | false =>
      rw [hc] at h
      have hpooled : a.pooled = none := by simpa using h
      simp only [Bool.not_false,if_true]
      refine Adds.trans ?_ (adds_connectUpstream_of_none hp _ hpooled)
      exact hfinal.trans (.same rfl rfl)
    | true =>
      rw [hc] at h
      have hnone : s.upstream = none := by simpa using h
      simpa [hnone] using hfinal

end

section
variable (hp : ∀ e : Effect, e.asks = false → p e = true)
include hp

theorem adds_pullAndWriteRequest (s : HttpSession G) :
    Adds p s s.pullAndWriteRequestToUpstream := by
  have h : Adds p s s.afterRequestPull := .same rfl rfl
  have hp' : ∀ e : Effect, e.asks = false → e.writes = false → p e = true := fun e he _ => hp e he
  rw [pullAndWriteRequestToUpstream_eq]
  split
  · split
    · exact h.trans (adds_startResponsePhase hp' _)
    · split
      · exact h.trans (adds_readRequestChunk hp' _)
      · exact h.trans (adds_close hp' _)
  · obtain ⟨captured,snapshot,heq,-⟩ := s.afterRequestPull.captureWholeRequest_eq
      (s.requestSerializer.pull s.writeBufSize).1
    rw [heq]
    refine Adds.trans (Adds.emit ?_ (hp (.writeUpstream _) rfl)) (.same rfl rfl)
    exact h.trans (.same rfl rfl)

theorem adds_onConnected (s : HttpSession G) (c : Completion) (pooled : Bool) :
    Adds p s (s.onConnected c pooled) := by
  have hp' : ∀ e : Effect, e.asks = false → e.writes = false → p e = true := fun e he _ => hp e he
  unfold onConnected
  split
  · exact (adds_takeUpstream hp' _ _ _).trans (adds_pullAndWriteRequest hp _)
  · exact adds_connectError hp' s

theorem adds_connectUpstream (s : HttpSession G) (a : Answers G) :
    Adds p s (s.connectUpstream a) := by
  have hacquire := adds_acquire (fun e he _ => hp e he) s a
  unfold connectUpstream
  dsimp only
  split
  · exact hacquire.trans (adds_onConnected hp _ _ _)
  · exact hacquire.trans (.same rfl rfl)

theorem adds_continueRequest (s : HttpSession G) (a : Answers G) :
    Adds p s (s.continueRequest a) := by
  have hp' : ∀ e : Effect, e.asks = false → e.writes = false → p e = true := fun e he _ => hp e he
  have hfinal := adds_provideFinalRequestBody hp' s
  unfold continueRequest
  split
  · exact adds_readRequestChunk hp' s
  · dsimp only
    split
    · refine Adds.trans ?_ (adds_connectUpstream hp _ a)
      exact hfinal.trans (.same rfl rfl)
    · split
      · exact hfinal.trans (adds_pullAndWriteRequest hp _)
      · exact hfinal

theorem adds_onRequestWritten (s : HttpSession G) (data : Bytes) (c : Completion) :
    Adds p s (s.onRequestWritten data c) := by
  have hp' : ∀ e : Effect, e.asks = false → e.writes = false → p e = true := fun e he _ => hp e he
  have hfailed : Adds p s (s.emit (.upstreamWriteFailed data c.written)) :=
    (Adds.refl s).emit (hp _ rfl)
  unfold onRequestWritten
  dsimp only
  split
  · split
    · refine Adds.trans (Adds.emit (Adds.trans (Adds.emit ?_ (hp _ rfl)) (adds_discardUpstream hp' _))
        (hp _ rfl)) (.same rfl rfl)
      exact hfailed.trans (.same rfl rfl)
    · exact hfailed.trans (adds_close hp' _)
  · refine Adds.trans (Adds.emit (Adds.emit ?_ (hp _ rfl)) (hp _ rfl)) (adds_pullAndWriteRequest hp _)
    exact .same rfl rfl

theorem adds_onRetryWritten (s : HttpSession G) (data : Bytes) (c : Completion) :
    Adds p s (s.onRetryWritten data c) := by
  have hp' : ∀ e : Effect, e.asks = false → e.writes = false → p e = true := fun e he _ => hp e he
  unfold onRetryWritten
  split
  · exact ((Adds.refl s).emit (hp _ rfl)).trans (adds_close hp' _)
  · refine Adds.trans (Adds.emit (Adds.emit ?_ (hp _ rfl)) (hp _ rfl)) (adds_pullAndWriteRequest hp _)
    exact .same rfl rfl

theorem adds_onRereadWritten (s : HttpSession G) (data : Bytes) (c : Completion) :
    Adds p s (s.onRereadWritten data c) := by
  have hp' : ∀ e : Effect, e.asks = false → e.writes = false → p e = true := fun e he _ => hp e he
  unfold onRereadWritten
  split
  · exact ((Adds.refl s).emit (hp _ rfl)).trans (adds_close hp' _)
  · exact (((Adds.refl s).emit (hp _ rfl)).emit (hp _ rfl)).trans (adds_startResponsePhase hp' _)

theorem adds_onRetryConnected (s : HttpSession G) (n : ℕ) (c : Completion) :
    Adds p s (s.onRetryConnected n c) := by
  have hp' : ∀ e : Effect, e.asks = false → e.writes = false → p e = true := fun e he _ => hp e he
  unfold onRetryConnected
  split
  · exact ((adds_takeUpstream hp' _ _ _).emit (hp _ rfl)).trans (.same rfl rfl)
  · exact adds_connectError hp' s

theorem adds_onRereadConnected (s : HttpSession G) (c : Completion) :
    Adds p s (s.onRereadConnected c) := by
  have hp' : ∀ e : Effect, e.asks = false → e.writes = false → p e = true := fun e he _ => hp e he
  unfold onRereadConnected
  split
  · exact ((adds_takeUpstream hp' _ _ _).emit (hp _ rfl)).trans (.same rfl rfl)
  · exact adds_connectError hp' s

end

section
variable (hp : ∀ e : Effect, e.writes = false → p e = true)
include hp

theorem adds_feedRequest (raw : Bytes) (s : HttpSession G) : Adds p s (s.feedRequest raw).2 := by
  unfold feedRequest
  dsimp only
  split
  · refine Adds.emit ?_ (hp _ rfl)
    exact .same rfl rfl
  · exact .same rfl rfl

theorem adds_filterRequestHead (s : HttpSession G) : Adds p s s.filterRequestHead.2 := by
  have h : Adds p s s.afterRequestFilter := by
    refine Adds.emit (Adds.emit ?_ (hp _ rfl)) (hp _ rfl)
    exact .same rfl rfl
  have hforward : ∀ (t : HttpSession G) filtered, Adds p t (t.forwardRequestHead filtered) := by
    intro t filtered
    refine Adds.emit ?_ (hp _ rfl)
    exact .same rfl rfl
  rw [filterRequestHead_eq]
  split
  · split
    · exact h.trans (adds_respondDirectly (fun e _ => hp e) _ _ _)
    · exact h.trans (hforward _ _)
  · exact .refl s

theorem adds_processRequestDataChunk (s : HttpSession G) (chunk : Bytes) (endStream : Bool) :
    Adds p s (s.processRequestDataChunk chunk endStream).2 := by
  have h : Adds p s (s.afterRequestGate chunk endStream) := by
    refine Adds.emit ?_ (hp _ rfl)
    exact .same rfl rfl
  rw [processRequestDataChunk_eq]
  split
  · exact h.trans (adds_respondDirectly (fun e _ => hp e) _ _ _)
  · exact h
  · refine Adds.trans ?_ (adds_provideRequest (fun e _ => hp e) _ _ _)
    exact h.trans (.same rfl rfl)

theorem adds_relayRequest (fuel : ℕ) (raw : Bytes) (s : HttpSession G) :
    Adds p s (relayLoop feedRequest filterRequestHead drainRequest requestStuck fuel raw s).2 := by
  refine relayLoop_related Adds.refl (fun _ _ _ => Adds.trans) (adds_feedRequest hp)
    (adds_filterRequestHead hp) (fun t => ?_) (fun t => ?_) fuel raw s
  · unfold drainRequest
    split
    · exact drainLoop_related _ _ _ Adds.refl (fun _ _ _ => Adds.trans) (fun _ => .same rfl rfl)
        (fun _ _ _ => adds_processRequestDataChunk hp _ _ _) _ _ _
    · exact .refl t
  · unfold requestStuck
    split
    · exact adds_close (fun e _ => hp e) t
    · exact .refl t

end

end HttpSession
end PerCoreShard
