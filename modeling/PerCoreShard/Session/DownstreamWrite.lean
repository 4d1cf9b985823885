import PerCoreShard.Session.Invariant

/-! The invariant is kept by everything the session does to hand a response to the client:
writing, ending the cycle, and responding directly. -/
namespace PerCoreShard
open LlhttpParser

namespace HttpSession
variable {G : Gateway}

theorem Live.readResponseChunk {s : HttpSession G} {c : Cycle} (h : Live s c [])
    (ha : Answering s c [] []) (hdr : c.response.Drained G.responseLlhttp)
    (hm : (c.response.parse G.responseLlhttp).messageDone = false)
    (hh : (c.response.parse G.responseLlhttp).headerDone = true → c.response.head.isSome = true) :
    Suspended s.readResponseChunk := by
  have hl := (h.emit (e := .readUpstream) trivial).await .readResponse
  exact .waiting .readResponse c hl
    ⟨{ ha with request := { ha.request with }, response := { ha.response with } },hdr,hm,hh⟩

theorem Answering.answered {s : HttpSession G} {c : Cycle} (ha : Answering s c [] [])
    (hh : c.response.head.isSome = true) (hd : s.responseSerializer.done = true) :
    c.Answered G := by
  have hf := ha.response.agrees.final_of_done hh hd
  have hw := ha.response.agrees.wire_of_done hh hd
  have hi := ha.response.issued
  simp only [List.append_nil] at hw hi
  exact
    { notDirect := ha.request.notDirect
      notRefused := ha.request.notRefused
      responding := ha.response.responding
      messageDone := (ha.response.agrees.complete hf).1
      final := hf
      started := hh
      sent := hw.symm
      issued := by rw [ha.response.earlier,hi,List.nil_append]
      requestSent := ha.sent }

theorem ResponseState.shouldKeepAlive {s : HttpSession G} {c : Cycle} {held inflight : Bytes}
    (h : ResponseState s c held inflight) :
    s.responseShouldKeepAlive = (c.response.parse G.responseLlhttp).shouldKeepAlive := by
  obtain ⟨p,hp⟩ := Option.isSome_iff_exists.mp h.parser
  have hparser : p = { c.response.parse G.responseLlhttp with scratch := p.scratch } := by
    simpa [responseDirection,theResponseParser,hp] using h.agrees.parser
  simp only [responseShouldKeepAlive,hp,Option.map_some,Option.getD_some]
  rw [hparser]
  rfl

theorem ResponseState.incomplete {s : HttpSession G} {c : Cycle} {held inflight : Bytes}
    (h : ResponseState s c held inflight) :
    s.responseIncomplete = !(c.response.parse G.responseLlhttp).messageDone := by
  obtain ⟨p,hp⟩ := Option.isSome_iff_exists.mp h.parser
  have hparser : p = { c.response.parse G.responseLlhttp with scratch := p.scratch } := by
    simpa [responseDirection,theResponseParser,hp] using h.agrees.parser
  simp only [responseIncomplete,hp,Option.map_some,Option.getD_some]
  rw [hparser]

@[simp] theorem directResponseMode_releaseUpstream (s : HttpSession G) :
    s.releaseUpstream.directResponseMode = s.directResponseMode := by
  unfold releaseUpstream
  split
  · split <;> rfl
  · rfl

@[simp] theorem effective_releaseUpstream (s : HttpSession G) :
    s.releaseUpstream.downstreamKeepAliveEffective = s.downstreamKeepAliveEffective := by
  unfold releaseUpstream
  split
  · split <;> rfl
  · rfl

theorem releaseUpstream_of_keepAlive {s : HttpSession G} {socket : SocketId}
    (hu : s.upstream = some socket) (hd : s.directResponseMode = false)
    (hk : s.responseShouldKeepAlive = true) : s.releaseUpstream =
      { s with upstream := none }.emit (.releaseConnection s.endpointIndex socket) := by
  simp [releaseUpstream,hu,hd,hk]

theorem Live.releaseUpstream {s : HttpSession G} {c : Cycle} (h : Live s c [])
    (ha : Answering s c [] []) (hA : c.Answered G) : Live s.releaseUpstream c [] := by
  unfold HttpSession.releaseUpstream
  split
  next socket hu =>
    split
    next hk =>
      obtain ⟨index,hindex⟩ := Option.isSome_iff_exists.mp ha.chosen
      have hkeep : s.responseShouldKeepAlive = true := by
        simp only [Bool.and_eq_true] at hk
        exact hk.2
      have hl : Live { s with upstream := none } c [] :=
        { h with sound := ⟨h.sound.rules,h.sound.past⟩ }
      refine hl.emit (e := .releaseConnection s.endpointIndex socket) ⟨hA,?_,?_⟩
      · rw [hindex,ha.request.endpoint index hindex]
      · rw [← ha.response.shouldKeepAlive,hkeep]
    next => exact h
  next => exact h

theorem Live.finishCycle {s : HttpSession G} {c : Cycle} (h : Live s c [])
    (ha : Answering s c [] []) (hh : c.response.head.isSome = true)
    (hd : s.responseSerializer.done = true) : Suspended s.finishCycle := by
  have hA := ha.answered hh hd
  have hl := h.releaseUpstream ha hA
  unfold HttpSession.finishCycle
  simp only [directResponseMode_releaseUpstream,effective_releaseUpstream]
  split
  next hk =>
    simp only [Bool.and_eq_true,Bool.not_eq_true'] at hk
    refine hl.resetForNextRequest ⟨hA,ha.response.effective hk.2,fun hkeep => ?_⟩
    obtain ⟨socket,hu⟩ := Option.isSome_iff_exists.mp ha.upstream
    rw [releaseUpstream_of_keepAlive hu hk.1 (ha.response.shouldKeepAlive.trans hkeep)]
    exact ⟨s.endpointIndex,socket,by simp⟩
  next => exact hl.close (ha.settled fun _ => .inr hA.final)

/-- The state after a pull that fills the front of `write_buf_`. -/
def afterResponsePull (s : HttpSession G) : HttpSession G :=
  { s with
    responseSerializer := (s.responseSerializer.pull s.writeBufSize).2
    writeBuf := s.writeBuf.map fun b : Buffer =>
      b.write (s.responseSerializer.pull s.writeBufSize).1 }

theorem pullAndWriteResponseToDownstream_eq (s : HttpSession G) :
    s.pullAndWriteResponseToDownstream =
      if (s.responseSerializer.pull s.writeBufSize).1.isEmpty then
        if s.afterResponsePull.responseSerializer.done then s.afterResponsePull.finishCycle
        else if !s.directResponseMode && s.responseIncomplete then
          s.afterResponsePull.readResponseChunk
        else s.afterResponsePull.close
      else (s.afterResponsePull.emit (.writeDownstream
        (s.responseSerializer.pull s.writeBufSize).1)).await
        (.writeResponse (s.responseSerializer.pull s.writeBufSize).1) := rfl

theorem Live.afterResponsePull {s : HttpSession G} {c : Cycle} (h : Live s c []) :
    Live s.afterResponsePull c [] :=
  { h with
    sound := ⟨h.sound.rules,h.sound.past⟩
    writeBuf := by simpa [HttpSession.afterResponsePull] using h.writeBuf }

/-- A response whose serializer has all that was read of it. -/
structure ProvidedResponse (s : HttpSession G) (c : Cycle) : Prop where
  live : Live s c []
  answering : Answering s c [] []
  drained : c.response.Drained G.responseLlhttp
  head : c.response.head.isSome = true
  complete : (c.response.parse G.responseLlhttp).messageDone = true →
    final c.response.provided = true

theorem ProvidedResponse.pullAndWrite {s : HttpSession G} {c : Cycle} (h : ProvidedResponse s c) :
    Suspended s.pullAndWriteResponseToDownstream := by
  obtain ⟨h,ha,hdr,hh,hf⟩ := h
  have hl := h.afterResponsePull
  have hpull := ha.response.agrees.pull hh s.writeBufSize
  rw [pullAndWriteResponseToDownstream_eq]
  split
  next hempty =>
    have hnil := List.isEmpty_iff.mp hempty
    have ha' : Answering s.afterResponsePull c [] [] :=
      { ha with
        request := { ha.request with }
        response := { ha.response with agrees := hnil ▸ hpull } }
    split
    next hd => exact hl.finishCycle ha' hh hd
    next =>
      split
      next hi =>
        rw [ha.response.incomplete] at hi
        refine hl.readResponseChunk ha' hdr ?_ fun _ => hh
        simp only [Bool.and_eq_true,Bool.not_eq_true'] at hi
        exact hi.2
      next => exact hl.close (ha.settled fun hm => .inr (hf hm))
  next =>
    set data := (s.responseSerializer.pull s.writeBufSize).1 with hdata
    have hissued : c.issued = c.earlier ++ c.response.sent := by
      rw [ha.response.issued,ha.response.earlier,List.append_nil,List.nil_append]
    have hunrefused : c.refused = true → c.replying = true := fun hr => by
      rw [ha.request.notRefused] at hr
      cases hr
    refine .waiting _ _ ((hl.emit (e := .writeDownstream data) ⟨hissued,hpull.next,hunrefused⟩).await _)
      (.inr ⟨?_,hdr,hh,hf⟩)
    refine { ha with
      request := { ha.request with }
      response := { ha.response with agrees := hpull, issued := ?_, readAny := fun hr => ?_ } }
    · change c.issued ++ data = c.response.sent ++ data
      rw [ha.response.issued,List.append_nil]
    · exact ha.response.readAny hr

theorem finishCycle_of_direct {s : HttpSession G} (h : s.directResponseMode = true) :
    s.finishCycle = s.close := by
  have : s.releaseUpstream = s := by
    unfold releaseUpstream
    split <;> simp [h]
  simp [finishCycle,this,h]

theorem directResponseMode_close (s : HttpSession G) :
    s.close.directResponseMode = s.directResponseMode := by
  obtain ⟨_,_,_,_,heq⟩ := s.close_frame
  rw [heq]

theorem direct_pullAndWriteResponse {s : HttpSession G} (h : s.directResponseMode = true) :
    s.pullAndWriteResponseToDownstream.directResponseMode = true := by
  have hdirect : s.afterResponsePull.directResponseMode = true := h
  rw [pullAndWriteResponseToDownstream_eq]
  split
  · split
    · rw [finishCycle_of_direct hdirect,directResponseMode_close,hdirect]
    · simp only [h,Bool.not_true,Bool.false_and,Bool.false_eq_true,if_false]
      rw [directResponseMode_close,hdirect]
  · exact h

theorem direct_respondDirectly (s : HttpSession G) (head : ResponseHead) (body : Bytes) :
    (s.respondDirectly head body).directResponseMode = true :=
  direct_pullAndWriteResponse rfl

theorem Live.pullAndWriteDirect {s : HttpSession G} {c : Cycle} (h : Live s c [])
    (hr : Replying s c []) : Suspended s.pullAndWriteResponseToDownstream := by
  have hl := h.afterResponsePull
  have hp := hr.coherent.pull s.writeBufSize
  have hdirect : s.afterResponsePull.directResponseMode = true := hr.direct
  rw [pullAndWriteResponseToDownstream_eq]
  split
  · split
    · rw [finishCycle_of_direct hdirect]
      exact hl.close hr.settled
    · simp only [hr.direct,Bool.not_true,Bool.false_and,Bool.false_eq_true,if_false]
      exact hl.close hr.settled
  · set data := (s.responseSerializer.pull s.writeBufSize).1 with hdata
    have hwire : c.response.wire = c.response.sent ++ data ++
        (s.responseSerializer.pull s.writeBufSize).2.remaining := by
      rw [hr.wire,hp.remaining,hdata,hp.out]
      simp
    have hissued : c.issued = c.earlier ++ c.response.sent := by
      rw [hr.issued,List.append_nil]
    refine .waiting _ _ ((hl.emit (e := .writeDownstream data)
      ⟨hissued,⟨_,hwire⟩,fun _ => hr.isReplying⟩).await _)
      (.inl ⟨hr.direct,hr.isRefused,hr.isReplying,hp.coherent,hwire,?_,?_⟩)
    · change c.issued ++ data = c.earlier ++ c.response.sent ++ data
      rw [hissued]
    · exact hp.isLastProvided.trans hr.complete

theorem Live.respondDirectly {s : HttpSession G} {c : Cycle} (h : Live s c [])
    (hd : c.direct = false) (hrefused : c.refused = true) {head : ResponseHead} {body : Bytes}
    (hissued : c.issued = [] ∨ ∃ call head body, s.log.getLast? = some (.gateResponse call) ∧
      call.result = .reject head body)
    (hlast : ∃ x, s.log.getLast? = some x ∧ x.reply = some (head,body)) :
    Suspended (s.respondDirectly head body) := by
  have h0 : Live { s with directResponseMode := true } c [] :=
    { h with sound := ⟨h.sound.rules,h.sound.past⟩ }
  have h1 := h0.emit (e := .respondDirectly head body) ⟨hd,hrefused,hissued,hlast⟩
  have h2 := h1.emit (e := .startResponse head) (.inl ⟨body,by simp⟩)
  have h3 := h2.emit (e := .provideResponse body true) (.inl ⟨rfl,rfl,rfl,head,by simp,rfl⟩)
  have hs := Serializer.coherent_start (b := head.bytes) head.headers
    (Serializer.response_bytes_ne_nil head)
  refine Live.pullAndWriteDirect (c := ((c.record (.respondDirectly head body)).record
    (.startResponse head)).record (.provideResponse body true)) ?_ ?_
  · exact { h3 with sound := ⟨h3.sound.rules,h3.sound.past⟩ }
  · refine ⟨rfl,hrefused,rfl,hs.provideBody rfl body true,?_,?_,rfl⟩
    · change head.bytes ++ encodeAll (Ledger.chunked head) [(body,true)] =
        [] ++ [] ++ ((Serializer.start head.bytes head.headers).provideBody body true).remaining
      simp [encodeAll,Ledger.chunked,WireHead.headers]
    · simp [Cycle.record]

end HttpSession
end PerCoreShard
