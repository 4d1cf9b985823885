import PerCoreShard.Session.UpstreamWrite

/-! The invariant is kept by everything the session does with bytes read from the client. -/
namespace PerCoreShard
open LlhttpParser

namespace HttpSession
variable {G : Gateway}

def requestCall (s : HttpSession G) (chunk : Bytes) (endStream : Bool) : GateCall :=
  let r := s.bodyFilterGate.applyRequest G.filterChain G.bodyBufferHighWatermarkBytes chunk
    endStream s.filterCtx
  ⟨chunk,endStream,r.1,r.2.1.requestState⟩

/-- The state after a call of the gate. -/
def afterRequestGate (s : HttpSession G) (chunk : Bytes) (endStream : Bool) : HttpSession G :=
  let r := s.bodyFilterGate.applyRequest G.filterChain G.bodyBufferHighWatermarkBytes chunk
    endStream s.filterCtx
  { s with bodyFilterGate := r.2.1, filterCtx := r.2.2 }.emit
    (.gateRequest (s.requestCall chunk endStream))

theorem processRequestDataChunk_eq (s : HttpSession G) (chunk : Bytes) (endStream : Bool) :
    s.processRequestDataChunk chunk endStream =
      match (s.requestCall chunk endStream).result with
      | .reject head body => (false,(s.afterRequestGate chunk endStream).respondDirectly head body)
      | .stillBuffering => (true,s.afterRequestGate chunk endStream)
      | .forward data =>
        (true,{ s.afterRequestGate chunk endStream with
          requestFinalBodyProvided := endStream || s.requestFinalBodyProvided }.provideRequest
          data endStream) := rfl

/-- A request that is not complete in the serializer was not captured. -/
theorem RequestState.not_captured {s : HttpSession G} {c : Cycle} {held inflight : Bytes}
    (h : RequestState s c held inflight) (hf : final c.request.provided = false) :
    s.upstreamWholeRequestCaptured = false := by
  cases hc : s.upstreamWholeRequestCaptured with
  | false => rfl
  | true =>
    have := (h.captured hc).2
    rw [hf] at this
    cases this

/-- The last entry of the log was made while a read is processed. -/
def Reading (s : HttpSession G) : Prop := s.log.getLast?.any Effect.ofRead = true

theorem Reading.emit (s : HttpSession G) {e : Effect} (he : e.ofRead = true) : Reading (s.emit e) := by
  simp [Reading,he]

theorem Live.processRequestDataChunk {s : HttpSession G} {c : Cycle} {chunk more : Bytes}
    {endStream : Bool} (h : Live s c []) (hrd : Reading s) (hr : Receiving s c (chunk ++ more))
    (hh : c.request.head.isSome = true) (hf : final c.request.provided = false)
    (hne : chunk ≠ [])
    (he : endStream = ((more ++ s.requestParser.scratch).isEmpty && s.requestParser.messageDone)) :
    if (s.processRequestDataChunk chunk endStream).1 then
      ∃ c', Live (s.processRequestDataChunk chunk endStream).2 c' [] ∧
        Receiving (s.processRequestDataChunk chunk endStream).2 c' more ∧
        c'.request.head = c.request.head ∧ c'.request.input = c.request.input ∧
        c'.unread = c.unread ∧
        (s.processRequestDataChunk chunk endStream).2.requestParser = s.requestParser ∧
        (s.processRequestDataChunk chunk endStream).2.requestFiltered = s.requestFiltered ∧
        Reading (s.processRequestDataChunk chunk endStream).2 ∧
        (endStream = false → final c'.request.provided = false)
    else Suspended (s.processRequestDataChunk chunk endStream).2 ∧
      (s.processRequestDataChunk chunk endStream).2.directResponseMode = true := by
  have hstep := hr.agrees.gateStep G.filterChain G.bodyBufferHighWatermarkBytes true hh hf hne he s.filterCtx
  have hend : endStream = true → _ := fun ht => hr.agrees.endStream (ht ▸ he)
  have hcap := hr.not_captured hf
  have h0 : Live (s.afterRequestGate chunk endStream)
      (c.record (.gateRequest (s.requestCall chunk endStream))) [] :=
    Live.emit (s := { s with bodyFilterGate := _, filterCtx := _ })
      { h with sound := ⟨h.sound.rules,h.sound.past⟩ }
      ⟨hrd,hr.notDirect,hr.notResponding,hr.notRefused,hstep⟩
  rw [processRequestDataChunk_eq]
  cases hres : (s.requestCall chunk endStream).result with
  | reject head body =>
    simp only [Bool.false_eq_true,if_false]
    have hrefused : (c.record (.gateRequest (s.requestCall chunk endStream))).refused = true := by
      simp [Cycle.record,hres,GateResult.rejects]
    refine ⟨h0.respondDirectly hr.notDirect hrefused (.inl hr.issued)
      ⟨.gateRequest (s.requestCall chunk endStream),?_,?_⟩,direct_respondDirectly _ _ _⟩
    · simp [HttpSession.afterRequestGate]
    · simp [Effect.reply,GateResult.reply,hres]
  | stillBuffering =>
    simp only [if_true]
    have hag := hr.agrees.buffer (s.requestCall chunk endStream) hh hf hres
    refine ⟨_,h0,?_,rfl,rfl,rfl,rfl,rfl,Reading.emit _ rfl,fun _ => hf⟩
    exact { hr with
      agrees := hag
      notRefused := by simp [Cycle.record,hr.notRefused,hres,GateResult.rejects]
      captured := fun hc => by
        rw [show s.upstreamWholeRequestCaptured = true from hc] at hcap
        cases hcap }
  | forward data =>
    simp only [if_true]
    have hag := hr.agrees.forward (s.requestCall chunk endStream) hh hf hres hend
    have hpiece := forwards_append_forward c.request.gates
      (s.requestCall chunk endStream) hres
    rw [← hr.agrees.provided hf] at hpiece
    have h1 := Live.emit (e := .provideRequest data endStream)
      (s := { s.afterRequestGate chunk endStream with
        requestFinalBodyProvided := endStream || s.requestFinalBodyProvided })
      { h0 with sound := ⟨h0.sound.rules,h0.sound.past⟩ }
      ⟨by simp [HttpSession.afterRequestGate,Effect.ofRead],hr.notDirect,hh,hf,.inl hpiece.symm⟩
    refine ⟨_,{ h1 with sound := ⟨h1.sound.rules,h1.sound.past⟩ },?_,rfl,rfl,rfl,rfl,rfl,
      Reading.emit _ rfl,fun hs => ?_⟩
    · exact { hr with
        agrees := hag
        notRefused := by simp [Cycle.record,hr.notRefused,hres,GateResult.rejects]
        captured := fun hc => by
          rw [show s.upstreamWholeRequestCaptured = true from hc] at hcap
          cases hcap }
    · change final (c.request.provided ++ [(data,endStream)]) = false
      simp [hf,hs]

/-- What holds while a request body is drained. -/
def DrainingRequest (c₀ : Cycle) (held : Bytes) (s : HttpSession G) : Prop :=
  ∃ c, Live s c [] ∧ Receiving s c held ∧ c.request.head = c₀.request.head ∧
    c.request.input = c₀.request.input ∧ c.unread = c₀.unread ∧ s.requestFiltered = true ∧
    Reading s

/-- Either everything was drained, or a filter rejected and the session answers itself. -/
theorem Live.drainRequest {s : HttpSession G} {c : Cycle} (h : Live s c []) (hrd : Reading s)
    (hr : Receiving s c []) (hf : final c.request.provided = false)
    (hstart : s.requestFiltered = true ∨ s.requestParser.headerDone = false) :
    if s.drainRequest.1 then
      ∃ c', Live s.drainRequest.2 c' [] ∧ Receiving s.drainRequest.2 c' [] ∧
        c'.request.head = c.request.head ∧ c'.request.input = c.request.input ∧
        c'.unread = c.unread ∧
        (s.drainRequest.2.requestFiltered = true ∨
          s.drainRequest.2.requestParser.headerDone = false) ∧ Reading s.drainRequest.2 ∧
        (c'.request.head.isSome = true → s.drainRequest.2.requestParser.scratch = [])
    else Suspended s.drainRequest.2 := by
  cases hs : s.requestSerializerStarted with
  | false =>
    have hn : c.request.head.isSome = false := hr.agrees.started.symm.trans hs
    simp only [HttpSession.drainRequest,hs,Bool.false_eq_true,if_false,if_true]
    exact ⟨c,h,hr,rfl,rfl,rfl,hstart,hrd,fun hc => by simp [hn] at hc⟩
  | true =>
    have hh : c.request.head.isSome = true := hr.agrees.started.symm.trans hs
    have hfiltered : s.requestFiltered = true :=
      hr.agrees.filtered.trans (hr.agrees.passed.trans hh)
    have key := drainLoop_rule (readRequestBody (G := G))
      (fun chunk endStream s => s.processRequestDataChunk chunk endStream)
      (fun s => s.requestParser.messageDone) (fun s => s.requestParser.scratch) bodyScratchSize
      (I := DrainingRequest c)
      (N := fun s => final (cycleOf s.log).request.provided = false)
      (J := fun s => Suspended s ∧ s.directResponseMode = true) (by decide) (fun _ => rfl)
      ?_ ?_ (s.requestParser.scratch.length + 2) none s (by omega)
      ⟨c,h,by simpa using hr,rfl,rfl,rfl,hfiltered,hrd⟩ (by rw [h.log]; exact hf) (by simp)
    · simp only [HttpSession.drainRequest,hs,if_true]
      rcases key with ⟨⟨c',h',hr',hhead,hinput,hun,hfl,hrd'⟩,hscratch⟩ | ⟨hsus,hdirect⟩
      · have hd : s.drainRequestBodyIntoSerializer.directResponseMode = false := hr'.direct
        simp only [hd,Bool.not_false,if_true]
        exact ⟨c',h',hr',hhead,hinput,hun,.inl hfl,hrd',fun _ => hscratch⟩
      · have hd : s.drainRequestBodyIntoSerializer.directResponseMode = true := hdirect
        simp only [hd,Bool.not_true,Bool.false_eq_true,if_false]
        exact hsus
    · rintro held t ⟨c',h',hr',hhead,hinput,hun,hfl,hrd'⟩ hN
      refine ⟨⟨c',{ h' with sound := ⟨h'.sound.rules,h'.sound.past⟩ },?_,hhead,hinput,hun,hfl,hrd'⟩,
        hN,rfl⟩
      exact { hr' with agrees := hr'.agrees.readBody bodyScratchSize }
    · rintro chunk more t endStream ⟨hne,-⟩ ⟨c',h',hr',hhead,hinput,hun,hfl,hrd'⟩ hN he
      rw [h'.log] at hN
      have hstep := h'.processRequestDataChunk hrd' hr' (hhead ▸ hh) hN hne he
      split at hstep
      next hp =>
        obtain ⟨c'',h'',hr'',hhead',hinput',hun',hparser,hfl',hrd'',hfinal⟩ := hstep
        rw [if_pos hp]
        refine ⟨⟨c'',h'',hr'',hhead'.trans hhead,hinput'.trans hinput,hun'.trans hun,
          hfl'.trans hfl,hrd''⟩,?_,?_⟩
        · exact congrArg _ hparser
        · intro hend
          rw [h''.log]
          exact hfinal hend
      next hp =>
        rw [if_neg hp]
        exact hstep

def requestFilterResult (s : HttpSession G) : FilterHeaderResult × RequestHead × G.Ctx :=
  G.filterChain.applyRequest s.requestParser.head s.filterCtx

/-- The state after the header filters have seen the request. -/
def afterRequestFilter (s : HttpSession G) : HttpSession G :=
  ({ s with
    requestFiltered := true
    downstreamWantsKeepAlive := s.requestParser.shouldKeepAlive
    filterCtx := s.requestFilterResult.2.2 }.emit .requestHandled).emit
    (.filterRequest s.requestParser.head s.requestFilterResult.1 s.requestFilterResult.2.1)

/-- Start the serializer with a head the filters passed. -/
def forwardRequestHead (s : HttpSession G) (filtered : RequestHead) : HttpSession G :=
  { s with
    requestSerializer := .startRequest (Cycle.forwardedHead filtered)
    requestSerializerStarted := true }.emit (.startRequest (Cycle.forwardedHead filtered))

theorem filterRequestHead_eq (s : HttpSession G) :
    s.filterRequestHead =
      if !s.requestFiltered && s.requestParser.headerDone then
        match s.requestFilterResult.1 with
        | .respond response =>
          (false,s.afterRequestFilter.respondDirectly response.head response.body)
        | .continue_ => (true,s.afterRequestFilter.forwardRequestHead s.requestFilterResult.2.1)
      else (true,s) := rfl

theorem Live.filterRequestHead {s : HttpSession G} {c : Cycle} (h : Live s c [])
    (hrd : Reading s) (hr : Receiving s c []) :
    if s.filterRequestHead.1 then
      ∃ c', Live s.filterRequestHead.2 c' [] ∧ Receiving s.filterRequestHead.2 c' [] ∧
        c'.request.input = c.request.input ∧ c'.unread = c.unread ∧
        final c'.request.provided = final c.request.provided ∧ Reading s.filterRequestHead.2 ∧
        (s.filterRequestHead.2.requestFiltered = true ∨
          s.filterRequestHead.2.requestParser.headerDone = false)
    else Suspended s.filterRequestHead.2 := by
  rw [filterRequestHead_eq]
  split
  next hcond =>
    simp only [Bool.and_eq_true,Bool.not_eq_true'] at hcond
    obtain ⟨hfl,hdone⟩ := hcond
    have hnf : c.request.filtered = none := by
      have := hr.agrees.filtered.symm.trans hfl
      simpa using this
    have hnh : c.request.head = none := by
      have := hr.agrees.passed
      simpa [hnf] using this.symm
    obtain ⟨-,hprov,hsent⟩ := hr.agrees.unstarted hnh
    have hfinal : final c.request.provided = false := by simp [hprov,final]
    have hcap := hr.not_captured hfinal
    have hheader : (c.request.parse G.requestLlhttp).headerDone = true :=
      hr.agrees.headerDone.symm.trans hdone
    have h0 : Live s.afterRequestFilter (c.record (.filterRequest s.requestParser.head
        s.requestFilterResult.1 s.requestFilterResult.2.1)) [] :=
      (Live.emit (e := .requestHandled)
        (s := { s with requestFiltered := true, downstreamWantsKeepAlive := _, filterCtx := _ })
        { h with sound := ⟨h.sound.rules,h.sound.past⟩ } hrd).emit
        ⟨by simp,hr.notDirect,hr.notResponding,hr.notRefused,hnf,hnh,hheader,hr.agrees.head,
          s.filterCtx,_,rfl⟩
    cases hres : s.requestFilterResult.1 with
    | respond response =>
      simp only [Bool.false_eq_true,if_false]
      exact h0.respondDirectly hr.notDirect
        (by simp [Cycle.record,hres,FilterHeaderResult.rejects]) (.inl hr.issued)
        ⟨.filterRequest s.requestParser.head s.requestFilterResult.1 s.requestFilterResult.2.1,
          by simp [HttpSession.afterRequestFilter],by simp [Effect.reply,FilterHeaderResult.reply,hres]⟩
    | continue_ =>
      simp only [if_true]
      rw [hres] at h0
      set filtered := s.requestFilterResult.2.1 with hfiltered
      have h1 : Live (s.afterRequestFilter.forwardRequestHead filtered) _ [] :=
        Live.emit (e := .startRequest (Cycle.forwardedHead filtered))
          (s := { s.afterRequestFilter with
            requestSerializer := .startRequest (Cycle.forwardedHead filtered)
            requestSerializerStarted := true })
          { h0 with sound := ⟨h0.sound.rules,h0.sound.past⟩ }
          ⟨by simp [HttpSession.afterRequestFilter,Effect.ofRead],hnh,hsent,hprov,_,_,rfl,rfl⟩
      have hag := hr.agrees.start (Cycle.forwardedHead filtered)
        (s.requestParser.head,.continue_,filtered) hnh
        (Serializer.request_bytes_ne_nil _)
      refine ⟨_,h1,?_,rfl,rfl,rfl,Reading.emit _ rfl,.inl rfl⟩
      exact { hr with
        agrees := hag
        notRefused := by simp [Cycle.record,hr.notRefused,FilterHeaderResult.rejects]
        captured := fun hc => by
          rw [show s.upstreamWholeRequestCaptured = true from hc] at hcap
          cases hcap }
  next hcond =>
    simp only [if_true]
    refine ⟨c,h,hr,rfl,rfl,rfl,hrd,?_⟩
    simp only [Bool.and_eq_true,Bool.not_eq_true',not_and,Bool.not_eq_true] at hcond
    cases hfl : s.requestFiltered with
    | true => exact .inl rfl
    | false => exact .inr (hcond hfl)

/-- The state in which a read has been noted and not yet fed. -/
def noteRequestRead (s : HttpSession G) (raw : Bytes) : HttpSession G :=
  { s with readBuf := s.readBuf.map fun b : Buffer => b.write raw }.emit (.downstreamRead raw)

theorem Live.noteRequestRead {s : HttpSession G} {c : Cycle} (h : Live s c [])
    (hr : Receiving s c []) (hdr : c.request.Drained G.requestLlhttp)
    (hm : (c.request.parse G.requestLlhttp).messageDone = false)
    (hh : (c.request.parse G.requestLlhttp).headerDone = true → c.request.head.isSome = true)
    (raw : Bytes) : Live (s.noteRequestRead raw) (c.record (.downstreamRead raw)) [] :=
  Live.emit (s := { s with readBuf := _ }) { h with sound := ⟨h.sound.rules,h.sound.past⟩ }
    ⟨hr.notDirect,hr.notResponding,hm,hdr,hh⟩

/-- The parser's error flag after a feed. -/
theorem hasError_feed {s : HttpSession G} {c : Cycle} (hr : Receiving s c [])
    (hm : (c.request.parse G.requestLlhttp).messageDone = false) (raw : Bytes) :
    (s.requestParser.feed raw).2.hasError =
      (parsed G.requestLlhttp RequestHead (c.request.input ++ raw)).hasError := by
  have h : (s.requestParser.feed raw).2.hasError = _ := (hr.agrees.feed raw hm).hasError
  simpa [Ledger.parse,Ledger.input] using h

theorem Live.feedRequest {s : HttpSession G} {c : Cycle} (h : Live s c []) (hr : Receiving s c [])
    (he : c.ErrorUnseen) (hdr : c.request.Drained G.requestLlhttp)
    (hm : (c.request.parse G.requestLlhttp).messageDone = false)
    (hh : (c.request.parse G.requestLlhttp).headerDone = true → c.request.head.isSome = true)
    (raw : Bytes) : ∃ c', Live ((s.noteRequestRead raw).feedRequest raw).2 c' [] ∧
      Receiving ((s.noteRequestRead raw).feedRequest raw).2 c' [] ∧
      c'.request = { c.request with reads := c.request.reads ++ [raw] } ∧
      Reading ((s.noteRequestRead raw).feedRequest raw).2 ∧
      (((s.noteRequestRead raw).feedRequest raw).1 = raw.length → c'.ErrorUnseen) := by
  have hl := h.noteRequestRead hr hdr hm hh raw
  have hinput : (c.record (.downstreamRead raw)).request.input = c.request.input ++ raw := by
    simp [Cycle.record,Ledger.input]
  have hag := hr.agrees.feed raw hm
  have hcap : s.upstreamWholeRequestCaptured = false := hr.not_captured (hr.agrees.notFinal hm)
  have hfed : Live { s.noteRequestRead raw with requestParser := (s.requestParser.feed raw).2 }
      (c.record (.downstreamRead raw)) [] := { hl with sound := ⟨hl.sound.rules,hl.sound.past⟩ }
  have hbefore : s.requestParser.hasError = c.unread.isSome :=
    hr.agrees.hasError.trans hr.error
  have hafter : (s.requestParser.feed raw).2.hasError =
      ((c.record (.downstreamRead raw)).request.parse G.requestLlhttp).hasError := by
    rw [Ledger.parse,hinput]
    exact hasError_feed hr hm raw
  have heq : (s.noteRequestRead raw).feedRequest raw = ((s.requestParser.feed raw).1,
      if (s.requestParser.feed raw).2.hasError && !s.requestParser.hasError then
        { s.noteRequestRead raw with
          requestParser := (s.requestParser.feed raw).2 }.emit
          (.requestError (s.requestParser.feed raw).1)
      else { s.noteRequestRead raw with requestParser := (s.requestParser.feed raw).2 }) := rfl
  rw [heq]
  have hcaptured : ∀ t : HttpSession G, t.upstreamWholeRequestCaptured =
      s.upstreamWholeRequestCaptured → t.upstreamWholeRequestCaptured = true → False := by
    intro t ht hc
    rw [ht,hcap] at hc
    cases hc
  split
  next hfailed =>
    simp only [Bool.and_eq_true,Bool.not_eq_true'] at hfailed
    have hunread : c.unread = none := by
      have := hbefore.symm.trans hfailed.2
      simpa using this
    have hpos : (s.requestParser.feed raw).1 =
        (G.requestLlhttp.errorPos s.requestParser.parser raw).getD 0 :=
      (feed_failed raw (hr.agrees.messageDone.trans hm) hfailed.2 hfailed.1).1
    rw [show s.requestParser.parser = _ from hr.agrees.automaton] at hpos
    have h1 := hfed.emit (e := .requestError (s.requestParser.feed raw).1)
      ⟨hr.notDirect,hr.notResponding,hunread,c.request.reads,raw,
        by simp [HttpSession.noteRequestRead],rfl,hr.agrees.hasError.symm.trans hfailed.2,
        hafter.symm.trans hfailed.1,hpos⟩
    refine ⟨_,h1,?_,rfl,Reading.emit _ rfl,fun hn => .inr ?_⟩
    · exact { hr with
        agrees := hag
        error := hafter.symm.trans hfailed.1
        captured := fun hc => (hcaptured _ rfl hc).elim }
    · change some (((c.request.reads ++ [raw]).getLast?.getD []).length -
        (s.requestParser.feed raw).1) = some 0
      rw [show (s.requestParser.feed raw).1 = raw.length from hn]
      simp
  next hfailed =>
    refine ⟨_,hfed,?_,rfl,Reading.emit _ rfl,fun _ => he⟩
    refine { hr with
      agrees := hag
      error := ?_
      captured := fun hc => (hcaptured _ rfl hc).elim }
    change ((c.record (.downstreamRead raw)).request.parse G.requestLlhttp).hasError =
      c.unread.isSome
    rw [← hafter,← hbefore]
    cases hb : s.requestParser.hasError with
    | true => rw [feed_of_hasError raw hb]; exact hb
    | false => simpa [hb] using hfailed

/-- What one turn of the relay loop leaves behind: a complete head was filtered, and the body
was drained if the head was sent on. -/
structure TurnedRequest (s : HttpSession G) (c : Cycle) : Prop where
  filtered : (c.request.parse G.requestLlhttp).headerDone = true → s.requestFiltered = true
  drained : c.request.Drained G.requestLlhttp

theorem Receiving.turned {s : HttpSession G} {c : Cycle} (hr : Receiving s c [])
    (hf : s.requestFiltered = true ∨ s.requestParser.headerDone = false)
    (hscratch : c.request.head.isSome = true → s.requestParser.scratch = []) :
    TurnedRequest s c where
  filtered hd := by
    refine hf.resolve_right fun hh => ?_
    have := hd.symm.trans (hr.agrees.headerDone.symm.trans hh)
    cases this
  drained hs := hr.agrees.drained (hscratch hs)

/-- A request whose serializer has all that was read of it. -/
structure ProvidedRequest (s : HttpSession G) (c : Cycle) : Prop where
  live : Live s c []
  receiving : Receiving s c []
  head : c.request.head.isSome = true
  unseen : c.ErrorUnseen
  drained : c.request.Drained G.requestLlhttp
  complete : (c.request.parse G.requestLlhttp).messageDone = true →
    final c.request.provided = true

/-- On a connection that is there the request goes on. -/
theorem ProvidedRequest.sending {s : HttpSession G} {c : Cycle} (h : ProvidedRequest s c)
    (hc : s.upstreamConnecting = true) : Sending s c [] :=
  { h.receiving with
    head := h.head
    chosen := h.receiving.connecting.symm.trans hc
    unseen := h.unseen
    drained := h.drained
    complete := h.complete }

theorem ProvidedRequest.connectOrWrite {s : HttpSession G} {c : Cycle} (h : ProvidedRequest s c)
    (a : Answers G) :
    Suspended (if !s.upstreamConnecting then { s with upstreamConnecting := true }.connectUpstream a
      else if s.upstream.isSome then s.pullAndWriteRequestToUpstream else s) := by
  cases hc : s.upstreamConnecting with
  | false =>
    simp only [Bool.not_false,if_true]
    exact h.live.connectUpstream h.receiving h.head h.unseen h.drained h.complete hc a
  | true =>
    have hup := h.receiving.connected (h.receiving.connecting.symm.trans hc)
    simp only [Bool.not_true,Bool.false_eq_true,if_false,hup,if_true]
    exact h.live.pullAndWriteRequest (h.sending hc) h.receiving.notResponding hup

theorem Live.provideFinalRequestBody {s : HttpSession G} {c : Cycle} (h : Live s c [])
    (hrd : Reading s) (hr : Receiving s c []) (he : c.ErrorUnseen) (ht : TurnedRequest s c)
    (hs : s.requestSerializerStarted = true) :
    ∃ c', ProvidedRequest s.provideFinalRequestBody c' := by
  have hh : c.request.head.isSome = true := hr.agrees.started.symm.trans hs
  unfold HttpSession.provideFinalRequestBody
  split
  next hcond =>
    simp only [Bool.and_eq_true,Bool.not_eq_true'] at hcond
    have hm := hr.agrees.messageDone.symm.trans hcond.1
    have hf : final c.request.provided = false := hr.agrees.finalProvided.symm.trans hcond.2
    have hcap := hr.not_captured hf
    have hag := hr.agrees.provideFinal hh hf hm ht.drained
    have h1 := Live.emit (e := .provideRequest [] true)
      (s := { s with
        requestFinalBodyProvided := true
        requestSerializer := s.requestSerializer.provideBody [] true })
      { h with sound := ⟨h.sound.rules,h.sound.past⟩ }
      ⟨hrd,hr.notDirect,hh,hf,.inr ⟨hr.agrees.provided hf,rfl,rfl,hm,ht.drained hh⟩⟩
    refine ⟨_,h1,?_,hh,he,ht.drained,fun _ => by simp [Cycle.record]⟩
    exact { hr with
      agrees := hag
      captured := fun hc => by
        rw [show s.upstreamWholeRequestCaptured = true from hc] at hcap
        cases hcap }
  next hcond =>
    refine ⟨c,h,hr,hh,he,ht.drained,fun hm => ?_⟩
    have hmd : s.requestParser.messageDone = true := hr.agrees.messageDone.trans hm
    simp only [hmd,Bool.true_and,Bool.not_eq_true',Bool.not_eq_false] at hcond
    exact hr.agrees.finalProvided.symm.trans hcond

theorem Live.continueRequest {s : HttpSession G} {c : Cycle} (h : Live s c []) (hrd : Reading s)
    (hr : Receiving s c []) (he : c.ErrorUnseen) (ht : TurnedRequest s c) (a : Answers G) :
    Suspended (s.continueRequest a) := by
  unfold HttpSession.continueRequest
  cases hs : s.requestSerializerStarted with
  | false =>
    simp only [Bool.not_false,if_true]
    have hn : s.requestFiltered = false :=
      hr.agrees.filtered.trans (hr.agrees.passed.trans (hr.agrees.started.symm.trans hs))
    have hd : (c.request.parse G.requestLlhttp).headerDone = true → False := fun hd => by
      have hfl := ht.filtered hd
      rw [hn] at hfl
      cases hfl
    refine h.readRequestChunk hr he ht.drained ?_ fun hc => (hd hc).elim
    cases hm : (c.request.parse G.requestLlhttp).messageDone with
    | false => rfl
    | true =>
      -- a complete message has a complete head
      exact (hd (headerDone_of_messageDone hm)).elim
  | true =>
    simp only [Bool.not_true,Bool.false_eq_true,if_false]
    obtain ⟨c',h'⟩ := h.provideFinalRequestBody hrd hr he ht hs
    exact h'.connectOrWrite a

theorem filterRequestHead_of_filtered {s : HttpSession G}
    (h : s.requestFiltered = true ∨ s.requestParser.headerDone = false) :
    s.filterRequestHead = (true,s) := by
  rw [filterRequestHead_eq]
  rcases h with h | h <;> simp [h]

theorem feedRequest_of_hasError {s : HttpSession G} (h : s.requestParser.hasError = true)
    (raw : Bytes) : s.feedRequest raw = (0,s) := by
  have hfeed : s.requestParser.feed raw = (0,s.requestParser) := feed_of_hasError raw h
  simp [feedRequest,hfeed,h]

theorem feedRequest_nil (s : HttpSession G) : s.feedRequest [] = (0,s) := by
  have hfeed : s.requestParser.feed [] = (0,s.requestParser) := feed_nil _
  simp [feedRequest,hfeed]

/-- A second turn of the relay loop changes nothing. -/
theorem drainRequest_of_drained {s : HttpSession G} {c : Cycle} (hr : Receiving s c [])
    (hscratch : c.request.head.isSome = true → s.requestParser.scratch = []) :
    s.drainRequest = (true,s) := by
  cases hs : s.requestSerializerStarted with
  | false => simp [HttpSession.drainRequest,hs]
  | true =>
    have he := hscratch (hr.agrees.started.symm.trans hs)
    have hread : s.readRequestBody = ([],s) := by
      have hp : s.requestParser.readBody bodyScratchSize = ([],s.requestParser) := by
        cases hparser : s.requestParser
        simp_all [LlhttpParser.readBody]
      simp [HttpSession.readRequestBody,hp]
    have hdrain : s.drainRequestBodyIntoSerializer = s := by
      simp [drainRequestBodyIntoSerializer,drainLoop,hread]
    simp [HttpSession.drainRequest,hs,hdrain,hr.direct]

/-- The state in which the relay loop leaves a request that is to go on. -/
structure RelayedRequest (s : HttpSession G) (c : Cycle) : Prop where
  live : Live s c []
  reading : Reading s
  receiving : Receiving s c []
  unseen : c.ErrorUnseen
  turned : TurnedRequest s c

theorem Live.relayRequest {s : HttpSession G} {c : Cycle} (h : Live s c [])
    (hr : Receiving s c []) (he : c.ErrorUnseen) (hdr : c.request.Drained G.requestLlhttp)
    (hm : (c.request.parse G.requestLlhttp).messageDone = false)
    (hh : (c.request.parse G.requestLlhttp).headerDone = true → c.request.head.isSome = true)
    (raw : Bytes) : Outcome (fun t => ∃ c, RelayedRequest t c) Suspended
      (relayLoop HttpSession.feedRequest HttpSession.filterRequestHead HttpSession.drainRequest
        HttpSession.requestStuck (raw.length + 1) raw (s.noteRequestRead raw)) := by
  obtain ⟨c',hl,hr',hc',hrd,hun⟩ := h.feedRequest hr he hdr hm hh raw
  have hinput : c'.request.input = c.request.input ++ raw := by simp [hc',Ledger.input]
  have hfinal : final c'.request.provided = false := by rw [hc']; exact hr.agrees.notFinal hm
  have hfilter := hl.filterRequestHead hrd hr'
  set t := s.noteRequestRead raw with ht
  have hparser : t.requestParser = s.requestParser := rfl
  by_cases hraw : raw = []
  · subst hraw
    have hsame : c'.request.parse G.requestLlhttp = c.request.parse G.requestLlhttp := by
      rw [Ledger.parse,hinput,List.append_nil]
      rfl
    rw [feedRequest_nil] at hl hr' hrd
    refine show ∃ c, RelayedRequest t c from
      ⟨c',hl,hrd,hr',hun (by rw [feedRequest_nil]; rfl),⟨fun hd => ?_,fun hs => ?_⟩⟩
    · rw [hsame] at hd
      exact hr.agrees.filtered.trans (hr.agrees.passed.trans (hh hd))
    · rw [hsame]
      rw [hc'] at hs ⊢
      exact hdr hs
  rcases Nat.lt_or_eq_of_le (feed_le t.requestParser raw) with hlt | heq
  · -- the parser failed before the end of the read
    have herr : (parsed G.requestLlhttp RequestHead (c.request.input ++ raw)).hasError = true := by
      rw [← hasError_feed hr hm raw]
      by_contra hne
      have := feed_consumed raw (hr.agrees.messageDone.trans hm) (Bool.eq_false_iff.mpr hne)
      exact absurd this (Nat.ne_of_lt hlt)
    rw [relayLoop_stuck hlt]
    · split at hfilter
      next hp =>
        obtain ⟨c1,hl1,hr1,hi1,-,hf1,hrd1,hs1⟩ := hfilter
        have hdrain := hl1.drainRequest hrd1 hr1 (hf1.trans hfinal) hs1
        rw [if_pos hp]
        split at hdrain
        next hd =>
          obtain ⟨c2,hl2,hr2,-,hi2,-,-,-,-⟩ := hdrain
          rw [if_pos hd]
          have he2 := hr2.agrees.hasError
          rw [Ledger.parse,hi2,hi1,hinput] at he2
          have hstuck : (t.feedRequest raw).2.filterRequestHead.2.drainRequest.2.requestStuck =
              (false,(t.feedRequest raw).2.filterRequestHead.2.drainRequest.2.close) :=
            if_pos (he2.trans herr)
          rw [hstuck]
          refine hl2.close (hr2.settled fun _ => .inl ?_)
          rw [Ledger.parse,hi2,hi1,hinput]
          exact herr
        next hd =>
          rw [if_neg hd]
          exact .returning hd hdrain
      next hp =>
        rw [if_neg hp]
        exact .returning hp hfilter
    · intro rest hp hd
      rw [if_pos hp] at hfilter
      obtain ⟨c1,hl1,hr1,hi1,-,hf1,hrd1,hs1⟩ := hfilter
      have hdrain := hl1.drainRequest hrd1 hr1 (hf1.trans hfinal) hs1
      rw [if_pos hd] at hdrain
      obtain ⟨c2,hl2,hr2,-,hi2,-,hs2,-,hscratch⟩ := hdrain
      have he2 := hr2.agrees.hasError
      rw [Ledger.parse,hi2,hi1,hinput] at he2
      exact ⟨feedRequest_of_hasError (he2.trans herr) rest,filterRequestHead_of_filtered hs2,
        drainRequest_of_drained hr2 hscratch⟩
  · rw [relayLoop_consumed hraw heq]
    have hunseen := hun heq
    split at hfilter
    next hp =>
      obtain ⟨c1,hl1,hr1,hi1,hu1,hf1,hrd1,hs1⟩ := hfilter
      rw [if_pos hp]
      have hdrain := hl1.drainRequest hrd1 hr1 (hf1.trans hfinal) hs1
      split at hdrain
      next hd =>
        obtain ⟨c2,hl2,hr2,-,-,hu2,hs2,hrd2,hscratch⟩ := hdrain
        have hunseen2 : c2.ErrorUnseen := by
          unfold Cycle.ErrorUnseen
          rw [hu2,hu1]
          exact hunseen
        rw [Outcome,if_pos hd]
        exact ⟨c2,hl2,hrd2,hr2,hunseen2,hr2.turned hs2 hscratch⟩
      next hd => exact .returning hd hdrain
    next hp =>
      rw [if_neg hp]
      exact .returning hp hfilter

theorem Live.processDownstreamChunk {s : HttpSession G} {c : Cycle} (h : Live s c [])
    (hr : Receiving s c []) (he : c.ErrorUnseen) (hdr : c.request.Drained G.requestLlhttp)
    (hm : (c.request.parse G.requestLlhttp).messageDone = false)
    (hh : (c.request.parse G.requestLlhttp).headerDone = true → c.request.head.isSome = true)
    (raw : Bytes) (a : Answers G) :
    Suspended ((s.noteRequestRead raw).processDownstreamChunk raw a) := by
  have hloop := h.relayRequest hr he hdr hm hh raw
  unfold HttpSession.processDownstreamChunk
  dsimp only
  split
  next hgo =>
    obtain ⟨c',hc'⟩ := hloop.resume (by simp [hgo])
    exact hc'.live.continueRequest hc'.reading hc'.receiving hc'.unseen hc'.turned a
  next hgo => exact hloop.ended hgo

theorem Live.onRequestRead {s : HttpSession G} {c : Cycle} (h : Live s c [])
    (hw : Waits s c .readRequest) (comp : Completion) (a : Answers G) :
    Suspended (s.onRequestRead comp a) := by
  obtain ⟨hr,he,hdr,hm,hh⟩ := hw
  unfold HttpSession.onRequestRead
  split
  · refine (h.emit (e := .downstreamReadFailed) trivial).close (hr.settled fun hmd => ?_)
    rw [hm] at hmd
    cases hmd
  · exact h.processDownstreamChunk hr he hdr hm hh comp.data a

end HttpSession
end PerCoreShard
