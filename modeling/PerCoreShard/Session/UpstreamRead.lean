import PerCoreShard.Session.DownstreamWrite

/-! The invariant is kept by everything the session does with bytes read from an upstream. -/
namespace PerCoreShard
open LlhttpParser

namespace HttpSession
variable {G : Gateway}

def responseCall (s : HttpSession G) (chunk : Bytes) (endStream : Bool) : GateCall :=
  let r := s.bodyFilterGate.applyResponse G.filterChain G.bodyBufferHighWatermarkBytes chunk
    endStream s.filterCtx
  ⟨chunk,endStream,r.1,r.2.1.responseState⟩

/-- The state after a call of the gate. -/
def afterResponseGate (s : HttpSession G) (chunk : Bytes) (endStream : Bool) : HttpSession G :=
  let r := s.bodyFilterGate.applyResponse G.filterChain G.bodyBufferHighWatermarkBytes chunk
    endStream s.filterCtx
  { s with bodyFilterGate := r.2.1, filterCtx := r.2.2 }.emit
    (.gateResponse (s.responseCall chunk endStream))

theorem processResponseDataChunk_eq (s : HttpSession G) (chunk : Bytes) (endStream : Bool) :
    s.processResponseDataChunk chunk endStream =
      match (s.responseCall chunk endStream).result with
      | .reject head body => (false,(s.afterResponseGate chunk endStream).respondDirectly head body)
      | .stillBuffering => (true,s.afterResponseGate chunk endStream)
      | .forward data =>
        (true,{ s.afterResponseGate chunk endStream with
          responseFinalBodyProvided := endStream || s.responseFinalBodyProvided }.provideResponse
          data endStream) := rfl

theorem Live.processResponseDataChunk {s : HttpSession G} {c : Cycle} {chunk more : Bytes}
    {endStream : Bool} (h : Live s c []) (ha : Answering s c (chunk ++ more) [])
    (hh : c.response.head.isSome = true) (hf : PerCoreShard.final c.response.provided = false)
    (hne : chunk ≠ [])
    (he : endStream = ((more ++ s.theResponseParser.scratch).isEmpty &&
      s.theResponseParser.messageDone)) :
    if (s.processResponseDataChunk chunk endStream).1 then
      ∃ c', Live (s.processResponseDataChunk chunk endStream).2 c' [] ∧
        Answering (s.processResponseDataChunk chunk endStream).2 c' more [] ∧
        c'.response.head = c.response.head ∧ c'.response.input = c.response.input ∧
        (s.processResponseDataChunk chunk endStream).2.theResponseParser = s.theResponseParser ∧
        (s.processResponseDataChunk chunk endStream).2.responseFiltered = s.responseFiltered ∧
        (endStream = false → PerCoreShard.final c'.response.provided = false)
    else Suspended (s.processResponseDataChunk chunk endStream).2 ∧
      (s.processResponseDataChunk chunk endStream).2.directResponseMode = true := by
  have hstep := ha.response.agrees.gateStep G.filterChain G.bodyBufferHighWatermarkBytes false
    hh hf hne he s.filterCtx
  have hend : endStream = true → _ := fun ht => ha.response.agrees.endStream (ht ▸ he)
  have h0 : Live (s.afterResponseGate chunk endStream)
      (c.record (.gateResponse (s.responseCall chunk endStream))) [] :=
    Live.emit (s := { s with bodyFilterGate := _, filterCtx := _ })
      { h with sound := ⟨h.sound.rules,h.sound.past⟩ }
      ⟨ha.request.notDirect,ha.response.responding,ha.request.notRefused,hstep⟩
  rw [processResponseDataChunk_eq]
  cases hres : (s.responseCall chunk endStream).result with
  | reject head body =>
    simp only [Bool.false_eq_true,if_false]
    have hrefused : (c.record (.gateResponse (s.responseCall chunk endStream))).refused = true := by
      simp [Cycle.record,hres,GateResult.rejects]
    refine ⟨h0.respondDirectly ha.request.notDirect hrefused (.inr ⟨_,head,body,?_,hres⟩)
      ⟨.gateResponse (s.responseCall chunk endStream),?_,?_⟩,?_⟩
    · simp [HttpSession.afterResponseGate]
    · simp [HttpSession.afterResponseGate]
    · simp [Effect.reply,GateResult.reply,hres]
    · exact direct_respondDirectly _ _ _
  | stillBuffering =>
    simp only [if_true]
    have hag := ha.response.agrees.buffer (s.responseCall chunk endStream) hh hf hres
    refine ⟨_,h0,?_,rfl,rfl,rfl,rfl,fun _ => hf⟩
    exact { ha with
      request := { ha.request with
        agrees := { ha.request.agrees with }
        notRefused := by simp [Cycle.record,ha.request.notRefused,hres,GateResult.rejects] }
      response := { ha.response with
        agrees := hag
        effective := ha.response.effective
        readAny := fun hn => by
          have hr0 := ha.response.readAny hn
          rw [hr0] at hh
          cases hh } }
  | forward data =>
    simp only [if_true]
    have hag := ha.response.agrees.forward (s.responseCall chunk endStream) hh hf hres hend
    have hpiece := forwards_append_forward c.response.gates (s.responseCall chunk endStream) hres
    rw [← ha.response.agrees.provided hf] at hpiece
    have h1 := Live.emit (e := .provideResponse data endStream)
      (s := { s.afterResponseGate chunk endStream with
        responseFinalBodyProvided := endStream || s.responseFinalBodyProvided })
      { h0 with sound := ⟨h0.sound.rules,h0.sound.past⟩ }
      (.inr ⟨ha.request.notDirect,ha.response.responding,hh,hf,.inl hpiece.symm⟩)
    refine ⟨_,{ h1 with sound := ⟨h1.sound.rules,h1.sound.past⟩ },?_,rfl,rfl,rfl,rfl,fun hs => ?_⟩
    · exact { ha with
        request := { ha.request with
          agrees := { ha.request.agrees with }
          notRefused := by simp [Cycle.record,ha.request.notRefused,hres,GateResult.rejects] }
        response := { ha.response with
          agrees := hag
          effective := ha.response.effective
          readAny := fun hn => by
            have hr0 := ha.response.readAny hn
            rw [hr0] at hh
            cases hh } }
    · change PerCoreShard.final (c.response.provided ++ [(data,endStream)]) = false
      simp [hf,hs]

/-- What holds while a response body is drained. -/
def DrainingResponse (input : Bytes) (head : Option ResponseHead) (held : Bytes)
    (s : HttpSession G) : Prop :=
  ∃ c, Live s c [] ∧ Answering s c held [] ∧ c.response.head = head ∧ c.response.input = input ∧
    s.responseFiltered = true

/-- Either everything was drained, or a filter rejected and the session answers itself. -/
theorem Live.drainResponse {s : HttpSession G} {c : Cycle} (h : Live s c [])
    (ha : Answering s c [] []) (hf : PerCoreShard.final c.response.provided = false)
    (hstart : s.responseFiltered = true ∨ s.theResponseParser.headerDone = false) :
    if s.drainResponse.1 then
      ∃ c', Live s.drainResponse.2 c' [] ∧ Answering s.drainResponse.2 c' [] [] ∧
        c'.response.head = c.response.head ∧ c'.response.input = c.response.input ∧
        (s.drainResponse.2.responseFiltered = true ∨
          s.drainResponse.2.theResponseParser.headerDone = false) ∧
        (c'.response.head.isSome = true → s.drainResponse.2.theResponseParser.scratch = [])
    else Suspended s.drainResponse.2 := by
  cases hs : s.responseSerializerStarted with
  | false =>
    have hn : c.response.head.isSome = false := ha.response.agrees.started.symm.trans hs
    simp only [HttpSession.drainResponse,hs,Bool.false_eq_true,if_false,if_true]
    exact ⟨c,h,ha,rfl,rfl,hstart,fun hc => by simp [hn] at hc⟩
  | true =>
    have hh : c.response.head.isSome = true := ha.response.agrees.started.symm.trans hs
    have hfiltered : s.responseFiltered = true := by
      have := ha.response.agrees.filtered.trans (ha.response.agrees.passed.trans hh)
      exact this
    have key := drainLoop_rule (readResponseBody (G := G))
      (fun chunk endStream s => s.processResponseDataChunk chunk endStream)
      (fun s => s.theResponseParser.messageDone) (fun s => s.theResponseParser.scratch)
      bodyScratchSize
      (I := DrainingResponse c.response.input c.response.head)
      (N := fun s => PerCoreShard.final (cycleOf s.log).response.provided = false)
      (J := fun s => Suspended s ∧ s.directResponseMode = true) (by decide) (fun _ => rfl)
      ?_ ?_ (s.theResponseParser.scratch.length + 2) none s (by omega)
      ⟨c,h,by simpa using ha,rfl,rfl,hfiltered⟩ (by rw [h.log]; exact hf) (by simp)
    · simp only [HttpSession.drainResponse,hs,if_true,drainResponseBodyIntoSerializer]
      rcases key with ⟨⟨c',h',ha',hhead,hinput,hfl⟩,hscratch⟩ | ⟨hsus,hdirect⟩
      · simp only [ha'.request.direct,Bool.not_false,if_true]
        exact ⟨c',h',ha',hhead,hinput,.inl hfl,fun _ => hscratch⟩
      · simp only [hdirect,Bool.not_true,Bool.false_eq_true,if_false]
        exact hsus
    · rintro held t ⟨c',h',ha',hhead,hinput,hfl⟩ hN
      refine ⟨⟨c',{ h' with sound := ⟨h'.sound.rules,h'.sound.past⟩ },?_,hhead,hinput,hfl⟩,hN,rfl⟩
      exact { ha' with
        request := { ha'.request with }
        response := { ha'.response with
          agrees := ha'.response.agrees.readBody bodyScratchSize
          parser := rfl } }
    · rintro chunk more t endStream ⟨hne,-⟩ ⟨c',h',ha',hhead,hinput,hfl⟩ hN he
      rw [h'.log] at hN
      have hstep := h'.processResponseDataChunk ha' (hhead ▸ hh) hN hne he
      split at hstep
      next hp =>
        obtain ⟨c'',h'',ha'',hhead',hinput',hparser,hfl',hfinal⟩ := hstep
        rw [if_pos hp]
        refine ⟨⟨c'',h'',ha'',hhead'.trans hhead,hinput'.trans hinput,hfl'.trans hfl⟩,?_,?_⟩
        · exact congrArg _ hparser
        · intro hend
          rw [h''.log]
          exact hfinal hend
      next hp =>
        rw [if_neg hp]
        exact hstep

def responseFilterResult (s : HttpSession G) : FilterHeaderResult × ResponseHead × G.Ctx :=
  G.filterChain.applyResponse s.theResponseParser.head s.filterCtx

/-- The state after the header filters have seen the response. -/
def afterResponseFilter (s : HttpSession G) : HttpSession G :=
  { s with responseFiltered := true, filterCtx := s.responseFilterResult.2.2 }.emit
    (.filterResponse s.theResponseParser.head s.responseFilterResult.1 s.responseFilterResult.2.1)

/-- Start the serializer with a head the filters passed. -/
def relayResponseHead (s : HttpSession G) (filtered : ResponseHead) : HttpSession G :=
  { s with
    downstreamKeepAliveEffective := s.downstreamWantsKeepAlive && Cycle.framed filtered }.startResponse
    (Cycle.relayedHead filtered (s.downstreamWantsKeepAlive && Cycle.framed filtered))

theorem filterResponseHead_eq (s : HttpSession G) :
    s.filterResponseHead =
      if !s.responseFiltered && s.theResponseParser.headerDone then
        match s.responseFilterResult.1 with
        | .respond response =>
          (false,s.afterResponseFilter.respondDirectly response.head response.body)
        | .continue_ => (true,s.afterResponseFilter.relayResponseHead s.responseFilterResult.2.1)
      else (true,s) := rfl

theorem Live.filterResponseHead {s : HttpSession G} {c : Cycle} (h : Live s c [])
    (ha : Answering s c [] []) :
    if s.filterResponseHead.1 then
      ∃ c', Live s.filterResponseHead.2 c' [] ∧ Answering s.filterResponseHead.2 c' [] [] ∧
        c'.response.input = c.response.input ∧
        PerCoreShard.final c'.response.provided = PerCoreShard.final c.response.provided ∧
        (s.filterResponseHead.2.responseFiltered = true ∨
          s.filterResponseHead.2.theResponseParser.headerDone = false)
    else Suspended s.filterResponseHead.2 := by
  rw [filterResponseHead_eq]
  split
  next hcond =>
    simp only [Bool.and_eq_true,Bool.not_eq_true'] at hcond
    obtain ⟨hfl,hdone⟩ := hcond
    have hnf : c.response.filtered = none := by
      have := ha.response.agrees.filtered.symm.trans hfl
      simpa using this
    have hnh : c.response.head = none := by
      have := ha.response.agrees.passed
      simpa [hnf] using this.symm
    obtain ⟨-,hprov,hsent⟩ := ha.response.agrees.unstarted hnh
    have hissued : c.issued = [] := by rw [ha.response.issued,hsent,List.append_nil]
    have hheader : (c.response.parse G.responseLlhttp).headerDone = true :=
      ha.response.agrees.headerDone.symm.trans hdone
    have h0 : Live s.afterResponseFilter (c.record (.filterResponse s.theResponseParser.head
        s.responseFilterResult.1 s.responseFilterResult.2.1)) [] :=
      Live.emit (s := { s with responseFiltered := true, filterCtx := _ })
        { h with sound := ⟨h.sound.rules,h.sound.past⟩ }
        ⟨ha.request.notDirect,ha.response.responding,ha.request.notRefused,hnf,hissued,hheader,
          ha.response.agrees.head,s.filterCtx,_,rfl⟩
    cases hres : s.responseFilterResult.1 with
    | respond response =>
      simp only [Bool.false_eq_true,if_false]
      exact h0.respondDirectly ha.request.notDirect
        (by simp [Cycle.record,hres,FilterHeaderResult.rejects]) (.inl hissued)
        ⟨.filterResponse s.theResponseParser.head s.responseFilterResult.1 s.responseFilterResult.2.1,
          by simp [HttpSession.afterResponseFilter],by simp [Effect.reply,FilterHeaderResult.reply,hres]⟩
    | continue_ =>
      simp only [if_true]
      rw [hres] at h0
      set filtered := s.responseFilterResult.2.1 with hfiltered
      set effective := s.downstreamWantsKeepAlive && Cycle.framed filtered with heff
      have hframed : effective = true → Cycle.framed filtered = true := by
        intro he
        rw [heff,Bool.and_eq_true] at he
        exact he.2
      have h1 : Live (s.afterResponseFilter.relayResponseHead filtered) _ [] :=
        Live.emit (e := .startResponse (Cycle.relayedHead filtered effective))
          (s := { s.afterResponseFilter with
            downstreamKeepAliveEffective := effective
            responseSerializer := .startResponse (Cycle.relayedHead filtered effective)
            responseSerializerStarted := true })
          { h0 with sound := ⟨h0.sound.rules,h0.sound.past⟩ }
          (.inr ⟨ha.request.notDirect,ha.response.responding,hnh,hissued,_,_,effective,rfl,hframed,
            rfl⟩)
      have hag := ha.response.agrees.start (Cycle.relayedHead filtered effective)
        (s.theResponseParser.head,.continue_,filtered) hnh
        (Serializer.response_bytes_ne_nil _)
      rw [hprov,hsent] at hag
      refine ⟨_,h1,?_,rfl,?_,.inl rfl⟩
      · exact { ha with
          request := { ha.request with
            agrees := { ha.request.agrees with }
            notRefused := by
              simp [Cycle.record,ha.request.notRefused,FilterHeaderResult.rejects] }
          response := { ha.response with
            agrees := hag
            earlier := hissued
            issued := by
              change c.issued = [] ++ []
              exact hissued
            effective := fun he => ⟨_,_,rfl,hframed he,by
              change some (Cycle.relayedHead filtered effective) = _
              rw [show effective = true from he]⟩
            readAny := fun hn => by
              have hinput : c.response = {} := ha.response.readAny hn
              rw [hinput] at hheader
              cases hheader } }
      · rw [hprov]
        rfl
  next hcond =>
    simp only [if_true]
    refine ⟨c,h,ha,rfl,rfl,?_⟩
    simp only [Bool.and_eq_true,Bool.not_eq_true',not_and,Bool.not_eq_true] at hcond
    cases hfl : s.responseFiltered with
    | true => exact .inl rfl
    | false => exact .inr (hcond hfl)

/-- The state in which a read has been noted and not yet fed. -/
def noteResponseRead (s : HttpSession G) (raw : Bytes) : HttpSession G :=
  { s with
    readBuf := s.readBuf.map fun b : Buffer => b.write raw
    upstreamResponseReadAny := true }.emit (.upstreamRead raw)

theorem Live.noteResponseRead {s : HttpSession G} {c : Cycle} (h : Live s c [])
    (ha : Answering s c [] []) (hdr : c.response.Drained G.responseLlhttp)
    (hm : (c.response.parse G.responseLlhttp).messageDone = false)
    (hh : (c.response.parse G.responseLlhttp).headerDone = true → c.response.head.isSome = true)
    (raw : Bytes) : Live (s.noteResponseRead raw) (c.record (.upstreamRead raw)) [] :=
  Live.emit (s := { s with readBuf := _, upstreamResponseReadAny := true })
    { h with sound := ⟨h.sound.rules,h.sound.past⟩ }
    ⟨ha.request.notDirect,ha.response.responding,hm,hdr,hh⟩

theorem Answering.feedResponse {s : HttpSession G} {c : Cycle} (ha : Answering s c [] [])
    (hm : (c.response.parse G.responseLlhttp).messageDone = false) (raw : Bytes) :
    Answering ((s.noteResponseRead raw).feedResponse raw).2 (c.record (.upstreamRead raw)) [] [] :=
  { ha with
    request := { ha.request with agrees := { ha.request.agrees with } }
    response := { ha.response with
      agrees := ha.response.agrees.feed raw hm
      parser := rfl
      readAny := fun hn => by cases hn } }

/-- What one turn of the relay loop leaves behind: a complete head was filtered, and the body
was drained if the head was relayed. -/
structure TurnedResponse (s : HttpSession G) (c : Cycle) : Prop where
  filtered : (c.response.parse G.responseLlhttp).headerDone = true → s.responseFiltered = true
  drained : c.response.Drained G.responseLlhttp

theorem Answering.turned {s : HttpSession G} {c : Cycle} (ha : Answering s c [] [])
    (hf : s.responseFiltered = true ∨ s.theResponseParser.headerDone = false)
    (hscratch : c.response.head.isSome = true → s.theResponseParser.scratch = []) :
    TurnedResponse s c where
  filtered hd := by
    refine hf.resolve_right fun hh => ?_
    have := hd.symm.trans (ha.response.agrees.headerDone.symm.trans hh)
    cases this
  drained hs := ha.response.agrees.drained (hscratch hs)

theorem Live.provideFinalResponseBody {s : HttpSession G} {c : Cycle} (h : Live s c [])
    (ha : Answering s c [] []) (ht : TurnedResponse s c)
    (hs : s.responseSerializerStarted = true) :
    ∃ c', ProvidedResponse s.provideFinalResponseBody c' := by
  have hh : c.response.head.isSome = true := ha.response.agrees.started.symm.trans hs
  unfold HttpSession.provideFinalResponseBody
  split
  next hcond =>
    simp only [Bool.and_eq_true,Bool.not_eq_true'] at hcond
    have hm := ha.response.agrees.messageDone.symm.trans hcond.1
    have hf : PerCoreShard.final c.response.provided = false :=
      ha.response.agrees.finalProvided.symm.trans hcond.2
    have hag := ha.response.agrees.provideFinal hh hf hm ht.drained
    have h1 := Live.emit (e := .provideResponse [] true)
      (s := { s with
        responseFinalBodyProvided := true
        responseSerializer := s.responseSerializer.provideBody [] true })
      { h with sound := ⟨h.sound.rules,h.sound.past⟩ }
      (.inr ⟨ha.request.notDirect,ha.response.responding,hh,hf,.inr
        ⟨ha.response.agrees.provided hf,rfl,rfl,hm,ht.drained hh⟩⟩)
    refine ⟨_,h1,?_,ht.drained,hh,fun _ => by simp [Cycle.record]⟩
    exact { ha with
      request := { ha.request with agrees := { ha.request.agrees with } }
      response := { ha.response with
        agrees := hag
        effective := ha.response.effective
        readAny := fun hn => by
          have hr0 := ha.response.readAny hn
          rw [hr0] at hh
          cases hh } }
  next hcond =>
    refine ⟨c,h,ha,ht.drained,hh,fun hm => ?_⟩
    have hmd : s.theResponseParser.messageDone = true := ha.response.agrees.messageDone.trans hm
    simp only [hmd,Bool.true_and,Bool.not_eq_true',Bool.not_eq_false] at hcond
    exact ha.response.agrees.finalProvided.symm.trans hcond

theorem Live.continueResponse {s : HttpSession G} {c : Cycle} (h : Live s c [])
    (ha : Answering s c [] []) (ht : TurnedResponse s c) : Suspended s.continueResponse := by
  unfold HttpSession.continueResponse
  cases hs : s.responseSerializerStarted with
  | false =>
    simp only [Bool.not_false,if_true]
    have hn : s.responseFiltered = false :=
      ha.response.agrees.filtered.trans (ha.response.agrees.passed.trans
        (ha.response.agrees.started.symm.trans hs))
    have hd : (c.response.parse G.responseLlhttp).headerDone = true → False := fun hd => by
      have hfl := ht.filtered hd
      rw [hn] at hfl
      cases hfl
    refine h.readResponseChunk ha ht.drained ?_ fun hc => (hd hc).elim
    cases hm : (c.response.parse G.responseLlhttp).messageDone with
    | false => rfl
    | true =>
      -- a complete message has a complete head
      exact (hd (headerDone_of_messageDone hm)).elim
  | true =>
    simp only [Bool.not_true,Bool.false_eq_true,if_false]
    obtain ⟨c',h'⟩ := h.provideFinalResponseBody ha ht hs
    exact h'.pullAndWrite

/-- A second turn of the relay loop changes nothing. -/
theorem drainResponse_of_drained {s : HttpSession G} {c : Cycle} (ha : Answering s c [] [])
    (hscratch : c.response.head.isSome = true → s.theResponseParser.scratch = []) :
    s.drainResponse = (true,s) := by
  cases hs : s.responseSerializerStarted with
  | false => simp [HttpSession.drainResponse,hs]
  | true =>
    have he := hscratch (ha.response.agrees.started.symm.trans hs)
    obtain ⟨p,hp⟩ := Option.isSome_iff_exists.mp ha.response.parser
    have hread : s.readResponseBody = ([],s) := by
      have hpe : p.scratch = [] := by simpa [theResponseParser,hp] using he
      have : p.readBody bodyScratchSize = ([],p) := by
        cases p
        simp_all [LlhttpParser.readBody]
      simp only [HttpSession.readResponseBody,theResponseParser,hp,Option.getD_some,this]
      cases s
      simp_all
    have hdrain : s.drainResponseBodyIntoSerializer = s := by
      simp [drainResponseBodyIntoSerializer,drainLoop,hread]
    simp [HttpSession.drainResponse,hs,hdrain,ha.request.direct]

theorem filterResponseHead_of_filtered {s : HttpSession G}
    (h : s.responseFiltered = true ∨ s.theResponseParser.headerDone = false) :
    s.filterResponseHead = (true,s) := by
  rw [filterResponseHead_eq]
  rcases h with h | h <;> simp [h]

theorem feedResponse_of_hasError {s : HttpSession G} (hp : s.responseParser.isSome = true)
    (h : s.theResponseParser.hasError = true) (raw : Bytes) : s.feedResponse raw = (0,s) := by
  obtain ⟨p,hp⟩ := Option.isSome_iff_exists.mp hp
  have hfeed : s.theResponseParser.feed raw = (0,s.theResponseParser) := feed_of_hasError raw h
  have heta : s.responseParser = some s.theResponseParser := by simp [theResponseParser,hp]
  simp only [feedResponse,hfeed]
  rw [← heta]

theorem feedResponse_nil {s : HttpSession G} (hp : s.responseParser.isSome = true) {raw : Bytes} :
    ((s.noteResponseRead raw).feedResponse []).2 = s.noteResponseRead raw := by
  obtain ⟨p,hp⟩ := Option.isSome_iff_exists.mp hp
  have heta : (s.noteResponseRead raw).responseParser = some s.theResponseParser := by
    simp [theResponseParser,noteResponseRead,emit,hp]
  have hfeed : (s.noteResponseRead raw).theResponseParser.feed [] = (0,s.theResponseParser) :=
    feed_nil _
  simp only [feedResponse,hfeed]
  rw [← heta]

/-- The state in which the relay loop leaves a response that is to go on. -/
structure RelayedResponse (s : HttpSession G) (c : Cycle) : Prop where
  live : Live s c []
  answering : Answering s c [] []
  turned : TurnedResponse s c

theorem Live.relayResponse {s : HttpSession G} {c : Cycle} (h : Live s c [])
    (ha : Answering s c [] []) (hdr : c.response.Drained G.responseLlhttp)
    (hm : (c.response.parse G.responseLlhttp).messageDone = false)
    (hh : (c.response.parse G.responseLlhttp).headerDone = true → c.response.head.isSome = true)
    (raw : Bytes) : Outcome (fun t => ∃ c, RelayedResponse t c) Suspended
      (relayLoop HttpSession.feedResponse HttpSession.filterResponseHead HttpSession.drainResponse
        HttpSession.responseStuck (raw.length + 1) raw (s.noteResponseRead raw)) := by
  have hl := h.noteResponseRead ha hdr hm hh raw
  have hfed := ha.feedResponse hm raw
  have hfinal : PerCoreShard.final (c.record (.upstreamRead raw)).response.provided = false :=
    ha.response.agrees.notFinal hm
  set t := s.noteResponseRead raw with ht
  have hlfed : Live (feedResponse raw t).2 (c.record (.upstreamRead raw)) [] :=
    { hl with sound := ⟨hl.sound.rules,hl.sound.past⟩ }
  have hfilter := hlfed.filterResponseHead hfed
  by_cases hraw : raw = []
  · subst hraw
    have hsame : (c.record (.upstreamRead [])).response.parse G.responseLlhttp =
        c.response.parse G.responseLlhttp := by
      simp [Cycle.record,Ledger.parse,Ledger.input]
    rw [feedResponse_nil ha.response.parser] at hfed
    refine show ∃ c, RelayedResponse t c from ⟨_,hl,hfed,⟨fun hd => ?_,fun hs => ?_⟩⟩
    · rw [hsame] at hd
      exact ha.response.agrees.filtered.trans (ha.response.agrees.passed.trans (hh hd))
    · rw [hsame]
      exact hdr hs
  rcases Nat.lt_or_eq_of_le (feed_le t.theResponseParser raw) with hlt | heq
  · -- the parser failed before the end of the read
    have herr : (c.record (.upstreamRead raw)).response.parse G.responseLlhttp |>.hasError := by
      rw [← hfed.response.agrees.hasError]
      by_contra hne
      have := feed_consumed raw (ha.response.agrees.messageDone.trans hm)
        (Bool.eq_false_iff.mpr hne)
      exact absurd this (Nat.ne_of_lt hlt)
    rw [relayLoop_stuck hlt]
    · split at hfilter
      next hp =>
        obtain ⟨c1,hl1,ha1,hi1,hf1,hs1⟩ := hfilter
        have hdrain := hl1.drainResponse ha1 (hf1.trans hfinal) hs1
        rw [if_pos hp]
        split at hdrain
        next hd =>
          obtain ⟨c2,hl2,ha2,-,hi2,-,-⟩ := hdrain
          rw [if_pos hd]
          have he2 := ha2.response.agrees.hasError
          rw [Ledger.parse,hi2,hi1] at he2
          have hstuck : (feedResponse raw t).2.filterResponseHead.2.drainResponse.2.responseStuck =
              (false,(feedResponse raw t).2.filterResponseHead.2.drainResponse.2.close) :=
            if_pos (he2.trans herr)
          rw [hstuck]
          refine hl2.close (ha2.settled fun _ => .inl ?_)
          rw [Ledger.parse,hi2,hi1]
          exact herr
        next hd =>
          rw [if_neg hd]
          exact .returning hd hdrain
      next hp =>
        rw [if_neg hp]
        exact .returning hp hfilter
    · intro rest hp hd
      rw [if_pos hp] at hfilter
      obtain ⟨c1,hl1,ha1,hi1,hf1,hs1⟩ := hfilter
      have hdrain := hl1.drainResponse ha1 (hf1.trans hfinal) hs1
      rw [if_pos hd] at hdrain
      obtain ⟨c2,hl2,ha2,-,hi2,hs2,hscratch⟩ := hdrain
      have he2 := ha2.response.agrees.hasError
      rw [Ledger.parse,hi2,hi1] at he2
      exact ⟨feedResponse_of_hasError ha2.response.parser (he2.trans herr) rest,
        filterResponseHead_of_filtered hs2,drainResponse_of_drained ha2 hscratch⟩
  · rw [relayLoop_consumed hraw heq]
    split at hfilter
    next hp =>
      obtain ⟨c1,hl1,ha1,hi1,hf1,hs1⟩ := hfilter
      rw [if_pos hp]
      have hdrain := hl1.drainResponse ha1 (hf1.trans hfinal) hs1
      split at hdrain
      next hd =>
        obtain ⟨c2,hl2,ha2,-,-,hs2,hscratch⟩ := hdrain
        rw [Outcome,if_pos hd]
        exact ⟨c2,hl2,ha2,ha2.turned hs2 hscratch⟩
      next hd => exact .returning hd hdrain
    next hp =>
      rw [if_neg hp]
      exact .returning hp hfilter

theorem Live.processUpstreamChunk {s : HttpSession G} {c : Cycle} (h : Live s c [])
    (ha : Answering s c [] []) (hdr : c.response.Drained G.responseLlhttp)
    (hm : (c.response.parse G.responseLlhttp).messageDone = false)
    (hh : (c.response.parse G.responseLlhttp).headerDone = true → c.response.head.isSome = true)
    (raw : Bytes) : Suspended ((s.noteResponseRead raw).processUpstreamChunk raw) := by
  have hloop := h.relayResponse ha hdr hm hh raw
  unfold HttpSession.processUpstreamChunk
  dsimp only
  split
  next hgo =>
    obtain ⟨c',hc'⟩ := hloop.resume (by simp [hgo])
    exact hc'.live.continueResponse hc'.answering hc'.turned
  next hgo => exact hloop.ended hgo

/-- A write to the client that succeeded, with the counter it feeds. -/
theorem Live.responseWritten {s : HttpSession G} {c : Cycle} {data : Bytes} (h : Live s c [])
    (hw : Waits s c (.writeResponse data)) (comp : Completion) :
    let t := (s.emit (.downstreamWritten data comp.written)).emit
      (.bytesUpstreamToDownstream comp.written)
    ∃ c', Live t c' [] ∧ (Replying t c' [] ∨ ProvidedResponse t c') := by
  dsimp only
  rcases hw with hr | ⟨ha,hdr,hh,hf⟩
  · have h1 := h.emit (e := .downstreamWritten data comp.written) ⟨_,hr.wire⟩
    have h2 := h1.emit (e := .bytesUpstreamToDownstream comp.written) trivial
    refine ⟨_,h2,.inl ⟨hr.direct,hr.isRefused,hr.isReplying,hr.coherent,?_,?_,hr.complete⟩⟩
    · change c.response.wire = c.response.sent ++ data ++ [] ++ s.responseSerializer.remaining
      rw [hr.wire,List.append_nil]
    · change c.issued = c.earlier ++ (c.response.sent ++ data) ++ []
      rw [hr.issued,List.append_nil,List.append_assoc]
  · have h1 := h.emit (e := .downstreamWritten data comp.written) ha.response.agrees.next
    have h2 := h1.emit (e := .bytesUpstreamToDownstream comp.written) trivial
    refine ⟨_,h2,.inr ⟨h2,?_,hdr,hh,hf⟩⟩
    exact { ha with
      request := { ha.request with }
      response := { ha.response with
        agrees := ha.response.agrees.written hh
        issued := by
          change c.issued = c.response.sent ++ data ++ []
          rw [ha.response.issued,List.append_nil]
        readAny := fun hn => by
          have hr0 := ha.response.readAny hn
          rw [hr0] at hh
          cases hh } }

theorem Live.onResponseWritten {s : HttpSession G} {c : Cycle} {data : Bytes} (h : Live s c [])
    (hw : Waits s c (.writeResponse data)) (comp : Completion) :
    Suspended (s.onResponseWritten data comp) := by
  unfold HttpSession.onResponseWritten
  split
  · refine (h.emit (e := .downstreamWriteFailed data comp.written) trivial).close ?_
    rcases hw with hr | ⟨ha,-,-,hf⟩
    · exact hr.settled
    · exact ha.settled fun hm => .inr (hf hm)
  · obtain ⟨c',h',hr | hp⟩ := h.responseWritten hw comp
    · exact h'.pullAndWriteDirect hr
    · exact hp.pullAndWrite

end HttpSession
end PerCoreShard
