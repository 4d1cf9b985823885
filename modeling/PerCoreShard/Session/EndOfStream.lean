import PerCoreShard.Filter.Streaming
import PerCoreShard.Session.Delivery

/-! The end of a body and the body filters. The gate learns of the end together with the last
piece of body; an end that comes alone is told to the serializer only. -/
namespace PerCoreShard
open Library LlhttpParser

namespace BodyFilterGate

/-- A call that shows the end holds nothing back. -/
theorem forward_of_end {Ctx : Type} {filters : FilterChain Ctx} {watermark : ℕ}
    {isRequest : Bool} {chunk : Bytes} {state state' : DataIterationState} {ctx ctx' : Ctx}
    {result : GateResult}
    (h : apply filters watermark isRequest chunk true state ctx = (result,state',ctx'))
    (hr : result.rejects = false) : ∃ data, result = .forward data := by
  unfold apply at h
  dsimp only at h
  generalize (if isRequest then filters.applyRequestData chunk true state ctx
      else filters.applyResponseData chunk true state ctx) = r at h
  cases hres : r.result with
  | respond response =>
    rw [hres] at h
    obtain ⟨rfl,-⟩ := Prod.mk.inj h
    cases hr
  | stopAndBuffer =>
    rw [hres] at h
    dsimp only at h
    split at h
    · obtain ⟨rfl,-⟩ := Prod.mk.inj h
      cases hr
    · exact ⟨_,(Prod.mk.inj h).1.symm⟩
  | continue_ =>
    rw [hres] at h
    exact ⟨_,(Prod.mk.inj h).1.symm⟩

end BodyFilterGate

namespace Ledger
open DataFilter FilterChain
variable {H : Type} [WireHead H]

/-- The gate was shown the whole body, its end once and with the last call. Nothing is left in
its buffer, and the serializer was given all it let through, up to the last piece. -/
structure EndReached (l : Ledger H) (ll : Llhttp) : Prop where
  shown : ∃ init last, l.gates = init ++ [last] ∧ last.endStream = true ∧
    ∀ g ∈ init, g.endStream = false
  entered : gated l.gates = (l.parse ll).scratch
  emptied : (gateState l.gates).buffer = []
  forwarded : l.provided = forwards l.gates
  told : final l.provided = true

/-- The read that completed the message carried bytes of its body. -/
def EndsWithBody (l : Ledger H) (ll : Llhttp) : Prop :=
  (l.parse ll).messageDone = true ∧ l.scratchBefore ll ≠ (l.parse ll).scratch

/-- The serializer was given what the filters make of the body as a whole, wherever the reads
were cut. -/
def Delivered (l : Ledger H) (ll : Llhttp) (order : List DataFilter) : Prop :=
  payload l.provided = (l.parse ll).scratch.map (through order)

/-- The chain holds nothing back, or what comes after the first piece of body needs none of the
filters in front of the first buffering one. -/
def Undivided (l : Ledger H) (order : List DataFilter) : Prop :=
  (∀ k ∈ order, k.isStreaming = true) ∨
    ∀ b ∈ gated l.gates.tail, through (order.dropWhile isStreaming) b = through order b

/-- The bytes read are those of one message, and the parser has no objection. -/
def OneMessage (l : Ledger H) (ll : Llhttp) : Prop :=
  Alone ll l.input ∧ (l.parse ll).hasError = false

/-- What the first buffering filter holds back: the first piece from the filters in front of
it, the later ones as they came. -/
def Held {Ctx : Type} (filters : FilterChain Ctx) (isRequest : Bool) (ks ls : List DataFilter)
    (gates : List GateCall) : Prop :=
  gates = [] ∨ ∃ first later is i rest, gates = first::later ∧
    executionOrder isRequest (List.range filters.length) = is ++ i::rest ∧
    Follows filters (dataStep Ctx isRequest) (i::rest) (.buffering::ls) ∧
    forwards gates = [] ∧
    gateState gates = ⟨true,i,first.chunk.map (through ks) ++ gated later⟩

/-- What it lets go at the end of the stream. -/
def Released (order ls : List DataFilter) (gates : List GateCall) : Prop :=
  ∃ first later, gates = first::later ∧
    payload (forwards gates) = first.chunk.map (through order) ++ (gated later).map (through ls)

/-- What chains of streaming and buffering filters make of the pieces shown to the gate. -/
structure Divided {Ctx : Type} (gates : List GateCall) (filters : FilterChain Ctx)
    (isRequest : Bool) (order : List DataFilter) : Prop where
  streaming : (∀ k ∈ order, k.isStreaming = true) →
    gateState gates = {} ∧ payload (forwards gates) = (gated gates).map (through order)
  held : ∀ ks ls, order = ks ++ .buffering::ls → (∀ k ∈ ks, k.isStreaming = true) →
    (∀ g ∈ gates, g.endStream = false) → Held filters isRequest ks ls gates
  released : ∀ ks ls, order = ks ++ .buffering::ls → (∀ k ∈ ks, k.isStreaming = true) →
    (∃ g ∈ gates, g.endStream = true) → Released order ls gates

/-- What a message adds to its books when no filter rejects it: no body bytes wait for the
gate when the next read arrives. -/
structure Streamed {Ctx : Type} (l : Ledger H) (ll : Llhttp) (filters : FilterChain Ctx)
    (isRequest : Bool) : Prop where
  covered : l.scratchBefore ll <+: gated l.gates
  fresh : ∀ g ∈ l.gates, g.endStream = true → l.scratchBefore ll ≠ (l.parse ll).scratch
  tidy : BodyFilterGate.Tidy filters (gateState l.gates)
  flushed : ∀ g ∈ l.gates, g.endStream = true →
    (gateState l.gates).buffer = [] ∧ ∃ data, g.result = .forward data
  divided : ∀ kinds, List.Forall₂ (Filter.Behaves (dataStep Ctx isRequest)) filters kinds →
    Divided l.gates filters isRequest (executionOrder isRequest kinds)

section
variable {Ctx : Type} {filters : FilterChain Ctx} {ll : Llhttp} {l : Ledger H} {watermark : ℕ}
  {isRequest : Bool} {call : GateCall} {kinds : List DataFilter}

theorem divided_nil (order : List DataFilter) : Divided [] filters isRequest order where
  streaming _ := ⟨rfl,rfl⟩
  held _ _ _ _ _ := .inl rfl
  released := by
    rintro _ _ _ _ ⟨g,hg,-⟩
    cases hg

theorem streamed_empty : Streamed ({} : Ledger H) ll filters isRequest where
  covered := List.nil_prefix
  fresh g hg := by simp at hg
  tidy := BodyFilterGate.tidy_empty filters
  flushed g hg := by simp at hg
  divided _ _ := divided_nil _

theorem payload_forwards_append (gates : List GateCall) {data : Bytes}
    (h : call.result = .forward data) :
    payload (forwards (gates ++ [call])) = payload (forwards gates) ++ data := by
  rw [forwards_append_forward gates call h,payload,payload,List.flatMap_append]
  exact congrArg _ (List.append_nil data)

/-- While the end is not shown, the buffering filter keeps the piece. -/
theorem Held.gate {ks ls : List DataFilter} (h : Held filters isRequest ks ls l.gates)
    (hb : List.Forall₂ (Filter.Behaves (dataStep Ctx isRequest)) filters kinds)
    (hkinds : executionOrder isRequest kinds = ks ++ .buffering::ls)
    (hks : ∀ k ∈ ks, k.isStreaming = true)
    (hs : l.GateStep ll filters watermark isRequest call) (hr : call.result.rejects = false)
    (he : call.endStream = false) : Held filters isRequest ks ls (l.gates ++ [call]) := by
  obtain ⟨ctx,ctx',happly⟩ := hs.apply
  rw [he] at happly
  right
  rcases h with hnil | ⟨first,later,is,i,rest,hgates,horder,hfollow,hforwards,hstate⟩
  · rw [hnil,show gateState [] = {} from rfl] at happly
    obtain ⟨is,i,rest,ctx'',horder,hfollow,heq⟩ :=
      BodyFilterGate.apply_blocks hb hkinds hks call.chunk ctx (by rw [happly]; exact hr)
    rw [happly] at heq
    obtain ⟨hresult,hstate,-⟩ : call.result = .stillBuffering ∧ call.state = _ ∧ ctx' = _ := by
      simpa only [Prod.mk.injEq] using heq
    refine ⟨call,[],is,i,rest,by rw [hnil]; rfl,horder,hfollow,?_,?_⟩
    · rw [forwards_append_stillBuffering _ hresult,hnil]
      rfl
    · rw [gateState_append,hstate,show gated [] = [] from rfl,List.append_nil]
  · rw [hstate] at happly
    obtain ⟨ctx'',heq⟩ :=
      BodyFilterGate.apply_resumes horder hfollow call.chunk _ ctx (by rw [happly]; exact hr)
    rw [happly] at heq
    obtain ⟨hresult,hnext,-⟩ : call.result = .stillBuffering ∧ call.state = _ ∧ ctx' = _ := by
      simpa only [Prod.mk.injEq] using heq
    refine ⟨first,later ++ [call],is,i,rest,by rw [hgates]; rfl,horder,hfollow,?_,?_⟩
    · rw [forwards_append_stillBuffering _ hresult,hforwards]
    · rw [gateState_append,hnext,gated_append,List.append_assoc]

/-- With the end it lets go all it has. -/
theorem Held.release {ks ls : List DataFilter} (h : Held filters isRequest ks ls l.gates)
    (hb : List.Forall₂ (Filter.Behaves (dataStep Ctx isRequest)) filters kinds)
    (hkinds : executionOrder isRequest kinds = ks ++ .buffering::ls)
    (hs : l.GateStep ll filters watermark isRequest call) (he : call.endStream = true) :
    Released (executionOrder isRequest kinds) ls (l.gates ++ [call]) := by
  obtain ⟨ctx,ctx',happly⟩ := hs.apply
  rw [he] at happly
  have hthrough : through (ks ++ .buffering::ls) = through ls ∘ through ks := by
    funext b
    exact through_append ks (.buffering::ls) b
  rcases h with hnil | ⟨first,later,is,i,rest,hgates,horder,hfollow,hforwards,hstate⟩
  · rw [hnil,show gateState [] = {} from rfl] at happly
    obtain ⟨ctx'',heq⟩ := BodyFilterGate.apply_passed hb watermark true (.inl rfl) call.chunk ctx
    rw [happly] at heq
    refine ⟨call,[],by rw [hnil]; rfl,?_⟩
    rw [payload_forwards_append _ (Prod.mk.inj heq).1,hnil]
    exact (List.append_nil _).symm
  · rw [hstate] at happly
    obtain ⟨state,ctx'',heq⟩ :=
      BodyFilterGate.apply_releases horder hfollow watermark call.chunk
        (first.chunk.map (through ks) ++ gated later) ctx
    rw [happly] at heq
    refine ⟨first,later ++ [call],by rw [hgates]; rfl,?_⟩
    rw [payload_forwards_append _ (Prod.mk.inj heq).1,hforwards,hkinds,hthrough,gated_append]
    simp only [payload,List.flatMap_nil,List.nil_append,List.append_assoc,List.map_append,
      List.map_map]
    rfl

theorem Divided.gate (h : Divided l.gates filters isRequest (executionOrder isRequest kinds))
    (hb : List.Forall₂ (Filter.Behaves (dataStep Ctx isRequest)) filters kinds)
    (hnone : ∀ g ∈ l.gates, g.endStream = false)
    (hs : l.GateStep ll filters watermark isRequest call) (hr : call.result.rejects = false) :
    Divided (l.gates ++ [call]) filters isRequest (executionOrder isRequest kinds) := by
  refine ⟨fun hall => ?_,fun ks ls hkinds hks hend => ?_,fun ks ls hkinds hks hend => ?_⟩
  · obtain ⟨hstate,hpayload⟩ := h.streaming hall
    obtain ⟨ctx,ctx',happly⟩ := hs.apply
    obtain ⟨ctx'',heq⟩ := BodyFilterGate.apply_passed hb watermark call.endStream (.inr hall)
      call.chunk ctx
    rw [hstate,heq] at happly
    obtain ⟨hresult,hnext,-⟩ : _ = call.result ∧ {} = call.state ∧ _ = ctx' := by
      simpa only [Prod.mk.injEq] using happly
    refine ⟨(gateState_append _ _).trans hnext.symm,?_⟩
    rw [payload_forwards_append _ hresult.symm,hpayload,gated_append,List.map_append]
  · exact (h.held ks ls hkinds hks hnone).gate hb hkinds hks hs hr (hend call (by simp))
  · obtain ⟨g,hg,he⟩ := hend
    rcases List.mem_append.mp hg with hg | hg
    · rw [hnone g hg] at he
      cases he
    · rw [List.mem_singleton.mp hg] at he
      exact (h.held ks ls hkinds hks hnone).release hb hkinds hs he

theorem Streamed.read (h : Streamed l ll filters isRequest) (hb : Booked l ll) (raw : Bytes)
    (halone : Alone ll l.input) (hm : (l.parse ll).messageDone = false) (hdr : l.Drained ll)
    (hh : (l.parse ll).headerDone = true → l.head.isSome = true) :
    Streamed { l with reads := l.reads ++ [raw] } ll filters isRequest := by
  have hbefore : scratchBefore { l with reads := l.reads ++ [raw] } ll = (l.parse ll).scratch := by
    simp [scratchBefore,Ledger.parse,Ledger.input]
  refine { h with covered := ?_, fresh := fun g hg he => ?_ }
  · rw [hbefore]
    cases hs : l.head.isSome with
    | true => rw [← hdr hs]
    | false =>
      -- no head was passed on, so none was complete and there is no body yet
      have hd : (l.parse ll).headerDone = false := by
        cases hd : (l.parse ll).headerDone with
        | false => rfl
        | true =>
          rw [hh hd] at hs
          cases hs
      rw [show (l.parse ll).scratch = [] from halone.scratch_of_headerDone hd]
      exact List.nil_prefix
  · rw [(hb.ended g hg he).2] at hm
    cases hm

theorem Streamed.gate (h : Streamed l ll filters isRequest) (hb : Booked l ll)
    (hs : l.GateStep ll filters watermark isRequest call) (hr : call.result.rejects = false) :
    Streamed { l with gates := l.gates ++ [call] } ll filters isRequest := by
  have hnone := hb.none_ended hs
  obtain ⟨rest,hnext,-⟩ := hs.next
  obtain ⟨ctx,ctx',happly⟩ := hs.apply
  obtain ⟨htidy,-,hend⟩ :=
    BodyFilterGate.apply_tidy watermark isRequest call.chunk call.endStream ctx h.tidy
  rw [happly] at htidy hend
  have hold : ∀ g ∈ l.gates ++ [call], g.endStream = true → g = call := by
    intro g hg he
    rcases List.mem_append.mp hg with hg | hg
    · rw [hnone g hg] at he
      cases he
    · exact List.mem_singleton.mp hg
  refine ⟨?_,fun g hg he => ?_,?_,fun g hg he => ?_,fun kinds hk =>
    (h.divided kinds hk).gate hk hnone hs hr⟩
  · rw [gated_append]
    exact h.covered.trans (List.prefix_append _ _)
  · obtain rfl := hold g hg he
    -- the piece shown with the end was not there before the read
    intro heq
    have hcov := h.covered.length_le
    have hpos := List.length_pos_iff.mpr hs.nonempty
    rw [show l.scratchBefore ll = (l.parse ll).scratch from heq,← hnext] at hcov
    simp only [List.length_append] at hcov
    omega
  · rw [gateState_append]
    exact htidy
  · obtain rfl := hold g hg he
    rw [he] at happly
    rw [gateState_append]
    exact ⟨hend he,BodyFilterGate.forward_of_end happly hr⟩

/-- When everything parsed has been shown and the serializer knows of the end, the gate was
told of it exactly if the last read brought body bytes along. -/
theorem endReached_iff (hb : Booked l ll) (h : Streamed l ll filters isRequest)
    (hdone : (l.parse ll).messageDone = true → final l.provided = true) :
    l.EndReached ll ↔ l.EndsWithBody ll := by
  constructor
  · rintro ⟨⟨init,last,hgates,hlast,-⟩,-,-,-,-⟩
    have hmem : last ∈ l.gates := by simp [hgates]
    exact ⟨(hb.ended last hmem hlast).2,h.fresh last hmem hlast⟩
  · rintro ⟨hm,hne⟩
    obtain ⟨-,hgated,hprovided⟩ := hb.complete (hdone hm)
    obtain ⟨init,last,hgates,hlast⟩ := hb.shown hgated hm hne
    obtain ⟨hbuffer,data,hresult⟩ := h.flushed last (by simp [hgates]) hlast
    refine ⟨⟨init,last,hgates,hlast,fun g hg => hb.last g (by simpa [hgates] using hg)⟩,
      hgated,hbuffer,hprovided.resolve_right fun hp => ?_,hdone hm⟩
    -- the gate forwarded the last piece itself, so no empty one was added
    have honly := hb.only
    rw [hp,List.dropLast_concat,hgates,forwards_append_forward init last hresult,final_append,
      hlast,Bool.or_true] at honly
    cases honly

/-- In a message with its end among its body, only the filters in front of a buffering one can
make a difference between one way to cut it and another. -/
theorem delivered_iff (h : Streamed l ll filters isRequest) (he : l.EndReached ll)
    (hb : List.Forall₂ (Filter.Behaves (dataStep Ctx isRequest)) filters kinds) :
    l.Delivered ll (executionOrder isRequest kinds) ↔
      l.Undivided (executionOrder isRequest kinds) := by
  have hdivided := h.divided kinds hb
  unfold Delivered Undivided
  rw [he.forwarded,← he.entered]
  by_cases hs : ∀ k ∈ executionOrder isRequest kinds, k.isStreaming = true
  · exact iff_of_true (hdivided.streaming hs).2 (.inl hs)
  · obtain ⟨ks,ls,hkinds,hks,hdrop⟩ := exists_buffering hs
    obtain ⟨init,last,hgates,hlast,-⟩ := he.shown
    obtain ⟨first,later,heq,hpayload⟩ :=
      hdivided.released ks ls hkinds hks ⟨last,by simp [hgates],hlast⟩
    rw [hpayload,heq,show gated (first::later) = first.chunk ++ gated later from rfl,
      map_through_eq_iff hdrop,List.tail_cons]
    exact (or_iff_right hs).symm

end
end Ledger

section
variable {G : Gateway}

theorem streamed_request {log : List Effect} (h : Conforms G log)
    (halone : Alone G.requestLlhttp (cycleOf log).request.input)
    (hr : (cycleOf log).refused = false) :
    (cycleOf log).request.Streamed G.requestLlhttp G.filterChain true := by
  refine h.induct_log (P := fun log => Alone G.requestLlhttp (cycleOf log).request.input →
    (cycleOf log).refused = false →
    (cycleOf log).request.Streamed G.requestLlhttp G.filterChain true)
    (fun _ _ => Ledger.streamed_empty) (fun log e hc ih ha halone hr => ?_) halone hr
  have hb := booked_request hc
  rw [cycleOf_append] at halone hr ⊢
  generalize cycleOf log = c at *
  cases e with
  | downstreamRead raw =>
    have hin : Alone G.requestLlhttp c.request.input := by
      refine halone.of_prefix ?_
      rw [show (c.record (.downstreamRead raw)).request.input = c.request.input ++ raw from
        Ledger.input_read _ _]
      exact List.prefix_append _ _
    exact (ih hin hr).read hb raw hin ha.2.2.1 ha.2.2.2.1 ha.2.2.2.2
  | filterRequest head result filtered =>
    have hr' : c.refused = false ∧ result.rejects = false := by simpa [Cycle.record] using hr
    exact { ih halone hr'.1 with }
  | gateRequest call =>
    have hr' : c.refused = false ∧ call.result.rejects = false := by simpa [Cycle.record] using hr
    exact (ih halone hr'.1).gate hb ha.2.2.2.2 hr'.2
  | filterResponse head result filtered =>
    have hr' : c.refused = false ∧ result.rejects = false := by simpa [Cycle.record] using hr
    exact ih halone hr'.1
  | gateResponse call =>
    have hr' : c.refused = false ∧ call.result.rejects = false := by simpa [Cycle.record] using hr
    exact ih halone hr'.1
  | startRequest head => exact { ih halone hr with }
  | provideRequest chunk isLast => exact { ih halone hr with }
  | connected socket pooled => exact { ih halone hr with }
  | closeUpstream socket => exact { ih halone hr with }
  | upstreamWritten data written => exact { ih halone hr with }
  | upstreamWriteFailed data written => exact { ih halone hr with }
  | _ => exact ih halone hr

theorem streamed_response {log : List Effect} (h : Conforms G log)
    (halone : Alone G.responseLlhttp (cycleOf log).response.input)
    (hr : (cycleOf log).refused = false) :
    (cycleOf log).response.Streamed G.responseLlhttp G.filterChain false := by
  refine h.induct_log (P := fun log => Alone G.responseLlhttp (cycleOf log).response.input →
    (cycleOf log).refused = false →
    (cycleOf log).response.Streamed G.responseLlhttp G.filterChain false)
    (fun _ _ => Ledger.streamed_empty) (fun log e hc ih ha halone hr => ?_) halone hr
  have hb := booked_response hc
  have hnd := not_direct hc
  rw [cycleOf_append] at halone hr ⊢
  generalize cycleOf log = c at *
  cases e with
  | startResponsePhase =>
    have hreads : c.response.reads = [] := ha.2.2.2
    have heq : c.record .startResponsePhase = { c with responding := true } := by
      simp only [Cycle.record]
      rw [← hreads]
    rw [heq] at halone ⊢
    exact ih halone hr
  | upstreamRead raw =>
    have hin : Alone G.responseLlhttp c.response.input := by
      refine halone.of_prefix ?_
      rw [show (c.record (.upstreamRead raw)).response.input = c.response.input ++ raw from
        Ledger.input_read _ _]
      exact List.prefix_append _ _
    exact (ih hin hr).read (hb (hnd hr)) raw hin ha.2.2.1 ha.2.2.2.1 ha.2.2.2.2
  | filterRequest head result filtered =>
    have hr' : c.refused = false ∧ result.rejects = false := by simpa [Cycle.record] using hr
    exact ih halone hr'.1
  | gateRequest call =>
    have hr' : c.refused = false ∧ call.result.rejects = false := by simpa [Cycle.record] using hr
    exact ih halone hr'.1
  | filterResponse head result filtered =>
    have hr' : c.refused = false ∧ result.rejects = false := by simpa [Cycle.record] using hr
    exact { ih halone hr'.1 with }
  | gateResponse call =>
    have hr' : c.refused = false ∧ call.result.rejects = false := by simpa [Cycle.record] using hr
    exact (ih halone hr'.1).gate (hb (hnd hr'.1)) ha.2.2.2 hr'.2
  | startResponse head => exact { ih halone hr with }
  | provideResponse chunk isLast => exact { ih halone hr with }
  | downstreamWritten data written => exact { ih halone hr with }
  | _ => exact ih halone hr

/-- Nothing of a response is read before the response phase. -/
theorem reads_of_not_responding {log : List Effect} (h : Conforms G log)
    (hn : (cycleOf log).responding = false) : (cycleOf log).response.reads = [] := by
  refine h.induct (P := fun c => c.responding = false → c.response.reads = []) (fun _ => rfl)
    (fun c last e ih ha hn => ?_) hn
  cases e with
  | startResponsePhase => cases hn
  | upstreamRead raw =>
    have hr : c.responding = true := ha.2.1
    rw [show c.responding = false from hn] at hr
    cases hr
  | _ => exact ih hn

end

namespace HttpSession
variable {G : Gateway}

/-- Turns lower-case letters into upper-case ones, then waits for the whole body. -/
def upperFilters : FilterChain Unit :=
  [BodyFilterGate.streamingFilter BodyFilterGate.toUpper,BodyFilterGate.bufferingFilter]

/-- A chunked request whose end comes with its body. -/
def wholeRun : HttpSession (.strict upperFilters 128) :=
  strictRun upperFilters 128
    [.read (ascii "POST / HTTP/1.1\r\nTransfer-Encoding: chunked\r\n\r\n2\r\nab\r\n0\r\n\r\n")]

/-- The same request with its last chunk in a read of its own. -/
def splitRun : HttpSession (.strict upperFilters 128) :=
  strictRun upperFilters 128
    [.read (ascii "POST / HTTP/1.1\r\nTransfer-Encoding: chunked\r\n\r\n2\r\nab\r\n"),
      .connected 7,.wrote 71,.read (ascii "0\r\n\r\n")]

end HttpSession
end PerCoreShard
