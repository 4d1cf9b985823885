import PerCoreShard.Session.Alike
import PerCoreShard.Session.Delivery
import PerCoreShard.Session.Prompt

/-! Flow control. A session asks for more from the client or from the upstream only when all that
it was given went through the filters, and all that they passed on is written. So it holds, of
either message, one read and what the filters keep back. -/
namespace PerCoreShard
open Library

/-- What a filter keeps back of one direction of a message is no more than the watermark. -/
structure HeldWithin {Ctx : Type} (filters : FilterChain Ctx) (highWatermarkBytes : ℕ)
    (gates : List GateCall) : Prop where
  tidy : BodyFilterGate.Tidy filters (gateState gates)
  length_le : (gateState gates).buffer.length ≤ highWatermarkBytes

theorem HeldWithin.gate {Ctx H : Type} [WireHead H] {l : Ledger H} {ll : Llhttp}
    {filters : FilterChain Ctx} {watermark : ℕ} {isRequest : Bool} {call : GateCall}
    (h : HeldWithin filters watermark l.gates)
    (hs : l.GateStep ll filters watermark isRequest call) :
    HeldWithin filters watermark (l.gates ++ [call]) := by
  obtain ⟨ctx,ctx',happly⟩ := hs.apply
  obtain ⟨htidy,hle,-⟩ :=
    BodyFilterGate.apply_tidy watermark isRequest call.chunk call.endStream ctx h.tidy
  rw [happly] at htidy hle
  exact ⟨(gateState_append _ _).symm ▸ htidy,(gateState_append _ _).symm ▸ hle⟩

theorem heldWithin_of_conforms {G : Gateway} {log : List Effect} (h : Conforms G log) :
    HeldWithin G.filterChain G.bodyBufferHighWatermarkBytes (cycleOf log).request.gates ∧
      HeldWithin G.filterChain G.bodyBufferHighWatermarkBytes (cycleOf log).response.gates := by
  have hempty : HeldWithin G.filterChain G.bodyBufferHighWatermarkBytes [] :=
    ⟨BodyFilterGate.tidy_empty _,Nat.zero_le _⟩
  refine h.induct (P := fun c =>
    HeldWithin G.filterChain G.bodyBufferHighWatermarkBytes c.request.gates ∧
      HeldWithin G.filterChain G.bodyBufferHighWatermarkBytes c.response.gates)
    ⟨hempty,hempty⟩ fun c last e ih ha => ?_
  cases e with
  | gateRequest call => exact ⟨ih.1.gate ha.2.2.2.2,ih.2⟩
  | gateResponse call => exact ⟨ih.1,ih.2.gate ha.2.2.2⟩
  | _ => exact ih

/-- Of this message, as far as it was read, nothing is left to be done: its body went through
the filters, they keep back no more than the watermark, and what they passed on, with an empty
last piece if the end came alone, is written. -/
structure Ledger.WrittenOut {H : Type} [WireHead H] (l : Ledger H) (ll : Llhttp)
    (highWatermarkBytes : ℕ) : Prop where
  drained : l.Drained ll
  held : (gateState l.gates).buffer.length ≤ highWatermarkBytes
  passed : l.provided = forwards l.gates ∨ l.provided = forwards l.gates ++ [([],true)]
  written : l.sent = l.wire

theorem Agrees.sent_eq_wire {ll : Llhttp} {H : Type} [WireHead H] {d : Direction ll H}
    {l : Ledger H} (h : Agrees d l [] [])
    (hz : d.started = true → d.serializer.Coherent → d.serializer.remaining = []) :
    l.sent = l.wire := by
  cases hhead : l.head with
  | none =>
    rw [(h.unstarted hhead).2.2,Ledger.wire,hhead]
  | some head =>
    have hstarted : d.started = true := by
      rw [h.started,hhead]
      rfl
    have hwire := h.wire
    rw [hz hstarted (h.coherent (by simp [hhead]))] at hwire
    simpa using hwire.symm

namespace HttpSession
variable {G : Gateway}

/-- A session that waits for more of a message has written what it has of it. -/
structure Paced (s : HttpSession G) : Prop where
  request : .readRequest ∈ s.pending → s.requestSerializerStarted = true → 0 < s.writeBufSize →
    s.requestSerializer.Coherent → s.requestSerializer.remaining = []
  response : .readResponse ∈ s.pending → s.responseSerializerStarted = true →
    0 < s.writeBufSize → s.responseSerializer.Coherent → s.responseSerializer.remaining = []

theorem paced_of_idle {s : HttpSession G} (hp : s.pending = []) : Paced s :=
  ⟨fun h => (by simp [hp] at h),fun h => (by simp [hp] at h)⟩

theorem mem_pending_await {s : HttpSession G} {op op' : Op} (hp : s.pending = [])
    (h : op' ∈ (s.await op).pending) : op' = op := by
  simpa [HttpSession.await,hp] using h

theorem endings_paced : Endings (G := G) Paced where
  close s hp := paced_of_idle ((pending_close s).trans hp)
  nothing _ hp := paced_of_idle hp
  started _ _ _ hp hreq hres _ :=
    ⟨fun h => absurd (mem_pending_await (by exact hp) h).symm hreq,
      fun h => absurd (mem_pending_await (by exact hp) h).symm hres⟩
  readRequest s hp hs := by
    refine ⟨fun _ h => ?_,fun h => ?_⟩
    · rw [show s.requestSerializerStarted = true from h] at hs
      cases hs
    · cases mem_pending_await (by exact hp) h
  readMoreRequest s hp hnil := by
    refine ⟨fun _ _ hsize hz => ?_,fun h => ?_⟩
    · have hroom : s.afterRequestPull.writeBufSize = s.writeBufSize :=
        Alike.writeBufSize_write s s.requestSerializer
      exact Serializer.remaining_of_pull_eq_nil (hroom ▸ hsize) hnil hz
    · cases mem_pending_await (by exact hp) h
  startResponsePhase s hp :=
    ⟨fun h => (by cases mem_pending_await (by exact hp) h),fun _ _ _ _ => rfl⟩
  readResponse s hp hs := by
    refine ⟨fun h => ?_,fun _ h => ?_⟩
    · cases mem_pending_await (by exact hp) h
    · rw [show s.responseSerializerStarted = true from h] at hs
      cases hs
  readMoreResponse s hp hnil := by
    refine ⟨fun h => ?_,fun _ _ hsize hz => ?_⟩
    · cases mem_pending_await (by exact hp) h
    · have hroom : s.afterResponsePull.writeBufSize = s.writeBufSize :=
        Alike.writeBufSize_write s s.responseSerializer
      exact Serializer.remaining_of_pull_eq_nil (hroom ▸ hsize) hnil hz

theorem paced_of_reaches {s : HttpSession G} (h : (system G).Reaches s) : Paced s :=
  endings_paced.of_reaches (fun _ _ _ => endings_paced.readRequest _ rfl rfl) h

/-- Whether operations complete at once or later, a session reads on only when nothing that it
read of the message before waits to be filtered or written, but for what a filter keeps back. -/
theorem reads_when_written {s : HttpSession G} (h : (promptSystem G).Reaches s)
    (hsize : 0 < G.bufferSize) :
    let c := cycleOf s.log
    (.readRequest ∈ s.pending →
      c.request.WrittenOut G.requestLlhttp G.bodyBufferHighWatermarkBytes) ∧
    (.readResponse ∈ s.pending →
      c.request.WrittenOut G.requestLlhttp G.bodyBufferHighWatermarkBytes ∧
      c.response.WrittenOut G.responseLlhttp G.bodyBufferHighWatermarkBytes) := by
  have hreaches := reaches_of_prompt h
  have hpaced := paced_of_reaches hreaches
  cases suspended_of_reaches hreaches with
  | closed _ _ hidle => simp [hidle]
  | waiting op c live waits =>
    have hroom : 0 < s.writeBufSize := writeBufSize_of_reaches hreaches live.isOpen ▸ hsize
    obtain ⟨hrequest,hresponse⟩ := heldWithin_of_conforms live.sound.rules
    rw [live.log] at hrequest hresponse
    dsimp only
    rw [live.log]
    constructor <;> intro hop <;>
      obtain rfl := List.mem_singleton.mp (show _ ∈ [op] from live.pending ▸ hop)
    · obtain ⟨hr,-,hdrained,hm,-⟩ := waits
      exact ⟨hdrained,hrequest.length_le,.inl (hr.agrees.provided (hr.agrees.notFinal hm)),
        hr.agrees.sent_eq_wire fun hs => hpaced.request hop hs hroom⟩
    · obtain ⟨ha,hdrained,hm,-⟩ := waits
      have hwhole := ((booked_request live.sound.rules).complete (by rw [live.log]; exact ha.final)).2.2
      rw [live.log] at hwhole
      have hag := ha.response.agrees
      exact ⟨⟨ha.drained,hrequest.length_le,hwhole,ha.sent⟩,hdrained,hresponse.length_le,
        .inl (hag.provided (hag.notFinal hm)),
        hag.sent_eq_wire fun hs => hpaced.response hop hs hroom⟩

/-- Two of the five bytes of a response body have been relayed. -/
def halfRelayedRun : HttpSession (.strict [] 128) :=
  (strictStart [] 128).settle ([.read (ascii "GET /a HTTP/1.1\r\n\r\n"),.connected 7,.wrote 43,
    .read (ascii "HTTP/1.1 200 OK\r\nContent-Length: 5\r\n\r\nab"),.wrote 64].map
      fun c => (c,{}))

theorem reaches_halfRelayedRun : (promptSystem (.strict [] 128)).Reaches halfRelayedRun :=
  .initial ⟨(),_,_,_,List.length_replicate,List.length_replicate,by decide,rfl⟩

theorem reads_when_written_halfRelayed : halfRelayedRun.pending = [.readResponse] ∧
    (cycleOf halfRelayedRun.log).response.sent = (cycleOf halfRelayedRun.log).response.wire := by
  have hpending : halfRelayedRun.pending = [.readResponse] := by decide +kernel
  have hread : .readResponse ∈ halfRelayedRun.pending := by simp [hpending]
  have h := (reads_when_written reaches_halfRelayedRun (by decide)).2 hread
  exact ⟨hpending,h.2.written⟩

end HttpSession
end PerCoreShard
