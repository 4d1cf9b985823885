import PerCoreShard.Session.Callback

/-! Exactly one thing in flight. Between two callbacks a session is closed, without buffers
and with nothing to wait for, or it is open, has both buffers and waits for the one operation
whose start was the last thing it did. -/
namespace PerCoreShard
open Library

namespace HttpSession
variable {G : Gateway}

/-- An open session has both buffers, a closed one has given them back. -/
structure Equipped (s : HttpSession G) : Prop where
  isOpen : s.closing = false → s.readBuf.isSome = true ∧ s.writeBuf.isSome = true
  closed : s.closing = true → s.readBuf = none ∧ s.writeBuf = none

theorem Equipped.same {s t : HttpSession G} (h : Equipped s) (hc : t.closing = s.closing)
    (hr : t.readBuf.map Buffer.id = s.readBuf.map Buffer.id)
    (hw : t.writeBuf.map Buffer.id = s.writeBuf.map Buffer.id) : Equipped t := by
  have hread : t.readBuf.isSome = s.readBuf.isSome := by simpa using congrArg Option.isSome hr
  have hwrite : t.writeBuf.isSome = s.writeBuf.isSome := by simpa using congrArg Option.isSome hw
  refine ⟨fun ho => ?_,fun hcl => ?_⟩
  · rw [hread,hwrite]
    exact h.isOpen (hc ▸ ho)
  · obtain ⟨hr',hw'⟩ := h.closed (hc ▸ hcl)
    simpa [hr',hw'] using And.intro hr hw

theorem Acts.equipped {s t : HttpSession G} (h : Acts s t) (hs : Equipped s) : Equipped t := by
  induction h with
  | frame h => exact hs.same h.closing h.readBuf h.writeBuf
  | note => exact hs.same rfl rfl rfl
  | takeUpstream =>
    rw [takeUpstream_spec]
    exact hs.same rfl rfl rfl
  | discardUpstream =>
    rw [discardUpstream_spec]
    exact hs.same rfl rfl rfl
  | releaseUpstream s =>
    obtain heq | ⟨socket,-,heq⟩ := s.releaseUpstream_cases <;> rw [heq]
    · exact hs
    · exact hs.same rfl rfl rfl
  | close s =>
    cases hc : s.closing with
    | true => rwa [close_of_closing hc]
    | false =>
      rw [close_eq hc]
      exact ⟨(fun ho => by cases ho),fun _ => ⟨rfl,rfl⟩⟩
  | reset => exact hs.same rfl rfl rfl
  | trans _ _ ih ih' => exact ih' (ih hs)

theorem equipped_of_reaches {s : HttpSession G} (h : (system G).Reaches s) : Equipped s := by
  refine System.ReachesWhen.invariant_with (I := Equipped) (fun s hs => suspended_of_reaches hs)
    ?_ ?_ h
  · rintro _ ⟨ctx,readBuf,writeBuf,-,-,rfl⟩
    exact ⟨fun _ => ⟨rfl,rfl⟩,(fun hc => by cases hc)⟩
  · rintro s e _ hs hI - ⟨he,hlen,rfl⟩
    exact (acts_deliver hs he hlen).equipped (hI.same rfl rfl rfl)

/-- The entry made when an operation is started, and where its bytes come from. -/
def Starts (s : HttpSession G) (x : Effect) : Op → Prop
  | .readRequest => x = .readDownstream
  | .connect => ∃ index, x = .acquireConnection index
  | .writeRequest data => x = .writeUpstream data ∧ s.writeBufFront data.length = data
  | .retryConnect _ => ∃ index, x = .acquireFreshConnection index
  | .retryWrite data => x = .writeUpstream data ∧ s.writeBufFront data.length = data
  | .rereadConnect => ∃ index, x = .acquireFreshConnection index
  | .rereadWrite data => x = .writeUpstream data ∧ s.upstreamWholeRequestSnapshot = data
  | .readResponse => x = .readUpstream
  | .writeResponse data => x = .writeDownstream data ∧ s.writeBufFront data.length = data

/-- The last thing that was done is that the operation was started. -/
def JustStarted (s : HttpSession G) (op : Op) : Prop :=
  ∃ (u : HttpSession G) (x : Effect), s = (u.emit x).await op ∧ u.Starts x op

/-- How a callback ends: closed, with the start of an operation, or with nothing at all. -/
inductive Ended (s : HttpSession G) : Prop
  | closed (h : s.closing = true)
  | started (op : Op) (h : JustStarted s op)
  | nothing (h : s.pending = [])

/-- What was pulled stands in front of the write buffer. -/
theorem writeBufFront_pull {s t : HttpSession G} {z : Serializer}
    (ht : t.writeBuf = s.writeBuf.map fun b : Buffer => b.write (z.pull s.writeBufSize).1)
    (hne : ¬(z.pull s.writeBufSize).1.isEmpty = true) :
    t.writeBufFront (z.pull s.writeBufSize).1.length = (z.pull s.writeBufSize).1 := by
  cases hb : s.writeBuf with
  | none =>
    have hlen := z.length_pull s.writeBufSize
    have hzero : s.writeBufSize = 0 := by simp [writeBufSize,hb]
    rw [List.isEmpty_iff,← List.length_eq_zero_iff] at hne
    omega
  | some b => simp [writeBufFront,ht,hb,Buffer.write]

/-- The bytes of a retried write are the front of the write buffer. -/
theorem writeBufFront_length (s : HttpSession G) (n : ℕ) :
    s.writeBufFront (s.writeBufFront n).length = s.writeBufFront n := by
  simp only [writeBufFront,List.length_take]
  rw [← List.take_take,List.take_length]

theorem pending_close (s : HttpSession G) : s.close.pending = s.pending := by
  obtain ⟨_,_,_,_,heq⟩ := s.close_frame
  rw [heq]

/-- `E` holds after everything a callback can end with. A message is read on before its
serializer was started, or when a pull has found nothing to write. -/
structure Endings (E : HttpSession G → Prop) : Prop where
  close : ∀ s : HttpSession G, s.pending = [] → E s.close
  nothing : ∀ s : HttpSession G, s.pending = [] → E s
  started : ∀ (s : HttpSession G) (x : Effect) (op : Op), s.pending = [] → op ≠ .readRequest →
    op ≠ .readResponse → s.Starts x op → E ((s.emit x).await op)
  readRequest : ∀ s : HttpSession G, s.pending = [] → s.requestSerializerStarted = false →
    E s.readRequestChunk
  readMoreRequest : ∀ s : HttpSession G, s.pending = [] →
    (s.requestSerializer.pull s.writeBufSize).1 = [] → E s.afterRequestPull.readRequestChunk
  startResponsePhase : ∀ s : HttpSession G, s.pending = [] → E s.startResponsePhase
  readResponse : ∀ s : HttpSession G, s.pending = [] → s.responseSerializerStarted = false →
    E s.readResponseChunk
  readMoreResponse : ∀ s : HttpSession G, s.pending = [] →
    (s.responseSerializer.pull s.writeBufSize).1 = [] → E s.afterResponsePull.readResponseChunk

section
variable {E : HttpSession G → Prop} (hE : Endings E)
include hE

theorem Endings.finishCycle {s : HttpSession G} (hp : s.pending = []) : E s.finishCycle := by
  have hrelease : s.releaseUpstream.pending = [] := by
    obtain heq | ⟨socket,-,heq⟩ := s.releaseUpstream_cases <;> rw [heq] <;> exact hp
  unfold HttpSession.finishCycle
  dsimp only
  split
  · exact hE.readRequest _ hrelease rfl
  · exact hE.close _ hrelease

theorem Endings.pullAndWriteResponse {s : HttpSession G} (hp : s.pending = []) :
    E s.pullAndWriteResponseToDownstream := by
  rw [pullAndWriteResponseToDownstream_eq]
  split
  next hempty =>
    split
    · exact hE.finishCycle hp
    · split
      · exact hE.readMoreResponse s hp (List.isEmpty_iff.mp hempty)
      · exact hE.close _ hp
  next hne => exact hE.started _ _ _ hp (by simp) (by simp) ⟨rfl,writeBufFront_pull rfl hne⟩

theorem Endings.pullAndWriteRequest {s : HttpSession G} (hp : s.pending = []) :
    E s.pullAndWriteRequestToUpstream := by
  rw [pullAndWriteRequestToUpstream_eq]
  split
  next hempty =>
    split
    · exact hE.startResponsePhase _ hp
    · split
      · exact hE.readMoreRequest s hp (List.isEmpty_iff.mp hempty)
      · exact hE.close _ hp
  next hne =>
    obtain ⟨captured,snapshot,heq,-⟩ := s.afterRequestPull.captureWholeRequest_eq
      (s.requestSerializer.pull s.writeBufSize).1
    rw [heq]
    exact hE.started _ _ _ hp (by simp) (by simp) ⟨rfl,writeBufFront_pull rfl hne⟩

theorem Endings.onConnected {s : HttpSession G} (hp : s.pending = []) (c : Completion)
    (pooled : Bool) : E (s.onConnected c pooled) := by
  unfold HttpSession.onConnected
  split
  · refine hE.pullAndWriteRequest ?_
    rw [takeUpstream_spec]
    exact hp
  · exact hE.close _ hp

theorem Endings.connectUpstream {s : HttpSession G} (hp : s.pending = []) (a : Answers G) :
    E (s.connectUpstream a) := by
  unfold HttpSession.connectUpstream
  dsimp only
  split
  · exact hE.onConnected (by exact hp) _ _
  · exact hE.started _ _ _ hp (by simp) (by simp) ⟨_,rfl⟩

/-- A session that processes a read has nothing in flight until it responds directly. -/
theorem Endings.phases : Phases (fun s => s.directResponseMode = false ∧ s.pending = []) E where
  frame _ _ _ hd hp _ h := ⟨hd.trans h.1,hp.trans h.2⟩
  direct _ h := h.1
  respond _ _ _ h := hE.pullAndWriteResponse h.2
  close s h := hE.close s h.2

theorem Endings.continueRequest {s : HttpSession G} (hp : s.pending = []) (a : Answers G) :
    E (s.continueRequest a) := by
  have hfinal : s.provideFinalRequestBody.pending = [] := by
    unfold provideFinalRequestBody
    split <;> exact hp
  unfold HttpSession.continueRequest
  split
  next hstarted => exact hE.readRequest s hp (by simpa using hstarted)
  next =>
    dsimp only
    split
    · exact hE.connectUpstream (by exact hfinal) a
    · split
      · exact hE.pullAndWriteRequest hfinal
      · exact hE.nothing _ hfinal

theorem Endings.continueResponse {s : HttpSession G} (hp : s.pending = []) :
    E s.continueResponse := by
  unfold HttpSession.continueResponse
  split
  next hstarted => exact hE.readResponse s hp (by simpa using hstarted)
  next =>
    refine hE.pullAndWriteResponse ?_
    unfold provideFinalResponseBody
    split <;> exact hp

theorem Endings.processDownstreamChunk {s : HttpSession G} (hd : s.directResponseMode = false)
    (hp : s.pending = []) (raw : Bytes) (a : Answers G) : E (s.processDownstreamChunk raw a) := by
  have hloop := hE.phases.relayRequest (raw.length + 1) raw s ⟨hd,hp⟩
  unfold HttpSession.processDownstreamChunk
  dsimp only
  split
  next hgo => exact hE.continueRequest (hloop.resume (by simp [hgo])).2 a
  next hgo => exact hloop.ended hgo

theorem Endings.processUpstreamChunk {s : HttpSession G} (hd : s.directResponseMode = false)
    (hp : s.pending = []) (raw : Bytes) : E (s.processUpstreamChunk raw) := by
  have hloop := hE.phases.relayResponse (raw.length + 1) raw s ⟨hd,hp⟩
  unfold HttpSession.processUpstreamChunk
  dsimp only
  split
  next hgo => exact hE.continueResponse (hloop.resume (by simp [hgo])).2
  next hgo => exact hloop.ended hgo

theorem Endings.handle {s : HttpSession G} {e : Event G} (hp : s.pending = [])
    (hd : e.op = .readRequest ∨ e.op = .readResponse → s.directResponseMode = false) :
    E (s.handle e) := by
  have hdiscard : ∀ t : HttpSession G, t.pending = [] → t.discardUpstream.pending = [] := by
    intro t ht
    rw [discardUpstream_spec]
    exact ht
  obtain ⟨op,c,a⟩ := e
  cases op with
  | readRequest =>
    change E (s.onRequestRead c a)
    unfold onRequestRead
    split
    · exact hE.close _ hp
    · exact hE.processDownstreamChunk (by exact hd (.inl rfl)) (by exact hp) _ a
  | connect => exact hE.onConnected hp c false
  | writeRequest data =>
    change E (s.onRequestWritten data c)
    unfold onRequestWritten
    dsimp only
    split
    · split
      · exact hE.started _ _ _ (hdiscard _ hp) (by simp) (by simp) ⟨_,rfl⟩
      · exact hE.close _ hp
    · exact hE.pullAndWriteRequest hp
  | retryConnect n =>
    change E (s.onRetryConnected n c)
    unfold onRetryConnected
    split
    next socket _ _ =>
      refine hE.started _ _ _ ?_ (by simp) (by simp) ⟨rfl,?_⟩
      · rw [takeUpstream_spec]
        exact hp
      · rw [takeUpstream_spec]
        exact writeBufFront_length s n
    · exact hE.close _ hp
  | retryWrite data =>
    change E (s.onRetryWritten data c)
    unfold onRetryWritten
    split
    · exact hE.close _ hp
    · exact hE.pullAndWriteRequest hp
  | rereadConnect =>
    change E (s.onRereadConnected c)
    unfold onRereadConnected
    split
    next socket _ _ =>
      refine hE.started _ _ _ ?_ (by simp) (by simp) ⟨rfl,?_⟩
      · rw [takeUpstream_spec]
        exact hp
      · rw [takeUpstream_spec]
    · exact hE.close _ hp
  | rereadWrite data =>
    change E (s.onRereadWritten data c)
    unfold onRereadWritten
    split
    · exact hE.close _ hp
    · exact hE.startResponsePhase _ hp
  | readResponse =>
    change E (s.onResponseRead c)
    unfold onResponseRead
    dsimp only
    split
    · split
      · exact hE.started _ _ _ (hdiscard _ hp) (by simp) (by simp) ⟨_,rfl⟩
      · exact hE.close _ hp
    · exact hE.processUpstreamChunk (by exact hd (.inr rfl)) (by exact hp) _
  | writeResponse data =>
    change E (s.onResponseWritten data c)
    unfold onResponseWritten
    split
    · exact hE.close _ hp
    · exact hE.pullAndWriteResponse hp

/-- What holds after every ending holds between two callbacks of every run. -/
theorem Endings.of_reaches (hstart : ∀ ctx readBuf writeBuf, E (start ctx readBuf writeBuf))
    {s : HttpSession G} (h : (system G).Reaches s) : E s := by
  refine System.ReachesWhen.invariant_with (I := E) (fun s hs => suspended_of_reaches hs) ?_ ?_ h
  · rintro _ ⟨ctx,readBuf,writeBuf,-,-,rfl⟩
    exact hstart ctx readBuf writeBuf
  · rintro s e _ hs - - ⟨he,-,rfl⟩
    exact hE.handle (hs.erase he) (hs.indirect he)

end

theorem endings_ended : Endings (G := G) Ended where
  close s _ := by
    cases hc : s.closing with
    | true => exact .closed (by rwa [close_of_closing hc])
    | false => exact .closed (by rw [close_eq hc])
  nothing _ hp := .nothing hp
  started s _ _ _ _ _ hx := .started _ ⟨s,_,rfl,hx⟩
  readRequest s _ _ := .started .readRequest ⟨s,_,rfl,rfl⟩
  readMoreRequest s _ _ := .started .readRequest ⟨s.afterRequestPull,_,rfl,rfl⟩
  startResponsePhase _ _ := .started .readResponse ⟨_,_,rfl,rfl⟩
  readResponse s _ _ := .started .readResponse ⟨s,_,rfl,rfl⟩
  readMoreResponse s _ _ := .started .readResponse ⟨s.afterResponsePull,_,rfl,rfl⟩

/-- What the event loop finds between two callbacks. -/
inductive OneInFlight (s : HttpSession G) : Prop
  | closed (closing : s.closing = true) (idle : s.pending = []) (readBuf : s.readBuf = none)
    (writeBuf : s.writeBuf = none)
  | waiting (op : Op) (isOpen : s.closing = false) (pending : s.pending = [op])
    (readBuf : s.readBuf.isSome = true) (writeBuf : s.writeBuf.isSome = true)
    (started : ∃ (u : HttpSession G) (x : Effect), u.pending = [] ∧ u.Starts x op ∧
      s = (u.emit x).await op)

theorem Ended.oneInFlight {s : HttpSession G} (h : Ended s) (hs : Suspended s) (he : Equipped s) :
    OneInFlight s := by
  cases hs with
  | closed _ hc hidle =>
    obtain ⟨hr,hw⟩ := he.closed hc
    exact .closed hc hidle hr hw
  | waiting op c live _ =>
    obtain ⟨hr,hw⟩ := he.isOpen live.isOpen
    refine .waiting op live.isOpen live.pending hr hw ?_
    cases h with
    | closed hc =>
      rw [live.isOpen] at hc
      cases hc
    | started op' h =>
      obtain ⟨u,x,rfl,hx⟩ := h
      have hpending : u.pending ++ [op'] = [] ++ [op] := live.pending
      obtain ⟨hu,hop⟩ := List.append_inj' hpending rfl
      rw [List.cons.inj hop |>.1] at hx ⊢
      exact ⟨u,x,hu,hx,rfl⟩
    | nothing hp =>
      rw [live.pending] at hp
      cases hp

theorem oneInFlight_of_reaches {s : HttpSession G} (h : (system G).Reaches s) : OneInFlight s := by
  have hended : Ended s := endings_ended.of_reaches
    (fun ctx readBuf writeBuf => endings_ended.readRequest _ rfl rfl) h
  exact hended.oneInFlight (suspended_of_reaches h) (equipped_of_reaches h)

end HttpSession
end PerCoreShard
