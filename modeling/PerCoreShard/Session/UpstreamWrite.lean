import PerCoreShard.Session.UpstreamRead

/-! The invariant is kept by everything the session does to hand the request to an upstream:
connecting, writing, and the two retries. -/
namespace PerCoreShard
open LlhttpParser

namespace HttpSession
variable {G : Gateway}

theorem Live.startResponsePhase {s : HttpSession G} {c : Cycle} (h : Live s c [])
    (hs : Sending s c []) (hf : PerCoreShard.final c.request.provided = true)
    (hsent : c.request.sent = c.request.wire) (hup : s.upstream.isSome = true) :
    Suspended s.startResponsePhase := by
  have hreads : c.response.reads = [] := by rw [hs.response]
  have hc : c.record .startResponsePhase = { c with response := {}, responding := true } := by
    simp [Cycle.record,hs.response]
  have h1 := Live.emit (e := .startResponsePhase)
    (s := { s with responseParser := some (.create _ _), responseSerializer := {} })
    { h with sound := ⟨h.sound.rules,h.sound.past⟩ }
    ⟨⟨hs.notDirect,hs.notRefused,hs.head,hs.unseen⟩,hf,hsent,hreads⟩
  rw [hc] at h1
  refine h1.readResponseChunk ?_ (fun hn => by cases hn) rfl (fun hn => by cases hn)
  exact
    { request := { hs.toRequestState with agrees := { hs.agrees with } }
      response :=
        { agrees := .fresh rfl rfl hs.gate hs.filtered hs.started hs.finalProvided
          parser := rfl
          responding := rfl
          earlier := hs.earlier
          issued := hs.issued
          effective := fun he => by
            have := hs.effective.symm.trans he
            cases this
          readAny := fun _ => rfl }
      head := hs.head
      chosen := hs.chosen
      unseen := hs.unseen
      drained := hs.drained
      final := hf
      sent := hsent
      upstream := hup }

/-- The state after a pull that fills the front of `write_buf_`. -/
def afterRequestPull (s : HttpSession G) : HttpSession G :=
  { s with
    requestSerializer := (s.requestSerializer.pull s.writeBufSize).2
    writeBuf := s.writeBuf.map fun b : Buffer =>
      b.write (s.requestSerializer.pull s.writeBufSize).1 }

theorem pullAndWriteRequestToUpstream_eq (s : HttpSession G) :
    s.pullAndWriteRequestToUpstream =
      if (s.requestSerializer.pull s.writeBufSize).1.isEmpty then
        if s.afterRequestPull.requestSerializer.done then s.afterRequestPull.startResponsePhase
        else if !s.requestParser.messageDone then s.afterRequestPull.readRequestChunk
        else s.afterRequestPull.close
      else ((s.afterRequestPull.captureWholeRequest
        (s.requestSerializer.pull s.writeBufSize).1).emit (.writeUpstream
        (s.requestSerializer.pull s.writeBufSize).1)).await
        (.writeRequest (s.requestSerializer.pull s.writeBufSize).1) := rfl

theorem Live.afterRequestPull {s : HttpSession G} {c : Cycle} (h : Live s c []) :
    Live s.afterRequestPull c [] :=
  { h with
    sound := ⟨h.sound.rules,h.sound.past⟩
    writeBuf := by simpa [HttpSession.afterRequestPull] using h.writeBuf }

theorem writeBufFront_afterRequestPull {s : HttpSession G} (h : s.writeBuf.isSome = true) :
    s.afterRequestPull.writeBufFront (s.requestSerializer.pull s.writeBufSize).1.length =
      (s.requestSerializer.pull s.writeBufSize).1 := by
  obtain ⟨b,hb⟩ := Option.isSome_iff_exists.mp h
  simp [afterRequestPull,writeBufFront,hb,Buffer.write]

theorem captureWholeRequest_eq (s : HttpSession G) (data : Bytes) :
    ∃ captured snapshot, s.captureWholeRequest data =
      { s with
        upstreamWholeRequestCaptured := captured
        upstreamWholeRequestSnapshot := snapshot } ∧
      (captured = true → (snapshot = s.upstreamWholeRequestSnapshot ∧
        s.upstreamWholeRequestCaptured = true) ∨
        (snapshot = data ∧ s.upstreamWroteOnce = false ∧ s.requestSerializer.done = true)) := by
  unfold captureWholeRequest
  split
  next hc =>
    simp only [Bool.and_eq_true,Bool.not_eq_true'] at hc
    exact ⟨true,data,rfl,fun _ => .inr ⟨rfl,hc⟩⟩
  next => exact ⟨_,_,rfl,fun h => .inl ⟨rfl,h⟩⟩

theorem Live.pullAndWriteRequest {s : HttpSession G} {c : Cycle} (h : Live s c [])
    (hs : Sending s c []) (hn : c.responding = false) (hup : s.upstream.isSome = true) :
    Suspended s.pullAndWriteRequestToUpstream := by
  have hl := h.afterRequestPull
  have hpull := hs.agrees.pull hs.head s.writeBufSize
  rw [pullAndWriteRequestToUpstream_eq]
  split
  next hempty =>
    have hnil := List.isEmpty_iff.mp hempty
    have hs' : Sending s.afterRequestPull c [] := { hs with agrees := hnil ▸ hpull }
    split
    next hd =>
      have hw := hs'.agrees.wire_of_done hs.head hd
      rw [List.append_nil] at hw
      exact hl.startResponsePhase hs' (hs'.agrees.final_of_done hs.head hd) hw.symm hup
    next =>
      split
      next hm =>
        refine hl.readRequestChunk { hs' with notResponding := hn, connected := fun _ => hup }
          hs.unseen hs.drained ?_ fun _ => hs.head
        rw [← hs.agrees.messageDone]
        exact Bool.not_eq_true' _ ▸ hm
      next => exact hl.close hs.settled
  next =>
    have hfront := writeBufFront_afterRequestPull h.writeBuf
    set data := (s.requestSerializer.pull s.writeBufSize).1 with hdata
    obtain ⟨captured,snapshot,heq,hcap⟩ := s.afterRequestPull.captureWholeRequest_eq data
    rw [heq]
    have h1 := (Live.emit (e := .writeUpstream data)
      (s := { s.afterRequestPull with
        upstreamWholeRequestCaptured := captured
        upstreamWholeRequestSnapshot := snapshot })
      { hl with sound := ⟨hl.sound.rules,hl.sound.past⟩ }
      ⟨⟨hs.notDirect,hs.notRefused,hs.head,hs.unseen⟩,hpull.next⟩).await (.writeRequest data)
    refine .waiting _ _ h1 ⟨?_,hn,hup,hfront⟩
    refine { hs with agrees := hpull, captured := fun hc => ?_ }
    rcases hcap hc with ⟨hsnap,hold⟩ | ⟨hsnap,honce,hd⟩
    · exact ⟨hsnap.trans (hs.captured hold).1,(hs.captured hold).2⟩
    · -- nothing was sent before, and nothing is left
      have hw := hpull.wire_of_done hs.head hd
      rw [hs.nothing (hs.wroteOnce.symm.trans honce),List.nil_append] at hw
      exact ⟨hsnap.trans hw.symm,hpull.final_of_done hs.head hd⟩

theorem Live.upstreamWritten {s : HttpSession G} {c : Cycle} {data : Bytes} (h : Live s c [])
    (hs : Sending s c data) (comp : Completion) :
    Live ({ s with upstreamWroteOnce := true }.upstreamWritten data comp)
      (c.record (.upstreamWritten data comp.written)) [] := by
  have h0 : Live { s with upstreamWroteOnce := true } c [] :=
    { h with sound := ⟨h.sound.rules,h.sound.past⟩ }
  exact (h0.emit (e := .upstreamWritten data comp.written) hs.agrees.next).emit
    (e := .bytesDownstreamToUpstream comp.written) trivial

theorem Sending.upstreamWritten {s : HttpSession G} {c : Cycle} {data : Bytes}
    (hs : Sending s c data) (comp : Completion) :
    Sending ({ s with upstreamWroteOnce := true }.upstreamWritten data comp)
      (c.record (.upstreamWritten data comp.written)) [] :=
  { hs with
    agrees := hs.agrees.written hs.head
    wroteOnce := rfl
    nothing := fun hn => by cases hn
    unconnected := fun hn => by
      have := hs.chosen
      rw [show c.endpoint = none from hn] at this
      cases this }

theorem takeUpstream_eq (s : HttpSession G) (socket : SocketId) (pooled : Bool) :
    ∃ log, s.takeUpstream socket pooled = { s with upstream := some socket, log := log } := by
  unfold takeUpstream
  cases s.upstream <;> exact ⟨_,rfl⟩

theorem discardUpstream_eq (s : HttpSession G) :
    ∃ log, s.discardUpstream = { s with upstream := none, log := log } := by
  unfold discardUpstream closeUpstreamSocket
  cases s.upstream <;> exact ⟨_,rfl⟩

theorem record_connected {c : Cycle} (h : c.request.sent = []) (socket : SocketId) (pooled : Bool) :
    c.record (.connected socket pooled) = c := by
  simp only [Cycle.record]
  rw [← h]

theorem Live.takeUpstream {s : HttpSession G} {c : Cycle} (h : Live s c [])
    (hsent : c.request.sent = []) (socket : SocketId) (pooled : Bool)
    (hchosen : c.endpoint.isSome = true) (hp : pooled = true → c.retries = 0)
    (hn : c.refused = false) : Live (s.takeUpstream socket pooled) c [] := by
  have hconnected : ∀ t : HttpSession G, Live t c [] →
      Live ({ t with upstream := some socket }.emit (.connected socket pooled)) c [] := by
    intro t ht
    have h1 := Live.emit (e := .connected socket pooled) (s := { t with upstream := some socket })
      { ht with sound := ⟨ht.sound.rules,ht.sound.past⟩ } ⟨hchosen,hp,hn⟩
    rw [record_connected hsent] at h1
    exact h1
  unfold HttpSession.takeUpstream
  cases s.upstream with
  | none => exact hconnected s h
  | some old => exact hconnected _ (h.emit hn)

theorem Sending.takeUpstream {s : HttpSession G} {c : Cycle} {data : Bytes} (hs : Sending s c data)
    (socket : SocketId) (pooled : Bool) : Sending (s.takeUpstream socket pooled) c data := by
  obtain ⟨log,heq⟩ := s.takeUpstream_eq socket pooled
  rw [heq]
  exact { hs with }

theorem Live.onConnected {s : HttpSession G} {c : Cycle} (h : Live s c []) (hs : Sending s c [])
    (hn : c.responding = false) (hr : c.retries = 0) (hsent : c.request.sent = [])
    (comp : Completion) (pooled : Bool) : Suspended (s.onConnected comp pooled) := by
  unfold HttpSession.onConnected
  split
  next socket _ _ =>
    exact (h.takeUpstream hsent socket pooled hs.chosen (fun _ => hr) hs.notRefused).pullAndWriteRequest
      (hs.takeUpstream socket pooled) hn rfl
  next => exact (h.emit (e := .upstreamConnectError) trivial).close hs.settled

/-- A session writes: it is open, and waits for the write. -/
def Writing (s : HttpSession G) : Prop :=
  s.closing = false ∧ ∃ data, .writeRequest data ∈ s.pending ∨ .retryWrite data ∈ s.pending ∨
    .rereadWrite data ∈ s.pending

/-- A pull that has room takes something of a request nothing of which was sent. -/
theorem Sending.pull_ne_nil {s : HttpSession G} {c : Cycle} (hs : Sending s c [])
    (hsent : c.request.sent = []) (hsize : 0 < s.writeBufSize) :
    (s.requestSerializer.pull s.writeBufSize).1 ≠ [] := by
  intro hnil
  have hpull := hs.agrees.pull hs.head s.writeBufSize
  have hrest := Serializer.remaining_of_pull_eq_nil hsize hnil (hpull.coherent hs.head)
  have hwire : c.request.wire = c.request.sent ++ (s.requestSerializer.pull s.writeBufSize).1 ++
    (s.requestSerializer.pull s.writeBufSize).2.remaining := hpull.wire
  rw [hsent,hnil,hrest] at hwire
  exact Agrees.wire_ne_nil (l := c.request) hs.head Serializer.request_bytes_ne_nil hwire

theorem Sending.writing {s : HttpSession G} {c : Cycle} (hs : Sending s c [])
    (hsent : c.request.sent = []) (hopen : s.closing = false) (hsize : 0 < s.writeBufSize) :
    Writing s.pullAndWriteRequestToUpstream := by
  have hne := hs.pull_ne_nil hsent hsize
  rw [pullAndWriteRequestToUpstream_eq,if_neg (by simpa [List.isEmpty_iff] using hne)]
  obtain ⟨captured,snapshot,heq,-⟩ :=
    s.afterRequestPull.captureWholeRequest_eq (s.requestSerializer.pull s.writeBufSize).1
  rw [heq]
  exact ⟨hopen,_,.inl (List.mem_append_right _ (List.mem_singleton_self _))⟩

/-- A connection was asked for, and the request waits for it. -/
structure Acquiring (s : HttpSession G) (c : Cycle) : Prop where
  live : Live s c []
  sending : Sending s c []
  notResponding : c.responding = false
  retries : c.retries = 0
  unsent : c.request.sent = []

theorem Acquiring.onConnected {s : HttpSession G} {c : Cycle} (h : Acquiring s c)
    (comp : Completion) (pooled : Bool) : Suspended (s.onConnected comp pooled) :=
  h.live.onConnected h.sending h.notResponding h.retries h.unsent comp pooled

theorem Live.acquireConnection {s : HttpSession G} {c : Cycle} (h : Live s c [])
    (hr : Receiving s c []) (hh : c.request.head.isSome = true) (he : c.ErrorUnseen)
    (hdr : c.request.Drained G.requestLlhttp)
    (hf : (c.request.parse G.requestLlhttp).messageDone = true → final c.request.provided = true)
    (hc : s.upstreamConnecting = false) (a : Answers G) :
    ∃ c', Acquiring (({ s with
      upstreamConnecting := true, endpointIndex := a.endpoint }.emit
        (.selectEndpoint a.endpoint)).emit (.acquireConnection a.endpoint)) c' := by
  have hnone : c.endpoint = none := by
    have := hr.connecting.symm.trans hc
    simpa using this
  obtain ⟨hsent,hretries⟩ := hr.unconnected hnone
  have hfwd : c.Forwarding := ⟨hr.notDirect,hr.notRefused,hh,he⟩
  have h1 := Live.emit (e := .selectEndpoint a.endpoint)
    (s := { s with upstreamConnecting := true, endpointIndex := a.endpoint })
    { h with sound := ⟨h.sound.rules,h.sound.past⟩ } ⟨hfwd,hnone⟩
  have h2 := h1.emit (e := .acquireConnection a.endpoint)
    ⟨⟨hfwd.notDirect,hfwd.notRefused,hfwd.started,hfwd.errorUnseen⟩,rfl,hretries⟩
  refine ⟨_,h2,?_,hr.notResponding,hretries,hsent⟩
  exact { hr with
    agrees := { hr.agrees with }
    connecting := rfl
    endpoint := fun index hi => Option.some.inj hi
    unconnected := fun hn => by cases hn
    captured := hr.captured
    head := hh
    chosen := rfl
    unseen := he
    drained := hdr
    complete := hf }

theorem Live.connectUpstream {s : HttpSession G} {c : Cycle} (h : Live s c [])
    (hr : Receiving s c []) (hh : c.request.head.isSome = true) (he : c.ErrorUnseen)
    (hdr : c.request.Drained G.requestLlhttp)
    (hf : (c.request.parse G.requestLlhttp).messageDone = true → final c.request.provided = true)
    (hc : s.upstreamConnecting = false) (a : Answers G) :
    Suspended ({ s with upstreamConnecting := true }.connectUpstream a) := by
  obtain ⟨c',hacquiring⟩ := h.acquireConnection hr hh he hdr hf hc a
  unfold HttpSession.connectUpstream
  split
  · exact hacquiring.onConnected _ _
  · exact .waiting .connect _ (hacquiring.live.await .connect)
      ⟨{ hacquiring.sending with },hacquiring.notResponding,hacquiring.retries,hacquiring.unsent⟩

theorem Live.discardUpstream {s : HttpSession G} {c : Cycle} (h : Live s c [])
    (hup : s.upstream.isSome = true) :
    Live s.discardUpstream { c with request := { c.request with sent := [] } } [] := by
  obtain ⟨socket,hu⟩ := Option.isSome_iff_exists.mp hup
  have h1 := h.emit (e := .closeUpstream socket) trivial
  have heq : s.discardUpstream = { s.emit (.closeUpstream socket) with upstream := none } := by
    simp [HttpSession.discardUpstream,closeUpstreamSocket,hu]
  rw [heq]
  exact { h1 with sound := ⟨h1.sound.rules,h1.sound.past⟩ }

/-- The two retries agree up to the operation that is awaited. -/
theorem Live.acquireFresh {s : HttpSession G} {c : Cycle} (cause : Retry) (h : Live s c [])
    (ha : c.Allows G s.log.getLast? (.upstreamRetry cause)) (hr : c.retries = 0)
    (hfwd : c.Forwarding) (he : c.endpoint = some s.endpointIndex) (hup : s.upstream.isSome = true) :
    Live ((s.emit (.upstreamRetry cause)).discardUpstream.emit
      (.acquireFreshConnection s.endpointIndex))
      { c with request := { c.request with sent := [] }, retries := 1 } [] := by
  have h1 := (h.emit ha).discardUpstream hup
  have h2 := h1.emit (e := .acquireFreshConnection s.endpointIndex)
    ⟨⟨hfwd.notDirect,hfwd.notRefused,hfwd.started,hfwd.errorUnseen⟩,he,congrArg (· + 1) hr⟩
  simpa [Cycle.record,hr] using h2

theorem RequestState.retries_zero {s : HttpSession G} {c : Cycle} {held inflight : Bytes}
    (h : RequestState s c held inflight) (hu : s.upstreamRetryUsed = false) : c.retries = 0 := by
  rw [h.retries,hu]
  rfl

theorem RequestState.chosen_index {s : HttpSession G} {c : Cycle} {held inflight : Bytes}
    (h : RequestState s c held inflight) (hc : c.endpoint.isSome = true) :
    c.endpoint = some s.endpointIndex := by
  obtain ⟨index,hi⟩ := Option.isSome_iff_exists.mp hc
  rw [hi,h.endpoint index hi]

theorem Live.retryUpstreamWriteOnce {s : HttpSession G} {c : Cycle} {data : Bytes}
    (h : Live s c []) (hs : Sending s c data) (hn : c.responding = false)
    (hup : s.upstream.isSome = true) (hfront : s.writeBufFront data.length = data)
    (honce : s.upstreamWroteOnce = false) (hused : s.upstreamRetryUsed = false) (written : ℕ) :
    Suspended ({ s.emit (.upstreamWriteFailed data written) with
      upstreamRetryUsed := true }.retryUpstreamWriteOnce data.length) := by
  have hw : c.wroteOnce = false := hs.wroteOnce.symm.trans honce
  have hsent := hs.nothing hw
  have hr := hs.retries_zero hused
  have h1 := h.emit (e := .upstreamWriteFailed data written) ⟨hs.agrees.next,hs.nothing⟩
  have h2 := Live.acquireFresh (.afterWrite data.length)
    (s := { s.emit (.upstreamWriteFailed data written) with upstreamRetryUsed := true })
    { h1 with sound := ⟨h1.sound.rules,h1.sound.past⟩ }
    ⟨hr,hw,data,written,by simp,rfl⟩ hr ⟨hs.notDirect,hs.notRefused,hs.head,hs.unseen⟩
    (hs.chosen_index hs.chosen) hup
  unfold HttpSession.retryUpstreamWriteOnce
  obtain ⟨log,heq⟩ := ({ s.emit (.upstreamWriteFailed data written) with
    upstreamRetryUsed := true }.emit (.upstreamRetry (.afterWrite data.length))).discardUpstream_eq
  rw [heq] at h2 ⊢
  refine .waiting (.retryConnect data.length) _ (h2.await _) ⟨?_,hn,rfl,rfl⟩
  have hag := hs.agrees.reconnect
  rw [hsent,List.nil_append] at hag
  have hfront' : s.writeBufFront data.length = data := hfront
  refine { hs with
    agrees := hfront'.symm ▸ hag
    unconnected := fun hnone => ?_
    nothing := fun _ => rfl
    retries := rfl }
  have := hs.chosen
  rw [show c.endpoint = none from hnone] at this
  cases this

/-- A response phase in which nothing was read yet. -/
theorem Answering.untouched {s : HttpSession G} {c : Cycle} (ha : Answering s c [] [])
    (hr : s.upstreamResponseReadAny = false) : Untouched s c := by
  have hc := ha.response.readAny hr
  have hag := ha.response.agrees
  have hi := ha.response.issued
  rw [hc] at hag hi
  refine ⟨hc,hi,ha.response.earlier,hag.gate,hag.filtered,hag.started,hag.finalProvided,?_⟩
  cases he : s.downstreamKeepAliveEffective with
  | false => rfl
  | true =>
    obtain ⟨head,filtered,hf,-,-⟩ := ha.response.effective he
    rw [hc] at hf
    cases hf

theorem Live.retryUpstreamAfterReadFailure {s : HttpSession G} {c : Cycle} (h : Live s c [])
    (ha : Answering s c [] []) (hread : s.upstreamResponseReadAny = false)
    (hcap : s.upstreamWholeRequestCaptured = true) (hused : s.upstreamRetryUsed = false) :
    Suspended ({ s.emit .upstreamReadFailed with
      upstreamRetryUsed := true }.retryUpstreamAfterReadFailure) := by
  have hu := ha.untouched hread
  have hr := ha.request.retries_zero hused
  obtain ⟨hsnap,hfinal⟩ := ha.request.captured hcap
  have hreads : c.response.reads = [] := by rw [hu.response]
  have hfwd : c.Forwarding := ⟨ha.request.notDirect,ha.request.notRefused,ha.head,ha.unseen⟩
  have h1 := h.emit (e := .upstreamReadFailed) trivial
  have h2 := Live.acquireFresh (.afterRead s.upstreamWholeRequestSnapshot)
    (s := { s.emit .upstreamReadFailed with upstreamRetryUsed := true })
    { h1 with sound := ⟨h1.sound.rules,h1.sound.past⟩ }
    ⟨hr,ha.response.responding,hreads,hfinal,hsnap,ha.sent,by simp⟩ hr hfwd
    (ha.request.chosen_index ha.chosen) ha.upstream
  have honce : c.wroteOnce = true := by
    cases hw : c.wroteOnce with
    | true => rfl
    | false =>
      have hne := Agrees.wire_ne_nil (l := c.request) ha.head Serializer.request_bytes_ne_nil
      rw [← ha.sent,ha.request.nothing hw] at hne
      exact absurd rfl hne
  unfold HttpSession.retryUpstreamAfterReadFailure
  obtain ⟨log,heq⟩ := ({ s.emit .upstreamReadFailed with
    upstreamRetryUsed := true }.emit (.upstreamRetry (.afterRead
      s.upstreamWholeRequestSnapshot))).discardUpstream_eq
  have heq' : ({ s.emit .upstreamReadFailed with upstreamRetryUsed := true } :
    HttpSession G).upstreamWholeRequestSnapshot = s.upstreamWholeRequestSnapshot := rfl
  rw [heq']
  rw [heq] at h2 ⊢
  refine .waiting .rereadConnect _ (h2.await _) ⟨?_,hcap,honce,rfl⟩
  have hag := ha.request.agrees.reconnect
  rw [List.append_nil,ha.sent,← hsnap] at hag
  refine { ha.request with
    agrees := hag
    unconnected := fun hnone => ?_
    nothing := fun _ => rfl
    retries := rfl
    captured := fun _ => ⟨hsnap,hfinal⟩
    response := hu.response, issued := hu.issued, earlier := hu.earlier, gate := hu.gate,
    filtered := hu.filtered, started := hu.started, finalProvided := hu.finalProvided,
    effective := hu.effective
    head := ha.head
    chosen := ha.chosen
    unseen := ha.unseen
    drained := ha.drained
    complete := fun _ => ha.final }
  have := ha.chosen
  rw [show c.endpoint = none from hnone] at this
  cases this

theorem Live.onRequestWritten {s : HttpSession G} {c : Cycle} {data : Bytes} (h : Live s c [])
    (hw : Waits s c (.writeRequest data)) (comp : Completion) :
    Suspended (s.onRequestWritten data comp) := by
  obtain ⟨hs,hn,hup,hfront⟩ := hw
  unfold HttpSession.onRequestWritten
  split
  · have h1 := h.emit (e := .upstreamWriteFailed data comp.written) ⟨hs.agrees.next,hs.nothing⟩
    dsimp only
    split
    next hcond =>
      simp only [Bool.and_eq_true,Bool.not_eq_true'] at hcond
      exact h.retryUpstreamWriteOnce hs hn hup hfront hcond.1 hcond.2 comp.written
    next => exact h1.close ⟨hs.settled.request,hs.settled.response⟩
  · exact (h.upstreamWritten hs comp).pullAndWriteRequest (hs.upstreamWritten comp) hn hup

theorem Live.onRetryConnected {s : HttpSession G} {c : Cycle} {n : ℕ} (h : Live s c [])
    (hw : Waits s c (.retryConnect n)) (comp : Completion) : Suspended (s.onRetryConnected n comp) := by
  obtain ⟨hs,hn,hr,hsent⟩ := hw
  unfold HttpSession.onRetryConnected
  split
  next socket _ _ =>
    have h1 := h.takeUpstream hsent socket false hs.chosen (fun hp => by cases hp) hs.notRefused
    have hs1 := hs.takeUpstream socket false
    have h2 := (h1.emit (e := .writeUpstream (s.writeBufFront n))
      ⟨⟨hs.notDirect,hs.notRefused,hs.head,hs.unseen⟩,hs.agrees.next⟩).await
        (.retryWrite (s.writeBufFront n))
    exact .waiting _ _ h2 ⟨{ hs1 with },hn,hr,rfl⟩
  next => exact (h.emit (e := .upstreamConnectError) trivial).close hs.settled

theorem Live.onRetryWritten {s : HttpSession G} {c : Cycle} {data : Bytes} (h : Live s c [])
    (hw : Waits s c (.retryWrite data)) (comp : Completion) :
    Suspended (s.onRetryWritten data comp) := by
  obtain ⟨hs,hn,-,hup⟩ := hw
  unfold HttpSession.onRetryWritten
  split
  · exact (h.emit (e := .upstreamWriteFailed data comp.written) ⟨hs.agrees.next,hs.nothing⟩).close
      ⟨hs.settled.request,hs.settled.response⟩
  · exact (h.upstreamWritten hs comp).pullAndWriteRequest (hs.upstreamWritten comp) hn hup

theorem Live.onRereadConnected {s : HttpSession G} {c : Cycle} (h : Live s c [])
    (hw : Waits s c .rereadConnect) (comp : Completion) : Suspended (s.onRereadConnected comp) := by
  obtain ⟨hs,hcap,honce,hsent⟩ := hw
  obtain ⟨hsnap,hfinal⟩ := hs.captured hcap
  unfold HttpSession.onRereadConnected
  split
  next socket _ _ =>
    have h1 := h.takeUpstream hsent socket false hs.chosen (fun hp => by cases hp) hs.notRefused
    have hs1 := hs.takeUpstream socket false
    have h2 := (h1.emit (e := .writeUpstream s.upstreamWholeRequestSnapshot)
      ⟨⟨hs.notDirect,hs.notRefused,hs.head,hs.unseen⟩,hs.agrees.next⟩).await
      (.rereadWrite s.upstreamWholeRequestSnapshot)
    exact .waiting _ _ h2 ⟨{ hs1 with },hsnap,hfinal,honce,hsent,rfl⟩
  next => exact (h.emit (e := .upstreamConnectError) trivial).close hs.settled

theorem Live.onRereadWritten {s : HttpSession G} {c : Cycle} {data : Bytes} (h : Live s c [])
    (hw : Waits s c (.rereadWrite data)) (comp : Completion) :
    Suspended (s.onRereadWritten data comp) := by
  obtain ⟨hs,hdata,hfinal,honce,hsent,hup⟩ := hw
  unfold HttpSession.onRereadWritten
  split
  · exact (h.emit (e := .upstreamWriteFailed data comp.written) ⟨hs.agrees.next,hs.nothing⟩).close
      ⟨hs.settled.request,hs.settled.response⟩
  · have hwrote : s.upstreamWroteOnce = true := hs.wroteOnce.trans honce
    have heq : ({ s with upstreamWroteOnce := true } : HttpSession G) = s := by
      rw [← hwrote]
    have h1 := h.upstreamWritten hs comp
    have hs1 := hs.upstreamWritten comp
    rw [heq] at h1 hs1
    refine h1.startResponsePhase hs1 hfinal ?_ hup
    change c.request.sent ++ data = c.request.wire
    rw [hsent,hdata,List.nil_append]

theorem Live.onResponseRead {s : HttpSession G} {c : Cycle} (h : Live s c [])
    (hw : Waits s c .readResponse) (comp : Completion) : Suspended (s.onResponseRead comp) := by
  obtain ⟨ha,hdr,hm,hh⟩ := hw
  unfold HttpSession.onResponseRead
  split
  · have h1 := h.emit (e := .upstreamReadFailed) trivial
    dsimp only
    split
    next hcond =>
      simp only [Bool.and_eq_true,Bool.not_eq_true'] at hcond
      exact h.retryUpstreamAfterReadFailure ha hcond.1.1 hcond.1.2 hcond.2
    next =>
      refine h1.close (ha.settled fun hmd => ?_)
      rw [hm] at hmd
      cases hmd
  · exact h.processUpstreamChunk ha hdr hm hh comp.data

end HttpSession
end PerCoreShard
