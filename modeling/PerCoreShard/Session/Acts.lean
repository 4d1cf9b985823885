import PerCoreShard.Session.Run

/-! What a callback does of its own, after the completion it was called with is on record:
a composition of a few acts. Every function of the session is such a composition, so what
each act keeps is kept by all of them. -/
namespace PerCoreShard
open Library

/-- The entries that record the completion of a read or a write. -/
def Effect.isInput : Effect → Bool
  | .downstreamRead _ => true
  | .downstreamReadFailed => true
  | .downstreamWritten _ _ => true
  | .downstreamWriteFailed _ _ => true
  | .upstreamWritten _ _ => true
  | .upstreamWriteFailed _ _ => true
  | .upstreamRead _ => true
  | .upstreamReadFailed => true
  | _ => false

/-- The entries about the buffers and the connections a session holds and about its place in
the counters. -/
def Effect.isHolding : Effect → Bool
  | .onAccept | .onClose | .closeDownstream | .acquireBuffer _ | .releaseBuffer _ => true
  | .connected _ _ | .dropUpstream _ | .closeUpstream _ | .releaseConnection _ _ => true
  | _ => false

namespace HttpSession
variable {G : Gateway}

/-- All that was recorded since the session was started. -/
def history (s : HttpSession G) : List Effect := s.cycles.flatten

@[simp] theorem history_emit (s : HttpSession G) (e : Effect) :
    (s.emit e).history = s.history ++ [e] := by
  simp [history,cycles,emit]

theorem history_of_log {s t : HttpSession G} {es : List Effect} (hpast : t.past = s.past)
    (hlog : t.log = s.log ++ es) : t.history = s.history ++ es := by
  simp [history,cycles,hpast,hlog]

@[simp] theorem history_resetForNextRequest (s : HttpSession G) :
    s.resetForNextRequest.history = s.history ++ [.resetForNextRequest,.readDownstream] := by
  change ((s.past ++ [s.log ++ [Effect.resetForNextRequest]]) ++ [[Effect.readDownstream]]).flatten = _
  simp [history,cycles]

theorem isInput_closingEffects (s : HttpSession G) :
    ∀ e ∈ s.closingEffects, e.isInput = false := by
  cases hu : s.upstream <;> cases hr : s.readBuf <;> cases hw : s.writeBuf <;>
    simp [closingEffects,hu,hr,hw,Effect.isInput]

theorem takeUpstream_spec (s : HttpSession G) (socket : SocketId) (pooled : Bool) :
    s.takeUpstream socket pooled = { s with
      upstream := some socket
      log := s.log ++ (s.upstream.map Effect.dropUpstream).toList ++ [.connected socket pooled] } := by
  unfold takeUpstream
  cases hu : s.upstream <;> simp [emit]

theorem discardUpstream_spec (s : HttpSession G) :
    s.discardUpstream = { s with
      upstream := none, log := s.log ++ (s.upstream.map Effect.closeUpstream).toList } := by
  unfold discardUpstream closeUpstreamSocket
  cases hu : s.upstream <;> simp [emit]

theorem releaseUpstream_cases (s : HttpSession G) : s.releaseUpstream = s ∨
    ∃ socket, s.upstream = some socket ∧ s.releaseUpstream = { s with
      upstream := none, log := s.log ++ [.releaseConnection s.endpointIndex socket] } := by
  unfold releaseUpstream
  split
  next socket hu =>
    split
    · exact .inr ⟨socket,hu,rfl⟩
    · exact .inl rfl
  next => exact .inl rfl

/-- The buffers the session has are as long as the pool made them. -/
def Sized (s : HttpSession G) : Prop :=
  (∀ b ∈ s.readBuf, b.data.length = G.bufferSize) ∧ ∀ b ∈ s.writeBuf, b.data.length = G.bufferSize

/-- The members the laws below are about. -/
def vitals (s : HttpSession G) :
    List Effect × List (List Effect) × Bool × Option SocketId × Option Buffer × Option Buffer :=
  (s.log,s.past,s.closing,s.upstream,s.readBuf,s.writeBuf)

/-- An act that goes unrecorded. -/
structure Frame (s t : HttpSession G) : Prop where
  log : t.log = s.log
  past : t.past = s.past
  closing : t.closing = s.closing
  upstream : t.upstream = s.upstream
  readBuf : t.readBuf.map Buffer.id = s.readBuf.map Buffer.id
  writeBuf : t.writeBuf.map Buffer.id = s.writeBuf.map Buffer.id
  sized : s.Sized → t.Sized
  direct : s.directResponseMode = true → t.directResponseMode = true

/-- From `s` to `t` the session did nothing but what is listed here. -/
inductive Acts : HttpSession G → HttpSession G → Prop
  | frame {s t} (h : Frame s t) : Acts s t
  | note {s e} (hi : e.isInput = false) (hh : e.isHolding = false) : Acts s (s.emit e)
  | takeUpstream {s} (h : s.closing = false) (socket : SocketId) (pooled : Bool) :
    Acts s (s.takeUpstream socket pooled)
  | discardUpstream {s} (h : s.closing = false) : Acts s s.discardUpstream
  | releaseUpstream (s) : Acts s s.releaseUpstream
  | close (s) : Acts s s.close
  | reset {s} (h : s.directResponseMode = false) : Acts s s.resetForNextRequest
  | trans {s t u} (h : Acts s t) (h' : Acts t u) : Acts s u

namespace Acts

/-- An update of members that none of the laws below are about. -/
theorem same {s t : HttpSession G} (h : t.vitals = s.vitals)
    (hd : s.directResponseMode = true → t.directResponseMode = true) : Acts s t := by
  simp only [vitals,Prod.mk.injEq] at h
  obtain ⟨hlog,hpast,hc,hu,hr,hw⟩ := h
  exact .frame ⟨hlog,hpast,hc,hu,by rw [hr],by rw [hw],
    fun hs => by simpa [Sized,hr,hw] using hs,hd⟩

theorem refl (s : HttpSession G) : Acts s s := .same rfl id

theorem emit {s t : HttpSession G} (h : Acts s t) {e : Effect} (hi : e.isInput = false)
    (hh : e.isHolding = false) : Acts s (t.emit e) := h.trans (.note hi hh)

theorem await {s t : HttpSession G} (h : Acts s t) (op : Op) : Acts s (t.await op) :=
  h.trans (.same rfl id)

end Acts

theorem acts_readRequestChunk (s : HttpSession G) : Acts s s.readRequestChunk :=
  ((Acts.refl s).emit rfl rfl).await _

theorem acts_readResponseChunk (s : HttpSession G) : Acts s s.readResponseChunk :=
  ((Acts.refl s).emit rfl rfl).await _

theorem acts_finishCycle (s : HttpSession G) : Acts s s.finishCycle := by
  have h : Acts s s.releaseUpstream := .releaseUpstream s
  unfold finishCycle
  dsimp only
  split
  next hk =>
    simp only [Bool.and_eq_true,Bool.not_eq_true'] at hk
    exact h.trans (.reset hk.1)
  next => exact h.trans (.close _)

/-- A pull writes to the front of the write buffer. -/
theorem acts_pull {s t : HttpSession G} {z : Serializer} (hlog : t.log = s.log)
    (hpast : t.past = s.past) (hc : t.closing = s.closing) (hu : t.upstream = s.upstream)
    (hr : t.readBuf = s.readBuf)
    (hw : t.writeBuf = s.writeBuf.map fun b : Buffer => b.write (z.pull s.writeBufSize).1)
    (hd : s.directResponseMode = true → t.directResponseMode = true) : Acts s t := by
  refine .frame ⟨hlog,hpast,hc,hu,by rw [hr],?_,fun h => ⟨by simpa [hr] using h.1,?_⟩,hd⟩
  · rw [hw,Option.map_map]
    rfl
  · cases hb : s.writeBuf with
    | none => simp [hw,hb]
    | some b =>
      have hlen : (z.pull s.writeBufSize).1.length ≤ b.data.length := by
        have := z.length_pull s.writeBufSize
        simpa [writeBufSize,hb] using this
      have hsize := h.2 b hb
      simp only [hw,hb,Option.map_some,Option.mem_def,Option.some.injEq,forall_eq']
      rw [Buffer.length_write hlen,hsize]

theorem acts_pullAndWriteResponse (s : HttpSession G) :
    Acts s s.pullAndWriteResponseToDownstream := by
  have h : Acts s s.afterResponsePull :=
    acts_pull (z := s.responseSerializer) rfl rfl rfl rfl rfl rfl id
  rw [pullAndWriteResponseToDownstream_eq]
  split
  · split
    · exact h.trans (acts_finishCycle _)
    · split
      · exact h.trans (acts_readResponseChunk _)
      · exact h.trans (.close _)
  · exact (h.emit rfl rfl).await _

theorem acts_startResponse (s : HttpSession G) (head : ResponseHead) :
    Acts s (s.startResponse head) := by
  refine Acts.emit ?_ rfl rfl
  exact .same rfl id

theorem acts_provideResponse (s : HttpSession G) (chunk : Bytes) (isLast : Bool) :
    Acts s (s.provideResponse chunk isLast) := by
  refine Acts.emit ?_ rfl rfl
  exact .same rfl id

theorem acts_provideRequest (s : HttpSession G) (chunk : Bytes) (isLast : Bool) :
    Acts s (s.provideRequest chunk isLast) := by
  refine Acts.emit ?_ rfl rfl
  exact .same rfl id

theorem acts_respondDirectly (s : HttpSession G) (head : ResponseHead) (body : Bytes) :
    Acts s (s.respondDirectly head body) := by
  have h1 : Acts s ({ s with directResponseMode := true }.emit (.respondDirectly head body)) := by
    refine Acts.emit ?_ rfl rfl
    exact .same rfl fun _ => rfl
  exact ((h1.trans (acts_startResponse _ _)).trans (acts_provideResponse _ _ _)).trans
    (acts_pullAndWriteResponse _)

theorem acts_startResponsePhase (s : HttpSession G) : Acts s s.startResponsePhase := by
  refine Acts.trans (Acts.emit ?_ rfl rfl) (acts_readResponseChunk _)
  exact .same rfl id

theorem acts_pullAndWriteRequest (s : HttpSession G) : Acts s s.pullAndWriteRequestToUpstream := by
  have h : Acts s s.afterRequestPull :=
    acts_pull (z := s.requestSerializer) rfl rfl rfl rfl rfl rfl id
  rw [pullAndWriteRequestToUpstream_eq]
  split
  · split
    · exact h.trans (acts_startResponsePhase _)
    · split
      · exact h.trans (acts_readRequestChunk _)
      · exact h.trans (.close _)
  · obtain ⟨captured,snapshot,heq,-⟩ := s.afterRequestPull.captureWholeRequest_eq
      (s.requestSerializer.pull s.writeBufSize).1
    rw [heq]
    refine Acts.await (Acts.emit ?_ rfl rfl) _
    exact h.trans (.same rfl id)

theorem acts_onConnected {s : HttpSession G} (h : s.closing = false) (c : Completion)
    (pooled : Bool) : Acts s (s.onConnected c pooled) := by
  unfold onConnected
  split
  · exact (Acts.takeUpstream h _ _).trans (acts_pullAndWriteRequest _)
  · exact ((Acts.refl s).emit rfl rfl).trans (.close _)

theorem acts_connectUpstream {s : HttpSession G} (h : s.closing = false) (a : Answers G) :
    Acts s (s.connectUpstream a) := by
  have h1 : Acts s (({ s with endpointIndex := a.endpoint }.emit (.selectEndpoint a.endpoint)).emit
      (.acquireConnection a.endpoint)) := by
    refine Acts.emit (Acts.emit ?_ rfl rfl) rfl rfl
    exact .same rfl id
  unfold connectUpstream
  dsimp only
  split
  · exact h1.trans (acts_onConnected (by exact h) _ _)
  · exact h1.await _

theorem acts_processRequestDataChunk (s : HttpSession G) (chunk : Bytes) (endStream : Bool) :
    Acts s (s.processRequestDataChunk chunk endStream).2 := by
  have h : Acts s (s.afterRequestGate chunk endStream) := by
    refine Acts.emit ?_ rfl rfl
    exact .same rfl id
  rw [processRequestDataChunk_eq]
  split
  · exact h.trans (acts_respondDirectly _ _ _)
  · exact h
  · refine Acts.trans ?_ (acts_provideRequest _ _ _)
    exact h.trans (.same rfl id)

theorem acts_processResponseDataChunk (s : HttpSession G) (chunk : Bytes) (endStream : Bool) :
    Acts s (s.processResponseDataChunk chunk endStream).2 := by
  have h : Acts s (s.afterResponseGate chunk endStream) := by
    refine Acts.emit ?_ rfl rfl
    exact .same rfl id
  rw [processResponseDataChunk_eq]
  split
  · exact h.trans (acts_respondDirectly _ _ _)
  · exact h
  · refine Acts.trans ?_ (acts_provideResponse _ _ _)
    exact h.trans (.same rfl id)

end HttpSession
end PerCoreShard
