import PerCoreShard.Session.Accounts

/-! Two sessions between which an observer cannot tell the difference. They agree in all that
is made anew for every request; what they do not agree in are their buffers, their records
and, until one is acquired, the connection they hold. -/
namespace PerCoreShard
open Library

/-- Nothing in it depends on what a session had before. -/
def Effect.plain : Effect → Bool
  | .releaseBuffer _ | .connected _ _ | .dropUpstream _ | .closeUpstream _ => false
  | _ => true

def Effect.takes : Effect → Bool
  | .connected _ _ => true
  | _ => false

/-- What a record shows: everything but the buffers that are given back and, until a connection
is `taken`, what becomes of one from before. -/
def observed : Bool → List Effect → List Effect
  | _,[] => []
  | taken,.releaseBuffer _::es => observed taken es
  | _,.connected socket pooled::es => .connected socket pooled::observed true es
  | taken,.dropUpstream socket::es =>
    if taken then .dropUpstream socket::observed taken es else observed taken es
  | taken,.closeUpstream socket::es =>
    if taken then .closeUpstream socket::observed taken es else observed taken es
  | taken,e::es => e::observed taken es

theorem takes_of_plain {e : Effect} (h : e.plain = true) : e.takes = false := by
  cases e <;> first | rfl | cases h

theorem observed_append (taken : Bool) (es fs : List Effect) :
    observed taken (es ++ fs) = observed taken es ++ observed (taken || es.any Effect.takes) fs := by
  induction es generalizing taken with
  | nil => simp [observed]
  | cons e es ih =>
    cases e with
    | connected socket pooled => simp [observed,ih,Effect.takes]
    | _ => cases taken <;> simp [observed,ih,Effect.takes]

namespace HttpSession
variable {G : Gateway}

/-- What is left of a session without its buffers, its records and its connection. -/
def core (s : HttpSession G) : HttpSession G :=
  { s with
    upstream := none, endpointIndex := 0, readBuf := none, writeBuf := none, log := [], past := [] }

/-- What an update of the rest leaves as it is. -/
def apart (s : HttpSession G) : List Effect × ℕ × Option SocketId × ℕ :=
  (s.history,s.writeBufSize,s.upstream,s.endpointIndex)

/-- Two records show the same since they were `past` and `past'`, and whether a connection was
`taken` since then. -/
def SameRecord (past past' : List Effect) (taken : Bool) (log log' : List Effect) : Prop :=
  ∃ es es', log = past ++ es ∧ log' = past' ++ es' ∧ observed false es = observed false es' ∧
    es.any Effect.takes = taken ∧ es'.any Effect.takes = taken

theorem SameRecord.append {past past' log log' es es' : List Effect} {taken taken' : Bool}
    (h : SameRecord past past' taken log log') (hes : observed taken es = observed taken es')
    (ht : (taken || es.any Effect.takes) = taken') (ht' : (taken || es'.any Effect.takes) = taken') :
    SameRecord past past' taken' (log ++ es) (log' ++ es') := by
  obtain ⟨fs,fs',rfl,rfl,hfs,hany,hany'⟩ := h
  refine ⟨fs ++ es,fs' ++ es',List.append_assoc _ _ _,List.append_assoc _ _ _,?_,?_,?_⟩
  · rw [observed_append,observed_append,hany,hany',hfs,Bool.false_or,hes]
  · rw [List.any_append,hany,ht]
  · rw [List.any_append,hany',ht']

/-- Two sessions that were alike when their records were `past` and `past'`, and still are. -/
structure Alike (past past' : List Effect) (taken : Bool) (s t : HttpSession G) : Prop where
  record : SameRecord past past' taken s.history t.history
  core : s.core = t.core
  size : s.writeBufSize = t.writeBufSize
  late : taken = true → s.upstream = t.upstream ∧ s.endpointIndex = t.endpointIndex
  early : taken = false → s.responseParser = none

variable {past past' : List Effect} {taken : Bool} {s t : HttpSession G}

namespace Alike

/-- What depends only on what the sessions agree in is the same. -/
theorem same (h : Alike past past' taken s t) {β : Type} (f : HttpSession G → β)
    (hf : ∀ u, f u = f u.core) : f s = f t := by
  rw [hf s,h.core,← hf t]

theorem update (h : Alike past past' taken s t) (f : HttpSession G → HttpSession G)
    (hf : ∀ u, (f u).core = (f u.core).core ∧ (f u).apart = u.apart)
    (hparser : taken = false → ∀ u, (f u).responseParser = u.responseParser) :
    Alike past past' taken (f s) (f t) := by
  simp only [apart,Prod.mk.injEq] at hf
  constructor
  · rw [(hf s).2.1,(hf t).2.1]
    exact h.record
  · rw [(hf s).1,(hf t).1,h.core]
  · rw [(hf s).2.2.1,(hf t).2.2.1,h.size]
  · intro hl
    rw [(hf s).2.2.2.1,(hf t).2.2.2.1,(hf s).2.2.2.2,(hf t).2.2.2.2]
    exact h.late hl
  · intro he
    rw [hparser he]
    exact h.early he

/-- An update that depends only on what the sessions agree in. -/
theorem map (h : Alike past past' taken s t) (f : HttpSession G → HttpSession G)
    (hf : ∀ u, (f u).core = (f u.core).core ∧ (f u).apart = u.apart ∧
      (f u).responseParser = u.responseParser) : Alike past past' taken (f s) (f t) :=
  h.update f (fun u => ⟨(hf u).1,(hf u).2.1⟩) fun _ u => (hf u).2.2

theorem mapLate (h : Alike past past' true s t) (f : HttpSession G → HttpSession G)
    (hf : ∀ u, (f u).core = (f u.core).core ∧ (f u).apart = u.apart) :
    Alike past past' true (f s) (f t) :=
  h.update f hf fun ht => by cases ht

/-- Entries that show the same and acquire nothing. -/
theorem extend (h : Alike past past' taken s t) {s' t' : HttpSession G} {es es' : List Effect}
    (hs : s'.history = s.history ++ es) (ht : t'.history = t.history ++ es')
    (hes : observed taken es = observed taken es') (hn : es.any Effect.takes = false)
    (hn' : es'.any Effect.takes = false) : SameRecord past past' taken s'.history t'.history := by
  rw [hs,ht]
  exact h.record.append hes (by simp [hn]) (by simp [hn'])

theorem emit (h : Alike past past' taken s t) {e : Effect} (he : e.plain = true) :
    Alike past past' taken (s.emit e) (t.emit e) :=
  { h with
    record := h.extend (history_emit s e) (history_emit t e) rfl (by simp [takes_of_plain he])
      (by simp [takes_of_plain he])
    core := h.core }

theorem await (h : Alike past past' taken s t) (op : Op) :
    Alike past past' taken (s.await op) (t.await op) :=
  h.map (fun u => u.await op) fun _ => ⟨rfl,rfl,rfl⟩

end Alike

theorem observed_closingEffects (s : HttpSession G) (taken : Bool) :
    observed taken s.closingEffects =
      .closeDownstream::(if taken then (s.upstream.map Effect.closeUpstream).toList else []) ++
        [.onClose] := by
  cases taken <;> cases hu : s.upstream <;> cases hr : s.readBuf <;> cases hw : s.writeBuf <;>
    simp [closingEffects,hu,hr,hw,observed]

theorem takes_closingEffects (s : HttpSession G) :
    s.closingEffects.any Effect.takes = false := by
  cases hu : s.upstream <;> cases hr : s.readBuf <;> cases hw : s.writeBuf <;>
    simp [closingEffects,hu,hr,hw,Effect.takes]

namespace Alike

theorem close (h : Alike past past' taken s t) : Alike past past' taken s.close t.close := by
  have hclosing := h.same (fun u => u.closing) fun _ => rfl
  cases hs : s.closing with
  | true => rwa [close_of_closing hs,close_of_closing (hclosing ▸ hs)]
  | false =>
    rw [close_eq hs,close_eq (hclosing ▸ hs)]
    refine ⟨?_,?_,rfl,h.late,h.early⟩
    · refine h.extend (history_of_log rfl rfl) (history_of_log rfl rfl) ?_ s.takes_closingEffects
        t.takes_closingEffects
      rw [observed_closingEffects,observed_closingEffects]
      cases taken with
      | true => rw [(h.late rfl).1]
      | false => rfl
    · exact (h.map (fun u => { u with closing := true }) fun _ => ⟨rfl,rfl,rfl⟩).core

theorem releaseUpstream (h : Alike past past' taken s t) :
    Alike past past' taken s.releaseUpstream t.releaseUpstream := by
  have hkeep := h.same (fun u => !u.directResponseMode && u.responseShouldKeepAlive) fun _ => rfl
  unfold HttpSession.releaseUpstream
  cases taken with
  | false =>
    -- no connection was acquired since, so there is no response that could allow a reuse
    have hno : s.responseShouldKeepAlive = false := by simp [responseShouldKeepAlive,h.early rfl]
    have hno' : t.responseShouldKeepAlive = false :=
      (h.same (fun u => u.responseShouldKeepAlive) fun _ => rfl).symm.trans hno
    rw [hno,hno',Bool.and_false,Bool.and_false]
    cases s.upstream <;> cases t.upstream <;> exact h
  | true =>
    obtain ⟨hup,hindex⟩ := h.late rfl
    rw [← hup,← hkeep,← hindex]
    cases s.upstream with
    | none => exact h
    | some socket =>
      dsimp only
      split
      · have hnone : Alike past past' true { s with upstream := none }
            { t with upstream := none, endpointIndex := s.endpointIndex } :=
          { h with late := fun _ => ⟨rfl,rfl⟩, core := h.core }
        exact hnone.emit (e := .releaseConnection s.endpointIndex socket) rfl
      · exact h

theorem resetForNextRequest (h : Alike past past' taken s t) :
    Alike past past' taken s.resetForNextRequest t.resetForNextRequest where
  record := h.extend (history_resetForNextRequest s) (history_resetForNextRequest t) rfl rfl rfl
  core := congrArg (fun u => u.resetForNextRequest.core) h.core
  size := h.size
  late := h.late
  early _ := rfl

end Alike

/-- What has to be the same for the completion of `op` to be handled alike. -/
def Due (taken : Bool) (s t : HttpSession G) : Op → Prop
  | .readRequest => taken = false → s.upstreamConnecting = false
  | .connect => s.endpointIndex = t.endpointIndex
  | .writeRequest data => taken = true ∧ s.writeBufFront data.length = t.writeBufFront data.length
  | .retryConnect n => taken = true ∧ s.writeBufFront n = t.writeBufFront n
  | .writeResponse _ => True
  | _ => taken = true

/-- Two sessions that are alike and wait for the same operations. -/
def Parallel (past past' : List Effect) (s t : HttpSession G) : Prop :=
  ∃ taken, Alike past past' taken s t ∧ ∀ op ∈ s.pending, Due taken s t op

namespace Alike

theorem parallel (h : Alike past past' taken s t) (hp : s.pending = []) :
    Parallel past past' s t := ⟨taken,h,by simp [hp]⟩

theorem parallel_await (h : Alike past past' taken s t) (hp : s.pending = []) {op : Op}
    (hdue : Due taken s t op) : Parallel past past' (s.await op) (t.await op) := by
  refine ⟨taken,h.await op,fun op' hop => ?_⟩
  rw [HttpSession.await,hp,List.nil_append,List.mem_singleton] at hop
  subst hop
  cases op' <;> exact hdue

theorem parallel_close (h : Alike past past' taken s t) (hp : s.pending = []) :
    Parallel past past' s.close t.close := h.close.parallel ((pending_close s).trans hp)

theorem parallel_readRequestChunk (h : Alike past past' taken s t) (hp : s.pending = [])
    (hc : taken = false → s.upstreamConnecting = false) :
    Parallel past past' s.readRequestChunk t.readRequestChunk :=
  (h.emit rfl).parallel_await hp hc

theorem parallel_readResponseChunk (h : Alike past past' true s t) (hp : s.pending = []) :
    Parallel past past' s.readResponseChunk t.readResponseChunk :=
  (h.emit rfl).parallel_await hp rfl

theorem parallel_resetForNextRequest (h : Alike past past' taken s t) (hp : s.pending = []) :
    Parallel past past' s.resetForNextRequest t.resetForNextRequest := by
  refine ⟨taken,h.resetForNextRequest,fun op hop => ?_⟩
  have hpending : s.resetForNextRequest.pending = s.pending ++ [.readRequest] := rfl
  rw [hpending,hp,List.nil_append,List.mem_singleton] at hop
  subst hop
  exact fun _ => rfl

theorem pending_releaseUpstream (s : HttpSession G) : s.releaseUpstream.pending = s.pending := by
  obtain heq | ⟨socket,-,heq⟩ := s.releaseUpstream_cases <;> rw [heq]

theorem parallel_finishCycle (h : Alike past past' taken s t) (hp : s.pending = []) :
    Parallel past past' s.finishCycle t.finishCycle := by
  have hr := h.releaseUpstream
  have hp' := (pending_releaseUpstream s).trans hp
  unfold HttpSession.finishCycle
  dsimp only
  rw [← hr.same (fun u => !u.directResponseMode && u.downstreamKeepAliveEffective) fun _ => rfl]
  split
  · exact hr.parallel_resetForNextRequest hp'
  · exact hr.parallel_close hp'

theorem writeBufSize_write (s : HttpSession G) (z : Serializer) :
    ((s.writeBuf.map fun b : Buffer => b.write (z.pull s.writeBufSize).1).map
      fun b => b.data.length).getD 0 = s.writeBufSize := by
  cases hb : s.writeBuf with
  | none => simp [writeBufSize,hb]
  | some b =>
    have hlen : (z.pull s.writeBufSize).1.length ≤ b.data.length := by
      have := z.length_pull s.writeBufSize
      simpa [writeBufSize,hb] using this
    simpa [writeBufSize,hb] using Buffer.length_write hlen

theorem afterResponsePull (h : Alike past past' taken s t) :
    Alike past past' taken s.afterResponsePull t.afterResponsePull where
  record := h.record
  core := by
    have hcore := (h.map (fun u => { u with
      responseSerializer := (u.responseSerializer.pull s.writeBufSize).2 }) fun _ => ⟨rfl,rfl,rfl⟩).core
    refine hcore.trans ?_
    rw [h.size]
    rfl
  size := (writeBufSize_write s _).trans (h.size.trans (writeBufSize_write t _).symm)
  late := h.late
  early := h.early

theorem afterRequestPull (h : Alike past past' taken s t) :
    Alike past past' taken s.afterRequestPull t.afterRequestPull where
  record := h.record
  core := by
    have hcore := (h.map (fun u => { u with
      requestSerializer := (u.requestSerializer.pull s.writeBufSize).2 }) fun _ => ⟨rfl,rfl,rfl⟩).core
    refine hcore.trans ?_
    rw [h.size]
    rfl
  size := (writeBufSize_write s _).trans (h.size.trans (writeBufSize_write t _).symm)
  late := h.late
  early := h.early

/-- Both pull the same bytes. -/
theorem pulled (h : Alike past past' taken s t) (f : HttpSession G → Serializer)
    (hf : ∀ u, f u = f u.core) :
    (f s).pull s.writeBufSize = (f t).pull t.writeBufSize := by
  rw [h.same f hf,h.size]

theorem parallel_pullAndWriteResponse (h : Alike past past' taken s t) (hp : s.pending = []) :
    Parallel past past' s.pullAndWriteResponseToDownstream t.pullAndWriteResponseToDownstream := by
  have ha := h.afterResponsePull
  rw [pullAndWriteResponseToDownstream_eq,pullAndWriteResponseToDownstream_eq,
    ← h.pulled (fun u => u.responseSerializer) fun _ => rfl,
    ← ha.same (fun u => u.responseSerializer) fun _ => rfl,
    ← h.same (fun u => !u.directResponseMode && u.responseIncomplete) fun _ => rfl]
  split
  · split
    · exact ha.parallel_finishCycle hp
    · split
      next hread =>
        cases taken with
        | true => exact ha.parallel_readResponseChunk hp
        | false => simp [responseIncomplete,h.early rfl] at hread
      · exact ha.parallel_close hp
  · exact (ha.emit rfl).parallel_await hp trivial

theorem startResponse (h : Alike past past' taken s t) (head : ResponseHead) :
    Alike past past' taken (s.startResponse head) (t.startResponse head) :=
  (h.map (fun u => { u with
    responseSerializer := .startResponse head, responseSerializerStarted := true })
      fun _ => ⟨rfl,rfl,rfl⟩).emit rfl

theorem provideResponse (h : Alike past past' taken s t) (chunk : Bytes) (isLast : Bool) :
    Alike past past' taken (s.provideResponse chunk isLast) (t.provideResponse chunk isLast) :=
  (h.map (fun u => { u with
    responseSerializer := u.responseSerializer.provideBody chunk isLast }) fun _ => ⟨rfl,rfl,rfl⟩).emit rfl

theorem provideRequest (h : Alike past past' taken s t) (chunk : Bytes) (isLast : Bool) :
    Alike past past' taken (s.provideRequest chunk isLast) (t.provideRequest chunk isLast) :=
  (h.map (fun u => { u with
    requestSerializer := u.requestSerializer.provideBody chunk isLast }) fun _ => ⟨rfl,rfl,rfl⟩).emit rfl

theorem parallel_respondDirectly (h : Alike past past' taken s t) (hp : s.pending = [])
    (head : ResponseHead) (body : Bytes) :
    Parallel past past' (s.respondDirectly head body) (t.respondDirectly head body) := by
  have hd := (h.map (fun u => { u with directResponseMode := true }) fun _ => ⟨rfl,rfl,rfl⟩).emit
    (e := .respondDirectly head body) rfl
  exact ((hd.startResponse head).provideResponse body true).parallel_pullAndWriteResponse hp

theorem parallel_startResponsePhase (h : Alike past past' true s t) (hp : s.pending = []) :
    Parallel past past' s.startResponsePhase t.startResponsePhase := by
  have hs := (h.mapLate (fun u => { u with
    responseParser := some (.create _ _), responseSerializer := {} }) fun _ => ⟨rfl,rfl⟩).emit
    (e := .startResponsePhase) rfl
  exact hs.parallel_readResponseChunk hp

theorem captureWholeRequest (h : Alike past past' taken s t) (data : Bytes) :
    Alike past past' taken (s.captureWholeRequest data) (t.captureWholeRequest data) := by
  unfold HttpSession.captureWholeRequest
  rw [← h.same (fun u => !u.upstreamWroteOnce && u.requestSerializer.done) fun _ => rfl]
  split
  · exact h.map (fun u => { u with
      upstreamWholeRequestSnapshot := data, upstreamWholeRequestCaptured := true }) fun _ => ⟨rfl,rfl,rfl⟩
  · exact h

/-- An entry that is made of what the sessions agree in. -/
theorem note (h : Alike past past' taken s t) {s' t' : HttpSession G}
    (h' : Alike past past' taken s' t') (e : HttpSession G → Effect)
    (hplain : (e s).plain = true) (he : ∀ u, e u = e u.core) :
    Alike past past' taken (s'.emit (e s)) (t'.emit (e t)) := by
  rw [← h.same e he]
  exact h'.emit hplain

theorem relayResponseHead (h : Alike past past' taken s t) (filtered : ResponseHead) :
    Alike past past' taken (s.relayResponseHead filtered) (t.relayResponseHead filtered) := by
  have hrelay := h.map (fun u => { u with
    downstreamKeepAliveEffective := u.downstreamWantsKeepAlive && Cycle.framed filtered
    responseSerializer := .startResponse
      (Cycle.relayedHead filtered (u.downstreamWantsKeepAlive && Cycle.framed filtered))
    responseSerializerStarted := true }) fun _ => ⟨rfl,rfl,rfl⟩
  exact h.note hrelay (fun u => .startResponse
    (Cycle.relayedHead filtered (u.downstreamWantsKeepAlive && Cycle.framed filtered))) rfl fun _ => rfl

theorem parallel_pullAndWriteRequest (h : Alike past past' true s t) (hp : s.pending = []) :
    Parallel past past' s.pullAndWriteRequestToUpstream t.pullAndWriteRequestToUpstream := by
  have ha := h.afterRequestPull
  have hpull := h.pulled (fun u => u.requestSerializer) fun _ => rfl
  rw [pullAndWriteRequestToUpstream_eq,pullAndWriteRequestToUpstream_eq,← hpull,
    ← ha.same (fun u => u.requestSerializer) fun _ => rfl,
    ← h.same (fun u => u.requestParser.messageDone) fun _ => rfl]
  split
  · split
    · exact ha.parallel_startResponsePhase hp
    · split
      · exact ha.parallel_readRequestChunk hp fun ht => by cases ht
      · exact ha.parallel_close hp
  next hne =>
    have hfront : ∀ u : HttpSession G, ∀ data, (u.captureWholeRequest data).writeBuf = u.writeBuf := by
      intro u data
      unfold HttpSession.captureWholeRequest
      split <;> rfl
    have hpending : ∀ u : HttpSession G, ∀ data, (u.captureWholeRequest data).pending = u.pending := by
      intro u data
      unfold HttpSession.captureWholeRequest
      split <;> rfl
    refine ((ha.captureWholeRequest _).emit rfl).parallel_await ((hpending _ _).trans hp) ⟨rfl,?_⟩
    refine (writeBufFront_pull (hfront _ _) hne).trans (Eq.symm ?_)
    rw [hpull] at hne ⊢
    exact writeBufFront_pull (hfront _ _) hne

theorem history_takeUpstream (s : HttpSession G) (socket : SocketId) (pooled : Bool) :
    (s.takeUpstream socket pooled).history = s.history ++
      ((s.upstream.map Effect.dropUpstream).toList ++ [.connected socket pooled]) := by
  rw [takeUpstream_spec]
  exact history_of_log rfl (List.append_assoc _ _ _)

theorem takeUpstream (h : Alike past past' taken s t)
    (hindex : s.endpointIndex = t.endpointIndex) (socket : SocketId) (pooled : Bool) :
    Alike past past' true (s.takeUpstream socket pooled) (t.takeUpstream socket pooled) := by
  have hrecord : SameRecord past past' true (s.takeUpstream socket pooled).history
      (t.takeUpstream socket pooled).history := by
    rw [history_takeUpstream,history_takeUpstream]
    refine h.record.append ?_ (by simp [Effect.takes]) (by simp [Effect.takes])
    cases taken with
    | true => rw [(h.late rfl).1]
    | false => cases s.upstream <;> cases t.upstream <;> rfl
  rw [takeUpstream_spec,takeUpstream_spec] at hrecord ⊢
  exact ⟨hrecord,h.core,h.size,fun _ => ⟨rfl,hindex⟩,fun ht => by cases ht⟩

theorem parallel_onConnected (h : Alike past past' taken s t) (hp : s.pending = [])
    (hindex : s.endpointIndex = t.endpointIndex) (c : Completion) (pooled : Bool) :
    Parallel past past' (s.onConnected c pooled) (t.onConnected c pooled) := by
  unfold HttpSession.onConnected
  split
  next socket _ _ =>
    refine (h.takeUpstream hindex socket pooled).parallel_pullAndWriteRequest ?_
    rw [takeUpstream_spec]
    exact hp
  · exact (h.emit rfl).parallel_close hp

theorem parallel_connectUpstream (h : Alike past past' taken s t) (hp : s.pending = [])
    (a : Answers G) : Parallel past past' (s.connectUpstream a) (t.connectUpstream a) := by
  have hselect : Alike past past' taken { s with endpointIndex := a.endpoint }
      { t with endpointIndex := a.endpoint } :=
    { h with late := fun hl => ⟨(h.late hl).1,rfl⟩, core := h.core }
  have hacquire := (hselect.emit (e := .selectEndpoint a.endpoint) rfl).emit
    (e := .acquireConnection a.endpoint) rfl
  unfold HttpSession.connectUpstream
  dsimp only
  split
  · exact hacquire.parallel_onConnected hp rfl _ _
  · exact hacquire.parallel_await hp rfl

theorem discardUpstream (h : Alike past past' true s t) :
    Alike past past' true s.discardUpstream t.discardUpstream := by
  obtain ⟨hup,hindex⟩ := h.late rfl
  rw [discardUpstream_spec,discardUpstream_spec,hup]
  refine ⟨?_,h.core,h.size,fun _ => ⟨rfl,hindex⟩,fun ht => by cases ht⟩
  refine h.extend (history_of_log rfl rfl) (history_of_log rfl rfl) rfl ?_ ?_ <;>
    cases t.upstream <;> rfl

end Alike
end HttpSession
end PerCoreShard
