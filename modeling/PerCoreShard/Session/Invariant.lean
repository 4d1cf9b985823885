import PerCoreShard.Session.Cycle

/-! The invariant of `HttpSession`: its log follows the protocol of a cycle, and its members
agree with what the log amounts to. One predicate says, for each operation a session can be
waiting for, what is known while it waits. -/
namespace PerCoreShard
open LlhttpParser

/-- What a session does of its own when it closes. -/
def Effect.isClosing : Effect → Bool
  | .closeDownstream | .closeUpstream _ | .releaseBuffer _ | .onClose => true
  | _ => false

namespace HttpSession
variable {G : Gateway}

def requestDirection (s : HttpSession G) : Direction G.requestLlhttp RequestHead where
  parser := s.requestParser
  serializer := s.requestSerializer
  gate := s.bodyFilterGate.requestState
  filtered := s.requestFiltered
  started := s.requestSerializerStarted
  finalProvided := s.requestFinalBodyProvided

def responseDirection (s : HttpSession G) : Direction G.responseLlhttp ResponseHead where
  parser := s.theResponseParser
  serializer := s.responseSerializer
  gate := s.bodyFilterGate.responseState
  filtered := s.responseFiltered
  started := s.responseSerializerStarted
  finalProvided := s.responseFinalBodyProvided

/-- The logs of the session are logs of the protocol. -/
structure Sound (s : HttpSession G) : Prop where
  rules : Conforms G s.log
  past : ∀ log ∈ s.past, Conforms G log ∧ log.getLast? = some .resetForNextRequest

/-- An open session in cycle state `c` that waits for the operations `ops`. -/
structure Live (s : HttpSession G) (c : Cycle) (ops : List Op) : Prop where
  sound : Sound s
  log : cycleOf s.log = c
  isOpen : s.closing = false
  pending : s.pending = ops
  writeBuf : s.writeBuf.isSome = true

/-- The request side, with `inflight` handed to an upstream write that is not complete. -/
structure RequestState (s : HttpSession G) (c : Cycle) (held inflight : Bytes) : Prop where
  agrees : Agrees s.requestDirection c.request held inflight
  direct : s.directResponseMode = false
  notDirect : c.direct = false
  notRefused : c.refused = false
  connecting : s.upstreamConnecting = c.endpoint.isSome
  endpoint : ∀ index, c.endpoint = some index → s.endpointIndex = index
  unconnected : c.endpoint = none → c.request.sent = [] ∧ c.retries = 0
  wroteOnce : s.upstreamWroteOnce = c.wroteOnce
  nothing : c.wroteOnce = false → c.request.sent = []
  retries : c.retries = if s.upstreamRetryUsed then 1 else 0
  error : (c.request.parse G.requestLlhttp).hasError = c.unread.isSome
  captured : s.upstreamWholeRequestCaptured = true →
    s.upstreamWholeRequestSnapshot = c.request.wire ∧ final c.request.provided = true

/-- The response side before any byte of a response was read. -/
structure Untouched (s : HttpSession G) (c : Cycle) : Prop where
  response : c.response = {}
  issued : c.issued = []
  earlier : c.earlier = []
  gate : s.bodyFilterGate.responseState = {}
  filtered : s.responseFiltered = false
  started : s.responseSerializerStarted = false
  finalProvided : s.responseFinalBodyProvided = false
  effective : s.downstreamKeepAliveEffective = false

/-- The response side, with `inflight` handed to a downstream write that is not complete. -/
structure ResponseState (s : HttpSession G) (c : Cycle) (held inflight : Bytes) : Prop where
  agrees : Agrees s.responseDirection c.response held inflight
  parser : s.responseParser.isSome = true
  responding : c.responding = true
  earlier : c.earlier = []
  issued : c.issued = c.response.sent ++ inflight
  effective : s.downstreamKeepAliveEffective = true → ∃ head filtered,
    c.response.filtered = some (head,.continue_,filtered) ∧ Cycle.framed filtered = true ∧
      c.response.head = some (Cycle.relayedHead filtered true)
  readAny : s.upstreamResponseReadAny = false → c.response = {}

/-- A session that writes a response of its own and will close after it. -/
structure Replying (s : HttpSession G) (c : Cycle) (inflight : Bytes) : Prop where
  direct : s.directResponseMode = true
  isRefused : c.refused = true
  isReplying : c.replying = true
  coherent : s.responseSerializer.Coherent
  wire : c.response.wire = c.response.sent ++ inflight ++ s.responseSerializer.remaining
  issued : c.issued = c.earlier ++ c.response.sent ++ inflight
  complete : s.responseSerializer.isLastProvided = true

/-- What is known while the request is on its way to an upstream. -/
structure Sending (s : HttpSession G) (c : Cycle) (inflight : Bytes) : Prop
    extends RequestState s c [] inflight, Untouched s c where
  head : c.request.head.isSome = true
  chosen : c.endpoint.isSome = true
  unseen : c.ErrorUnseen
  drained : c.request.Drained G.requestLlhttp
  complete : (c.request.parse G.requestLlhttp).messageDone = true →
    final c.request.provided = true

/-- What is known while the response is on its way to the client. -/
structure Answering (s : HttpSession G) (c : Cycle) (held inflight : Bytes) : Prop where
  request : RequestState s c [] []
  response : ResponseState s c held inflight
  head : c.request.head.isSome = true
  chosen : c.endpoint.isSome = true
  unseen : c.ErrorUnseen
  drained : c.request.Drained G.requestLlhttp
  final : PerCoreShard.final c.request.provided = true
  sent : c.request.sent = c.request.wire
  upstream : s.upstream.isSome = true

/-- What is known while the request is read. -/
structure Receiving (s : HttpSession G) (c : Cycle) (held : Bytes) : Prop
    extends RequestState s c held [], Untouched s c where
  notResponding : c.responding = false
  connected : c.endpoint.isSome = true → s.upstream.isSome = true

/-- What is known while the session waits for an operation. -/
def Waits (s : HttpSession G) (c : Cycle) : Op → Prop
  | .readRequest =>
    Receiving s c [] ∧ c.ErrorUnseen ∧ c.request.Drained G.requestLlhttp ∧
      (c.request.parse G.requestLlhttp).messageDone = false ∧
      ((c.request.parse G.requestLlhttp).headerDone = true → c.request.head.isSome = true)
  | .connect => Sending s c [] ∧ c.responding = false ∧ c.retries = 0 ∧ c.request.sent = []
  | .writeRequest data =>
    Sending s c data ∧ c.responding = false ∧ s.upstream.isSome = true ∧
      s.writeBufFront data.length = data
  | .retryConnect n =>
    Sending s c (s.writeBufFront n) ∧ c.responding = false ∧ c.retries = 1 ∧
      c.request.sent = []
  | .retryWrite data =>
    Sending s c data ∧ c.responding = false ∧ c.retries = 1 ∧ s.upstream.isSome = true
  | .rereadConnect =>
    Sending s c s.upstreamWholeRequestSnapshot ∧ s.upstreamWholeRequestCaptured = true ∧
      c.wroteOnce = true ∧ c.request.sent = []
  | .rereadWrite data =>
    Sending s c data ∧ data = c.request.wire ∧ final c.request.provided = true ∧
      c.wroteOnce = true ∧ c.request.sent = [] ∧ s.upstream.isSome = true
  | .readResponse =>
    Answering s c [] [] ∧ c.response.Drained G.responseLlhttp ∧
      (c.response.parse G.responseLlhttp).messageDone = false ∧
      ((c.response.parse G.responseLlhttp).headerDone = true → c.response.head.isSome = true)
  | .writeResponse data =>
    Replying s c data ∨ (Answering s c [] data ∧ c.response.Drained G.responseLlhttp ∧
      c.response.head.isSome = true ∧ ((c.response.parse G.responseLlhttp).messageDone = true →
        final c.response.provided = true))

/-- The invariant: between two callbacks a session is closed and waits for nothing, or it is
open and waits for exactly one operation. -/
inductive Suspended (s : HttpSession G) : Prop
  | closed (sound : Sound s) (closing : s.closing = true) (idle : s.pending = [])
    (settled : (cycleOf s.log).Settled G)
  | waiting (op : Op) (c : Cycle) (live : Live s c [op]) (waits : Waits s c op)

@[simp] theorem log_emit (s : HttpSession G) (e : Effect) : (s.emit e).log = s.log ++ [e] := rfl

@[simp] theorem closing_emit (s : HttpSession G) (e : Effect) : (s.emit e).closing = s.closing := rfl
@[simp] theorem pending_emit (s : HttpSession G) (e : Effect) : (s.emit e).pending = s.pending := rfl

theorem Sound.emit {s : HttpSession G} {e : Effect} (h : Sound s)
    (ha : (cycleOf s.log).Allows G s.log.getLast? e) : Sound (s.emit e) where
  rules := conforms_append.mpr ⟨h.rules,ha⟩
  past := h.past

theorem Live.emit {s : HttpSession G} {c : Cycle} {ops : List Op} {e : Effect} (h : Live s c ops)
    (ha : c.Allows G s.log.getLast? e) : Live (s.emit e) (c.record e) ops where
  sound := h.sound.emit (h.log ▸ ha)
  log := by rw [log_emit,cycleOf_append,h.log]
  isOpen := h.isOpen
  pending := h.pending
  writeBuf := h.writeBuf

theorem Live.await {s : HttpSession G} {c : Cycle} {ops : List Op} (h : Live s c ops) (op : Op) :
    Live (s.await op) c (ops ++ [op]) := by
  refine { h with pending := ?_, sound := ⟨h.sound.rules,h.sound.past⟩ }
  simp [HttpSession.await,h.pending]

/-- What closing an open session does to its surroundings. -/
def closingEffects (s : HttpSession G) : List Effect :=
  .closeDownstream::(s.upstream.map Effect.closeUpstream).toList ++
    (s.readBuf.map Effect.releaseBuffer).toList ++
    (s.writeBuf.map Effect.releaseBuffer).toList ++ [.onClose]

theorem isClosing_closingEffects (s : HttpSession G) :
    ∀ e ∈ s.closingEffects, e.isClosing = true := by
  cases hu : s.upstream <;> cases hr : s.readBuf <;> cases hw : s.writeBuf <;>
    simp [closingEffects,hu,hr,hw,Effect.isClosing]

theorem close_eq {s : HttpSession G} (h : s.closing = false) :
    s.close = { s with
      closing := true, readBuf := none, writeBuf := none, log := s.log ++ s.closingEffects } := by
  obtain ⟨upstream,_,_,_,_,_,_,_,_,_,readBuf,writeBuf⟩ := s
  unfold close
  rw [if_neg (ne_true_of_eq_false h)]
  cases upstream <;> cases readBuf <;> cases writeBuf <;>
    simp [closeUpstreamSocket,releaseReadBuf,releaseWriteBuf,closingEffects,emit]

theorem close_of_closing {s : HttpSession G} (h : s.closing = true) : s.close = s := if_pos h

/-- Closing changes the flag, the buffers and the log, and nothing else. -/
theorem close_frame (s : HttpSession G) : ∃ closing readBuf writeBuf log, s.close = { s with
    closing := closing, readBuf := readBuf, writeBuf := writeBuf, log := log } := by
  cases hc : s.closing with
  | true => exact ⟨_,_,_,_,close_of_closing hc⟩
  | false => exact ⟨_,_,_,_,close_eq hc⟩

theorem closing_close (s : HttpSession G) : s.close.closing = true := by
  cases hc : s.closing with
  | true => rw [close_of_closing hc,hc]
  | false => rw [close_eq hc]

/-- Closing is allowed at any time. -/
theorem conforms_closing {log es : List Effect} (h : Conforms G log)
    (hes : ∀ e ∈ es, e.isClosing = true) : Conforms G (log ++ es) := by
  induction es generalizing log with
  | nil => rwa [List.append_nil]
  | cons e es ih =>
    obtain ⟨he,hes⟩ := List.forall_mem_cons.mp hes
    rw [List.append_cons]
    refine ih (conforms_append.mpr ⟨h,?_⟩) hes
    cases e <;> trivial

/-- Closing adds nothing to the books but the end of a connection. -/
theorem settled_closing {log es : List Effect} (h : (cycleOf log).Settled G)
    (hes : ∀ e ∈ es, e.isClosing = true) : (cycleOf (log ++ es)).Settled G := by
  induction es generalizing log with
  | nil => rwa [List.append_nil]
  | cons e es ih =>
    obtain ⟨he,hes⟩ := List.forall_mem_cons.mp hes
    rw [List.append_cons]
    refine ih ?_ hes
    rw [cycleOf_append]
    cases e <;> first | exact ⟨h.request,h.response⟩ | cases he

theorem Live.close {s : HttpSession G} {c : Cycle} (h : Live s c []) (hc : c.Settled G) :
    Suspended s.close := by
  have hes := s.isClosing_closingEffects
  rw [close_eq h.isOpen]
  refine .closed ⟨conforms_closing h.sound.rules hes,h.sound.past⟩ rfl h.pending ?_
  exact settled_closing (by rwa [h.log]) hes

theorem Receiving.settled {s : HttpSession G} {c : Cycle} {held : Bytes} (hr : Receiving s c held)
    (h : (c.request.parse G.requestLlhttp).messageDone = true →
      (c.request.parse G.requestLlhttp).hasError = true ∨ final c.request.provided = true) :
    c.Settled G where
  request _ := h
  response _ hn := by
    rw [hr.notResponding] at hn
    cases hn

theorem Sending.settled {s : HttpSession G} {c : Cycle} {inflight : Bytes}
    (hs : Sending s c inflight) : c.Settled G where
  request _ hm := .inr (hs.complete hm)
  response _ _ hm := by
    rw [hs.response] at hm
    cases hm

theorem Answering.settled {s : HttpSession G} {c : Cycle} {held inflight : Bytes}
    (ha : Answering s c held inflight)
    (h : (c.response.parse G.responseLlhttp).messageDone = true →
      (c.response.parse G.responseLlhttp).hasError = true ∨
        PerCoreShard.final c.response.provided = true) : c.Settled G where
  request _ _ := .inr ha.final
  response _ _ := h

theorem Replying.settled {s : HttpSession G} {c : Cycle} {inflight : Bytes}
    (hr : Replying s c inflight) : c.Settled G where
  request hd := by
    rw [hr.isRefused] at hd
    cases hd
  response hd := by
    rw [hr.isRefused] at hd
    cases hd

theorem Live.readRequestChunk {s : HttpSession G} {c : Cycle} (h : Live s c [])
    (hr : Receiving s c []) (he : c.ErrorUnseen) (hd : c.request.Drained G.requestLlhttp)
    (hm : (c.request.parse G.requestLlhttp).messageDone = false)
    (hh : (c.request.parse G.requestLlhttp).headerDone = true → c.request.head.isSome = true) :
    Suspended s.readRequestChunk := by
  have hl := (h.emit (e := .readDownstream)
    ⟨hr.notDirect,hr.notRefused,hr.notResponding,he⟩).await .readRequest
  exact .waiting .readRequest c hl ⟨{ hr with },he,hd,hm,hh⟩

/-- Nothing of an earlier cycle is left in the books of the next one. -/
theorem fresh_receiving {s : HttpSession G} (hp : s.requestParser = .create _ _)
    (hz : s.requestSerializer = {}) (hg : s.bodyFilterGate = {}) (hf : s.requestFiltered = false)
    (hst : s.requestSerializerStarted = false) (hfin : s.requestFinalBodyProvided = false)
    (hd : s.directResponseMode = false) (hc : s.upstreamConnecting = false)
    (hw : s.upstreamWroteOnce = false) (hr : s.upstreamRetryUsed = false)
    (hcap : s.upstreamWholeRequestCaptured = false) (hf' : s.responseFiltered = false)
    (hst' : s.responseSerializerStarted = false) (hfin' : s.responseFinalBodyProvided = false)
    (heff : s.downstreamKeepAliveEffective = false) : Receiving s {} [] where
  agrees := .fresh hp hz (by simp [requestDirection,hg]) hf hst hfin
  direct := hd
  notDirect := rfl
  notRefused := rfl
  connecting := hc
  endpoint _ h := by simp at h
  unconnected _ := ⟨rfl,rfl⟩
  wroteOnce := hw
  nothing _ := rfl
  retries := by simp [hr]
  error := rfl
  captured h := by simp [hcap] at h
  response := rfl
  issued := rfl
  earlier := rfl
  gate := by simp [hg]
  filtered := hf'
  started := hst'
  finalProvided := hfin'
  effective := heff
  notResponding := rfl
  connected h := by simp at h

theorem Live.resetForNextRequest {s : HttpSession G} {c : Cycle} (h : Live s c [])
    (ha : c.Allows G s.log.getLast? .resetForNextRequest) : Suspended s.resetForNextRequest := by
  refine Live.readRequestChunk (c := {}) ?_ ?_ (.inl rfl) (fun h => by cases h) rfl
    (fun h => by cases h)
  · refine ⟨⟨by simp [Conforms],?_⟩,rfl,h.isOpen,h.pending,h.writeBuf⟩
    intro log hlog
    rcases List.mem_append.mp hlog with hlog | hlog
    · exact h.sound.past log hlog
    · rw [List.mem_singleton.mp hlog]
      exact ⟨(h.sound.emit (h.log ▸ ha)).rules,by simp⟩
  · exact fresh_receiving rfl rfl rfl rfl rfl rfl rfl rfl rfl rfl rfl rfl rfl rfl rfl

end HttpSession
end PerCoreShard
