import PerCoreShard.Session.Acts

/-! The two drain loops, seen from the gate: which chunks they pass to it, and with which
flags. -/
namespace PerCoreShard
open Library

/-- A call of the gate in the given direction. -/
def Effect.gateCall (isRequest : Bool) : Effect → Option GateCall
  | .gateRequest call => if isRequest then some call else none
  | .gateResponse call => if isRequest then none else some call
  | _ => none

/-- A chunk that is passed to the gate while `scratch` is handed over, after the calls in `past`:
it is the next piece, and it carries the end of the stream only if nothing is behind it. -/
structure NextChunk (scratch : Bytes) (messageDone : Bool) (past : List GateCall) (call : GateCall) :
    Prop where
  nonempty : call.chunk ≠ []
  bounded : call.chunk.length ≤ bodyScratchSize
  inOrder : gated (past ++ [call]) <+: scratch
  endStream : call.endStream = (decide (gated (past ++ [call]) = scratch) && messageDone)
  accepted : ∀ earlier ∈ past, earlier.result.rejects = false

/-- The calls by which a scratch is handed over, and what is left of it. -/
structure HandsOver (scratch : Bytes) (messageDone : Bool) (calls : List GateCall) (left : Bytes) :
    Prop where
  each : AtEvery (NextChunk scratch messageDone) calls
  whole : (∀ call ∈ calls, call.result.rejects = false) → gated calls = scratch ∧ left = []
  idle : scratch = [] → calls = []

theorem idle_of_each {messageDone : Bool} {calls : List GateCall}
    (h : AtEvery (NextChunk [] messageDone) calls) : calls = [] := by
  cases calls with
  | nil => rfl
  | cons call calls =>
    have hfirst := (atEvery_iff _ _).mp h [] call calls rfl
    have hnil := List.prefix_nil.mp hfirst.inOrder
    exact absurd (by simpa [gated] using hnil) hfirst.nonempty

/-- What a drain loop sees of the state it runs on. -/
structure Draining (σ : Type) where
  scratch : σ → Bytes
  messageDone : σ → Bool
  calls : σ → List GateCall

section
variable {σ : Type} {readBody : σ → Bytes × σ} {process : Bytes → Bool → σ → Bool × σ}

/-- What processing a chunk means to the gate: it is called once. -/
structure OneCall (d : Draining σ) (chunk : Bytes) (endStream : Bool) (s : σ) (r : Bool × σ)
    (call : GateCall) : Prop where
  calls : d.calls r.2 = d.calls s ++ [call]
  chunk : call.chunk = chunk
  endStream : call.endStream = endStream
  result : r.1 = !call.result.rejects
  kept : r.1 = true → d.scratch r.2 = d.scratch s ∧ d.messageDone r.2 = d.messageDone s

/-- The loop that drains a scratch hands it over. -/
theorem drainLoop_handsOver (d : Draining σ)
    (hpiece : ∀ s, (readBody s).1 = (d.scratch s).take bodyScratchSize)
    (hread : ∀ s, d.scratch (readBody s).2 = (d.scratch s).drop bodyScratchSize ∧
      d.messageDone (readBody s).2 = d.messageDone s ∧ d.calls (readBody s).2 = d.calls s)
    (hprocess : ∀ chunk endStream s, ∃ call,
      OneCall d chunk endStream s (process chunk endStream s) call)
    (s : σ) : ∃ new, d.calls (drainLoop readBody process d.messageDone ((d.scratch s).length + 2) none s) =
      d.calls s ++ new ∧ HandsOver (d.scratch s) (d.messageDone s) new
        (d.scratch (drainLoop readBody process d.messageDone ((d.scratch s).length + 2) none s)) := by
  have key := drainLoop_rule readBody process d.messageDone d.scratch bodyScratchSize
    (I := fun held t => ∃ new, d.calls t = d.calls s ++ new ∧ d.messageDone t = d.messageDone s ∧
      gated new ++ held ++ d.scratch t = d.scratch s ∧
      AtEvery (NextChunk (d.scratch s) (d.messageDone s)) new ∧
      ∀ call ∈ new, call.result.rejects = false)
    (N := fun _ => True)
    (J := fun t => ∃ new, d.calls t = d.calls s ++ new ∧
      AtEvery (NextChunk (d.scratch s) (d.messageDone s)) new ∧
      ∃ call ∈ new, call.result.rejects = true)
    (by decide) hpiece ?_ ?_ ((d.scratch s).length + 2) none s (by omega)
    ⟨[],by simp,rfl,by simp [gated],trivial,by simp⟩ trivial (by simp)
  · rcases key with ⟨⟨new,hcalls,-,hall,heach,hok⟩,hleft⟩ | ⟨new,hcalls,heach,call,hmem,hr⟩
    · refine ⟨new,hcalls,heach,fun _ => ⟨?_,hleft⟩,fun hnil => idle_of_each (hnil ▸ heach)⟩
      simpa [hleft] using hall
    · refine ⟨new,hcalls,heach,fun hok => ?_,fun hnil => idle_of_each (hnil ▸ heach)⟩
      rw [hok call hmem] at hr
      cases hr
  · rintro held t ⟨new,hcalls,hdone,hall,heach,hok⟩ -
    obtain ⟨hscratch,hdone',hcalls'⟩ := hread t
    refine ⟨⟨new,hcalls'.trans hcalls,hdone'.trans hdone,?_,heach,hok⟩,trivial,hscratch⟩
    rw [hpiece,hscratch,← hall]
    simp
  · rintro chunk more t endStream ⟨hne,hlen⟩ ⟨new,hcalls,hdone,hall,heach,hok⟩ - hend
    obtain ⟨call,hcall⟩ := hprocess chunk endStream t
    have hgated : gated (new ++ [call]) ++ (more ++ d.scratch t) = d.scratch s := by
      rw [gated_append,hcall.chunk,← hall]
      simp
    have hnext : NextChunk (d.scratch s) (d.messageDone s) new call := by
      refine ⟨hcall.chunk ▸ hne,hcall.chunk ▸ hlen,⟨_,hgated⟩,?_,hok⟩
      rw [hcall.endStream,hend,hdone]
      congr 1
      rw [Bool.eq_iff_iff,decide_eq_true_iff,List.isEmpty_iff,← hgated]
      constructor
      · intro hnil
        rw [hnil,List.append_nil]
      · intro heq
        simpa using heq
    have heach' : AtEvery (NextChunk (d.scratch s) (d.messageDone s)) (new ++ [call]) :=
      (atEvery_append _ _ _).mpr ⟨heach,hnext,trivial⟩
    have hcalls' : d.calls (process chunk endStream t).2 = d.calls s ++ (new ++ [call]) := by
      rw [hcall.calls,hcalls,List.append_assoc]
    split
    next hgo =>
      obtain ⟨hscratch,hdone'⟩ := hcall.kept hgo
      refine ⟨⟨new ++ [call],hcalls',hdone'.trans hdone,?_,heach',?_⟩,hscratch,fun _ => trivial⟩
      · rw [hscratch,← hgated,List.append_assoc]
      · intro earlier hmem
        rcases List.mem_append.mp hmem with hmem | hmem
        · exact hok earlier hmem
        · obtain rfl := List.mem_singleton.mp hmem
          simpa [hgo] using hcall.result
    next hgo =>
      refine ⟨new ++ [call],hcalls',heach',call,by simp,?_⟩
      simpa [hgo] using hcall.result

end

namespace HttpSession
variable {G : Gateway}

/-- The calls of the gate on record. -/
def gateCalls (isRequest : Bool) (s : HttpSession G) : List GateCall :=
  s.log.filterMap (Effect.gateCall isRequest)

theorem gateCalls_emit (isRequest : Bool) (s : HttpSession G) (e : Effect) :
    (s.emit e).gateCalls isRequest = s.gateCalls isRequest ++ (e.gateCall isRequest).toList := by
  unfold gateCalls HttpSession.emit
  rw [List.filterMap_append]
  cases he : e.gateCall isRequest <;> simp [he]

theorem gateCalls_close (isRequest : Bool) (s : HttpSession G) :
    s.close.gateCalls isRequest = s.gateCalls isRequest := by
  cases hc : s.closing with
  | true => rw [close_of_closing hc]
  | false =>
    have hnone : s.closingEffects.filterMap (Effect.gateCall isRequest) = [] := by
      cases hu : s.upstream <;> cases hr : s.readBuf <;> cases hw : s.writeBuf <;>
        simp [closingEffects,hu,hr,hw,Effect.gateCall]
    rw [close_eq hc]
    simp only [gateCalls,List.filterMap_append,hnone,List.append_nil]

theorem gateCalls_pullAndWriteDirect (isRequest : Bool) {s : HttpSession G}
    (hd : s.directResponseMode = true) :
    s.pullAndWriteResponseToDownstream.gateCalls isRequest = s.gateCalls isRequest := by
  have hdirect : s.afterResponsePull.directResponseMode = true := hd
  have hwrite : ∀ data, ((s.afterResponsePull.emit (.writeDownstream data)).await
      (.writeResponse data)).gateCalls isRequest = s.gateCalls isRequest := by
    intro data
    exact (gateCalls_emit isRequest s.afterResponsePull _).trans (List.append_nil _)
  rw [pullAndWriteResponseToDownstream_eq,finishCycle_of_direct hdirect,hd]
  split
  · split
    · exact gateCalls_close _ _
    · exact gateCalls_close _ _
  · exact hwrite _

/-- A session that responds directly does not call the gate. -/
theorem gateCalls_respondDirectly (isRequest : Bool) (s : HttpSession G) (head : ResponseHead)
    (body : Bytes) : (s.respondDirectly head body).gateCalls isRequest = s.gateCalls isRequest := by
  have hemit : ∀ (t : HttpSession G) (e : Effect), e.gateCall isRequest = none →
      (t.emit e).gateCalls isRequest = t.gateCalls isRequest := by
    intro t e he
    rw [gateCalls_emit,he]
    exact List.append_nil _
  have hprovided := ((hemit _ (.provideResponse body true) rfl).trans
    (hemit _ (.startResponse head) rfl)).trans
      (hemit { s with directResponseMode := true } (.respondDirectly head body) rfl)
  exact (gateCalls_pullAndWriteDirect isRequest rfl).trans hprovided

/-- The request body on its way to the gate. -/
def drainingRequest : Draining (HttpSession G) where
  scratch := fun s => s.requestParser.scratch
  messageDone := fun s => s.requestParser.messageDone
  calls := gateCalls true

/-- The response body on its way to the gate. -/
def drainingResponse : Draining (HttpSession G) where
  scratch := fun s => s.theResponseParser.scratch
  messageDone := fun s => s.theResponseParser.messageDone
  calls := gateCalls false

theorem oneCall_request (chunk : Bytes) (endStream : Bool) (s : HttpSession G) :
    OneCall drainingRequest chunk endStream s
      (s.processRequestDataChunk chunk endStream) (s.requestCall chunk endStream) := by
  have hgate : (s.afterRequestGate chunk endStream).gateCalls true =
      s.gateCalls true ++ [s.requestCall chunk endStream] := gateCalls_emit true _ _
  have hforward : ∀ (t : HttpSession G) (data : Bytes), (t.provideRequest data endStream).gateCalls
      true = t.gateCalls true := by
    intro t data
    exact (gateCalls_emit true _ _).trans (List.append_nil _)
  rw [processRequestDataChunk_eq]
  cases hr : (s.requestCall chunk endStream).result with
  | reject head body =>
    exact ⟨(gateCalls_respondDirectly true _ head body).trans hgate,rfl,rfl,by rw [hr]; rfl,
      fun h => by cases h⟩
  | stillBuffering => exact ⟨hgate,rfl,rfl,by rw [hr]; rfl,fun _ => ⟨rfl,rfl⟩⟩
  | forward data =>
    exact ⟨(hforward _ data).trans hgate,rfl,rfl,by rw [hr]; rfl,fun _ => ⟨rfl,rfl⟩⟩

theorem oneCall_response (chunk : Bytes) (endStream : Bool) (s : HttpSession G) :
    OneCall drainingResponse chunk endStream s
      (s.processResponseDataChunk chunk endStream) (s.responseCall chunk endStream) := by
  have hgate : (s.afterResponseGate chunk endStream).gateCalls false =
      s.gateCalls false ++ [s.responseCall chunk endStream] := gateCalls_emit false _ _
  have hforward : ∀ (t : HttpSession G) (data : Bytes), (t.provideResponse data endStream).gateCalls
      false = t.gateCalls false := by
    intro t data
    exact (gateCalls_emit false _ _).trans (List.append_nil _)
  rw [processResponseDataChunk_eq]
  cases hr : (s.responseCall chunk endStream).result with
  | reject head body =>
    exact ⟨(gateCalls_respondDirectly false _ head body).trans hgate,rfl,rfl,by rw [hr]; rfl,
      fun h => by cases h⟩
  | stillBuffering => exact ⟨hgate,rfl,rfl,by rw [hr]; rfl,fun _ => ⟨rfl,rfl⟩⟩
  | forward data =>
    exact ⟨(hforward _ data).trans hgate,rfl,rfl,by rw [hr]; rfl,fun _ => ⟨rfl,rfl⟩⟩

/-- Whatever the scratch holds and the gate answers, both drains hand the scratch over. -/
theorem drained_to_gate (s : HttpSession G) :
    (∃ calls, s.drainRequestBodyIntoSerializer.gateCalls true = s.gateCalls true ++ calls ∧
      HandsOver s.requestParser.scratch s.requestParser.messageDone calls
        s.drainRequestBodyIntoSerializer.requestParser.scratch) ∧
    ∃ calls, s.drainResponseBodyIntoSerializer.gateCalls false = s.gateCalls false ++ calls ∧
      HandsOver s.theResponseParser.scratch s.theResponseParser.messageDone calls
        s.drainResponseBodyIntoSerializer.theResponseParser.scratch :=
  ⟨drainLoop_handsOver drainingRequest (fun _ => rfl) (fun _ => ⟨rfl,rfl,rfl⟩)
      (fun chunk endStream s => ⟨_,oneCall_request chunk endStream s⟩) s,
    drainLoop_handsOver drainingResponse (fun _ => rfl) (fun _ => ⟨rfl,rfl,rfl⟩)
      (fun chunk endStream s => ⟨_,oneCall_response chunk endStream s⟩) s⟩

end HttpSession
end PerCoreShard
