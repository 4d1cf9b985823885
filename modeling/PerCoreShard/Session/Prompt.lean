import PerCoreShard.Session.Flight

/-! Operations that complete at once. A completion handler may be called before the function
that starts the operation returns. Every operation is started in the last statement of the
code that starts it, except that a direct response is written from inside the loops that
process a read; those notice `direct_response_mode_` and return. So a run in which operations
complete at once is a run in which their completions are delivered afterwards. -/
namespace PerCoreShard
open Library

namespace HttpSession
variable {G : Gateway} (k : HttpSession G → HttpSession G)

/-! In what follows `k` is what happens when the operation just started completes at once. -/

def drainRequestPromptly (s : HttpSession G) : Bool × HttpSession G :=
  if s.requestSerializerStarted then
    let t := drainLoop readRequestBody
      (fun chunk endStream s => followedBy k (s.processRequestDataChunk chunk endStream))
      (fun s => s.requestParser.messageDone) (s.requestParser.scratch.length + 2) none s
    (!t.directResponseMode,t)
  else (true,s)

def processDownstreamChunkPromptly (s : HttpSession G) (raw : Bytes) (a : Answers G) :
    HttpSession G :=
  let r := relayLoop feedRequest (fun s => followedBy k s.filterRequestHead)
    (drainRequestPromptly k) requestStuck (raw.length + 1) raw s
  if r.1 then k (r.2.continueRequest a) else r.2

def drainResponsePromptly (s : HttpSession G) : Bool × HttpSession G :=
  if s.responseSerializerStarted then
    let t := drainLoop readResponseBody
      (fun chunk endStream s => followedBy k (s.processResponseDataChunk chunk endStream))
      (fun s => s.theResponseParser.messageDone) (s.theResponseParser.scratch.length + 2) none s
    (!t.directResponseMode,t)
  else (true,s)

def processUpstreamChunkPromptly (s : HttpSession G) (raw : Bytes) : HttpSession G :=
  let r := relayLoop feedResponse (fun s => followedBy k s.filterResponseHead)
    (drainResponsePromptly k) responseStuck (raw.length + 1) raw s
  if r.1 then k r.2.continueResponse else r.2

def handlePromptly (s : HttpSession G) (e : Event G) : HttpSession G :=
  match e.op,e.completion.ok with
  | .readRequest,true =>
    (s.noteRequestRead e.completion.data).processDownstreamChunkPromptly k e.completion.data
      e.answers
  | .readResponse,true =>
    (s.noteResponseRead e.completion.data).processUpstreamChunkPromptly k e.completion.data
  | _,_ => k (s.handle e)

def deliverPromptly (s : HttpSession G) (e : Event G) : HttpSession G :=
  handlePromptly k { s with
    pending := s.pending.erase e.op
    filterCtx := e.answers.touch s.filterCtx } e

/-- The operations that are started complete at once, with these results, as long as there
are any. -/
def settle : List (Completion × Answers G) → HttpSession G → HttpSession G
  | [],s => s
  | x::xs,s =>
    match s.pending with
    | [] => s
    | op::_ => s.deliverPromptly (settle xs) ⟨op,x.1,x.2⟩

/-- A session that writes a direct response or has none left to write. -/
structure Replies (s : HttpSession G) : Prop where
  direct : s.directResponseMode = true
  pending : s.pending = [] ∨ ∃ data, s.pending = [.writeResponse data]

theorem replies_pullAndWriteResponse {s : HttpSession G} (hd : s.directResponseMode = true)
    (hp : s.pending = []) : Replies s.pullAndWriteResponseToDownstream := by
  refine ⟨direct_pullAndWriteResponse hd,?_⟩
  have hdirect : s.afterResponsePull.directResponseMode = true := hd
  have hpending : s.afterResponsePull.close.pending = [] := (pending_close _).trans hp
  rw [pullAndWriteResponseToDownstream_eq]
  split
  · left
    split
    · rw [finishCycle_of_direct hdirect,hpending]
    · simp only [hd,Bool.not_true,Bool.false_and,Bool.false_eq_true,if_false,hpending]
  · refine .inr ⟨(s.responseSerializer.pull s.writeBufSize).1,?_⟩
    simp [await,afterResponsePull,hp]

theorem replies_respondDirectly {s : HttpSession G} (hp : s.pending = []) (head : ResponseHead)
    (body : Bytes) : Replies (s.respondDirectly head body) := by
  unfold respondDirectly
  exact replies_pullAndWriteResponse rfl hp

/-- What the operations that complete at once may do to a session that responds directly. -/
structure Follows : Prop where
  idle : ∀ s, s.pending = [] → k s = s
  direct : ∀ s, Replies s → (k s).directResponseMode = true

variable {k}

/-- A session that processes a read has nothing in flight until it responds directly, and
then at most the write of that response. -/
theorem phases_replies : Phases (G := G)
    (fun s => s.directResponseMode = false ∧ s.pending = [])
    (fun s => s.pending = [] ∨ ∃ data, s.pending = [.writeResponse data]) where
  frame _ _ _ hd hp _ h := ⟨hd.trans h.1,hp.trans h.2⟩
  direct _ h := h.1
  respond _ head body h := (replies_respondDirectly h.2 head body).pending
  close s h := .inl ((pending_close s).trans h.2)

theorem drainRequestPromptly_eq (hk : Follows k) {s : HttpSession G}
    (hs : s.directResponseMode = false ∧ s.pending = []) :
    s.drainRequestPromptly k = followedBy k s.drainRequest := by
  have houtcome := phases_replies.drainRequest s hs
  unfold drainRequestPromptly drainRequest at *
  split
  next hst =>
    rw [if_pos hst] at houtcome
    rw [drainLoop_followedBy readRequestBody _ _ k (fun t => t.directResponseMode)
      (fun t ht => ht.1) (fun t ht => phases_replies.frame t _ rfl rfl rfl rfl ht)
      (fun chunk endStream t ht =>
        (phases_replies.processRequestDataChunk chunk endStream t ht).imp And.right) _ _ s hs]
    change (!(if s.drainRequestBodyIntoSerializer.directResponseMode = true then
        k s.drainRequestBodyIntoSerializer else s.drainRequestBodyIntoSerializer).directResponseMode,
      if s.drainRequestBodyIntoSerializer.directResponseMode = true then
        k s.drainRequestBodyIntoSerializer else s.drainRequestBodyIntoSerializer) = _
    cases hd : s.drainRequestBodyIntoSerializer.directResponseMode with
    | false => simp [hd,followedBy]
    | true =>
      have hreplies := hk.direct _ ⟨hd,(houtcome.ended (by simp [hd])).1⟩
      simp [hreplies,followedBy]
  next => rfl

theorem processDownstreamChunkPromptly_eq (hk : Follows k) {s : HttpSession G}
    (hs : s.directResponseMode = false ∧ s.pending = []) (raw : Bytes) (a : Answers G) :
    s.processDownstreamChunkPromptly k raw a = k (s.processDownstreamChunk raw a) := by
  have hstuck : ∀ t : HttpSession G, t.directResponseMode = false ∧ t.pending = [] →
      followedBy k t.requestStuck = t.requestStuck := by
    intro t ht
    unfold requestStuck
    split
    · simp [followedBy,hk.idle _ ((pending_close t).trans ht.2)]
    · rfl
  unfold processDownstreamChunkPromptly processDownstreamChunk
  rw [relayLoop_followedBy phases_replies.feedRequest
    (fun t ht => (phases_replies.filterRequestHead t ht).imp fun _ => trivial)
    (fun t ht => (phases_replies.drainRequest t ht).imp fun _ => trivial)
    (fun _ _ => rfl) (fun _ ht => drainRequestPromptly_eq hk ht) hstuck _ _ s hs]
  dsimp only
  by_cases hgo : (relayLoop feedRequest filterRequestHead drainRequest requestStuck
      (raw.length + 1) raw s).1 = true
  · simp only [followedBy,hgo,if_true]
  · simp only [followedBy,hgo,Bool.false_eq_true,if_false]

theorem drainResponsePromptly_eq (hk : Follows k) {s : HttpSession G}
    (hs : s.directResponseMode = false ∧ s.pending = []) :
    s.drainResponsePromptly k = followedBy k s.drainResponse := by
  have houtcome := phases_replies.drainResponse s hs
  unfold drainResponsePromptly drainResponse at *
  split
  next hst =>
    rw [if_pos hst] at houtcome
    rw [drainLoop_followedBy readResponseBody _ _ k (fun t => t.directResponseMode)
      (fun t ht => ht.1) (fun t ht => phases_replies.frame t _ rfl rfl rfl rfl ht)
      (fun chunk endStream t ht =>
        (phases_replies.processResponseDataChunk chunk endStream t ht).imp And.right) _ _ s hs]
    change (!(if s.drainResponseBodyIntoSerializer.directResponseMode = true then
        k s.drainResponseBodyIntoSerializer else s.drainResponseBodyIntoSerializer).directResponseMode,
      if s.drainResponseBodyIntoSerializer.directResponseMode = true then
        k s.drainResponseBodyIntoSerializer else s.drainResponseBodyIntoSerializer) = _
    cases hd : s.drainResponseBodyIntoSerializer.directResponseMode with
    | false => simp [hd,followedBy]
    | true =>
      have hreplies := hk.direct _ ⟨hd,(houtcome.ended (by simp [hd])).1⟩
      simp [hreplies,followedBy]
  next => rfl

theorem processUpstreamChunkPromptly_eq (hk : Follows k) {s : HttpSession G}
    (hs : s.directResponseMode = false ∧ s.pending = []) (raw : Bytes) :
    s.processUpstreamChunkPromptly k raw = k (s.processUpstreamChunk raw) := by
  have hstuck : ∀ t : HttpSession G, t.directResponseMode = false ∧ t.pending = [] →
      followedBy k t.responseStuck = t.responseStuck := by
    intro t ht
    unfold responseStuck
    split
    · simp [followedBy,hk.idle _ ((pending_close t).trans ht.2)]
    · rfl
  unfold processUpstreamChunkPromptly processUpstreamChunk
  rw [relayLoop_followedBy phases_replies.feedResponse
    (fun t ht => (phases_replies.filterResponseHead t ht).imp fun _ => trivial)
    (fun t ht => (phases_replies.drainResponse t ht).imp fun _ => trivial)
    (fun _ _ => rfl) (fun _ ht => drainResponsePromptly_eq hk ht) hstuck _ _ s hs]
  dsimp only
  by_cases hgo : (relayLoop feedResponse filterResponseHead drainResponse responseStuck
      (raw.length + 1) raw s).1 = true
  · simp only [followedBy,hgo,if_true]
  · simp only [followedBy,hgo,Bool.false_eq_true,if_false]

theorem handlePromptly_eq (hk : Follows k) {s : HttpSession G} {e : Event G}
    (hp : s.pending = [])
    (hd : e.op = .readRequest ∨ e.op = .readResponse → s.directResponseMode = false) :
    s.handlePromptly k e = k (s.handle e) := by
  obtain ⟨op,⟨ok,data,written,socket⟩,a⟩ := e
  cases op <;> cases ok <;> try rfl
  · exact processDownstreamChunkPromptly_eq (s := s.noteRequestRead data) hk
      ⟨hd (.inl rfl),hp⟩ data a
  · exact processUpstreamChunkPromptly_eq (s := s.noteResponseRead data) hk
      ⟨hd (.inr rfl),hp⟩ data

theorem replies_onResponseWritten {s : HttpSession G} (hd : s.directResponseMode = true)
    (hp : s.pending = []) (data : Bytes) (c : Completion) :
    Replies (s.onResponseWritten data c) := by
  unfold onResponseWritten
  split
  · exact ⟨(directResponseMode_close _).trans hd,.inl ((pending_close _).trans hp)⟩
  · exact replies_pullAndWriteResponse hd hp

theorem follows_settle (xs : List (Completion × Answers G)) : Follows (settle (G := G) xs) := by
  induction xs with
  | nil => exact ⟨fun _ _ => rfl,fun _ h => h.direct⟩
  | cons x xs ih =>
    refine ⟨fun s hs => by simp [settle,hs],fun s hs => ?_⟩
    rcases hs.pending with hp | ⟨data,hp⟩
    · simpa [settle,hp] using hs.direct
    · simp only [settle,hp]
      exact ih.direct _ (replies_onResponseWritten (by exact hs.direct) (by simp [hp]) data x.1)

/-- Completing operations at once is delivering their completions one after the other. -/
theorem settle_eq_play (xs : List (Completion × Answers G)) {s : HttpSession G}
    (hs : Suspended s) : s.settle xs = s.play xs := by
  induction xs generalizing s with
  | nil => rfl
  | cons x xs ih =>
    simp only [settle]
    cases hp : s.pending with
    | nil =>
      exact (play_of_idle hp (x::xs)).symm
    | cons op ops =>
      have hmem : op ∈ s.pending := by simp [hp]
      have hdeliver : s.deliverPromptly (settle xs) ⟨op,x.1,x.2⟩ =
          settle xs (s.deliver ⟨op,x.1,x.2⟩) :=
        handlePromptly_eq (follows_settle xs) (hs.erase hmem) (hs.indirect hmem)
      dsimp only
      rw [hdeliver,ih (suspended_deliver hs hmem)]
      simp [play,resume,hp]

/-- The runs of a session in which the operations started by a callback may complete at
once: the event carries the completion the event loop delivers and the ones that follow. -/
def promptSystem (G : Gateway) : System (HttpSession G) (Event G × List (Completion × Answers G)) where
  initial s := ∃ ctx readBuf writeBuf xs, readBuf.data.length = G.bufferSize ∧
    writeBuf.data.length = G.bufferSize ∧ (∀ x ∈ xs, x.1.data.length ≤ G.bufferSize) ∧
    s = (start ctx readBuf writeBuf).settle xs
  step s e s' := e.1.op ∈ s.pending ∧ e.1.completion.data.length ≤ G.bufferSize ∧
    (∀ x ∈ e.2, x.1.data.length ≤ G.bufferSize) ∧ s' = s.deliverPromptly (settle e.2) e.1

theorem plays_of_fits {s : HttpSession G} {xs : List (Completion × Answers G)}
    (h : ∀ x ∈ xs, x.1.data.length ≤ G.bufferSize) : Plays (fun _ _ => True) s xs := by
  induction xs generalizing s with
  | nil => trivial
  | cons x xs ih => exact ⟨fun _ _ => trivial,h x (by simp),ih fun y hy => h y (by simp [hy])⟩

/-- A session that is reached with operations completing at once is reached without. -/
theorem reaches_of_prompt {s : HttpSession G} (h : (promptSystem G).Reaches s) :
    (system G).Reaches s := by
  refine h.invariant ?_ ?_
  · rintro _ ⟨ctx,readBuf,writeBuf,xs,hr,hw,hxs,rfl⟩
    rw [settle_eq_play xs (suspended_start ctx readBuf writeBuf)]
    exact reaches_play (.initial ⟨ctx,readBuf,writeBuf,hr,hw,rfl⟩) (plays_of_fits hxs)
  · rintro s ⟨e,xs⟩ _ hs ⟨he,hlen,hxs,rfl⟩
    have hsus := suspended_of_reaches hs
    have hdeliver : s.deliverPromptly (settle xs) e = settle xs (s.deliver e) :=
      handlePromptly_eq (follows_settle xs) (hsus.erase he) (hsus.indirect he)
    rw [hdeliver,settle_eq_play xs (suspended_deliver hsus he)]
    exact reaches_play (hs.step trivial ⟨he,hlen,rfl⟩) (plays_of_fits hxs)

/-- Between two callbacks a session is closed with nothing in flight, or it is open with
exactly one operation in flight, whether operations complete at once or later. -/
theorem one_in_flight {s : HttpSession G} (h : (promptSystem G).Reaches s) : OneInFlight s :=
  oneInFlight_of_reaches (reaches_of_prompt h)

/-- A request that is read, sent on and answered before `start` returns. -/
def promptRun : HttpSession (.strict [] 128) :=
  (strictStart [] 128).settle ([.read (ascii "GET /a HTTP/1.1\r\n\r\n"),.connected 7,.wrote 43,
    .read (ascii "HTTP/1.1 200 OK\r\nContent-Length: 0\r\n\r\n"),.wrote 62].map fun c => (c,{}))

theorem one_in_flight_prompt : promptRun.past.length = 1 ∧ OneInFlight promptRun :=
  ⟨by decide +kernel,one_in_flight (.initial ⟨(),_,_,_,List.length_replicate,
    List.length_replicate,by decide,rfl⟩)⟩

end HttpSession
end PerCoreShard
