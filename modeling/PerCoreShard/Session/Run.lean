import PerCoreShard.Library.Transition
import PerCoreShard.Net.Http.Llhttp.Strict
import PerCoreShard.Session.DownstreamRead

/-! Runs of `HttpSession`. In every state a run reaches, the session is closed and waits for
nothing or open and waits for exactly one operation, and the log of every request cycle is a
log of the protocol. -/
namespace PerCoreShard
open Library

/-- Induction over a log of the protocol. -/
theorem Conforms.induct_log {G : Gateway} {P : List Effect → Prop} (hinit : P [])
    (hstep : ∀ log e, Conforms G log → P log → (cycleOf log).Allows G log.getLast? e →
      P (log ++ [e])) {log : List Effect} (h : Conforms G log) : P log :=
  AtEvery.induct hinit hstep h

/-- Induction over the cycle states a log of the protocol passes through. -/
theorem Conforms.induct {G : Gateway} {P : Cycle → Prop} (hinit : P {})
    (hstep : ∀ c last e, P c → c.Allows G last e → P (c.record e)) {log : List Effect}
    (h : Conforms G log) : P (cycleOf log) := by
  refine h.induct_log (P := fun log => P (cycleOf log)) hinit fun log e _ hP ha => ?_
  rw [cycleOf_append]
  exact hstep _ _ e hP ha

/-- What every allowed effect keeps, longer logs keep. -/
theorem Conforms.keeps {G : Gateway} {P : Cycle → Prop}
    (hstep : ∀ c last e, P c → c.Allows G last e → P (c.record e)) {log more : List Effect}
    (h : Conforms G (log ++ more)) (hP : P (cycleOf log)) : P (cycleOf (log ++ more)) := by
  induction more using List.reverseRecOn with
  | nil => simpa using hP
  | append_singleton more e ih =>
    rw [← List.append_assoc] at h ⊢
    rw [conforms_append] at h
    rw [cycleOf_append]
    exact hstep _ _ e (ih h.1) h.2

/-- What was true at an effect inside a log of the protocol. -/
theorem Conforms.allows {G : Gateway} {past future : List Effect} {e : Effect}
    (h : Conforms G (past ++ e::future)) :
    Conforms G past ∧ (cycleOf past).Allows G past.getLast? e := by
  have hall := (atEvery_iff _ _).mp h
  refine ⟨(atEvery_iff _ _).mpr fun q x r hq => ?_,hall past e future rfl⟩
  exact hall q x (r ++ e::future) (by simp [hq])

/-- The response phase begins when the request has been handed over to the end. -/
theorem Conforms.request_of_responding {G : Gateway} {log : List Effect} (h : Conforms G log)
    (hr : (cycleOf log).responding = true) :
    (cycleOf log).request.head.isSome = true ∧ final (cycleOf log).request.provided = true := by
  refine h.induct (P := fun c => c.responding = true → c.request.head.isSome = true ∧
    final c.request.provided = true) (fun hn => by cases hn) (fun c last e ih ha hr => ?_) hr
  cases e with
  | startResponsePhase => exact ⟨ha.1.started,ha.2.1⟩
  | startRequest head => exact ⟨rfl,(ih hr).2⟩
  | provideRequest chunk isLast => exact ⟨(ih hr).1,by simp [Cycle.record,(ih hr).2]⟩
  | _ => exact ih hr

namespace HttpSession
variable {G : Gateway}

/-- The runs of a session: it is started with two buffers of the pool, and then the event
loop delivers completions of operations that are pending. -/
def system (G : Gateway) : System (HttpSession G) (Event G) where
  initial s := ∃ ctx readBuf writeBuf, readBuf.data.length = G.bufferSize ∧
    writeBuf.data.length = G.bufferSize ∧ s = start ctx readBuf writeBuf
  step s e s' := e.op ∈ s.pending ∧ e.completion.data.length ≤ G.bufferSize ∧ s' = s.deliver e

/-- The logs of all request cycles, the current one last. -/
def cycles (s : HttpSession G) : List (List Effect) := s.past ++ [s.log]

theorem suspended_start (ctx : G.Ctx) (readBuf writeBuf : Buffer) :
    Suspended (start ctx readBuf writeBuf) := by
  refine Live.readRequestChunk (c := {}) ?_ ?_ (.inl rfl) (fun h => by cases h) rfl
    (fun h => by cases h)
  · refine ⟨⟨?_,fun log hlog => by simp at hlog⟩,rfl,rfl,rfl,rfl⟩
    exact (atEvery_append _ [_,_] [_]).mpr ⟨⟨trivial,trivial,trivial⟩,trivial,trivial⟩
  · exact fresh_receiving rfl rfl rfl rfl rfl rfl rfl rfl rfl rfl rfl rfl rfl rfl rfl

/-- Taking an operation off and touching the shared filter objects is not visible to the
invariant. -/
theorem Waits.frame {s : HttpSession G} {c : Cycle} {op : Op} (h : Waits s c op) (ops : List Op)
    (ctx : G.Ctx) : Waits { s with pending := ops, filterCtx := ctx } c op := by
  cases op with
  | readRequest => exact ⟨{ h.1 with },h.2⟩
  | connect => exact ⟨{ h.1 with },h.2⟩
  | writeRequest data => exact ⟨{ h.1 with },h.2⟩
  | retryConnect n => exact ⟨{ h.1 with },h.2⟩
  | retryWrite data => exact ⟨{ h.1 with },h.2⟩
  | rereadConnect => exact ⟨{ h.1 with },h.2⟩
  | rereadWrite data => exact ⟨{ h.1 with },h.2⟩
  | readResponse =>
    exact ⟨{ h.1 with request := { h.1.request with }, response := { h.1.response with } },h.2⟩
  | writeResponse data =>
    rcases h with h | ⟨h,hd,hh⟩
    · exact .inl ⟨h.direct,h.isRefused,h.isReplying,h.coherent,h.wire,h.issued,h.complete⟩
    · exact .inr ⟨{ h with request := { h.request with }, response := { h.response with } },hd,hh⟩

/-- Every callback leads from one suspended state to another. -/
theorem suspended_deliver {s : HttpSession G} {e : Event G} (h : Suspended s)
    (he : e.op ∈ s.pending) : Suspended (s.deliver e) := by
  cases h with
  | closed _ _ hidle => simp [hidle] at he
  | waiting op c live waits =>
    rw [live.pending,List.mem_singleton] at he
    have hl : Live { s with
        pending := s.pending.erase e.op, filterCtx := e.answers.touch s.filterCtx } c [] :=
      { live with
        sound := ⟨live.sound.rules,live.sound.past⟩
        pending := by simp [live.pending,he] }
    have hw := waits.frame (s.pending.erase e.op) (e.answers.touch s.filterCtx)
    unfold deliver handle
    rw [he]
    rw [he] at hl hw
    cases op with
    | readRequest => exact hl.onRequestRead hw _ _
    | connect => exact hl.onConnected hw.1 hw.2.1 hw.2.2.1 hw.2.2.2 _ _
    | writeRequest data => exact hl.onRequestWritten hw _
    | retryConnect n => exact hl.onRetryConnected hw _
    | retryWrite data => exact hl.onRetryWritten hw _
    | rereadConnect => exact hl.onRereadConnected hw _
    | rereadWrite data => exact hl.onRereadWritten hw _
    | readResponse => exact hl.onResponseRead hw _
    | writeResponse data => exact hl.onResponseWritten hw _

theorem suspended_of_reaches {s : HttpSession G} (h : (system G).Reaches s) : Suspended s := by
  refine h.invariant ?_ ?_
  · rintro _ ⟨ctx,readBuf,writeBuf,-,-,rfl⟩
    exact suspended_start ctx readBuf writeBuf
  · rintro s e _ hs ⟨he,-,rfl⟩
    exact suspended_deliver hs he

/-- A session that waits for something is open. -/
theorem Suspended.isOpen {s : HttpSession G} {op : Op} (h : Suspended s) (hop : op ∈ s.pending) :
    s.closing = false := by
  cases h with
  | closed _ _ hidle => simp [hidle] at hop
  | waiting _ _ live => exact live.isOpen

theorem Suspended.idle {s : HttpSession G} (h : Suspended s) (hc : s.closing = true) :
    s.pending = [] := by
  cases h with
  | closed _ _ hidle => exact hidle
  | waiting _ _ live =>
    rw [live.isOpen] at hc
    cases hc

/-- Between callbacks a session waits for one operation at most, so that taking it off leaves
nothing. -/
theorem Suspended.erase {s : HttpSession G} {op : Op} (h : Suspended s) (hop : op ∈ s.pending) :
    s.pending.erase op = [] := by
  cases h with
  | closed _ _ hidle => simp [hidle] at hop
  | waiting op' c live waits =>
    rw [live.pending,List.mem_singleton] at hop
    simp [live.pending,hop]

/-- A session that reads is not responding directly. -/
theorem Suspended.indirect {s : HttpSession G} {op : Op} (h : Suspended s) (hop : op ∈ s.pending)
    (hr : op = .readRequest ∨ op = .readResponse) : s.directResponseMode = false := by
  cases h with
  | closed _ _ hidle => simp [hidle] at hop
  | waiting op' c live waits =>
    rw [live.pending,List.mem_singleton] at hop
    subst hop
    rcases hr with rfl | rfl
    · exact waits.1.direct
    · exact waits.1.request.direct

theorem Suspended.sound {s : HttpSession G} (h : Suspended s) : Sound s := by
  cases h with
  | closed sound => exact sound
  | waiting _ _ live => exact live.sound

/-- Every request cycle of every run follows the protocol. -/
theorem conforms_of_reaches {s : HttpSession G} (h : (system G).Reaches s) {log : List Effect}
    (hlog : log ∈ s.cycles) : Conforms G log := by
  have hs := (suspended_of_reaches h).sound
  rcases List.mem_append.mp hlog with hp | hp
  · exact (hs.past log hp).1
  · rw [List.mem_singleton.mp hp]
    exact hs.rules

/-- A cycle that has ended was followed by a reset that it allowed. -/
theorem reset_of_past {s : HttpSession G} (h : (system G).Reaches s) {log : List Effect}
    (hlog : log ∈ s.past) : ∃ past, log = past ++ [.resetForNextRequest] ∧ Conforms G past ∧
      (cycleOf past).Allows G past.getLast? .resetForNextRequest := by
  obtain ⟨hc,hlast⟩ := (suspended_of_reaches h).sound.past log hlog
  have hsplit := List.dropLast_append_getLast? _ hlast
  rw [← hsplit] at hc
  exact ⟨_,hsplit.symm,conforms_append.mp hc⟩

/-- Whatever has been received completely was handed on to its end, or refused. -/
theorem settled_of_reaches {s : HttpSession G} (h : (system G).Reaches s) {log : List Effect}
    (hlog : log ∈ s.cycles) : (cycleOf log).Settled G := by
  have hs := suspended_of_reaches h
  rcases List.mem_append.mp hlog with hp | hp
  · obtain ⟨past,rfl,hpast,ha,-⟩ := reset_of_past h hp
    rw [cycleOf_append]
    exact ⟨fun _ _ => .inr (hpast.request_of_responding ha.responding).2,fun _ _ _ => .inr ha.final⟩
  · rw [List.mem_singleton.mp hp]
    cases hs with
    | closed _ _ _ settled => exact settled
    | waiting op c live waits =>
      rw [live.log]
      cases op with
      | readRequest =>
        refine waits.1.settled fun hm => ?_
        rw [waits.2.2.2.1] at hm
        cases hm
      | connect => exact waits.1.settled
      | writeRequest => exact waits.1.settled
      | retryConnect => exact waits.1.settled
      | retryWrite => exact waits.1.settled
      | rereadConnect => exact waits.1.settled
      | rereadWrite => exact waits.1.settled
      | readResponse =>
        refine waits.1.settled fun hm => ?_
        rw [waits.2.2.1] at hm
        cases hm
      | writeResponse =>
        rcases waits with hr | ⟨ha,-,-,hf⟩
        · exact hr.settled
        · exact ha.settled fun hm => .inr (hf hm)

/-- Deliver a completion to the operation the session waits for. -/
def resume (s : HttpSession G) (x : Completion × Answers G) : HttpSession G :=
  match s.pending with
  | [] => s
  | op::_ => s.deliver ⟨op,x.1,x.2⟩

def play (s : HttpSession G) (xs : List (Completion × Answers G)) : HttpSession G :=
  xs.foldl resume s

theorem play_of_idle {s : HttpSession G} (hs : s.pending = [])
    (xs : List (Completion × Answers G)) : s.play xs = s := by
  induction xs with
  | nil => rfl
  | cons x xs ih =>
    have hresume : s.resume x = s := by simp [resume,hs]
    simpa [play,hresume] using ih

/-- The completions `play` delivers meet a condition. -/
def Plays (allowed : HttpSession G → Event G → Prop) :
    HttpSession G → List (Completion × Answers G) → Prop
  | _,[] => True
  | s,x::xs => (∀ op ∈ s.pending.head?, allowed s ⟨op,x.1,x.2⟩) ∧
    x.1.data.length ≤ G.bufferSize ∧ Plays allowed (s.resume x) xs

instance Plays.decidable (allowed : HttpSession G → Event G → Prop)
    [∀ s e, Decidable (allowed s e)] : ∀ s xs, Decidable (Plays (G := G) allowed s xs)
  | _,[] => inferInstanceAs (Decidable True)
  | s,x::xs =>
    have := Plays.decidable allowed (s.resume x) xs
    inferInstanceAs (Decidable (_ ∧ _ ∧ _))

/-- What is replayed is a run. -/
theorem reaches_play {allowed : HttpSession G → Event G → Prop} {s : HttpSession G}
    {xs : List (Completion × Answers G)} (h : (system G).ReachesWhen allowed s)
    (hp : Plays allowed s xs) : (system G).ReachesWhen allowed (s.play xs) := by
  induction xs generalizing s with
  | nil => exact h
  | cons x xs ih =>
    obtain ⟨hallowed,hlen,hp⟩ := hp
    refine ih ?_ hp
    unfold resume
    cases hop : s.pending with
    | nil => exact h
    | cons op ops =>
      exact h.step (hallowed op (by simp [hop])) ⟨by simp [hop],hlen,rfl⟩

end HttpSession

/-- A gateway whose parsers can be run. -/
def Gateway.strict (filterChain : FilterChain Unit) (bufferSize : ℕ) : Gateway where
  requestLlhttp := .strict .request
  responseLlhttp := .strict .response
  Ctx := Unit
  filterChain := filterChain
  freshContext := id
  bodyBufferHighWatermarkBytes := 1024
  bufferSize := bufferSize

namespace Completion

def read (data : Bytes) : Completion := ⟨true,data,0,none⟩
def connected (socket : SocketId) : Completion := ⟨true,[],0,some socket⟩
def wrote (n : ℕ) : Completion := ⟨true,[],n,none⟩
def failed (written : ℕ) : Completion := ⟨false,[],written,none⟩

end Completion

namespace HttpSession

/-- A session of such a gateway before its first completion. -/
def strictStart (filterChain : FilterChain Unit) (bufferSize : ℕ) :
    HttpSession (.strict filterChain bufferSize) :=
  start () ⟨0,List.replicate bufferSize 0⟩ ⟨1,List.replicate bufferSize 0⟩

/-- The session after the given completions, with nothing in the pool. -/
def strictRun (filterChain : FilterChain Unit) (bufferSize : ℕ) (cs : List Completion) :
    HttpSession (.strict filterChain bufferSize) :=
  (strictStart filterChain bufferSize).play (cs.map fun c => (c,{}))

theorem reaches_strictRun {filterChain : FilterChain Unit} {bufferSize : ℕ}
    {allowed : HttpSession (.strict filterChain bufferSize) →
      Event (.strict filterChain bufferSize) → Prop} {cs : List Completion}
    (h : Plays allowed (strictStart filterChain bufferSize) (cs.map fun c => (c,{}))) :
    (system _).ReachesWhen allowed (strictRun filterChain bufferSize cs) :=
  reaches_play (.initial ⟨(),_,_,List.length_replicate,List.length_replicate,rfl⟩) h

end HttpSession
end PerCoreShard
