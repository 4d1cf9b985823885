import PerCoreShard.Library.Computed
import PerCoreShard.Runtime.GatewayShard
import PerCoreShard.Session.Dealings
import PerCoreShard.Upstream.Custody

/-! A shard with its `UpstreamManager`. What a callback asks of the manager is done before the
next callback runs, what the manager answers is what the session is told, and the callback of
an acquire call runs in the session that has made the call. -/
namespace PerCoreShard
open Library

/-- The manager of a shard with, for each acquire call, the session that has made it. -/
structure Broker where
  upstreams : Upstreams
  callers : List ℕ := []
  deriving DecidableEq, Repr

namespace Broker
variable {G : Gateway}

/-- What an entry in the record of session `k` means for the manager. -/
def perform (k : ℕ) (b : Broker) : Effect → Broker
  | .selectEndpoint _ => { b with upstreams := b.upstreams.selectEndpoint }
  | .acquireConnection index =>
    { upstreams := b.upstreams.acquireConnection index, callers := b.callers ++ [k] }
  | .acquireFreshConnection index =>
    { upstreams := b.upstreams.acquireFreshConnection index, callers := b.callers ++ [k] }
  | .releaseConnection index socket =>
    { b with upstreams := b.upstreams.releaseConnection index socket }
  | .closeUpstream socket | .dropUpstream socket =>
    { b with upstreams := b.upstreams.emit (.discard socket) }
  | _ => b

/-- What the manager answers to a session that asks now. -/
def answers (b : Broker) (touch : G.Ctx → G.Ctx) : Answers G where
  endpoint := b.upstreams.manager.nextEndpoint
  pooled := (b.upstreams.manager.pool b.upstreams.manager.nextEndpoint).getLast?
  touch := touch

end Broker

structure RunningShard (G : Gateway) where
  shard : GatewayShard G
  broker : Broker

inductive RunningEvent (G : Gateway)
  | accept (ctx : G.Ctx)
  | complete (k : ℕ) (op : Op) (c : Completion) (touch : G.Ctx → G.Ctx)
  | connectDone (n : ℕ) (err : NetError) (touch : G.Ctx → G.Ctx)
  | timerDone (n : ℕ) (err : NetError) (touch : G.Ctx → G.Ctx)
  | refresh (resolve : Bytes → ℕ → Option NetEndpoint)

namespace RunningShard
variable {G : Gateway}

def accept (r : RunningShard G) (ctx : G.Ctx) : RunningShard G :=
  { r with shard := r.shard.dispatchAccept ctx }

/-- A completion handler of session `k`, with all it asks of the manager. -/
def complete (r : RunningShard G) (k : ℕ) (op : Op) (c : Completion) (touch : G.Ctx → G.Ctx) :
    RunningShard G :=
  match r.shard.sessions[k]? with
  | some s =>
    let e : Event G := ⟨op,c,r.broker.answers touch⟩
    { shard := r.shard.complete k e
      broker := (s.since (s.deliver e)).foldl (Broker.perform k) r.broker }
  | none => r

/-- The session that has made an acquire call, with the operation that waits for it. -/
def waiting (r : RunningShard G) (call : ℕ) : Option (ℕ × Op) := do
  let k ← r.broker.callers[call]?
  let s ← r.shard.sessions[k]?
  let op ← s.pending.find? Op.connects
  return (k,op)

/-- The callback of an acquire call. -/
def callBack (r : RunningShard G) (touch : G.Ctx → G.Ctx) :
    Option (ℕ × NetError × Option SocketId) → RunningShard G
  | some (call,err,socket) =>
    match r.waiting call with
    | some (k,op) => r.complete k op ⟨err.ok,[],0,socket⟩ touch
    | none => r
  | none => r

/-- A handler of a connect has left the manager as `u`; the callback follows if it has decided
the race. -/
def report (r : RunningShard G) (u : Upstreams) (touch : G.Ctx → G.Ctx) : RunningShard G :=
  { r with broker := { r.broker with upstreams := u } }.callBack touch
    (r.broker.upstreams.answered u)

/-- One callback of the event loop, if it can be the next one. -/
def next (r : RunningShard G) : RunningEvent G → Option (RunningShard G)
  | .accept ctx => some (r.accept ctx)
  | .complete k op c touch =>
    match r.shard.sessions[k]? with
    | some s =>
      if op ∈ s.pending ∧ op.connects = false ∧ c.data.length ≤ G.bufferSize then
        some (r.complete k op c touch)
      else none
    | none => none
  | .connectDone n err touch =>
    match r.broker.upstreams.attempts[n]? with
    | some a =>
      if a.connecting then some (r.report (r.broker.upstreams.onConnectDone n a err) touch)
      else none
    | none => none
  | .timerDone n err touch =>
    match r.broker.upstreams.attempts[n]? with
    | some a =>
      if a.waiting then some (r.report (r.broker.upstreams.onTimerDone n a err) touch)
      else none
    | none => none
  | .refresh resolve =>
    some { r with broker := { r.broker with
      upstreams := { r.broker.upstreams with
        manager := r.broker.upstreams.manager.resolveAll resolve } } }

def system (G : Gateway) (maxFree maxIdle : ℕ) : System (RunningShard G) (RunningEvent G) :=
  .computed (fun r => (GatewayShard.system G maxFree).initial r.shard ∧
    (Upstreams.system maxIdle).initial r.broker.upstreams ∧ r.broker.callers = []) next

end RunningShard

namespace Broker
variable {G : Gateway} {maxIdle : ℕ} {b : Broker} {c : Custody} {k : ℕ}
  {hand old : List (SocketId × ℕ)} {asked : List ℕ}

/-- The manager stands to its callers as the custody says, with caller `k` having this. -/
def Owes (maxIdle : ℕ) (b : Broker) (c : Custody) (k : ℕ) (hand : List (SocketId × ℕ))
    (asked : List ℕ) : Prop :=
  Upstreams.Books maxIdle b.upstreams b.callers (c.set k hand asked)

theorem perform_of_not_deals {e : Effect} (h : e.deals = false) : b.perform k e = b := by
  cases e <;> first | rfl | cases h

@[simp] theorem perform_connected (socket : SocketId) (pooled : Bool) :
    b.perform k (.connected socket pooled) = b := rfl

theorem foldl_perform_filter (es : List Effect) :
    (es.filter Effect.deals).foldl (perform k) b = es.foldl (perform k) b := by
  rw [List.foldl_filter]
  congr 1
  funext b e
  cases hd : e.deals with
  | true => rfl
  | false => exact (perform_of_not_deals hd).symm

theorem foldl_perform_since {s t : HttpSession G} {es : List Effect} (h : HttpSession.Deals s t es) :
    (s.since t).foldl (perform k) b = es.foldl (perform k) b := by
  obtain ⟨xs,hx,rfl⟩ := h
  rw [HttpSession.since,hx,List.drop_left,foldl_perform_filter]

theorem endpoints_perform (e : Effect) :
    (b.perform k e).upstreams.manager.endpoints = b.upstreams.manager.endpoints := by
  cases e with
  | acquireConnection index =>
    simp only [perform,Upstreams.acquireConnection]
    split <;> rfl
  | releaseConnection index socket =>
    simp only [perform,Upstreams.releaseConnection]
    split <;> rfl
  | _ => rfl

theorem endpoints_foldl_perform (es : List Effect) (b : Broker) :
    (es.foldl (perform k) b).upstreams.manager.endpoints = b.upstreams.manager.endpoints := by
  induction es generalizing b with
  | nil => rfl
  | cons e es ih => exact (ih _).trans (endpoints_perform e)

theorem release_of_perform {e : Effect} {index : ℕ} {socket : SocketId}
    (h : .release index socket ∈ (b.perform k e).upstreams.log) :
    .release index socket ∈ b.upstreams.log ∨ e = .releaseConnection index socket := by
  cases e with
  | selectEndpoint i => simpa [perform,Upstreams.selectEndpoint,Upstreams.emit] using h
  | acquireConnection i =>
    simp only [perform,Upstreams.acquireConnection] at h
    split at h <;>
      simpa [Upstreams.takePooled,Upstreams.connectFresh,Upstreams.beginAcquire,Upstreams.emit]
        using h
  | acquireFreshConnection i =>
    simpa [perform,Upstreams.acquireFreshConnection,Upstreams.connectFresh,Upstreams.beginAcquire,
      Upstreams.emit] using h
  | releaseConnection i s =>
    simp only [perform,Upstreams.releaseConnection] at h
    split at h <;> simpa [Upstreams.emit,eq_comm] using h
  | closeUpstream s => simpa [perform,Upstreams.emit] using h
  | dropUpstream s => simpa [perform,Upstreams.emit] using h
  | _ => exact .inl h

/-- What is released to the manager a session has released. -/
theorem release_of_foldl {es : List Effect} {index : ℕ} {socket : SocketId} (b : Broker)
    (h : .release index socket ∈ (es.foldl (perform k) b).upstreams.log) :
    .release index socket ∈ b.upstreams.log ∨ .releaseConnection index socket ∈ es := by
  induction es generalizing b with
  | nil => exact .inl h
  | cons e es ih =>
    rcases ih (b.perform k e) h with h | h
    · rcases release_of_perform h with h | rfl
      · exact .inl h
      · exact .inr (List.mem_cons_self ..)
    · exact .inr (List.mem_cons_of_mem _ h)

theorem Owes.select (h : Owes maxIdle b c k hand asked) (index : ℕ) :
    Owes maxIdle (b.perform k (.selectEndpoint index)) c k hand asked :=
  Upstreams.Books.selectEndpoint h

theorem Owes.discard (h : Owes maxIdle b c k hand asked) {socket : SocketId} {index : ℕ}
    (hin : (socket,index) ∈ hand) {e : Effect}
    (he : e = .closeUpstream socket ∨ e = .dropUpstream socket) :
    Owes maxIdle (b.perform k e) c k (hand.filter fun p => p.1 ≠ socket) asked := by
  have hhand : (socket,index) ∈ (c.set k hand asked).hand k := by simpa using hin
  have hb := Upstreams.Books.discard h hhand
  rw [Custody.set_setHand,Custody.hand_set,if_pos rfl] at hb
  rcases he with rfl | rfl <;> exact hb

theorem Owes.release (h : Owes maxIdle b c k hand asked) {socket : SocketId} {index : ℕ}
    (hin : (socket,index) ∈ hand) :
    Owes maxIdle (b.perform k (.releaseConnection index socket)) c k
      (hand.filter fun p => p.1 ≠ socket) asked := by
  have hhand : (socket,index) ∈ (c.set k hand asked).hand k := by simpa using hin
  have hb := Upstreams.Books.releaseConnection h hhand
  rwa [Custody.set_setHand,Custody.hand_set,if_pos rfl] at hb

theorem Owes.acquirePooled (h : Owes maxIdle b c k hand asked) {socket : SocketId} {index : ℕ}
    (hi : index < b.upstreams.manager.endpoints.length)
    (hlast : (b.upstreams.manager.pool index).getLast? = some socket) :
    Owes maxIdle (b.perform k (.acquireConnection index)) c k ((socket,index)::hand) asked ∧
      ∀ i, (socket,i) ∉ hand := by
  obtain ⟨hb,hnew⟩ := Upstreams.Books.acquirePooled h k hi hlast
  rw [Custody.set_setHand,Custody.hand_set,if_pos rfl] at hb
  exact ⟨hb,fun i hin => hnew k i (by simpa using hin)⟩

theorem Owes.acquireEmpty (h : Owes maxIdle b c k hand []) {index : ℕ}
    (hi : index < b.upstreams.manager.endpoints.length)
    (hlast : (b.upstreams.manager.pool index).getLast? = none) :
    Owes maxIdle (b.perform k (.acquireConnection index)) c k hand [index] := by
  have hb := Upstreams.Books.acquireEmpty h k hi hlast
  rwa [Custody.set_setAsked,Custody.asked_set,if_pos rfl,List.nil_append] at hb

theorem Owes.acquireFresh (h : Owes maxIdle b c k hand []) {index : ℕ}
    (hi : index < b.upstreams.manager.endpoints.length) :
    Owes maxIdle (b.perform k (.acquireFreshConnection index)) c k hand [index] := by
  have hb := Upstreams.Books.acquireFresh h k hi
  rwa [Custody.set_setAsked,Custody.asked_set,if_pos rfl,List.nil_append] at hb

theorem hand_eq {upstream : Option SocketId} (h : hand.map Prod.fst = upstream.toList) :
    upstream = none ∧ hand = [] ∨ ∃ socket index, upstream = some socket ∧
      hand = [(socket,index)] := by
  cases upstream with
  | none => exact .inl ⟨rfl,List.map_eq_nil_iff.mp h⟩
  | some socket =>
    obtain ⟨⟨s,index⟩,rfl,hs⟩ := List.map_eq_singleton_iff.mp h
    exact .inr ⟨socket,index,rfl,by rw [← hs]⟩

theorem Owes.closes {upstream : Option SocketId} (h : Owes maxIdle b c k hand asked)
    (hhand : hand.map Prod.fst = upstream.toList) :
    Owes maxIdle ((HttpSession.closes upstream).foldl (perform k) b) c k [] asked := by
  obtain ⟨rfl,rfl⟩ | ⟨socket,index,rfl,rfl⟩ := hand_eq hhand
  · exact h
  · simpa [HttpSession.closes] using h.discard (List.mem_singleton_self _) (.inl rfl)

/-- The connection a session had is dropped for the one it takes. -/
theorem Owes.take {upstream : Option SocketId} {socket : SocketId} {index : ℕ}
    (h : Owes maxIdle b c k ((socket,index)::old) asked)
    (hold : old.map Prod.fst = upstream.toList) (hnew : ∀ i, (socket,i) ∉ old) (pooled : Bool) :
    Owes maxIdle (((upstream.map Effect.dropUpstream).toList ++
      [Effect.connected socket pooled]).foldl (perform k) b) c k [(socket,index)] asked := by
  obtain ⟨rfl,rfl⟩ | ⟨socket',index',rfl,rfl⟩ := hand_eq hold
  · exact h
  · have hne : socket ≠ socket' := by
      rintro rfl
      exact hnew index' (List.mem_singleton_self _)
    have hd := h.discard (List.mem_cons_of_mem _ (List.mem_singleton_self _)) (.inr rfl)
    simpa [hne] using hd

/-- What session `s` has in hand and waits for agrees with its members. A connection is for
`endpoint_index_` except while another one is acquired. -/
structure Keeps (s : HttpSession G) (hand : List (SocketId × ℕ)) (asked : List ℕ) : Prop where
  sockets : hand.map Prod.fst = if s.closing then [] else s.upstream.toList
  index : .connect ∉ s.pending → ∀ p ∈ hand, p.2 = s.endpointIndex
  waits : asked = if s.pending.any Op.connects then [s.endpointIndex] else []

/-- What the callback of an acquire call puts into a hand, and that other callbacks put
nothing there. -/
inductive Brings (s : HttpSession G) (e : Event G) (old : List (SocketId × ℕ)) :
    List (SocketId × ℕ) → Prop
  | nothing (h : e.op.connects = true →
      ∀ socket, ¬(e.completion.ok = true ∧ e.completion.socket = some socket)) : Brings s e old old
  | socket (socket : SocketId) (op : e.op.connects = true) (ok : e.completion.ok = true)
      (h : e.completion.socket = some socket) (new : ∀ i, (socket,i) ∉ old) :
      Brings s e old ((socket,s.endpointIndex)::old)

section
variable {s t u : HttpSession G} {e : Event G}

theorem Brings.eq (h : Brings s e old hand) (hop : e.op.connects = false) : hand = old := by
  cases h with
  | nothing => rfl
  | socket _ op =>
    rw [hop] at op
    cases op

/-- A session that asks for nothing keeps what it has until it closes. -/
theorem Owes.apart (h : Owes maxIdle b c k hand []) (ht : HttpSession.Apart s t)
    (ho : s.closing = false) (hp : s.pending = []) (hhand : hand.map Prod.fst = s.upstream.toList)
    (hindex : t.closing = false → ∀ p ∈ hand, p.2 = s.endpointIndex) :
    ∃ hand', Owes maxIdle ((if t.closing && !s.closing then HttpSession.closes s.upstream
      else []).foldl (perform k) b) c k hand' [] ∧ Keeps t hand' [] := by
  have hasked : ([] : List ℕ) = if t.pending.any Op.connects then [t.endpointIndex] else [] := by
    rw [ht.idle hp]
    rfl
  rw [ho]
  cases hc : t.closing with
  | false =>
    refine ⟨hand,h,?_,fun _ p hin => ?_,hasked⟩
    · rw [hc,ht.upstream]
      exact hhand
    · rw [ht.endpoint]
      exact hindex hc p hin
  | true =>
    refine ⟨[],h.closes hhand,?_,(fun _ p hin => by cases hin),hasked⟩
    rw [hc]
    rfl

/-- What a session asks of the manager in one callback, the manager can do, and what is owed to
the session agrees with its members again. -/
theorem Owes.deliver (hd : HttpSession.Dealing s e t) (ho : s.closing = false)
    {touch : G.Ctx → G.Ctx} (ha : e.answers = b.answers touch)
    (hi : s.endpointIndex < b.upstreams.manager.endpoints.length)
    (hold : old.map Prod.fst = s.upstream.toList)
    (hindex : e.op ≠ .connect → ∀ p ∈ old, p.2 = s.endpointIndex) (hb : Brings s e old hand)
    (h : Owes maxIdle b c k hand []) :
    ∃ hand' asked, Owes maxIdle ((s.since t).foldl (perform k) b) c k hand' asked ∧
      Keeps t hand' asked := by
  have hnext : e.answers.endpoint < b.upstreams.manager.endpoints.length := by
    rw [ha]
    exact (Upstreams.tracked_of_reaches h.reached).shelved.next
  have hlast : (b.upstreams.manager.pool e.answers.endpoint).getLast? = e.answers.pooled := by
    rw [ha]
    rfl
  have hother : e.op.connects = false → e.op ≠ .connect := by
    rintro hop heq
    rw [heq] at hop
    cases hop
  cases hd with
  | apart happart refused =>
    have hrecord : HttpSession.Deals s t _ := happart.record
    rw [foldl_perform_since hrecord]
    obtain rfl : hand = old := by
      cases hb with
      | nothing => rfl
      | socket socket op ok hs => exact absurd ⟨ok,hs⟩ ((refused op).2 socket)
    obtain ⟨hand',howes,hkeeps⟩ := h.apart happart ho rfl hold fun hopen => by
      refine hindex (hother ?_)
      by_contra hop
      have hclosed := (refused (by simpa using hop)).1
      rw [hopen] at hclosed
      cases hclosed
    exact ⟨hand',[],howes,hkeeps⟩
  | asked op pooled record upstream endpoint isOpen pending =>
    obtain rfl := hb.eq (by rw [op]; rfl)
    rw [foldl_perform_since record]
    refine ⟨hand,[e.answers.endpoint],(h.select e.answers.endpoint).acquireEmpty hnext
      (hlast.trans pooled),?_,fun hn => absurd (pending ▸ List.mem_singleton_self _) hn,?_⟩
    · rw [isOpen,upstream]
      exact hold
    · rw [pending,endpoint]
      rfl
  | handed socket u op pooled record upstream endpoint isOpen pending happart =>
    obtain rfl := hb.eq (by rw [op]; rfl)
    rw [foldl_perform_since (record.trans happart.record),List.foldl_append,List.append_assoc,
      List.foldl_append]
    obtain ⟨hgiven,hnew⟩ := (h.select e.answers.endpoint).acquirePooled hnext (hlast.trans pooled)
    obtain ⟨hand',howes,hkeeps⟩ := (hgiven.take hold hnew true).apart happart isOpen pending
      (by rw [upstream]; rfl) (by simp [endpoint])
    exact ⟨hand',[],howes,hkeeps⟩
  | taken socket u op completion record upstream endpoint isOpen pending happart =>
    rw [foldl_perform_since (record.trans happart.record),List.foldl_append]
    cases hb with
    | nothing hn => exact absurd completion (hn op socket)
    | socket socket' _ _ hs hnew =>
      obtain rfl := Option.some.inj (completion.2.symm.trans hs)
      obtain ⟨hand',howes,hkeeps⟩ := (h.take hold hnew false).apart happart isOpen pending
        (by rw [upstream]; rfl) (by simp [endpoint])
      exact ⟨hand',[],howes,hkeeps⟩
  | retried op record upstream endpoint isOpen pending fresh =>
    obtain rfl := hb.eq op
    rw [foldl_perform_since record,List.foldl_append]
    obtain ⟨op',hpending,hconnects⟩ := pending
    refine ⟨[],[s.endpointIndex],(h.closes hold).acquireFresh ?_,?_,
      (fun _ p hin => by cases hin),?_⟩
    · rw [endpoints_foldl_perform]
      exact hi
    · rw [upstream]
      cases t.closing <;> rfl
    · rw [hpending,endpoint]
      simp [hconnects]
  | released socket u op held chosen record upstream endpoint isOpen pending happart =>
    obtain rfl := hb.eq op
    rw [foldl_perform_since (record.trans happart.record),List.foldl_append]
    obtain ⟨hn,-⟩ | ⟨socket',index,hs,rfl⟩ := hand_eq hold
    · rw [held] at hn
      cases hn
    · obtain rfl := Option.some.inj (held.symm.trans hs)
      obtain rfl : index = s.endpointIndex := hindex (hother op) _ (List.mem_singleton_self _)
      have hgone := h.release (List.mem_singleton_self _)
      obtain ⟨hand',howes,hkeeps⟩ := hgone.apart happart isOpen pending (by simp [upstream])
        (by simp)
      exact ⟨hand',[],howes,hkeeps⟩

theorem endpoint_of_dealing (h : HttpSession.Dealing s e t) :
    t.endpointIndex = s.endpointIndex ∨ t.endpointIndex = e.answers.endpoint := by
  cases h with
  | apart h => exact .inl h.endpoint
  | asked _ _ _ _ endpoint => exact .inr endpoint
  | handed _ _ _ _ _ _ endpoint _ _ h => exact .inr (h.endpoint.trans endpoint)
  | taken _ _ _ _ _ _ endpoint _ _ h => exact .inl (h.endpoint.trans endpoint)
  | retried _ _ _ endpoint => exact .inl endpoint
  | released _ _ _ _ _ _ _ endpoint _ _ h => exact .inl (h.endpoint.trans endpoint)

end
end Broker

namespace RunningShard
variable {G : Gateway} {maxFree maxIdle : ℕ} {r : RunningShard G} {c : Custody}

/-- What was released to the manager was released by a session. -/
def Recorded (r : RunningShard G) : Prop :=
  ∀ index socket, .release index socket ∈ r.broker.upstreams.log →
    ∃ s ∈ r.shard.sessions, .releaseConnection index socket ∈ s.history

/-- The sessions and the manager agree about who has what. -/
structure Joint (maxFree maxIdle : ℕ) (r : RunningShard G) (c : Custody) : Prop where
  shard : (GatewayShard.system G maxFree).Reaches r.shard
  books : Upstreams.Books maxIdle r.broker.upstreams r.broker.callers c
  keeps : ∀ k s, r.shard.sessions[k]? = some s → Broker.Keeps s (c.hand k) (c.asked k)
  inRange : ∀ s ∈ r.shard.sessions, s.endpointIndex < r.broker.upstreams.manager.endpoints.length
  nobody : ∀ k, r.shard.sessions[k]? = none → c.hand k = [] ∧ c.asked k = []
  recorded : Recorded r

theorem suspended_of_shard (h : (GatewayShard.system G maxFree).Reaches r.shard)
    {s : HttpSession G} (hs : s ∈ r.shard.sessions) : HttpSession.Suspended s :=
  HttpSession.suspended_of_reaches ((GatewayShard.balanced_of_reaches h).reached s hs)

/-- A session waits for one operation at most. -/
theorem pending_eq {s : HttpSession G} (hs : HttpSession.Suspended s) {op : Op}
    (hop : op ∈ s.pending) : s.pending = [op] := by
  cases hs with
  | closed _ _ hidle => simp [hidle] at hop
  | waiting op' c live =>
    rw [live.pending,List.mem_singleton] at hop
    rw [live.pending,hop]

theorem sessions_complete {sh : GatewayShard G} {k : ℕ} {s : HttpSession G}
    (hk : sh.sessions[k]? = some s) (e : Event G) :
    (sh.complete k e).sessions = sh.sessions.set k (s.deliver e) := by
  rw [GatewayShard.complete,hk,GatewayShard.perform_sessions]

/-- The handler of session `k` runs while the manager owes it `hand`. -/
theorem joint_complete {k : ℕ} {s : HttpSession G} {op : Op} {completion : Completion}
    {touch : G.Ctx → G.Ctx} {old hand : List (SocketId × ℕ)}
    (hshard : (GatewayShard.system G maxFree).Reaches r.shard)
    (hk : r.shard.sessions[k]? = some s) (hop : op ∈ s.pending)
    (hlen : completion.data.length ≤ G.bufferSize)
    (hkeeps : ∀ j t, j ≠ k → r.shard.sessions[j]? = some t →
      Broker.Keeps t (c.hand j) (c.asked j))
    (hrange : ∀ t ∈ r.shard.sessions,
      t.endpointIndex < r.broker.upstreams.manager.endpoints.length)
    (hnobody : ∀ j, r.shard.sessions[j]? = none → c.hand j = [] ∧ c.asked j = [])
    (hrecorded : Recorded r) (hold : old.map Prod.fst = s.upstream.toList)
    (hindex : op ≠ .connect → ∀ p ∈ old, p.2 = s.endpointIndex)
    (hbrings : Broker.Brings s ⟨op,completion,r.broker.answers touch⟩ old hand)
    (howes : Broker.Owes maxIdle r.broker c k hand []) :
    ∃ c', Joint maxFree maxIdle (r.complete k op completion touch) c' := by
  have hmem := List.mem_of_getElem? hk
  have hs := suspended_of_shard hshard hmem
  set e : Event G := ⟨op,completion,r.broker.answers touch⟩ with he
  have hdealing := HttpSession.dealing_deliver (e := e) hs hop
  obtain ⟨hand',asked,howes',hkeeps'⟩ := howes.deliver hdealing (hs.isOpen hop) rfl
    (hrange s hmem) hold hindex hbrings
  have heq : r.complete k op completion touch = ⟨r.shard.complete k e,
      (s.since (s.deliver e)).foldl (Broker.perform k) r.broker⟩ := by
    simp only [complete,hk]
    rfl
  have hsessions := sessions_complete hk e
  have hreached : (GatewayShard.system G maxFree).Reaches (r.shard.complete k e) :=
    .step (e := ShardEvent.complete k e) hshard trivial ⟨s,hk,hop,hlen,rfl⟩
  rw [heq]
  refine ⟨c.set k hand' asked,hreached,howes',fun j t hj => ?_,fun t ht => ?_,fun j hj => ?_,
    fun index socket hin => ?_⟩
  · change (r.shard.complete k e).sessions[j]? = _ at hj
    simp only [hsessions,List.getElem?_set] at hj
    rw [Custody.hand_set,Custody.asked_set]
    split at hj
    next hkj =>
      have hlt := (List.getElem?_eq_some_iff.mp hk).1
      rw [if_pos hlt] at hj
      obtain rfl := Option.some.inj hj
      simpa [← hkj] using hkeeps'
    next hkj =>
      rw [if_neg (Ne.symm hkj),if_neg (Ne.symm hkj)]
      exact hkeeps j t (Ne.symm hkj) hj
  · change t ∈ (r.shard.complete k e).sessions at ht
    change t.endpointIndex <
      ((s.since (s.deliver e)).foldl (Broker.perform k) r.broker).upstreams.manager.endpoints.length
    rw [Broker.endpoints_foldl_perform]
    rw [hsessions] at ht
    rcases List.mem_or_eq_of_mem_set ht with ht | rfl
    · exact hrange t ht
    · rcases Broker.endpoint_of_dealing hdealing with hi | hi <;> rw [hi]
      · exact hrange s hmem
      · exact (Upstreams.tracked_of_reaches howes.reached).shelved.next
  · change (r.shard.complete k e).sessions[j]? = none at hj
    rw [hsessions,List.getElem?_eq_none_iff,List.length_set,← List.getElem?_eq_none_iff] at hj
    have hne : j ≠ k := by
      rintro rfl
      rw [hk] at hj
      cases hj
    rw [Custody.hand_set,Custody.asked_set,if_neg hne,if_neg hne]
    exact hnobody j hj
  · obtain ⟨-,hhistory,-⟩ := HttpSession.accounts_deliver (e := e) hs hop hlen
    obtain ⟨hlt,hget⟩ := List.getElem?_eq_some_iff.mp hk
    change ∃ t ∈ (r.shard.complete k e).sessions, _
    rw [hsessions]
    have hmine : s.deliver e ∈ r.shard.sessions.set k (s.deliver e) :=
      List.mem_iff_getElem.mpr ⟨k,by simpa using hlt,by simp⟩
    rcases Broker.release_of_foldl r.broker hin with hin | hin
    · obtain ⟨t,ht,hrelease⟩ := hrecorded index socket hin
      obtain ⟨j,hj,rfl⟩ := List.mem_iff_getElem.mp ht
      by_cases hjk : j = k
      · subst hjk
        refine ⟨s.deliver e,hmine,?_⟩
        rw [hhistory]
        exact List.mem_append_left _ (hget ▸ hrelease)
      · exact ⟨_,List.mem_iff_getElem.mpr ⟨j,by simpa using hj,
          List.getElem_set_ne (Ne.symm hjk) _⟩,hrelease⟩
    · refine ⟨s.deliver e,hmine,?_⟩
      rw [hhistory]
      exact List.mem_append_right _ hin

theorem Joint.stands (h : Joint maxFree maxIdle r c) (k : ℕ) :
    Broker.Owes maxIdle r.broker c k (c.hand k) (c.asked k) := by
  rw [Broker.Owes,Custody.set_self]
  exact h.books

theorem Joint.asked_le (h : Joint maxFree maxIdle r c) (k : ℕ) : (c.asked k).length ≤ 1 := by
  cases hk : r.shard.sessions[k]? with
  | none => simp [(h.nobody k hk).2]
  | some s =>
    rw [(h.keeps k s hk).waits]
    split <;> simp

/-- The caller of a connect is a session that waits for it, and its connection is for the
endpoint the session has chosen. -/
theorem Joint.asker (h : Joint maxFree maxIdle r c) {k index : ℕ} (hasked : c.asked k = [index]) :
    ∃ s op, r.shard.sessions[k]? = some s ∧ op ∈ s.pending ∧ op.connects = true ∧
      s.pending.find? Op.connects = some op ∧ s.endpointIndex = index := by
  cases hk : r.shard.sessions[k]? with
  | none =>
    rw [(h.nobody k hk).2] at hasked
    cases hasked
  | some s =>
    have hwaits := (h.keeps k s hk).waits
    rw [hasked] at hwaits
    split at hwaits
    next hany =>
      obtain ⟨op,hop,hconnects⟩ := List.any_eq_true.mp hany
      have hs := suspended_of_shard h.shard (List.mem_of_getElem? hk)
      refine ⟨s,op,rfl,hop,hconnects,?_,(List.singleton_inj.mp hwaits).symm⟩
      rw [pending_eq hs hop]
      simp [hconnects]
    next => cases hwaits

theorem joint_accept (h : Joint maxFree maxIdle r c) (ctx : G.Ctx) :
    Joint maxFree maxIdle (r.accept ctx) c := by
  have hsessions : (r.accept ctx).shard.sessions = r.shard.sessions ++ [.start ctx
      r.shard.bufferPool.acquire.1 r.shard.bufferPool.acquire.2.acquire.1] := by
    rw [accept,GatewayShard.dispatchAccept_eq]
  refine ⟨GatewayShard.reaches_dispatchAccept h.shard ctx,h.books,fun k s hk => ?_,fun s hs => ?_,
    fun k hk => ?_,fun index socket hin => ?_⟩
  · rw [hsessions,List.getElem?_append] at hk
    split at hk
    · exact h.keeps k s hk
    next hlt =>
      obtain ⟨hhand,hasked⟩ := h.nobody k (List.getElem?_eq_none (Nat.not_lt.mp hlt))
      obtain rfl := List.mem_singleton.mp (List.mem_of_getElem? hk)
      rw [hhand,hasked]
      exact ⟨rfl,(fun _ p hp => by cases hp),rfl⟩
  · rw [hsessions,List.mem_append,List.mem_singleton] at hs
    rcases hs with hs | rfl
    · exact h.inRange s hs
    · exact (Nat.zero_le _).trans_lt (Upstreams.tracked_of_reaches h.books.reached).shelved.next
  · rw [hsessions,List.getElem?_eq_none_iff,List.length_append] at hk
    exact h.nobody k (List.getElem?_eq_none (Nat.le_of_add_right_le hk))
  · obtain ⟨s,hs,hrelease⟩ := h.recorded index socket hin
    exact ⟨s,hsessions ▸ List.mem_append_left _ hs,hrelease⟩

theorem joint_ordinary (h : Joint maxFree maxIdle r c) {k : ℕ} {s : HttpSession G} {op : Op}
    {completion : Completion} {touch : G.Ctx → G.Ctx} (hk : r.shard.sessions[k]? = some s)
    (hop : op ∈ s.pending) (hn : op.connects = false)
    (hlen : completion.data.length ≤ G.bufferSize) :
    ∃ c', Joint maxFree maxIdle (r.complete k op completion touch) c' := by
  have hs := suspended_of_shard h.shard (List.mem_of_getElem? hk)
  have hkeeps := h.keeps k s hk
  have howes := h.stands k
  have hasked : c.asked k = [] := by
    rw [hkeeps.waits,pending_eq hs hop]
    simp [hn]
  rw [hasked] at howes
  have hsockets := hkeeps.sockets
  rw [hs.isOpen hop] at hsockets
  refine joint_complete h.shard hk hop hlen (fun j t _ => h.keeps j t) h.inRange h.nobody
    h.recorded hsockets
    (fun hne => hkeeps.index ?_) (.nothing fun hc => ?_) howes
  · rw [pending_eq hs hop,List.mem_singleton]
    exact Ne.symm hne
  · rw [show op.connects = true from hc] at hn
    cases hn

theorem joint_report (h : Joint maxFree maxIdle r c) {u : Upstreams} (touch : G.Ctx → G.Ctx)
    (hu : Upstreams.Reported maxIdle r.broker.upstreams r.broker.callers c u)
    (hm : u.manager = r.broker.upstreams.manager)
    (hlog : ∀ index socket, .release index socket ∈ u.log →
      .release index socket ∈ r.broker.upstreams.log) :
    ∃ c', Joint maxFree maxIdle (r.report u touch) c' := by
  have hrange : ∀ t ∈ r.shard.sessions, t.endpointIndex < u.manager.endpoints.length := by
    rw [hm]
    exact h.inRange
  have hrecorded : Recorded { r with broker := { r.broker with upstreams := u } } :=
    fun index socket hin => h.recorded index socket (hlog index socket hin)
  -- the callback runs in the session that waits for it
  have hrun : ∀ {k call index err socket}, r.broker.callers[call]? = some k →
      c.asked k = [index] → r.broker.upstreams.answered u = some (call,err,socket) →
      ∃ s op, r.shard.sessions[k]? = some s ∧ op ∈ s.pending ∧ op.connects = true ∧
        s.endpointIndex = index ∧ r.report u touch =
          { r with broker := { r.broker with upstreams := u } }.complete k op
            ⟨err.ok,[],0,socket⟩ touch := by
    intro k call index err socket hcall hasked hanswer
    obtain ⟨s,op,hk,hop,hconnects,hfind,hindex⟩ := h.asker hasked
    refine ⟨s,op,hk,hop,hconnects,hindex,?_⟩
    simp [report,callBack,hanswer,waiting,hcall,hk,hfind]
  have hcomplete : ∀ {k s op completion hand}, r.shard.sessions[k]? = some s → op ∈ s.pending →
      completion.data = [] → Broker.Brings s
        ⟨op,completion,(Broker.mk u r.broker.callers).answers touch⟩ (c.hand k) hand →
      Upstreams.Books maxIdle u r.broker.callers (c.set k hand []) →
      ∃ c', Joint maxFree maxIdle ({ r with broker := { r.broker with upstreams := u } }.complete k
        op completion touch) c' := by
    intro k s op completion hand hk hop hdata hbrings hbooks
    have hs := suspended_of_shard h.shard (List.mem_of_getElem? hk)
    have hkeeps := h.keeps k s hk
    have hsockets := hkeeps.sockets
    rw [hs.isOpen hop] at hsockets
    refine joint_complete (r := { r with broker := { r.broker with upstreams := u } }) h.shard hk hop
      (by simp [hdata]) (fun j t _ => h.keeps j t) hrange h.nobody hrecorded hsockets
      (fun hne => hkeeps.index ?_) hbrings hbooks
    rw [pending_eq hs hop,List.mem_singleton]
    exact Ne.symm hne
  cases hu with
  | quiet answer books =>
    refine ⟨c,?_⟩
    rw [report,answer]
    exact ⟨h.shard,books,h.keeps,hrange,h.nobody,hrecorded⟩
  | refused k call index err caller asked failed answer books =>
    obtain ⟨s,op,hk,hop,-,-,heq⟩ := hrun caller asked answer
    rw [heq]
    refine hcomplete hk hop rfl (.nothing fun _ socket hc => ?_) (Custody.set_hand_self c k [] ▸ books)
    rw [failed] at hc
    cases hc.1
  | connected k call index err socket caller asked ok answer unheld books =>
    obtain ⟨s,op,hk,hop,hconnects,rfl,heq⟩ := hrun caller asked answer
    rw [heq]
    exact hcomplete hk hop rfl (.socket socket hconnects ok rfl (unheld k)) books

/-- The handlers of a connect release nothing. -/
theorem release_of_effects {log : List UpstreamEffect} {a : ConnectAttempt} {e : UpstreamEffect}
    {actions : List RaceAction} {index : ℕ} {socket : SocketId}
    (hin : .release index socket ∈ log ++ e::actions.map a.effect)
    (he : e ≠ .release index socket) : .release index socket ∈ log := by
  rcases List.mem_append.mp hin with hin | hin
  · exact hin
  · rcases List.mem_cons.mp hin with rfl | hin
    · exact absurd rfl he
    · obtain ⟨action,-,heffect⟩ := List.mem_map.mp hin
      cases action with
      | onDone err => cases hok : err.ok <;> simp [ConnectAttempt.effect,hok] at heffect
      | _ => cases heffect

theorem joint_next (h : Joint maxFree maxIdle r c) {x : RunningEvent G} {r' : RunningShard G}
    (hstep : r.next x = some r') : ∃ c', Joint maxFree maxIdle r' c' := by
  cases x with
  | accept ctx =>
    obtain rfl := Option.some.inj hstep
    exact ⟨c,joint_accept h ctx⟩
  | complete k op completion touch =>
    simp only [next] at hstep
    split at hstep
    next s hk =>
      split at hstep
      next hcan =>
        obtain rfl := Option.some.inj hstep
        exact joint_ordinary h hk hcan.1 hcan.2.1 hcan.2.2
      next => cases hstep
    next => cases hstep
  | connectDone n err touch =>
    simp only [next] at hstep
    split at hstep
    next a hn =>
      split at hstep
      next ha =>
        obtain rfl := Option.some.inj hstep
        refine joint_report h touch (h.books.onConnectDone h.asked_le hn ha err)
          (Upstreams.attempts_foldl_perform a _ _).2.2.1 fun index socket hin => ?_
        rw [Upstreams.log_onConnectDone] at hin
        exact release_of_effects hin (by simp)
      next => cases hstep
    next => cases hstep
  | timerDone n err touch =>
    simp only [next] at hstep
    split at hstep
    next a hn =>
      split at hstep
      next ha =>
        obtain rfl := Option.some.inj hstep
        refine joint_report h touch (h.books.onTimerDone h.asked_le hn ha err)
          (Upstreams.attempts_foldl_perform a _ _).2.2.1 fun index socket hin => ?_
        rw [Upstreams.log_onTimerDone] at hin
        exact release_of_effects hin (by simp)
      next => cases hstep
    next => cases hstep
  | refresh resolve =>
    obtain rfl := Option.some.inj hstep
    refine ⟨c,h.shard,h.books.refresh resolve,h.keeps,fun s hs => ?_,h.nobody,h.recorded⟩
    simpa [UpstreamManager.resolveAll] using h.inRange s hs

theorem joint_of_reaches (h : (system G maxFree maxIdle).Reaches r) :
    ∃ c, Joint maxFree maxIdle r c := by
  refine h.invariant (I := fun r => ∃ c, Joint maxFree maxIdle r c) ?_ ?_
  · rintro ⟨sh,⟨u,callers⟩⟩ ⟨hshard,hu,rfl⟩
    refine ⟨{},.initial hshard,.initial hu,fun k s hk => ?_,fun s hs => ?_,fun _ _ => ⟨rfl,rfl⟩,?_⟩
    · obtain rfl := hshard
      cases hk
    · obtain rfl := hshard
      cases hs
    · obtain ⟨upstreams,-,rfl⟩ := hu
      simp [Recorded]
  · rintro r x r' ⟨c,hc⟩ hstep
    exact joint_next hc hstep

/-- A shard with one upstream, whose pool keeps one connection. -/
def strictShard : RunningShard (.strict [] 64) where
  shard := { bufferPool := { bufferSize := 64, maxFree := 1 } }
  broker := { upstreams := { manager := .create [(ascii "a",80)] 1 } }

/-- Two connections are accepted. The request of the first one is answered over a connection that
is made for it, and this connection is taken from the pool for the request of the second one. -/
def exchange : List (RunningEvent (.strict [] 64)) :=
  [.accept (),.accept (),
    .complete 0 .readRequest (.read (ascii "GET / HTTP/1.1\r\n\r\n")) id,.connectDone 0 .none id,
    .complete 0 (.writeRequest (ascii "GET / HTTP/1.1\r\nConnection: keep-alive\r\n\r\n"))
      (.wrote 42) id,
    .complete 0 .readResponse (.read (ascii "HTTP/1.1 204 No Content\r\n\r\n")) id,
    .complete 0 (.writeResponse (ascii "HTTP/1.1 204 No Content\r\nConnection: close\r\n\r\n"))
      (.wrote 46) id,
    .complete 1 .readRequest (.read (ascii "GET / HTTP/1.1\r\n\r\n")) id]

/-- The shard after so many steps of the run. -/
def exchanged (n : ℕ) : RunningShard (.strict [] 64) :=
  (System.play next strictShard (exchange.take n)).getD strictShard

theorem reaches_exchanged (n : ℕ) : (system (.strict [] 64) 1 1).Reaches (exchanged n) := by
  have hinitial : (system (.strict [] 64) 1 1).Reaches strictShard :=
    .initial ⟨rfl,⟨[(ascii "a",80)],by decide,rfl⟩,rfl⟩
  exact hinitial.getD_play _

end RunningShard
end PerCoreShard
