import PerCoreShard.Runtime.RunningShard
import PerCoreShard.Upstream.Whereabouts

/-! The upstream connections of a shard, over all its sessions: who has which, what becomes of
the connects that are started, and how many there can be. -/
namespace PerCoreShard
open Library

namespace RunningShard
variable {G : Gateway} {maxFree maxIdle : ℕ} {r : RunningShard G} {c : Custody}

/-- Every run of the shard is a run of its sessions, of its counters and buffers, and of its
manager: none of them asks of another what that other was not made for. -/
theorem parts_reached (h : (system G maxFree maxIdle).Reaches r) :
    (GatewayShard.system G maxFree).Reaches r.shard ∧
      (Upstreams.system maxIdle).Reaches r.broker.upstreams ∧
      ∀ s ∈ r.shard.sessions, (HttpSession.system G).Reaches s := by
  obtain ⟨c,hc⟩ := joint_of_reaches h
  exact ⟨hc.shard,hc.books.reached,(GatewayShard.balanced_of_reaches hc.shard).reached⟩

theorem parts_reached_exchanged : (GatewayShard.system (.strict [] 64) 1).Reaches (exchanged 8).shard ∧
    (Upstreams.system 1).Reaches (exchanged 8).broker.upstreams ∧
    ∀ s ∈ (exchanged 8).shard.sessions, (HttpSession.system _).Reaches s :=
  parts_reached (reaches_exchanged 8)

/-- Session `k` is open and has the connection. -/
def Has (r : RunningShard G) (k : ℕ) (socket : SocketId) : Prop :=
  ∃ s, r.shard.sessions[k]? = some s ∧ s.closing = false ∧ s.upstream = some socket

/-- An attempt that may still give its socket to a session. -/
def Connecting (r : RunningShard G) (socket : SocketId) : Prop :=
  ∃ a ∈ r.broker.upstreams.attempts, a.socket = socket ∧ a.race.done = false

def Pooled (r : RunningShard G) (socket : SocketId) : Prop :=
  ∃ i, socket ∈ r.broker.upstreams.manager.pool i

theorem Joint.has_iff (h : Joint maxFree maxIdle r c) (k : ℕ) (socket : SocketId) :
    r.Has k socket ↔ ∃ index, (socket,index) ∈ c.hand k := by
  cases hk : r.shard.sessions[k]? with
  | none => simp [Has,hk,(h.nobody k hk).1]
  | some s =>
    have hsockets := (h.keeps k s hk).sockets
    have hmem : (∃ index, (socket,index) ∈ c.hand k) ↔ socket ∈ (c.hand k).map Prod.fst := by simp
    rw [hmem,hsockets]
    cases hc : s.closing <;> simp [Has,hk,hc]

/-- Who has the upstream connections. -/
structure Custodial (r : RunningShard G) : Prop where
  /-- What the manager has handed out is with the open sessions, and what they have is from
  the manager. -/
  held : ∀ socket, (∃ call index, placeOf r.broker.upstreams.log socket = .held call index) ↔
    ∃ k, r.Has k socket
  exclusive : ∀ j k socket, r.Has j socket → r.Has k socket → j = k
  /-- A session relays over a connection to the endpoint that was selected for its request. -/
  connected : ∀ (k : ℕ) (s : HttpSession G) socket, r.shard.sessions[k]? = some s →
    s.closing = false → s.upstream = some socket → ∃ index, ConnectedFor r.broker.upstreams.log socket index ∧
      (.connect ∉ s.pending → index = s.endpointIndex)
  apart : ∀ k socket, r.Has k socket → ¬r.Pooled socket ∧ ¬r.Connecting socket
  /-- No socket is left open without anybody to close it. -/
  whereabouts : ∀ socket < r.broker.upstreams.sockets, (∃ k, r.Has k socket) ∨ r.Pooled socket ∨
    r.Connecting socket ∨ placeOf r.broker.upstreams.log socket = .lost ∨
      placeOf r.broker.upstreams.log socket = .gone

theorem Joint.custodial (hc : Joint maxFree maxIdle r c) : Custodial r := by
  have htracked := Upstreams.tracked_of_reaches hc.books.reached
  have hsettled := Upstreams.settled_of_reaches hc.books.reached
  have hplaced : ∀ {k socket}, r.Has k socket →
      ∃ call index, placeOf r.broker.upstreams.log socket = .held call index := by
    intro k socket hhas
    obtain ⟨index,hin⟩ := (hc.has_iff k socket).mp hhas
    obtain ⟨call,hp⟩ := hc.books.placed hin
    exact ⟨call,index,hp⟩
  have hheld : ∀ socket,
      (∃ call index, placeOf r.broker.upstreams.log socket = .held call index) ↔
        ∃ k, r.Has k socket := by
    refine fun socket => ⟨?_,fun ⟨k,hhas⟩ => hplaced hhas⟩
    rintro ⟨call,index,hp⟩
    have hlt := hc.books.call_lt hp
    have hby : r.broker.upstreams.HeldBy r.broker.callers r.broker.callers[call] socket index :=
      ⟨call,List.getElem?_eq_getElem hlt,hp⟩
    exact ⟨_,(hc.has_iff _ socket).mpr ⟨index,(hc.books.hand _ _ _).mp hby⟩⟩
  refine ⟨hheld,fun j k socket hj hk => ?_,fun k s socket hk ho hu => ?_,
    fun k socket hhas => ⟨?_,?_⟩,fun socket hlt => ?_⟩
  · obtain ⟨i,hi⟩ := (hc.has_iff j socket).mp hj
    obtain ⟨i',hi'⟩ := (hc.has_iff k socket).mp hk
    exact (hc.books.exclusive hi hi').1
  · obtain ⟨index,hin⟩ := (hc.has_iff k socket).mp ⟨s,hk,ho,hu⟩
    obtain ⟨call,hp⟩ := hc.books.placed hin
    refine ⟨index,?_,fun hn => (hc.keeps k s hk).index hn _ hin⟩
    exact (explained htracked.orderly socket).endpoint index (by rw [hp]; rfl)
  · rintro ⟨i,hin⟩
    obtain ⟨call,index,hp⟩ := hplaced hhas
    rw [htracked.shelved.mem,hp] at hin
    cases hin
  · rintro ⟨a,ha,rfl,hd⟩
    obtain ⟨call,index,hp⟩ := hplaced hhas
    rw [(htracked.attempts a ha).place hd] at hp
    cases hp
  · have hrests := hsettled.rests socket hlt
    cases hp : placeOf r.broker.upstreams.log socket with
    | connecting i =>
      obtain ⟨a,ha,hs,-,hd⟩ := hsettled.connecting socket i hp
      exact .inr (.inr (.inl ⟨a,ha,hs,hd⟩))
    | held call index => exact .inl ((hheld socket).mp ⟨call,index,hp⟩)
    | pooled i => exact .inr (.inl ⟨i,(htracked.shelved.mem i socket).mpr hp⟩)
    | lost => exact .inr (.inr (.inr (.inl rfl)))
    | gone => exact .inr (.inr (.inr (.inr rfl)))
    | _ =>
      rw [hp] at hrests
      cases hrests

/-- In every run of a shard, each upstream connection is with one open session, or idle in the
pool, or still being connected, or closed. -/
theorem connections_in_custody (h : (system G maxFree maxIdle).Reaches r) : Custodial r := by
  obtain ⟨c,hc⟩ := joint_of_reaches h
  exact hc.custodial

/-- The second session has the connection that was made for the first one. -/
theorem connections_in_custody_exchanged :
    (exchanged 8).shard.sessions.map HttpSession.upstream = [none,some 0] ∧
      Custodial (exchanged 8) :=
  ⟨by decide +kernel,connections_in_custody (reaches_exchanged 8)⟩

/-- The session has released the connection to the pool of the endpoint. It had then sent its
request to the end and relayed a whole response, one that lets the connection stay open. -/
def HasExchanged (s : HttpSession G) (index : ℕ) (socket : SocketId) : Prop :=
  ∃ log ∈ s.cycles, ∃ past future, log = past ++ .releaseConnection index socket::future ∧
    (cycleOf past).Answered G ∧ (cycleOf past).endpoint = some index ∧
    final (cycleOf past).request.provided = true ∧
    (cycleOf past).request.sent = (cycleOf past).request.wire ∧
    ((cycleOf past).response.parse G.responseLlhttp).shouldKeepAlive = true

theorem hasExchanged {s : HttpSession G} (h : (HttpSession.system G).Reaches s) {index : ℕ}
    {socket : SocketId} (hin : .releaseConnection index socket ∈ s.history) :
    HasExchanged s index socket := by
  obtain ⟨log,hlog,hin⟩ := List.mem_flatten.mp hin
  obtain ⟨past,future,rfl⟩ := List.append_of_mem hin
  obtain ⟨hpast,hanswered,hendpoint,hkeep⟩ := (HttpSession.conforms_of_reaches h hlog).allows
  exact ⟨_,hlog,past,future,rfl,hanswered,hendpoint,
    (hpast.request_of_responding hanswered.responding).2,hanswered.requestSent,hkeep⟩

/-- Every connection in a pool was used for a whole exchange by the session that has put it
there, with the endpoint whose pool it is. -/
theorem pooled_after_exchange (h : (system G maxFree maxIdle).Reaches r) {index : ℕ}
    {socket : SocketId} (hin : socket ∈ r.broker.upstreams.manager.pool index) :
    ConnectedFor r.broker.upstreams.log socket index ∧
      ∃ s ∈ r.shard.sessions, HasExchanged s index socket := by
  obtain ⟨c,hc⟩ := joint_of_reaches h
  have htracked := Upstreams.tracked_of_reaches hc.books.reached
  have hplace := (htracked.shelved.mem index socket).mp hin
  obtain ⟨s,hs,hrelease⟩ := hc.recorded index socket
    (release_of_pooled htracked.orderly (.inr hplace))
  refine ⟨(explained htracked.orderly socket).endpoint index (by rw [hplace]; rfl),s,hs,?_⟩
  exact hasExchanged ((GatewayShard.balanced_of_reaches hc.shard).reached s hs) hrelease

theorem pooled_after_exchange_exchanged :
    ∃ s ∈ (exchanged 7).shard.sessions, HasExchanged s 0 0 := by
  have hin : 0 ∈ (exchanged 7).broker.upstreams.manager.pool 0 := by decide +kernel
  exact (pooled_after_exchange (reaches_exchanged 7) hin).2

/-- The connects in flight and the sessions that wait for them. -/
structure Awaited (r : RunningShard G) : Prop where
  /-- A session that waits for a connection waits for one connect, to the endpoint selected for
  its request; no connect is under way for any other session. -/
  one : ∀ (k : ℕ) (s : HttpSession G), r.shard.sessions[k]? = some s →
    r.broker.upstreams.asks r.broker.callers k =
      if s.pending.any Op.connects then [s.endpointIndex] else []
  /-- A connect that is not decided was asked for by an open session that waits for nothing
  else, and is going to complete. -/
  asker : ∀ a ∈ r.broker.upstreams.attempts, a.race.done = false → a.connecting = true ∧
    ∃ k s op, r.broker.callers[a.call]? = some k ∧ r.shard.sessions[k]? = some s ∧
      s.closing = false ∧ s.pending = [op] ∧ op.connects = true ∧ s.endpointIndex = a.index
  /-- What it would give to the session no session has had yet. -/
  unused : ∀ a ∈ r.broker.upstreams.attempts, a.race.done = false →
    ∀ e ∈ r.broker.upstreams.log, e.gives a.socket = false

theorem Joint.awaited (hc : Joint maxFree maxIdle r c) : Awaited r := by
  have htracked := Upstreams.tracked_of_reaches hc.books.reached
  refine ⟨fun k s hk => ?_,fun a ha hd => ⟨(htracked.attempts a ha).connecting hd,?_⟩,
    fun a ha hd => not_given_of_early htracked.orderly (by rw [(htracked.attempts a ha).place hd]; rfl)⟩
  · rw [hc.books.asked,(hc.keeps k s hk).waits]
  · have hlt := (htracked.attempts a ha).call
    rw [← hc.books.size] at hlt
    have hcall : r.broker.callers[a.call]? = some r.broker.callers[a.call] :=
      List.getElem?_eq_getElem hlt
    have hin : a.index ∈ c.asked r.broker.callers[a.call] := by
      rw [← hc.books.asked]
      exact List.mem_map.mpr ⟨a,List.mem_filter.mpr ⟨ha,by simp [Upstreams.waits,hd,hcall]⟩,rfl⟩
    have hasked : c.asked r.broker.callers[a.call] = [a.index] := by
      have hle := hc.asked_le r.broker.callers[a.call]
      obtain ⟨i,hi⟩ := List.length_eq_one_iff.mp
        (Nat.le_antisymm hle (List.length_pos_of_mem hin))
      rw [hi] at hin ⊢
      rw [List.mem_singleton.mp hin]
    obtain ⟨s,op,hk,hop,hconnects,-,hindex⟩ := hc.asker hasked
    have hs := suspended_of_shard hc.shard (List.mem_of_getElem? hk)
    exact ⟨_,s,op,hcall,hk,hs.isOpen hop,pending_eq hs hop,hconnects,hindex⟩

/-- No session waits for a connection that nobody is about to make, and no connect is made for a
session that does not wait for it. -/
theorem connects_awaited (h : (system G maxFree maxIdle).Reaches r) : Awaited r := by
  obtain ⟨c,hc⟩ := joint_of_reaches h
  exact hc.awaited

theorem connects_awaited_exchanged :
    (exchanged 3).broker.upstreams.asks (exchanged 3).broker.callers 0 = [0] ∧
      Awaited (exchanged 3) :=
  ⟨by decide +kernel,connects_awaited (reaches_exchanged 3)⟩

/-- What the result of a connect means to the session that waits for it: it takes the connection
and writes to it, if it has room for a byte, or closes. -/
inductive Answered (a : ConnectAttempt) (err : NetError) (s t : HttpSession G) : Prop
  | taken (ok : err.ok = true) (record : .connected a.socket false ∈ s.since t)
      (upstream : t.upstream = some a.socket) (writing : 0 < G.bufferSize → t.Writing)
  | refused (failed : err.ok = false) (closing : t.closing = true)

theorem answered_deliver {s : HttpSession G} {op : Op} (hs : HttpSession.Suspended s)
    (hsize : s.writeBufSize = G.bufferSize) (hop : op ∈ s.pending) (hconnects : op.connects = true)
    (a : ConnectAttempt) (err : NetError) (x : Answers G) : Answered a err s
      (s.deliver ⟨op,⟨err.ok,[],0,if err.ok then some a.socket else none⟩,x⟩) := by
  have hnot : op ≠ .readRequest := by
    rintro rfl
    cases hconnects
  cases HttpSession.dealing_deliver (e := ⟨op,⟨err.ok,[],0,if err.ok then some a.socket else none⟩,x⟩)
      hs hop with
  | apart _ refused =>
    obtain ⟨hclosed,hno⟩ := refused hconnects
    cases hok : err.ok with
    | false => exact .refused hok (by simpa [hok] using hclosed)
    | true => exact absurd ⟨hok,by simp [hok]⟩ (hno a.socket)
  | asked hread => exact absurd hread hnot
  | handed _ _ hread => exact absurd hread hnot
  | taken socket u _ completion record upstream _ _ _ happart =>
    obtain ⟨hok,hsocket⟩ := completion
    obtain rfl : a.socket = socket := by simpa [show err.ok = true from hok] using hsocket
    have hwriting : 0 < G.bufferSize → HttpSession.Writing (s.deliver
        ⟨op,⟨err.ok,[],0,if err.ok then some a.socket else none⟩,x⟩) := fun hroom => by
      rw [show err.ok = true from hok]
      exact HttpSession.writing_of_connected hs (hsize ▸ hroom) hop hconnects a.socket x
    refine .taken hok ?_ (happart.upstream.trans upstream) hwriting
    obtain ⟨xs,hx,hfilter⟩ := record.trans happart.record
    rw [HttpSession.since,hx,List.drop_left]
    have hin : Effect.connected a.socket false ∈ xs.filter Effect.deals := by
      rw [hfilter]
      simp
    exact (List.mem_filter.mp hin).1
  | retried hn =>
    rw [show op.connects = true from hconnects] at hn
    cases hn
  | released _ _ hn =>
    rw [show op.connects = true from hconnects] at hn
    cases hn

/-- A connect that is not decided belongs to one open session. When it completes, and when its
time is up, that session and no other is told, and has the connection or is closed. -/
theorem connect_answered (h : (system G maxFree maxIdle).Reaches r) {n : ℕ} {a : ConnectAttempt}
    (hn : r.broker.upstreams.attempts[n]? = some a) (hd : a.race.done = false) :
    ∃ k s, r.broker.callers[a.call]? = some k ∧ r.shard.sessions[k]? = some s ∧
      s.closing = false ∧ ∀ (touch : G.Ctx → G.Ctx) (err : NetError),
        (∃ t, (r.report (r.broker.upstreams.onConnectDone n a err) touch).shard.sessions =
          r.shard.sessions.set k t ∧ Answered a err s t) ∧
        (err.ok = true →
          ∃ t, (r.report (r.broker.upstreams.onTimerDone n a err) touch).shard.sessions =
            r.shard.sessions.set k t ∧ t.closing = true) := by
  obtain ⟨c,hc⟩ := joint_of_reaches h
  obtain ⟨-,k,s,op,hcall,hk,ho,hpending,hconnects,-⟩ :=
    hc.awaited.asker a (List.mem_of_getElem? hn) hd
  have hs := suspended_of_shard hc.shard (List.mem_of_getElem? hk)
  have hsize := HttpSession.writeBufSize_of_reaches
    ((GatewayShard.balanced_of_reaches hc.shard).reached s (List.mem_of_getElem? hk)) ho
  have hop : op ∈ s.pending := by simp [hpending]
  have hrun : ∀ {u : Upstreams} {err : NetError} {socket : Option SocketId} (touch : G.Ctx → G.Ctx),
      r.broker.upstreams.answered u = some (a.call,err,socket) →
        ∃ x, (r.report u touch).shard.sessions =
          r.shard.sessions.set k (s.deliver ⟨op,⟨err.ok,[],0,socket⟩,x⟩) := by
    intro u err socket touch hanswer
    have hfind : s.pending.find? Op.connects = some op := by simp [hpending,hconnects]
    have heq : r.report u touch = { r with broker := { r.broker with upstreams := u } }.complete k op
        ⟨err.ok,[],0,socket⟩ touch := by
      simp [report,callBack,hanswer,waiting,hcall,hk,hfind]
    refine ⟨(Broker.mk u r.broker.callers).answers touch,?_⟩
    rw [heq,complete]
    simp only [hk]
    exact sessions_complete hk _
  refine ⟨k,s,hcall,hk,ho,fun touch err => ⟨?_,fun hok => ?_⟩⟩
  · have hanswer := r.broker.upstreams.answered_onConnectDone n hd err
    cases hok : err.ok with
    | false =>
      have heffect : (a.effect (.onDone err)).answer = some (a.call,err,none) := by
        simp [ConnectAttempt.effect,UpstreamEffect.answer,hok]
      obtain ⟨x,hx⟩ := hrun touch (hanswer.trans heffect)
      refine ⟨_,hx,?_⟩
      simpa [hok] using answered_deliver hs hsize hop hconnects a err x
    | true =>
      have heffect : (a.effect (.onDone err)).answer = some (a.call,.none,some a.socket) := by
        simp [ConnectAttempt.effect,UpstreamEffect.answer,hok]
      obtain ⟨x,hx⟩ := hrun touch (hanswer.trans heffect)
      refine ⟨_,hx,?_⟩
      simpa [hok,show NetError.none.ok = true from rfl] using
        answered_deliver hs hsize hop hconnects a err x
  · obtain ⟨x,hx⟩ := hrun touch (r.broker.upstreams.answered_onTimerDone n hd hok)
    refine ⟨_,hx,?_⟩
    have hfailed : NetError.timedOut.ok = false := rfl
    cases answered_deliver hs hsize hop hconnects a .timedOut x with
    | taken ok => cases ok
    | refused _ closing => simpa [hfailed] using closing

theorem connect_answered_exchanged : ∃ k s, (exchanged 3).broker.callers[0]? = some k ∧
    (exchanged 3).shard.sessions[k]? = some s ∧ s.closing = false ∧
      ∃ t, ((exchanged 3).report ((exchanged 3).broker.upstreams.onConnectDone 0
        ⟨0,0,0,{},true,true⟩ .none) id).shard.sessions = (exchanged 3).shard.sessions.set k t ∧
          Answered ⟨0,0,0,{},true,true⟩ .none s t := by
  obtain ⟨k,s,hcall,hk,ho,hdone⟩ := connect_answered (reaches_exchanged 3) (n := 0)
    (a := ⟨0,0,0,{},true,true⟩) (by decide +kernel) rfl
  exact ⟨k,s,hcall,hk,ho,(hdone id .none).1⟩

/-- A handler of the connect still has to run, and keeps its socket if no session has it. -/
def Holds (a : ConnectAttempt) : Bool := a.connecting || a.waiting

/-- The sockets that are neither closed nor destroyed. One that is given up is destroyed with
the last handler of its connect. -/
def live (r : RunningShard G) : List SocketId :=
  (List.range r.broker.upstreams.sockets).filter fun socket =>
    placeOf r.broker.upstreams.log socket ≠ .gone ∧
      (placeOf r.broker.upstreams.log socket = .lost →
        ∃ a ∈ r.broker.upstreams.attempts, a.socket = socket ∧ Holds a = true)

def undecided (r : RunningShard G) : List ConnectAttempt :=
  r.broker.upstreams.attempts.filter fun a => !a.race.done

/-- The connects that are decided, one of whose handlers still has to run. -/
def leaving (r : RunningShard G) : List ConnectAttempt :=
  r.broker.upstreams.attempts.filter fun a => a.race.done && Holds a

/-- The numbers of the open sessions. -/
def openSessions (r : RunningShard G) : List ℕ :=
  (r.shard.sessions.zipIdx.filter fun p => !p.1.closing).map Prod.snd

theorem length_openSessions (r : RunningShard G) : r.openSessions.length = r.shard.opened := by
  rw [openSessions,List.length_map,← List.countP_eq_length_filter,GatewayShard.opened]
  conv_rhs => rw [← List.zipIdx_map_fst 0 r.shard.sessions]
  rw [List.countP_map]
  rfl

theorem mem_openSessions {k : ℕ} {s : HttpSession G} (hk : r.shard.sessions[k]? = some s)
    (ho : s.closing = false) : k ∈ r.openSessions := by
  refine List.mem_map.mpr ⟨(s,k),List.mem_filter.mpr ⟨?_,by simp [ho]⟩,rfl⟩
  exact List.mk_mem_zipIdx_iff_getElem?.mpr hk

/-- A list no value of which is taken twice under `f` is no longer than the list of these
values. -/
theorem length_le_of_injective {α β : Type} [BEq β] [LawfulBEq β] {f : α → β} {xs : List α}
    {ys : List β} (hone : ∀ y, (xs.filter fun x => f x == y).length ≤ 1)
    (hin : ∀ x ∈ xs, f x ∈ ys) : xs.length ≤ ys.length := by
  have hnodup : (xs.map f).Nodup := by
    refine List.nodup_iff_count_le_one.mpr fun y => ?_
    rw [List.count,List.countP_map,List.countP_eq_length_filter]
    exact hone y
  have hsub : xs.map f ⊆ ys := by
    intro y hy
    obtain ⟨x,hx,rfl⟩ := List.mem_map.mp hy
    exact hin x hx
  rw [← List.length_map (f := f)]
  exact (hnodup.subperm hsub).length_le

theorem Joint.undecided_le (hc : Joint maxFree maxIdle r c) :
    r.undecided.length ≤ r.shard.opened := by
  have hle : r.undecided.length ≤ (r.openSessions.map some).length := by
    refine length_le_of_injective (f := fun a : ConnectAttempt => r.broker.callers[a.call]?)
      (fun y => ?_) fun a ha => ?_
    · cases y with
      | none =>
        have hnone : r.undecided.filter (fun a => r.broker.callers[a.call]? == none) = [] := by
          refine List.filter_eq_nil_iff.mpr fun a ha => ?_
          obtain ⟨hin,hd⟩ := List.mem_filter.mp ha
          obtain ⟨-,k,-,-,hcall,-⟩ := hc.awaited.asker a hin (by simpa using hd)
          simp [hcall]
        rw [hnone]
        exact Nat.zero_le 1
      | some k =>
        have hasks : r.undecided.filter (fun a => r.broker.callers[a.call]? == some k) =
            r.broker.upstreams.attempts.filter (Upstreams.waits r.broker.callers k) := by
          rw [undecided,List.filter_filter]
          refine List.filter_congr fun a _ => ?_
          rw [Upstreams.waits,Bool.and_comm]
        have hone := hc.asked_le k
        rw [← hc.books.asked,Upstreams.asks,List.length_map,← hasks] at hone
        exact hone
    · obtain ⟨hin,hd⟩ := List.mem_filter.mp ha
      obtain ⟨-,k,s,-,hcall,hk,ho,-⟩ := hc.awaited.asker a hin (by simpa using hd)
      rw [hcall]
      exact List.mem_map_of_mem (mem_openSessions hk ho)
  rwa [List.length_map,length_openSessions] at hle

/-- The sockets of the open sessions. -/
def inHands (r : RunningShard G) : List SocketId :=
  (r.shard.sessions.filter fun s => !s.closing).filterMap HttpSession.upstream

theorem length_inHands (r : RunningShard G) : r.inHands.length ≤ r.shard.opened := by
  rw [GatewayShard.opened,List.countP_eq_length_filter]
  exact List.length_filterMap_le _ _

theorem length_flatten_le {xss : List (List SocketId)} {n : ℕ} (h : ∀ xs ∈ xss, xs.length ≤ n) :
    xss.flatten.length ≤ xss.length * n := by
  induction xss with
  | nil => simp
  | cons xs xss ih =>
    obtain ⟨hxs,hxss⟩ := List.forall_mem_cons.mp h
    rw [List.flatten_cons,List.length_append,List.length_cons,Nat.succ_mul]
    have := ih hxss
    omega

/-- However many requests a shard has relayed, it has at most two upstream connections for each
open downstream connection, besides those that are idle in the pools and those on which a
handler of a decided connect still has to run. -/
theorem live_bounded (h : (system G maxFree maxIdle).Reaches r) : r.live.length ≤
    2 * r.shard.opened + r.leaving.length + r.broker.upstreams.manager.endpoints.length *
      r.broker.upstreams.manager.connectionPoolMaxIdlePerEndpoint := by
  obtain ⟨c,hc⟩ := joint_of_reaches h
  have hshelved := (Upstreams.tracked_of_reaches hc.books.reached).shelved
  have hcustody : r.live ⊆ r.undecided.map ConnectAttempt.socket ++
      (r.inHands ++ (r.broker.upstreams.manager.idlePools.flatten ++
        r.leaving.map ConnectAttempt.socket)) := by
    intro socket hlive
    obtain ⟨hlt,hlives⟩ := List.mem_filter.mp hlive
    simp only [decide_eq_true_eq] at hlives
    simp only [List.mem_append]
    rcases hc.custodial.whereabouts socket (List.mem_range.mp hlt) with
      ⟨k,s,hk,ho,hu⟩ | ⟨i,hin⟩ | ⟨a,ha,hs,hd⟩ | hlost | hgone
    · refine .inr (.inl (List.mem_filterMap.mpr ⟨s,List.mem_filter.mpr ⟨?_,by simp [ho]⟩,hu⟩))
      exact List.mem_of_getElem? hk
    · refine .inr (.inr (.inl (List.mem_flatten.mpr ⟨r.broker.upstreams.manager.pool i,?_,hin⟩)))
      have hi := UpstreamManager.lt_of_mem_pool hin
      simp [UpstreamManager.pool,hi]
    · exact .inl (List.mem_map.mpr ⟨a,List.mem_filter.mpr ⟨ha,by simp [hd]⟩,hs⟩)
    · obtain ⟨a,ha,hs,hholds⟩ := hlives.2 hlost
      cases hd : a.race.done with
      | false => exact .inl (List.mem_map.mpr ⟨a,List.mem_filter.mpr ⟨ha,by simp [hd]⟩,hs⟩)
      | true =>
        exact .inr (.inr (.inr (List.mem_map.mpr
          ⟨a,List.mem_filter.mpr ⟨ha,by simp [hd,hholds]⟩,hs⟩)))
    · exact absurd hgone hlives.1
  have hnodup : r.live.Nodup := List.nodup_range.filter _
  have hle := (hnodup.subperm hcustody).length_le
  simp only [List.length_append,List.length_map] at hle
  have hpools : r.broker.upstreams.manager.idlePools.flatten.length ≤
      r.broker.upstreams.manager.endpoints.length *
        r.broker.upstreams.manager.connectionPoolMaxIdlePerEndpoint := by
    rw [← hshelved.size]
    refine length_flatten_le fun pool hin => ?_
    obtain ⟨i,hi,rfl⟩ := List.mem_iff_getElem.mp hin
    have hbounded := hshelved.bounded i
    simpa [UpstreamManager.pool,hi] using hbounded
  have hundecided := hc.undecided_le
  have hhands := r.length_inHands
  omega

theorem live_bounded_exchanged : (exchanged 8).live = [0] ∧ (exchanged 8).live.length ≤
    2 * (exchanged 8).shard.opened + (exchanged 8).leaving.length +
      (exchanged 8).broker.upstreams.manager.endpoints.length *
      (exchanged 8).broker.upstreams.manager.connectionPoolMaxIdlePerEndpoint :=
  ⟨by decide +kernel,live_bounded (reaches_exchanged 8)⟩

end RunningShard
end PerCoreShard
