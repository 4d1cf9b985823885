import PerCoreShard.Upstream.IdlePool

/-! What `UpstreamManager` guarantees to its callers under any interleaving of their calls with
connects and timeouts, also when callbacks call it while they are being called. -/
namespace PerCoreShard
open Library

namespace Upstreams

/-- A callback gets an error and no socket, or a socket that is connected for its endpoint and
that nobody holds. -/
def AnswersProperly (past : List UpstreamEffect) (e : UpstreamEffect) : Prop :=
  ∀ call index err socket, e = .callback call index err socket →
    (err.ok = false ∧ socket = none) ∨
      (err.ok = true ∧ ∃ s, socket = some s ∧ ConnectedFor past s index ∧
        ∀ c i, placeOf past s ≠ .held c i)

/-- A socket given to a fresh acquire call was never in a pool. -/
def FreshIsNew (past : List UpstreamEffect) (e : UpstreamEffect) : Prop :=
  ∀ call index err s, e = .callback call index err (some s) →
    (∃ i, .acquire call i true ∈ past) → ∀ i, .pool i s ∉ past

/-- What the manager guarantees in one state, about it and about all that led there. -/
structure Guarantees (u : Upstreams) : Prop where
  selected : ∀ index, .select index ∈ u.log → index < u.manager.endpoints.length
  bounded : ∀ pool ∈ u.manager.idlePools,
    pool.length ≤ u.manager.connectionPoolMaxIdlePerEndpoint
  distinct : u.manager.idlePools.flatten.Nodup
  idle : ∀ i pool, u.manager.idlePools[i]? = some pool → ∀ socket ∈ pool,
    ConnectedFor u.log socket i ∧ ∀ call index, placeOf u.log socket ≠ .held call index
  once : ∀ call, u.log.countP (UpstreamEffect.callsBack call) ≤ 1
  answers : AtEvery AnswersProperly u.log
  fresh : AtEvery FreshIsNew u.log
  failed : ∀ socket, Failed u.log socket →
    (∀ e ∈ u.log, e.gives socket = false) ∧ ∀ pool ∈ u.manager.idlePools, socket ∉ pool
  full : ∀ call index socket, placeOf u.log socket = .held call index →
    u.manager.connectionPoolMaxIdlePerEndpoint ≤ (u.manager.pool index).length →
      u.releaseConnection index socket = (u.emit (.release index socket)).emit (.close socket)

theorem answersProperly {past : List UpstreamEffect} {e : UpstreamEffect} (h : Orderly past)
    (hp : Permits past e) : AnswersProperly past e := by
  rintro call index err socket rfl
  obtain ⟨-,hp⟩ := hp
  cases socket with
  | none => exact .inl ⟨hp,rfl⟩
  | some s =>
    obtain ⟨hok,hplace⟩ := hp
    refine .inr ⟨hok,s,rfl,(explained h s).endpoint index ?_,fun c i => ?_⟩
    · rcases hplace with hplace | ⟨hplace,-⟩ <;> rw [hplace] <;> rfl
    · rcases hplace with hplace | ⟨hplace,-⟩ <;> simp [hplace]

theorem freshIsNew {past : List UpstreamEffect} {e : UpstreamEffect} (h : Orderly past)
    (hp : Permits past e) : FreshIsNew past e := by
  rintro call index err s rfl ⟨i,hfresh⟩ j hpool
  obtain ⟨-,-,hplace | ⟨-,hnot⟩⟩ := hp
  · have hnone : ∀ e ∈ past, e.gives s = false := not_given_of_early h (by rw [hplace]; rfl)
    have hearly := hnone _ hpool
    simp [UpstreamEffect.gives] at hearly
  · exact hnot i hfresh

theorem Tracked.distinct {u : Upstreams} (h : Tracked u) :
    u.manager.idlePools.flatten.Nodup := by
  have hget : ∀ i (hi : i < u.manager.idlePools.length),
      u.manager.idlePools[i] = u.manager.pool i := by
    intro i hi
    simp [UpstreamManager.pool,hi]
  refine List.nodup_flatten.mpr ⟨fun pool hpool => ?_,?_⟩
  · obtain ⟨i,hi,rfl⟩ := List.mem_iff_getElem.mp hpool
    rw [hget i hi]
    exact h.shelved.nodup i
  · refine List.pairwise_iff_getElem.mpr fun i j hi hj hij => ?_
    rw [hget i hi,hget j hj]
    intro s hs hs'
    rw [h.shelved.mem] at hs hs'
    rw [hs] at hs'
    exact absurd (Place.pooled.inj hs') (Nat.ne_of_lt hij)

/-- The manager keeps its guarantees in every interleaving of calls, connects and timeouts. -/
theorem idle_pools_guaranteed {maxIdle : ℕ} {u : Upstreams} (h : (system maxIdle).Reaches u) :
    Guarantees u := by
  have ht := tracked_of_reaches h
  have hpool : ∀ pool ∈ u.manager.idlePools, ∃ i, pool = u.manager.pool i := by
    intro pool hpool
    obtain ⟨i,hi,rfl⟩ := List.mem_iff_getElem.mp hpool
    exact ⟨i,by simp [UpstreamManager.pool,hi]⟩
  have hall := (atEvery_iff _ _).mp ht.orderly
  have horderly : ∀ past e future, u.log = past ++ e::future → Orderly past := by
    intro past e future heq
    have := ht.orderly
    rw [heq] at this
    exact ((atEvery_append _ _ _).mp this).1
  refine ⟨fun index hin => ht.chosen _ hin index rfl,fun pool hin => ?_,ht.distinct,
    fun i pool hi s hs => ?_,callback_once ht.orderly,?_,?_,fun s hs => ⟨?_,fun pool hin hmem => ?_⟩,
    fun call index s _ hfull => ?_⟩
  · obtain ⟨i,rfl⟩ := hpool pool hin
    exact ht.shelved.bounded i
  · have hmem : s ∈ u.manager.pool i := by simpa [UpstreamManager.pool,hi] using hs
    have hplace := (ht.shelved.mem i s).mp hmem
    refine ⟨(explained ht.orderly s).endpoint i (by rw [hplace]; rfl),fun call index => ?_⟩
    simp [hplace]
  · exact (atEvery_iff _ _).mpr fun past e future heq =>
      answersProperly (horderly past e future heq) (hall past e future heq)
  · exact (atEvery_iff _ _).mpr fun past e future heq =>
      freshIsNew (horderly past e future heq) (hall past e future heq)
  · exact not_given_of_early ht.orderly (by rw [lost_of_failed ht.orderly hs]; rfl)
  · obtain ⟨i,rfl⟩ := hpool pool hin
    rw [ht.shelved.mem,lost_of_failed ht.orderly hs] at hmem
    cases hmem
  · simp [releaseConnection,hfull]

/-- A connection that was used, released and handed out again. -/
def reusedPool : Upstreams :=
  ((({ manager := .create [(ascii "a",80)] 1 } : Upstreams).acquireConnection 0).onConnectDone 0
    ⟨0,0,0,{},true,true⟩ .none).releaseConnection 0 0 |>.acquireConnection 0

theorem idle_pools_guaranteed_reused :
    reusedPool.log.count (.callback 1 0 .none (some 0)) = 1 ∧ Guarantees reusedPool := by
  refine ⟨by decide,@idle_pools_guaranteed 1 _ ?_⟩
  refine .step (.step (.step (.step (.initial ⟨[(ascii "a",80)],by decide,rfl⟩) trivial
    (.request (.acquire 0) Nat.zero_lt_one)) trivial
    (.connectDone 0 ⟨0,0,0,{},true,true⟩ .none (by decide) rfl)) trivial
    (.request (.release 0 0) ⟨0,by decide⟩)) trivial (.request (.acquire 0) Nat.zero_lt_one)

/-- What a caller asks for, one request after the other; a request may depend on the endpoint
the one before it has selected. -/
inductive Script
  | stop
  | ask (r : UpstreamRequest) (next : ℕ → Script)

/-- The callback that runs because of the last effect of a call or a handler. -/
def Script.calledBack (callbacks : ℕ → NetError → Option SocketId → Script) :
    Option UpstreamEffect → Script
  | some (.callback call _ err socket) => callbacks call err socket
  | _ => .stop

/-- A caller runs. A callback runs inside the request that brought it about, and what it asks
for may bring about callbacks in turn. -/
inductive Turn (callbacks : ℕ → NetError → Option SocketId → Script) :
    Script → Upstreams → Upstreams → Prop
  | stop (u : Upstreams) : Turn callbacks .stop u u
  | ask {r next u u₁ u₂} (h : Proper u r)
    (hcall : Turn callbacks (.calledBack callbacks (u.serve r).log.getLast?) (u.serve r) u₁)
    (hnext : Turn callbacks (next u.manager.nextEndpoint) u₁ u₂) :
    Turn callbacks (.ask r next) u u₂

/-- The event loop lets a caller run, or completes a connect or a timer and runs the callback
this leads to. -/
inductive LoopStep (callbacks : ℕ → NetError → Option SocketId → Script) (u : Upstreams) :
    Option UpstreamEvent → Upstreams → Prop
  | run (s : Script) {u'} (h : Turn callbacks s u u') : LoopStep callbacks u none u'
  | connectDone {k err u₁ u'} (h : Step u (.connectDone k err) u₁)
    (hcall : Turn callbacks (.calledBack callbacks u₁.log.getLast?) u₁ u') :
    LoopStep callbacks u (some (.connectDone k err)) u'
  | timerDone {k err u₁ u'} (h : Step u (.timerDone k err) u₁)
    (hcall : Turn callbacks (.calledBack callbacks u₁.log.getLast?) u₁ u') :
    LoopStep callbacks u (some (.timerDone k err)) u'
  | refresh {resolve u'} (h : Step u (.refresh resolve) u') :
    LoopStep callbacks u (some (.refresh resolve)) u'

theorem reaches_of_turn {maxIdle : ℕ} {callbacks : ℕ → NetError → Option SocketId → Script}
    {s : Script} {u u' : Upstreams} (h : Turn callbacks s u u')
    (hu : (system maxIdle).Reaches u) : (system maxIdle).Reaches u' := by
  induction h with
  | stop => exact hu
  | ask hr _ _ ihcall ihnext => exact ihnext (ihcall (hu.step trivial (.request _ hr)))

/-- Runs in which callbacks call the manager while they are being called are runs. -/
theorem reaches_of_loop {maxIdle : ℕ} {callbacks : ℕ → NetError → Option SocketId → Script}
    {u : Upstreams}
    (h : System.Reaches ⟨(system maxIdle).initial,LoopStep callbacks⟩ u) :
    (system maxIdle).Reaches u := by
  refine h.invariant (fun _ hi => .initial hi) fun u e u' hu hstep => ?_
  cases hstep with
  | run s h => exact reaches_of_turn h hu
  | connectDone h hcall => exact reaches_of_turn hcall (hu.step trivial h)
  | timerDone h hcall => exact reaches_of_turn hcall (hu.step trivial h)
  | refresh h => exact hu.step trivial h

end Upstreams
end PerCoreShard
