import PerCoreShard.Library.RoundRobin
import PerCoreShard.Runtime.RunningShard

/-! `GatewayRuntime`: the shards, each on a thread of its own, and the `Listener` that hands the
accepted sockets to them in turn. A socket is handed over as a task posted to the event loop of
its shard. The threads take their steps in any order. -/
namespace PerCoreShard
open Library

/-- A shard with its event loop. Connections are known by the order in which they were
accepted. -/
structure ShardThread (G : Gateway) where
  running : RunningShard G
  /-- The connections that were posted and wait for their turn, the oldest first. -/
  posted : List ℕ := []
  /-- The connections whose sessions were started, in that order. -/
  started : List ℕ := []
  stopped : Bool := false

namespace ShardThread
variable {G : Gateway}

def acceptFrom (t : ShardThread G) (connection : ℕ) : ShardThread G :=
  { t with posted := t.posted ++ [connection] }

/-- The next posted task runs: the socket is adopted and its session started. -/
def runPosted (t : ShardThread G) (ctx : G.Ctx) : Option (ShardThread G) :=
  match t.posted with
  | [] => none
  | connection::rest =>
    if t.stopped then none
    else some { t with
      running := t.running.accept ctx
      posted := rest
      started := t.started ++ [connection] }

/-- Any other callback of the event loop. -/
def run (t : ShardThread G) : RunningEvent G → Option (ShardThread G)
  | .accept _ => none
  | x => if t.stopped then none else (t.running.next x).map fun r => { t with running := r }

def stop (t : ShardThread G) : ShardThread G := { t with stopped := true }

end ShardThread

structure GatewayRuntime (G : Gateway) where
  shards : List (ShardThread G)
  /-- `Listener::next_shard_`. -/
  nextShard : ℕ := 0
  /-- How many connections were accepted and handed on. -/
  accepted : ℕ := 0
  /-- `async_accept` was called and has not completed. -/
  accepting : Bool := true
  /-- `Listener::stopping_`, set by the first call of `stop`. -/
  stopping : Bool := false
  listenerJoined : Bool := false

inductive RuntimeEvent (G : Gateway)
  | accepted (err : NetError)
  | runPosted (i : ℕ) (ctx : G.Ctx)
  | run (i : ℕ) (x : RunningEvent G)
  | stop
  | joinListener
  | stopShard (i : ℕ)

namespace GatewayRuntime
variable {G : Gateway}

/-- The completion of `async_accept`, and `do_accept` again. -/
def onAccepted (g : GatewayRuntime G) (err : NetError) : GatewayRuntime G :=
  if g.stopping then { g with accepting := false }
  else if err.ok then
    { g with
      shards := g.shards.modify g.nextShard fun t => t.acceptFrom g.accepted
      nextShard := (g.nextShard + 1) % g.shards.length
      accepted := g.accepted + 1 }
  else g

/-- A step of one shard. -/
def onShard (g : GatewayRuntime G) (i : ℕ) (f : ShardThread G → Option (ShardThread G)) :
    Option (GatewayRuntime G) :=
  (g.shards[i]?).bind fun t => (f t).map fun u => { g with shards := g.shards.set i u }

/-- The shards before the given one have stopped. -/
def stoppedBefore (g : GatewayRuntime G) (i : ℕ) : Bool := (g.shards.take i).all (·.stopped)

/-- One step of one thread. `stop` ends the listener first, and then one shard after the
other; each of these steps returns when the thread has come to its end. A callback is one step:
an accept handler that is past its look at `stopping_` counts as one that ran before `stop`. -/
def next (g : GatewayRuntime G) : RuntimeEvent G → Option (GatewayRuntime G)
  | .accepted err => if g.accepting && !g.listenerJoined then some (g.onAccepted err) else none
  | .runPosted i ctx => g.onShard i fun t => t.runPosted ctx
  | .run i x => g.onShard i fun t => t.run x
  | .stop => some { g with stopping := true }
  | .joinListener => if g.stopping then some { g with listenerJoined := true } else none
  | .stopShard i =>
    if g.listenerJoined && g.stoppedBefore i then g.onShard i fun t => some t.stop else none

/-- `start` makes one shard after the other, at least one, all with the same configuration. -/
def system (G : Gateway) (maxFree maxIdle : ℕ) : System (GatewayRuntime G) (RuntimeEvent G) :=
  .computed (fun g => g.shards ≠ [] ∧ (∀ t ∈ g.shards,
    (RunningShard.system G maxFree maxIdle).initial t.running ∧ t.posted = [] ∧ t.started = [] ∧
      t.stopped = false) ∧ g.nextShard = 0 ∧ g.accepted = 0 ∧ g.stopping = false ∧
        g.listenerJoined = false) next

section
variable {g g' : GatewayRuntime G}

theorem onShard_cases {i : ℕ} {f : ShardThread G → Option (ShardThread G)}
    (h : g.onShard i f = some g') : ∃ t u, g.shards[i]? = some t ∧ f t = some u ∧
      g' = { g with shards := g.shards.set i u } := by
  obtain ⟨t,ht,hf⟩ := Option.bind_eq_some_iff.mp h
  obtain ⟨u,hu,rfl⟩ := Option.map_eq_some_iff.mp hf
  exact ⟨t,u,ht,hu,rfl⟩

/-- What one step does to the shards: a connection is posted to the next one, or one shard takes
a step of its own, or nothing. -/
inductive Moves (g g' : GatewayRuntime G) : Prop
  | posted (running : g.stopping = false ∧ g.listenerJoined = false)
      (shards : g'.shards = g.shards.modify g.nextShard fun t => t.acceptFrom g.accepted)
      (next : g'.nextShard = (g.nextShard + 1) % g.shards.length)
      (accepted : g'.accepted = g.accepted + 1)
      (stopping : g'.stopping = false) (joined : g'.listenerJoined = false)
  | stepped (i : ℕ) (t u : ShardThread G) (shard : g.shards[i]? = some t)
      (step : (∃ ctx, t.runPosted ctx = some u) ∨ (∃ x, t.run x = some u) ∨
        (g.listenerJoined = true ∧ u = t.stop))
      (eq : g' = { g with shards := g.shards.set i u })
  | same (shards : g'.shards = g.shards) (next : g'.nextShard = g.nextShard)
      (accepted : g'.accepted = g.accepted) (stopping : g.stopping = true → g'.stopping = true)
      (joined : g.listenerJoined = true → g'.listenerJoined = true)
      (joining : g'.listenerJoined = true → g'.stopping = true ∨ g.listenerJoined = true)

theorem moves_of_next {x : RuntimeEvent G} (h : g.next x = some g') : Moves g g' := by
  cases x with
  | accepted err =>
    simp only [next] at h
    split at h
    next hcan =>
      simp only [Bool.and_eq_true,Bool.not_eq_true'] at hcan
      obtain rfl := Option.some.inj h
      cases hs : g.stopping with
      | true =>
        have heq : g.onAccepted err = { g with accepting := false } := by simp [onAccepted,hs]
        rw [heq]
        exact .same rfl rfl rfl id id fun hj => .inr hj
      | false =>
        cases herr : err.ok with
        | true =>
          have heq : g.onAccepted err = { g with
              shards := g.shards.modify g.nextShard fun t => t.acceptFrom g.accepted
              nextShard := (g.nextShard + 1) % g.shards.length
              accepted := g.accepted + 1 } := by simp [onAccepted,hs,herr]
          rw [heq]
          exact .posted ⟨hs,hcan.2⟩ rfl rfl rfl hs hcan.2
        | false =>
          have heq : g.onAccepted err = g := by simp [onAccepted,hs,herr]
          rw [heq]
          exact .same rfl rfl rfl id id fun hj => .inr hj
    next => cases h
  | runPosted i ctx =>
    obtain ⟨t,u,ht,hu,heq⟩ := onShard_cases h
    exact .stepped i t u ht (.inl ⟨ctx,hu⟩) heq
  | run i x =>
    obtain ⟨t,u,ht,hu,heq⟩ := onShard_cases h
    exact .stepped i t u ht (.inr (.inl ⟨x,hu⟩)) heq
  | stop =>
    obtain rfl := Option.some.inj h
    exact .same rfl rfl rfl (fun _ => rfl) id fun hj => .inr hj
  | joinListener =>
    simp only [next] at h
    split at h
    next hs =>
      obtain rfl := Option.some.inj h
      exact .same rfl rfl rfl id (fun _ => rfl) fun _ => .inl hs
    next => cases h
  | stopShard i =>
    simp only [next] at h
    split at h
    next hcan =>
      simp only [Bool.and_eq_true] at hcan
      obtain ⟨t,u,ht,hu,heq⟩ := onShard_cases h
      exact .stepped i t u ht (.inr (.inr ⟨hcan.1,(Option.some.inj hu).symm⟩)) heq
    next => cases h

end

end GatewayRuntime

namespace ShardThread
variable {G : Gateway} {t u : ShardThread G}

theorem runPosted_cases {ctx : G.Ctx} (h : t.runPosted ctx = some u) : ∃ connection rest,
    t.posted = connection::rest ∧ t.stopped = false ∧ u = { t with
      running := t.running.accept ctx, posted := rest, started := t.started ++ [connection] } := by
  unfold runPosted at h
  split at h
  next => cases h
  next connection rest hposted =>
    split at h
    next => cases h
    next hs => exact ⟨connection,rest,hposted,by simpa using hs,(Option.some.inj h).symm⟩

theorem run_cases {x : RunningEvent G} (h : t.run x = some u) : t.stopped = false ∧
    (∀ ctx, x ≠ .accept ctx) ∧ ∃ r, t.running.next x = some r ∧ u = { t with running := r } := by
  unfold run at h
  split at h
  next => cases h
  next hx =>
    split at h
    next => cases h
    next hs =>
      obtain ⟨r,hr,rfl⟩ := Option.map_eq_some_iff.mp h
      exact ⟨by simpa using hs,hx,r,hr,rfl⟩

end ShardThread

namespace RunningShard
variable {G : Gateway} {r r' : RunningShard G}

theorem length_complete (r : RunningShard G) (k : ℕ) (op : Op) (c : Completion)
    (touch : G.Ctx → G.Ctx) :
    (r.complete k op c touch).shard.sessions.length = r.shard.sessions.length := by
  unfold complete
  split
  next s hk =>
    change (r.shard.complete k _).sessions.length = _
    rw [sessions_complete hk,List.length_set]
  next => rfl

theorem length_report (r : RunningShard G) (u : Upstreams) (touch : G.Ctx → G.Ctx) :
    (r.report u touch).shard.sessions.length = r.shard.sessions.length := by
  unfold report callBack
  split
  · split
    · exact length_complete _ _ _ _ _
    · rfl
  · rfl

/-- Sessions come into being when they are accepted, and only then. -/
theorem length_next {x : RunningEvent G} (hx : ∀ ctx, x ≠ .accept ctx)
    (h : r.next x = some r') : r'.shard.sessions.length = r.shard.sessions.length := by
  cases x with
  | accept ctx => exact absurd rfl (hx ctx)
  | complete k op c touch =>
    simp only [next] at h
    split at h
    · split at h
      · exact Option.some.inj h ▸ length_complete r k op c touch
      · cases h
    · cases h
  | connectDone n err touch =>
    simp only [next] at h
    split at h
    · split at h
      · exact Option.some.inj h ▸ length_report r _ touch
      · cases h
    · cases h
  | timerDone n err touch =>
    simp only [next] at h
    split at h
    · split at h
      · exact Option.some.inj h ▸ length_report r _ touch
      · cases h
    · cases h
  | refresh resolve => exact Option.some.inj h ▸ rfl

end RunningShard

namespace GatewayRuntime
variable {G : Gateway} {maxFree maxIdle : ℕ} {g g' : GatewayRuntime G}

/-- The invariant of the runtime. -/
structure Dealt (maxFree maxIdle : ℕ) (g : GatewayRuntime G) : Prop where
  positive : 0 < g.shards.length
  next : g.nextShard = g.accepted % g.shards.length
  shares : ∀ i t, g.shards[i]? = some t →
    t.started ++ t.posted = share g.shards.length i g.accepted
  running : ∀ t ∈ g.shards, (RunningShard.system G maxFree maxIdle).Reaches t.running ∧
    t.started.length = t.running.shard.sessions.length
  joined : g.listenerJoined = true → g.stopping = true
  stopped : ∀ t ∈ g.shards, t.stopped = true → g.listenerJoined = true

/-- A step of one shard changes nothing for the others. -/
theorem Dealt.stepped (h : Dealt maxFree maxIdle g) {i : ℕ} {t u : ShardThread G}
    (ht : g.shards[i]? = some t) (hshares : u.started ++ u.posted = t.started ++ t.posted)
    (hrunning : (RunningShard.system G maxFree maxIdle).Reaches u.running ∧
      u.started.length = u.running.shard.sessions.length)
    (hstopped : u.stopped = true → g.listenerJoined = true) :
    Dealt maxFree maxIdle { g with shards := g.shards.set i u } := by
  refine ⟨by simpa using h.positive,by simpa using h.next,fun j v hj => ?_,fun v hv => ?_,h.joined,
    fun v hv => ?_⟩
  · rw [List.length_set]
    rw [List.getElem?_set] at hj
    split at hj
    next hij =>
      subst hij
      rw [if_pos (List.getElem?_eq_some_iff.mp ht).1] at hj
      rw [← Option.some.inj hj,hshares]
      exact h.shares i t ht
    next => exact h.shares j v hj
  · rcases List.mem_or_eq_of_mem_set hv with hv | rfl
    · exact h.running v hv
    · exact hrunning
  · rcases List.mem_or_eq_of_mem_set hv with hv | rfl
    · exact h.stopped v hv
    · exact hstopped

theorem Dealt.moves (h : Dealt maxFree maxIdle g) (hm : Moves g g') : Dealt maxFree maxIdle g' := by
  cases hm with
  | posted running shards next accepted stopping joined =>
    have hlength : g'.shards.length = g.shards.length := by rw [shards,List.length_modify]
    refine ⟨hlength ▸ h.positive,?_,fun i t ht => ?_,fun t ht => ?_,fun hj => ?_,fun t ht hs => ?_⟩
    · rw [next,accepted,hlength,h.next,Nat.mod_add_mod]
    · rw [hlength,accepted,share_succ,← h.next]
      rw [shards,List.getElem?_modify] at ht
      obtain ⟨v,hv,rfl⟩ := Option.map_eq_some_iff.mp ht
      have hshare := h.shares i v hv
      split
      next hi =>
        change v.started ++ (v.posted ++ [g.accepted]) = _
        rw [← List.append_assoc,hshare]
      next => exact hshare
    · rw [shards] at ht
      obtain ⟨i,hi⟩ := List.mem_iff_getElem?.mp ht
      rw [List.getElem?_modify] at hi
      obtain ⟨v,hv,rfl⟩ := Option.map_eq_some_iff.mp hi
      have hrunning := h.running v (List.mem_of_getElem? hv)
      split <;> exact hrunning
    · rw [joined] at hj
      cases hj
    · rw [shards] at ht
      obtain ⟨i,hi⟩ := List.mem_iff_getElem?.mp ht
      rw [List.getElem?_modify] at hi
      obtain ⟨v,hv,rfl⟩ := Option.map_eq_some_iff.mp hi
      have hstopped : v.stopped = true := by
        revert hs
        split <;> exact id
      have := h.stopped v (List.mem_of_getElem? hv) hstopped
      rw [running.2] at this
      cases this
  | stepped i t u shard step eq =>
    subst eq
    have hin := List.mem_of_getElem? shard
    obtain ⟨hreached,hlength⟩ := h.running t hin
    obtain ⟨ctx,hctx⟩ | ⟨x,hx⟩ | ⟨hjoined,rfl⟩ := step
    · obtain ⟨connection,rest,hposted,-,rfl⟩ := ShardThread.runPosted_cases hctx
      have haccept : (RunningShard.system G maxFree maxIdle).Reaches (t.running.accept ctx) :=
        .step (e := RunningEvent.accept ctx) hreached trivial rfl
      refine h.stepped shard (by simp [hposted]) ⟨haccept,?_⟩ (h.stopped t hin)
      change (t.started ++ [connection]).length = (t.running.accept ctx).shard.sessions.length
      rw [RunningShard.accept,GatewayShard.dispatchAccept_eq]
      simp [hlength]
    · obtain ⟨-,hnot,r,hr,rfl⟩ := ShardThread.run_cases hx
      refine h.stepped shard rfl ⟨hreached.step (e := x) trivial hr,?_⟩ (h.stopped t hin)
      exact hlength.trans (RunningShard.length_next hnot hr).symm
    · exact h.stepped shard rfl ⟨hreached,hlength⟩ fun _ => hjoined
  | same shards next accepted stopping joined joining =>
    refine ⟨shards ▸ h.positive,?_,?_,?_,fun hj => ?_,fun t ht hs => joined (h.stopped t (shards ▸ ht) hs)⟩
    · rw [next,accepted,shards]
      exact h.next
    · rw [shards,accepted]
      exact h.shares
    · rw [shards]
      exact h.running
    · rcases joining hj with hs | hs
      · exact hs
      · exact stopping (h.joined hs)

theorem dealt_of_reaches (h : (system G maxFree maxIdle).Reaches g) : Dealt maxFree maxIdle g := by
  refine h.invariant ?_ fun g x g' hg hstep => hg.moves (moves_of_next hstep)
  rintro g ⟨hne,hshards,hnext,haccepted,-,hjoined⟩
  refine ⟨List.length_pos_of_ne_nil hne,by rw [hnext,haccepted,Nat.zero_mod],fun i t ht => ?_,
    fun t ht => ?_,fun hj => ?_,fun t ht hs => ?_⟩
  · obtain ⟨-,hposted,hstarted,-⟩ := hshards t (List.mem_of_getElem? ht)
    rw [hposted,hstarted,haccepted]
    rfl
  · obtain ⟨hinitial,-,hstarted,-⟩ := hshards t ht
    refine ⟨.initial hinitial,?_⟩
    rw [hstarted,show t.running.shard = _ from hinitial.1]
    rfl
  · rw [hjoined] at hj
    cases hj
  · rw [(hshards t ht).2.2.2] at hs
    cases hs

/-- How the accepted connections are distributed over the shards. -/
structure Distributed (maxFree maxIdle : ℕ) (g : GatewayRuntime G) : Prop where
  /-- A connection is with one shard, the one whose turn it was. -/
  turn : ∀ (i : ℕ) (t : ShardThread G), g.shards[i]? = some t →
    ∀ j, j ∈ t.started ++ t.posted ↔ j < g.accepted ∧ j % g.shards.length = i
  /-- It is there once, and none has overtaken another. -/
  order : ∀ (i : ℕ) (t : ShardThread G), g.shards[i]? = some t →
    (t.started ++ t.posted).Pairwise (· < ·)
  /-- Session `k` of shard `i` is for the connection that was accepted as number `i + k * n`. -/
  session : ∀ (i : ℕ) (t : ShardThread G), g.shards[i]? = some t →
    t.started.length = t.running.shard.sessions.length ∧
      ∀ k j, t.started[k]? = some j → j = i + k * g.shards.length
  balanced : ∀ (i i' : ℕ) (t t' : ShardThread G), g.shards[i]? = some t →
    g.shards[i']? = some t' →
      (t.started ++ t.posted).length ≤ (t'.started ++ t'.posted).length + 1
  running : ∀ t ∈ g.shards, (RunningShard.system G maxFree maxIdle).Reaches t.running

/-- Whatever the threads do meanwhile, the listener deals the connections it accepts to the
shards in turn, and no connection is lost, started twice or started by another shard. -/
theorem connections_distributed (h : (system G maxFree maxIdle).Reaches g) :
    Distributed maxFree maxIdle g := by
  have hd := dealt_of_reaches h
  have hlt : ∀ {i t}, g.shards[i]? = some t → i < g.shards.length := fun ht =>
    (List.getElem?_eq_some_iff.mp ht).1
  refine ⟨fun i t ht j => ?_,fun i t ht => ?_,fun i t ht => ⟨?_,fun k j hk => ?_⟩,
    fun i i' t t' ht ht' => ?_,fun t ht => (hd.running t ht).1⟩
  · rw [hd.shares i t ht,mem_share]
  · rw [hd.shares i t ht]
    exact List.pairwise_lt_range.filter _
  · exact (hd.running t (List.mem_of_getElem? ht)).2
  · refine getElem?_share (m := g.accepted) (hlt ht) ?_
    rw [← hd.shares i t ht,List.getElem?_append_left (List.getElem?_eq_some_iff.mp hk).1]
    exact hk
  · rw [hd.shares i t ht,hd.shares i' t' ht']
    exact length_share_le (hlt ht) (hlt ht') _

/-- Two shards; three connections are accepted, and then `stop` is called and shard `0` ends
before it has started its second session. -/
def dealing : List (RuntimeEvent (.strict [] 64)) :=
  [.accepted .none,.accepted .none,.runPosted 0 (),.accepted .none,.runPosted 1 (),.stop,
    .joinListener,.stopShard 0]

/-- The runtime after so many steps of this run. -/
def dealtRuntime (n : ℕ) : GatewayRuntime (.strict [] 64) :=
  let g := { shards := List.replicate 2 { running := .strictShard } }
  (System.play next g (dealing.take n)).getD g

theorem reaches_dealtRuntime (n : ℕ) : (system (.strict [] 64) 1 1).Reaches (dealtRuntime n) := by
  have hinitial : (system (.strict [] 64) 1 1).Reaches
      { shards := List.replicate 2 { running := .strictShard } } := by
    refine .initial ⟨by simp,fun t ht => ?_,rfl,rfl,rfl,rfl⟩
    rw [List.eq_of_mem_replicate ht]
    exact ⟨⟨rfl,⟨[(ascii "a",80)],by decide,rfl⟩,rfl⟩,rfl,rfl,rfl⟩
  exact hinitial.getD_play _

theorem connections_distributed_dealt :
    (dealtRuntime 8).shards.map (fun t => (t.started,t.posted)) = [([0],[2]),([1],[])] ∧
      Distributed 1 1 (dealtRuntime 8) :=
  ⟨by decide +kernel,connections_distributed (reaches_dealtRuntime 8)⟩

/-- What can still become of `g` once `stop` has been called. -/
structure Winding (g g' : GatewayRuntime G) : Prop where
  stopping : g.stopping = true → g'.stopping = true ∧ g'.accepted = g.accepted
  stopped : ∀ (i : ℕ) (t : ShardThread G), g.shards[i]? = some t → t.stopped = true →
    g'.shards[i]? = some t

theorem Winding.trans {g'' : GatewayRuntime G} (h : Winding g g') (h' : Winding g' g'') :
    Winding g g'' where
  stopping hs := by
    obtain ⟨hs',ha⟩ := h.stopping hs
    obtain ⟨hs'',ha'⟩ := h'.stopping hs'
    exact ⟨hs'',ha'.trans ha⟩
  stopped i t ht hs := h'.stopped i t (h.stopped i t ht hs) hs

theorem Dealt.winding (h : Dealt maxFree maxIdle g) (hm : Moves g g') : Winding g g' := by
  cases hm with
  | posted running shards next accepted stopping joined =>
    refine ⟨fun hs => ?_,fun i t ht hs => ?_⟩
    · rw [running.1] at hs
      cases hs
    · have := h.stopped t (List.mem_of_getElem? ht) hs
      rw [running.2] at this
      cases this
  | stepped i t u shard step eq =>
    subst eq
    refine ⟨fun hs => ⟨hs,rfl⟩,fun j v hv hs => ?_⟩
    change (g.shards.set i u)[j]? = some v
    by_cases hij : i = j
    · subst hij
      obtain rfl : t = v := Option.some.inj (shard.symm.trans hv)
      obtain ⟨ctx,hctx⟩ | ⟨x,hx⟩ | ⟨-,rfl⟩ := step
      · obtain ⟨-,-,-,hrunning,-⟩ := ShardThread.runPosted_cases hctx
        rw [hs] at hrunning
        cases hrunning
      · obtain ⟨hrunning,-⟩ := ShardThread.run_cases hx
        rw [hs] at hrunning
        cases hrunning
      · have heq : t.stop = t := by
          obtain ⟨running,posted,started,stopped⟩ := t
          subst hs
          rfl
        rw [heq,List.getElem?_set_self (List.getElem?_eq_some_iff.mp shard).1]
    · rw [List.getElem?_set_ne hij]
      exact hv
  | same shards next accepted stopping joined joining =>
    exact ⟨fun hs => ⟨stopping hs,accepted⟩,fun i t ht _ => shards ▸ ht⟩

/-- From the call of `stop` on no connection is accepted any more, and a shard that has stopped
does not change again: neither do its counters, nor are the connections started that were
posted to it. -/
theorem winding_down (h : (system G maxFree maxIdle).Reaches g)
    (h' : (System.computed (fun x => x = g) next).Reaches g') : Winding g g' := by
  have hboth : Dealt maxFree maxIdle g' ∧ Winding g g' := by
    refine h'.invariant (I := fun g' => Dealt maxFree maxIdle g' ∧ Winding g g') ?_ ?_
    · rintro _ rfl
      exact ⟨dealt_of_reaches h,fun hs => ⟨hs,rfl⟩,fun i t ht _ => ht⟩
    · rintro g₁ x g₂ ⟨hd,hw⟩ hstep
      have hm := moves_of_next hstep
      exact ⟨hd.moves hm,hw.trans (hd.winding hm)⟩
  exact hboth.2

/-- What the last two steps of the run do after `stop` was called. -/
def woundDown : GatewayRuntime (.strict [] 64) :=
  (System.play next (dealtRuntime 6) [.joinListener,.stopShard 0]).getD (dealtRuntime 6)

theorem winding_down_dealt : woundDown.shards.map (fun t => (t.stopped,t.posted)) =
    [(true,[2]),(false,[])] ∧ Winding (dealtRuntime 6) woundDown := by
  have hinitial : (System.computed (fun x => x = dealtRuntime 6) next).Reaches (dealtRuntime 6) :=
    .initial rfl
  exact ⟨by decide +kernel,winding_down (reaches_dealtRuntime 6) (hinitial.getD_play _)⟩

end GatewayRuntime
end PerCoreShard
