import PerCoreShard.Session.Accounts
import PerCoreShard.Util.LocalMetrics

/-! One shard: its pool of buffers, its counters and the sessions it has accepted. The event
loop runs one callback of one session at a time, in any order. -/
namespace PerCoreShard
open Library

structure GatewayShard (G : Gateway) where
  bufferPool : BufferPool
  metrics : LocalMetrics := {}
  /-- All sessions that were accepted, closed ones too. -/
  sessions : List (HttpSession G) := []

inductive ShardEvent (G : Gateway)
  | accept (ctx : G.Ctx)
  | complete (k : ℕ) (e : Event G)

namespace GatewayShard
variable {G : Gateway}

/-- What an entry in the record of a session means for the shard. -/
def perform (sh : GatewayShard G) : Effect → GatewayShard G
  | .onAccept => { sh with metrics := sh.metrics.onAccept }
  | .onClose => { sh with metrics := sh.metrics.onClose }
  | .releaseBuffer b => { sh with bufferPool := sh.bufferPool.release b }
  | .requestHandled =>
    { sh with metrics := { sh.metrics with requestsHandled := sh.metrics.requestsHandled + 1 } }
  | .upstreamRetry _ =>
    { sh with metrics := { sh.metrics with upstreamRetries := sh.metrics.upstreamRetries + 1 } }
  | .upstreamConnectError =>
    { sh with metrics := { sh.metrics with
        upstreamConnectErrors := sh.metrics.upstreamConnectErrors + 1 } }
  | .bytesDownstreamToUpstream n =>
    { sh with metrics := { sh.metrics with
        bytesDownstreamToUpstream := sh.metrics.bytesDownstreamToUpstream + .ofNat n } }
  | .bytesUpstreamToDownstream n =>
    { sh with metrics := { sh.metrics with
        bytesUpstreamToDownstream := sh.metrics.bytesUpstreamToDownstream + .ofNat n } }
  | _ => sh

/-- A session is made and started with two buffers of the pool. -/
def dispatchAccept (sh : GatewayShard G) (ctx : G.Ctx) : GatewayShard G :=
  let readBuf := sh.bufferPool.acquire
  let writeBuf := readBuf.2.acquire
  let s := HttpSession.start ctx readBuf.1 writeBuf.1
  s.history.foldl perform { sh with bufferPool := writeBuf.2, sessions := sh.sessions ++ [s] }

/-- The callback of one session, with all it does to the shard. -/
def complete (sh : GatewayShard G) (k : ℕ) (e : Event G) : GatewayShard G :=
  match sh.sessions[k]? with
  | some s =>
    (s.since (s.deliver e)).foldl perform { sh with sessions := sh.sessions.set k (s.deliver e) }
  | none => sh

def system (G : Gateway) (maxFree : ℕ) : System (GatewayShard G) (ShardEvent G) where
  initial sh := sh = { bufferPool := { bufferSize := G.bufferSize, maxFree := maxFree } }
  step sh x sh' := match x with
    | .accept ctx => sh' = sh.dispatchAccept ctx
    | .complete k e => ∃ s, sh.sessions[k]? = some s ∧ e.op ∈ s.pending ∧
      e.completion.data.length ≤ G.bufferSize ∧ sh' = sh.complete k e

def opened (sh : GatewayShard G) : ℕ := sh.sessions.countP fun s => !s.closing

def closed (sh : GatewayShard G) : ℕ := sh.sessions.countP fun s => s.closing

/-- The buffers of all sessions. -/
def held (sh : GatewayShard G) : List ℕ := sh.sessions.flatMap HttpSession.bufferIds

/-- The invariant of a shard. -/
structure Balanced (maxFree : ℕ) (sh : GatewayShard G) : Prop where
  reached : ∀ s ∈ sh.sessions, (HttpSession.system G).Reaches s
  counts : sh.metrics.Counts sh.opened sh.closed
  sound : sh.bufferPool.Sound
  bufferSize : sh.bufferPool.bufferSize = G.bufferSize
  maxFree : sh.bufferPool.maxFree = maxFree
  accounted : sh.bufferPool.Accounted sh.held

theorem perform_sessions (sh : GatewayShard G) (es : List Effect) :
    (es.foldl perform sh).sessions = sh.sessions := by
  induction es generalizing sh with
  | nil => rfl
  | cons e es ih =>
    refine (ih (sh.perform e)).trans ?_
    cases e <;> rfl

theorem perform_bufferPool (sh : GatewayShard G) (es : List Effect) :
    (es.foldl perform sh).bufferPool =
      (es.filterMap Effect.released).foldl BufferPool.release sh.bufferPool := by
  induction es generalizing sh with
  | nil => rfl
  | cons e es ih =>
    refine (ih (sh.perform e)).trans ?_
    cases e <;> rfl

theorem perform_counts {es : List Effect} {sh : GatewayShard G} (hn : .onAccept ∉ es)
    (opened closed n : ℕ) (hc : es.count .onClose = n)
    (h : sh.metrics.Counts (opened + n) closed) :
    (es.foldl perform sh).metrics.Counts opened (closed + n) := by
  induction es generalizing sh closed n with
  | nil =>
    subst hc
    exact h
  | cons e es ih =>
    rw [List.mem_cons,not_or] at hn
    by_cases hx : e = .onClose
    · subst hx
      rw [List.count_cons_self] at hc
      subst hc
      rw [Nat.add_comm _ 1,← Nat.add_assoc]
      exact ih hn.2 _ _ rfl h.onClose
    · rw [List.count_cons_of_ne (fun hy => hx hy)] at hc
      refine ih hn.2 _ _ hc ?_
      cases e with
      | onAccept => exact absurd rfl hn.1
      | onClose => exact absurd rfl hx
      | _ => exact ⟨h.accepted,h.active,h.closed⟩

theorem held_split {sh : GatewayShard G} {xs ys : List (HttpSession G)} {s : HttpSession G}
    (h : sh.sessions = xs ++ s::ys) :
    sh.held.Perm (s.bufferIds ++ (xs ++ ys).flatMap HttpSession.bufferIds) := by
  rw [held,h]
  exact List.perm_middle.flatMap_right _

theorem opened_split {sh : GatewayShard G} {xs ys : List (HttpSession G)} {s : HttpSession G}
    (h : sh.sessions = xs ++ s::ys) :
    sh.opened = ((xs ++ ys).countP fun s => !s.closing) + if s.closing then 0 else 1 := by
  rw [opened,h,List.perm_middle.countP_eq,List.countP_cons]
  cases s.closing <;> rfl

theorem closed_split {sh : GatewayShard G} {xs ys : List (HttpSession G)} {s : HttpSession G}
    (h : sh.sessions = xs ++ s::ys) :
    sh.closed = ((xs ++ ys).countP fun s => s.closing) + if s.closing then 1 else 0 := by
  rw [closed,h,List.perm_middle.countP_eq,List.countP_cons]

theorem dispatchAccept_eq (sh : GatewayShard G) (ctx : G.Ctx) :
    sh.dispatchAccept ctx =
      { bufferPool := sh.bufferPool.acquire.2.acquire.2
        metrics := sh.metrics.onAccept
        sessions := sh.sessions ++
          [.start ctx sh.bufferPool.acquire.1 sh.bufferPool.acquire.2.acquire.1] } := rfl

theorem balanced_dispatchAccept {maxFree : ℕ} {sh : GatewayShard G} (h : Balanced maxFree sh)
    (ctx : G.Ctx) : Balanced maxFree (sh.dispatchAccept ctx) := by
  obtain ⟨hsize,hmax⟩ := sh.bufferPool.acquire_config
  obtain ⟨hsize',hmax'⟩ := sh.bufferPool.acquire.2.acquire_config
  obtain ⟨hsound,hread⟩ := h.sound.acquire
  obtain ⟨hsound',hwrite⟩ := hsound.acquire
  have hacc := h.accounted.acquire.acquire
  rw [dispatchAccept_eq]
  refine ⟨fun s hs => ?_,?_,hsound',hsize'.trans (hsize.trans h.bufferSize),
    hmax'.trans (hmax.trans h.maxFree),?_⟩
  · rcases List.mem_append.mp hs with hs | hs
    · exact h.reached s hs
    · rw [List.mem_singleton.mp hs]
      exact .initial ⟨ctx,_,_,hread.trans h.bufferSize,
        hwrite.trans (hsize.trans h.bufferSize),rfl⟩
  · have hcounts := h.counts.onAccept
    simpa [opened,closed,List.countP_append] using hcounts
  · simpa [held,List.flatMap_append] using hacc

theorem balanced_complete {maxFree : ℕ} {sh : GatewayShard G} (h : Balanced maxFree sh)
    {k : ℕ} {s : HttpSession G} {e : Event G} (hk : sh.sessions[k]? = some s)
    (he : e.op ∈ s.pending) (hlen : e.completion.data.length ≤ G.bufferSize) :
    Balanced maxFree (sh.complete k e) := by
  obtain ⟨hlt,hget⟩ := List.getElem?_eq_some_iff.mp hk
  obtain ⟨xs,ys,hsplit,-,hset⟩ := @List.exists_of_set _ k (s.deliver e) _ hlt
  rw [hget] at hsplit
  have hs : (HttpSession.system G).Reaches s := h.reached s (by simp [hsplit])
  have hs' : (HttpSession.system G).Reaches (s.deliver e) := .step hs trivial ⟨he,hlen,rfl⟩
  obtain ⟨-,-,hacc,hnone⟩ :=
    HttpSession.accounts_deliver (HttpSession.suspended_of_reaches hs) he hlen
  have heq : sh.complete k e = (s.since (s.deliver e)).foldl perform
      { sh with sessions := xs ++ s.deliver e::ys } := by
    rw [complete,hk,← hset]
  have hsplit' : (sh.complete k e).sessions = xs ++ s.deliver e::ys := by
    rw [heq,perform_sessions]
  have hpool : (sh.complete k e).bufferPool =
      ((s.since (s.deliver e)).filterMap Effect.released).foldl BufferPool.release sh.bufferPool := by
    rw [heq,perform_bufferPool]
  have hreached : ∀ x ∈ (sh.complete k e).sessions, (HttpSession.system G).Reaches x := by
    intro x hx
    rw [hsplit',List.mem_append,List.mem_cons] at hx
    rcases hx with hx | rfl | hx
    · exact h.reached x (by simp [hsplit,hx])
    · exact hs'
    · exact h.reached x (by simp [hsplit,hx])
  have ho := (HttpSession.suspended_of_reaches hs).isOpen he
  have hcounts := h.counts
  rw [opened_split hsplit,closed_split hsplit,ho] at hcounts
  have hheld := h.accounted.perm (held_split hsplit)
  cases hacc with
  | kept hc hb hr hn =>
    rw [hr] at hpool
    refine ⟨hreached,?_,hpool ▸ h.sound,hpool ▸ h.bufferSize,hpool ▸ h.maxFree,?_⟩
    · rw [opened_split hsplit',closed_split hsplit',hc,ho,heq]
      exact perform_counts hnone _ _ 0 hn hcounts
    · rw [hpool]
      exact hheld.perm (hb ▸ (held_split hsplit').symm)
  | closed _ hc hb hr hsized hn =>
    have hsize := hsized (HttpSession.sized_of_reaches hs)
    rw [← h.bufferSize] at hsize
    obtain ⟨h1,h2,h3,h4⟩ := BufferPool.releaseAll h.sound (hr.symm ▸ hheld) hsize
    rw [← hpool] at h1 h2 h3 h4
    refine ⟨hreached,?_,h1,h3.trans h.bufferSize,h4.trans h.maxFree,?_⟩
    · rw [opened_split hsplit',closed_split hsplit',hc,heq]
      exact perform_counts hnone _ _ 1 hn hcounts
    · have := held_split hsplit'
      rw [hb] at this
      exact h2.perm this.symm

theorem balanced_of_reaches {maxFree : ℕ} {sh : GatewayShard G}
    (h : (system G maxFree).Reaches sh) : Balanced maxFree sh := by
  refine h.invariant ?_ ?_
  · rintro _ rfl
    exact ⟨by simp,⟨rfl,rfl,rfl⟩,⟨Nat.zero_le _,by simp⟩,rfl,rfl,.refl _⟩
  · rintro sh (ctx | ⟨k,e⟩) sh' hI hstep
    · subst hstep
      exact balanced_dispatchAccept hI ctx
    · obtain ⟨s,hk,he,hlen,rfl⟩ := hstep
      exact balanced_complete hI hk he hlen

/-- What is true of the counters and the buffers of a shard between any two callbacks. -/
structure Conserved (maxFree : ℕ) (sh : GatewayShard G) : Prop where
  balance : sh.metrics.connectionsActive =
    sh.metrics.connectionsAccepted - sh.metrics.connectionsClosed
  accepted : sh.metrics.connectionsAccepted = .ofNat sh.sessions.length
  active : sh.metrics.connectionsActive = .ofNat sh.opened
  closed : sh.metrics.connectionsClosed = .ofNat sh.closed
  unwrapped : sh.opened < 2 ^ 64 → sh.metrics.connectionsActive.toNat = sh.opened
  /-- `on_close` has run once for every closed session, and for no other. -/
  onClose : ∀ s ∈ sh.sessions, s.history.count .onClose = if s.closing then 1 else 0
  /-- A buffer that was made and not destroyed is in the free list or with a session. -/
  accounted : sh.bufferPool.Accounted sh.held
  /-- No buffer is in two of these places. -/
  unshared : (sh.bufferPool.freeList.map Buffer.id ++ sh.held).Nodup
  free_sized : ∀ b ∈ sh.bufferPool.freeList, b.data.length = G.bufferSize
  held_sized : ∀ s ∈ sh.sessions, s.Sized
  bounded : sh.bufferPool.freeList.length ≤ maxFree
  equipped : ∀ s ∈ sh.sessions, s.closing = false →
    ∃ r w, s.readBuf = some r ∧ s.writeBuf = some w ∧ r.id ≠ w.id
  bare : ∀ s ∈ sh.sessions, s.closing = true → s.readBuf = none ∧ s.writeBuf = none

theorem opened_add_closed (sh : GatewayShard G) : sh.opened + sh.closed = sh.sessions.length := by
  rw [Nat.add_comm,opened,closed,List.length_eq_countP_add_countP (fun s => s.closing)]
  simp

theorem Balanced.distinct {maxFree : ℕ} {sh : GatewayShard G} (h : Balanced maxFree sh)
    {s : HttpSession G} (hs : s ∈ sh.sessions) (ho : s.closing = false) :
    ∃ r w, s.readBuf = some r ∧ s.writeBuf = some w ∧ r.id ≠ w.id := by
  obtain ⟨hr,hw⟩ := (HttpSession.equipped_of_reaches (h.reached s hs)).isOpen ho
  obtain ⟨r,hr⟩ := Option.isSome_iff_exists.mp hr
  obtain ⟨w,hw⟩ := Option.isSome_iff_exists.mp hw
  have hheld : sh.held.Nodup := h.accounted.nodup.sublist (List.sublist_append_right _ _)
  have hone : s.bufferIds.Nodup := (List.nodup_flatMap.mp hheld).1 s hs
  exact ⟨r,w,hr,hw,by simpa [HttpSession.bufferIds,hr,hw] using hone⟩

/-- Whatever the sessions of a shard do, and in whatever order, its counters count them and
its buffers are where they belong. -/
theorem buffers_conserved {maxFree : ℕ} {sh : GatewayShard G}
    (h : (system G maxFree).Reaches sh) : Conserved maxFree sh := by
  have hb := balanced_of_reaches h
  refine
    { balance := hb.counts.balance
      accepted := sh.opened_add_closed ▸ hb.counts.accepted
      active := hb.counts.active
      closed := hb.counts.closed
      unwrapped := fun hlt => ?_
      onClose := fun s hs => (HttpSession.counted_of_reaches (hb.reached s hs)).onClose
      accounted := hb.accounted
      unshared := hb.accounted.nodup
      free_sized := fun b hm => (hb.sound.sized b hm).trans hb.bufferSize
      held_sized := fun s hs => HttpSession.sized_of_reaches (hb.reached s hs)
      bounded := hb.maxFree ▸ hb.sound.bounded
      equipped := fun s hs => hb.distinct hs
      bare := fun s hs => (HttpSession.equipped_of_reaches (hb.reached s hs)).closed }
  rw [hb.counts.active,UInt64.toNat_ofNat']
  exact Nat.mod_eq_of_lt hlt

/-- Two connections, the first of which is lost; one buffer more than the pool keeps. -/
def lostShard : GatewayShard (.strict [] 64) :=
  ((({ bufferPool := { bufferSize := 64, maxFree := 1 } } : GatewayShard (.strict [] 64))
    |>.dispatchAccept ()).dispatchAccept ()).complete 0 ⟨.readRequest,.failed 0,{}⟩

theorem reaches_dispatchAccept {maxFree : ℕ} {sh : GatewayShard G}
    (h : (system G maxFree).Reaches sh) (ctx : G.Ctx) :
    (system G maxFree).Reaches (sh.dispatchAccept ctx) := .step (e := ShardEvent.accept ctx) h trivial rfl

theorem buffers_conserved_lost : lostShard.opened = 1 ∧ lostShard.closed = 1 ∧
    lostShard.bufferPool.destroyed = [1] ∧ Conserved 1 lostShard := by
  refine ⟨by decide,by decide,by decide,buffers_conserved ?_⟩
  refine .step (e := ShardEvent.complete 0 ⟨.readRequest,.failed 0,{}⟩)
    (reaches_dispatchAccept (reaches_dispatchAccept (.initial rfl) ()) ()) trivial ?_
  exact ⟨_,rfl,by decide,by decide,rfl⟩

end GatewayShard
end PerCoreShard
