import Mathlib.Algebra.Order.BigOperators.Group.List
import Mathlib.Tactic.Abel
import PerCoreShard.Runtime.RunningShard
import PerCoreShard.Session.RequestRelay
import PerCoreShard.Session.Retry
import PerCoreShard.Session.Tally

/-! The counters of a shard are what its sessions have on record, added up modulo `2^64`. -/
namespace PerCoreShard
open Library

/-- The head of a request is shown to the filters. -/
def Effect.isFiltered : Effect → Bool
  | .filterRequest _ _ _ => true
  | _ => false

theorem sum_of_count {f : Effect → Counter → ℤ} {p : Effect → Bool} {c : Counter}
    (h : ∀ e, f e c = if p e then 1 else 0) (log : List Effect) :
    (log.map f).sum c = log.countP p := by
  induction log with
  | nil => rfl
  | cons e log ih =>
    rw [List.map_cons,List.sum_cons,Pi.add_apply,ih,h,List.countP_cons]
    split <;> simp [Int.add_comm]

theorem told_requestsHandled (log : List Effect) :
    told log .requestsHandled = log.countP Effect.isFiltered :=
  sum_of_count (fun e => by cases e <;> rfl) log

theorem tally_upstreamRetries (log : List Effect) :
    tally log .upstreamRetries = log.countP Effect.isRetry :=
  sum_of_count (fun e => by cases e <;> rfl) log

/-- The filters see one head in a cycle. -/
theorem filtered_of_conforms {G : Gateway} {log : List Effect} (h : Conforms G log) :
    log.countP Effect.isFiltered = if (cycleOf log).request.filtered.isSome then 1 else 0 := by
  refine h.induct_log (P := fun log => log.countP Effect.isFiltered =
    if (cycleOf log).request.filtered.isSome then 1 else 0) rfl fun log e _ ih ha => ?_
  rw [cycleOf_append,List.countP_append,ih]
  cases e with
  | filterRequest head result filtered =>
    have hnone : (cycleOf log).request.filtered = none := ha.2.2.2.2.1
    rw [hnone]
    rfl
  | _ => exact Nat.add_zero _

namespace HttpSession
variable {G : Gateway} {s : HttpSession G}

/-- A write to an upstream fails when the head of the request is known. -/
def HeadKnown (past : List Effect) (x : Effect) : Prop :=
  ∀ data written, x = .upstreamWriteFailed data written →
    (cycleOf past).request.head.isSome = true

theorem headKnown_of_reaches (h : (system G).Reaches s) : Each HeadKnown s := by
  refine each_of_reaches ?_ ?_ h
  · rintro past x hx data written rfl
    cases hx
  · rintro s ⟨op,c,a⟩ hs he - x hx data written rfl
    cases hs with
    | closed _ _ hidle => simp [hidle] at he
    | waiting op' cycle live waits =>
      rw [live.pending,List.mem_singleton] at he
      cases he
      rw [live.log]
      cases op with
      | writeRequest | retryWrite | rereadWrite => exact waits.1.head
      | readRequest | readResponse | writeResponse | connect | retryConnect | rereadConnect =>
        cases hc : c.ok <;> simp [inputEntry,hc] at hx

/-- A request that was sent again had been shown to the filters. -/
theorem head_of_retried {log : List Effect} (h : Conforms G log) (hknown : AtEvery HeadKnown log) :
    0 < log.countP Effect.isRetry → (cycleOf log).request.head.isSome = true := by
  refine h.induct_log (P := fun log => AtEvery HeadKnown log → 0 < log.countP Effect.isRetry →
    (cycleOf log).request.head.isSome = true) (fun _ hn => by cases hn) ?_ hknown
  intro log e hlog ih ha hknown hretry
  obtain ⟨hbefore,-⟩ := (atEvery_append _ _ _).mp hknown
  rw [List.countP_append] at hretry
  rw [cycleOf_append]
  cases e with
  | startRequest head => rfl
  | upstreamRetry cause =>
    cases cause with
    | afterWrite n =>
      obtain ⟨-,-,data,written,hlast,-⟩ := ha
      obtain ⟨past,rfl⟩ : ∃ past, log = past ++ [.upstreamWriteFailed data written] :=
        ⟨_,(List.dropLast_append_getLast? _ hlast).symm⟩
      change (cycleOf (past ++ [_])).request.head.isSome = true
      rw [cycleOf_append]
      obtain ⟨-,hhead,-⟩ := (atEvery_append _ _ _).mp hbefore
      exact hhead data written rfl
    | afterRead snapshot => exact (hlog.request_of_responding ha.2.1).1
  | _ => exact ih hbefore hretry

theorem retried_le_filtered {log : List Effect} (h : Conforms G log)
    (hknown : AtEvery HeadKnown log) :
    log.countP Effect.isRetry ≤ log.countP Effect.isFiltered := by
  rw [filtered_of_conforms h]
  obtain ⟨hcount,hle⟩ := retries_of_conforms h
  rcases Nat.eq_zero_or_pos (log.countP Effect.isRetry) with hzero | hpos
  · rw [hzero]
    exact Nat.zero_le _
  · obtain ⟨head,hhead⟩ := Option.isSome_iff_exists.mp (head_of_retried h hknown hpos)
    obtain ⟨shown,filtered,hf,-⟩ := passed_request h head hhead
    rw [hf,← hcount]
    exact hle

/-- What the counters of a shard get to know of one session. -/
structure Tallied (s : HttpSession G) : Prop where
  accepted : tally s.history .connectionsAccepted = 1
  closed : tally s.history .connectionsClosed = if s.closing then 1 else 0
  told : tally s.history = told s.history - (s.pending.map Op.surplus).sum
  /-- Every request cycle is counted once, the one under way as soon as its head is known. -/
  handled : (s.past.length : ℤ) ≤ tally s.history .requestsHandled ∧
    tally s.history .requestsHandled ≤ s.past.length + 1
  /-- A request is repeated once at most. -/
  retried : tally s.history .upstreamRetries ≤ tally s.history .requestsHandled

/-- A request was handled in every cycle that has ended. -/
theorem filtered_of_past (h : (system G).Reaches s) {log : List Effect} (hlog : log ∈ s.past) :
    log.countP Effect.isFiltered = 1 := by
  obtain ⟨past,rfl,hpast,ha,-⟩ := reset_of_past h hlog
  obtain ⟨head,hhead⟩ := Option.isSome_iff_exists.mp
    (hpast.request_of_responding ha.responding).1
  obtain ⟨shown,filtered,hf,-⟩ := passed_request hpast head hhead
  rw [List.countP_append,filtered_of_conforms hpast,hf]
  rfl

theorem countP_history (p : Effect → Bool) (s : HttpSession G) :
    s.history.countP p = (s.past.map fun log => log.countP p).sum + s.log.countP p := by
  simp [history,cycles,List.countP_flatten]

theorem tallied_of_reaches (h : (system G).Reaches s) : Tallied s := by
  have htold : tally s.history = PerCoreShard.told s.history - (s.pending.map Op.surplus).sum := by
    have hbooks := books_of_reaches h
    rw [books,sum_surplus,sub_add_eq_add_sub,sub_eq_zero] at hbooks
    exact eq_sub_of_add_eq hbooks
  have hwait : (s.pending.map Op.surplus).sum .requestsHandled = 0 := by
    induction s.pending with
    | nil => rfl
    | cons op ops ih =>
      rw [List.map_cons,List.sum_cons,Pi.add_apply,ih]
      cases op <;> rfl
  have hhandled : tally s.history .requestsHandled = s.history.countP Effect.isFiltered := by
    rw [htold,Pi.sub_apply,hwait,sub_zero,told_requestsHandled]
  have hlog : s.log.countP Effect.isFiltered ≤ 1 := by
    rw [filtered_of_conforms (conforms_of_reaches h (by simp [cycles]))]
    split <;> decide
  have hpast : (s.past.map fun log => log.countP Effect.isFiltered).sum = s.past.length := by
    rw [List.map_congr_left fun log hlog => filtered_of_past h hlog]
    simp
  have hcount : s.history.countP Effect.isFiltered =
      s.past.length + s.log.countP Effect.isFiltered := by
    rw [countP_history,hpast]
  have hretried : s.history.countP Effect.isRetry ≤ s.history.countP Effect.isFiltered := by
    rw [history,List.countP_flatten,List.countP_flatten]
    exact List.sum_le_sum fun log hlog =>
      retried_le_filtered (conforms_of_reaches h hlog) (headKnown_of_reaches h log hlog)
  have hcounted := counted_of_reaches h
  refine ⟨?_,?_,htold,?_,?_⟩
  · rw [tally,sum_of_count (p := (· == .onAccept)) (fun e => by cases e <;> rfl)]
    exact_mod_cast hcounted.onAccept
  · have honClose := hcounted.onClose
    rw [tally,sum_of_count (p := (· == .onClose)) (fun e => by cases e <;> rfl)]
    rw [List.count] at honClose
    rw [honClose]
    split <;> rfl
  · rw [hhandled]
    omega
  · rw [hhandled,tally_upstreamRetries]
    exact_mod_cast hretried

end HttpSession

namespace GatewayShard
variable {G : Gateway} {sh sh' : GatewayShard G}

theorem ofInt_zero : UInt64.ofInt 0 = 0 := rfl

theorem ofInt_natCast (n : ℕ) : UInt64.ofInt n = .ofNat n := by
  have h : ((n : ℤ) % 2 ^ 64).toNat = n % 2 ^ 64 := by omega
  rw [UInt64.ofInt,h,UInt64.ofNat_mod_size]

theorem load_perform (sh : GatewayShard G) (e : Effect) (c : Counter) :
    (sh.perform e).metrics.load c = sh.metrics.load c + .ofInt (e.adds c) := by
  cases e with
  | onAccept | onClose | bytesDownstreamToUpstream | bytesUpstreamToDownstream
  | upstreamConnectError | requestHandled | upstreamRetry =>
    cases c <;> simp [perform,LocalMetrics.load,LocalMetrics.onAccept,LocalMetrics.onClose,
      Effect.adds,ofInt_zero,ofInt_natCast,UInt64.sub_eq_add_neg]
  | _ => exact (UInt64.add_zero _).symm

theorem load_foldl_perform (es : List Effect) (sh : GatewayShard G) (c : Counter) :
    (es.foldl perform sh).metrics.load c = sh.metrics.load c + .ofInt (tally es c) := by
  induction es generalizing sh with
  | nil => exact (UInt64.add_zero _).symm
  | cons e es ih =>
    refine (ih (sh.perform e)).trans ?_
    rw [load_perform,UInt64.add_assoc,← UInt64.ofInt_add]
    rfl

/-- What the sessions have on record to be counted, and what they say has happened. -/
def counted (sh : GatewayShard G) : Counter → ℤ := (sh.sessions.map fun s => tally s.history).sum

def recorded (sh : GatewayShard G) : Counter → ℤ := (sh.sessions.map fun s => told s.history).sum

/-- The connects that are under way. -/
def connecting (sh : GatewayShard G) : Counter → ℤ :=
  (sh.sessions.map fun s => (s.pending.map Op.surplus).sum).sum

/-- The request cycles that have ended. -/
def completed (sh : GatewayShard G) : ℕ := (sh.sessions.map fun s => s.past.length).sum

theorem counted_set {xs ys : List (HttpSession G)} {s t : HttpSession G} {es : List Effect}
    (hsplit : sh.sessions = xs ++ s::ys) (hsplit' : sh'.sessions = xs ++ t::ys)
    (hhistory : t.history = s.history ++ es) : sh'.counted = sh.counted + tally es := by
  simp only [counted,hsplit,hsplit',List.map_append,List.map_cons,List.sum_append,List.sum_cons,
    hhistory,tally_append]
  abel

/-- The callbacks of a shard add to its counters what the sessions record meanwhile. -/
theorem counted_of_step {maxFree : ℕ} {x : ShardEvent G} (hb : Balanced maxFree sh)
    (h : (system G maxFree).step sh x sh') : ∃ es, sh'.counted = sh.counted + tally es ∧
      ∀ c, sh'.metrics.load c = sh.metrics.load c + .ofInt (tally es c) := by
  rcases x with ctx | ⟨k,e⟩
  · subst h
    refine ⟨_,?_,fun c => load_foldl_perform _ _ c⟩
    rw [counted,dispatchAccept,perform_sessions]
    simp [counted]
  · obtain ⟨s,hk,he,hlen,rfl⟩ := h
    obtain ⟨hlt,hget⟩ := List.getElem?_eq_some_iff.mp hk
    obtain ⟨xs,ys,hsplit,-,hset⟩ := @List.exists_of_set _ k (s.deliver e) _ hlt
    rw [hget] at hsplit
    have hs : (HttpSession.system G).Reaches s := hb.reached s (by simp [hsplit])
    obtain ⟨-,hhistory,-,-⟩ :=
      HttpSession.accounts_deliver (HttpSession.suspended_of_reaches hs) he hlen
    have heq : sh.complete k e = (s.since (s.deliver e)).foldl perform
        { sh with sessions := xs ++ s.deliver e::ys } := by
      rw [complete,hk,← hset]
    have hsplit' : (sh.complete k e).sessions = xs ++ s.deliver e::ys := by
      rw [heq,perform_sessions]
    refine ⟨s.since (s.deliver e),counted_set hsplit hsplit' hhistory,fun c => ?_⟩
    rw [heq]
    exact load_foldl_perform _ _ c

/-- What the counters of a shard tell. -/
structure MetricsTell (sh : GatewayShard G) : Prop where
  load : ∀ c, sh.metrics.load c = .ofInt (sh.counted c)
  /-- Every session was started once, and is counted as closed when it is. -/
  accepted : sh.counted .connectionsAccepted = sh.sessions.length
  closed : sh.counted .connectionsClosed = sh.closed
  active : sh.counted .connectionsActive = sh.opened
  counted : sh.counted = sh.recorded - sh.connecting
  handled : (sh.completed : ℤ) ≤ sh.counted .requestsHandled ∧
    sh.counted .requestsHandled ≤ sh.completed + sh.sessions.length
  retried : sh.counted .upstreamRetries ≤ sh.counted .requestsHandled

theorem load_of_reaches {maxFree : ℕ} (h : (system G maxFree).Reaches sh) (c : Counter) :
    sh.metrics.load c = .ofInt (sh.counted c) := by
  refine System.ReachesWhen.invariant_with (I := fun sh => sh.metrics.load c = .ofInt (sh.counted c))
    (fun sh hsh => balanced_of_reaches hsh) ?_ ?_ h
  · rintro _ rfl
    cases c <;> rfl
  · rintro sh x sh' hb hI - hstep
    obtain ⟨es,hcounted,hload⟩ := counted_of_step hb hstep
    rw [hload c,hI,hcounted,Pi.add_apply,UInt64.ofInt_add]

/-- What is open is what was accepted and not closed. -/
theorem counted_active (sh : GatewayShard G) : sh.counted .connectionsActive =
    sh.counted .connectionsAccepted - sh.counted .connectionsClosed := by
  have hlog : ∀ log, tally log .connectionsActive =
      tally log .connectionsAccepted - tally log .connectionsClosed := by
    intro log
    induction log with
    | nil => rfl
    | cons e log ih =>
      have hadds : e.adds .connectionsActive =
          e.adds .connectionsAccepted - e.adds .connectionsClosed := by
        cases e <;> rfl
      have hcons : ∀ c, tally (e::log) c = e.adds c + tally log c := fun _ => rfl
      rw [hcons,hcons,hcons,ih,hadds]
      omega
  unfold counted
  induction sh.sessions with
  | nil => rfl
  | cons s ss ih =>
    simp only [List.map_cons,List.sum_cons,Pi.add_apply,ih,hlog]
    omega

theorem metricsTell_of_tallied (hload : ∀ c, sh.metrics.load c = .ofInt (sh.counted c))
    (h : ∀ s ∈ sh.sessions, s.Tallied) : MetricsTell sh := by
  suffices hsum : ∀ ss : List (HttpSession G), (∀ s ∈ ss, s.Tallied) →
      let t : GatewayShard G := { sh with sessions := ss }
      t.counted .connectionsAccepted = t.sessions.length ∧
        t.counted .connectionsClosed = t.sessions.countP (fun s => s.closing) ∧
        t.counted = t.recorded - t.connecting ∧
        (t.completed : ℤ) ≤ t.counted .requestsHandled ∧
        t.counted .requestsHandled ≤ t.completed + t.sessions.length ∧
        t.counted .upstreamRetries ≤ t.counted .requestsHandled by
    obtain ⟨haccepted,hclosed,hcounted,hlow,hhigh,hretried⟩ := hsum sh.sessions h
    refine ⟨hload,haccepted,hclosed,?_,hcounted,⟨hlow,hhigh⟩,hretried⟩
    have hopened := sh.opened_add_closed
    have hactive := sh.counted_active
    change sh.counted .connectionsAccepted = (sh.sessions.length : ℤ) at haccepted
    change sh.counted .connectionsClosed = (sh.closed : ℤ) at hclosed
    omega
  intro ss hss
  simp only [counted,recorded,connecting,completed]
  induction ss with
  | nil => simp
  | cons s ss ih =>
    obtain ⟨hs,hrest⟩ := List.forall_mem_cons.mp hss
    obtain ⟨haccepted,hclosed,hcounted,hlow,hhigh,hretried⟩ := ih hrest
    have hhandled := hs.handled
    have hagain := hs.retried
    simp only [List.map_cons,List.sum_cons,Pi.add_apply,List.length_cons,Nat.cast_add,
      Nat.cast_one,List.countP_cons]
    refine ⟨?_,?_,?_,by omega,by omega,by omega⟩
    · rw [haccepted,hs.accepted]
      exact add_comm _ _
    · rw [hclosed,hs.closed,add_comm]
      cases s.closing <;> simp
    · rw [hcounted,hs.told]
      abel

theorem metricsTell_of_reaches {maxFree : ℕ} (h : (system G maxFree).Reaches sh) :
    MetricsTell sh :=
  metricsTell_of_tallied (load_of_reaches h) fun s hs =>
    HttpSession.tallied_of_reaches ((balanced_of_reaches h).reached s hs)

theorem counted_le_of_step {maxFree : ℕ} {x : ShardEvent G} (hb : Balanced maxFree sh)
    (h : (system G maxFree).step sh x sh') {c : Counter} (hc : c ≠ .connectionsActive) :
    sh.counted c ≤ sh'.counted c := by
  obtain ⟨es,hcounted,-⟩ := counted_of_step hb h
  rw [hcounted]
  exact Int.le_add_of_nonneg_right (tally_nonneg es hc)

theorem counted_nonneg (sh : GatewayShard G) {c : Counter} (hc : c ≠ .connectionsActive) :
    0 ≤ sh.counted c := by
  unfold counted
  induction sh.sessions with
  | nil => exact Int.le_refl 0
  | cons s ss ih => exact Int.add_nonneg (tally_nonneg s.history hc) ih

end GatewayShard

namespace RunningShard
variable {G : Gateway} {maxFree : ℕ} {r r' : RunningShard G}

/-- The callback of an acquire call is the completion of the operation that waits for it. -/
theorem shard_of_callBack (touch : G.Ctx → G.Ctx) (answer : Option (ℕ × NetError × Option SocketId)) :
    (r.callBack touch answer).shard = r.shard ∨
      ∃ e, (GatewayShard.system G maxFree).step r.shard e (r.callBack touch answer).shard := by
  unfold callBack
  split
  next call err socket =>
    split
    next k op hwaiting =>
      obtain ⟨k',-,hrest⟩ := Option.bind_eq_some_iff.mp hwaiting
      obtain ⟨s,hs,hop⟩ := Option.bind_eq_some_iff.mp hrest
      obtain ⟨op',hfind,heq⟩ := Option.bind_eq_some_iff.mp hop
      cases heq
      refine .inr ⟨.complete k ⟨op,⟨err.ok,[],0,socket⟩,r.broker.answers touch⟩,s,hs,
        List.mem_of_find?_eq_some hfind,Nat.zero_le _,?_⟩
      simp [complete,hs]
    next => exact .inl rfl
  next => exact .inl rfl

/-- A step of a running shard is one of the shard, or leaves it as it is. -/
theorem shard_of_next {x : RunningEvent G} (h : r.next x = some r') : r'.shard = r.shard ∨
    ∃ e, (GatewayShard.system G maxFree).step r.shard e r'.shard := by
  cases x with
  | accept ctx => exact Option.some.inj h ▸ .inr ⟨.accept ctx,rfl⟩
  | complete k op c touch =>
    simp only [next] at h
    split at h
    next s hs =>
      split at h
      next hcan =>
        obtain rfl := Option.some.inj h
        refine .inr ⟨.complete k ⟨op,c,r.broker.answers touch⟩,s,hs,hcan.1,hcan.2.2,?_⟩
        simp [complete,hs]
      next => cases h
    next => cases h
  | connectDone n err touch =>
    simp only [next] at h
    split at h
    · split at h
      · exact Option.some.inj h ▸ shard_of_callBack touch _
      · cases h
    · cases h
  | timerDone n err touch =>
    simp only [next] at h
    split at h
    · split at h
      · exact Option.some.inj h ▸ shard_of_callBack touch _
      · cases h
    · cases h
  | refresh resolve => exact Option.some.inj h ▸ .inl rfl

theorem counted_le_of_next {x : RunningEvent G} (hr : GatewayShard.Balanced maxFree r.shard)
    (h : r.next x = some r') {c : Counter} (hc : c ≠ .connectionsActive) :
    r.shard.counted c ≤ r'.shard.counted c := by
  obtain heq | ⟨e,he⟩ : r'.shard = r.shard ∨ ∃ e, (GatewayShard.system G maxFree).step r.shard e
      r'.shard := shard_of_next h
  · rw [heq]
  · exact GatewayShard.counted_le_of_step hr he hc

/-- In every run of a shard its counters tell what has happened to its sessions. -/
theorem metrics_tell {maxIdle : ℕ} (h : (system G maxFree maxIdle).Reaches r) : r.shard.MetricsTell := by
  obtain ⟨c,hc⟩ := joint_of_reaches h
  exact GatewayShard.metricsTell_of_reaches hc.shard

/-- Two requests were counted, and 42 and 46 bytes; one connection is closed. -/
theorem metrics_tell_exchanged : (exchanged 8).shard.metrics = ⟨2,1,1,42,46,0,2,0⟩ ∧
    (exchanged 8).shard.MetricsTell :=
  ⟨by decide +kernel,metrics_tell (reaches_exchanged 8)⟩

end RunningShard
end PerCoreShard
