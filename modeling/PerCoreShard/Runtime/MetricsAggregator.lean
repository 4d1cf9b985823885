import Mathlib.Data.Int.ConditionallyCompleteOrder
import PerCoreShard.Library.Watched
import PerCoreShard.Runtime.GatewayRuntime
import PerCoreShard.Runtime.Metrics

/-! `MetricsAggregator` adds up the counters of all shards while these go on counting. It runs on
the thread of the listener: each counter is loaded on its own, and a load may give any value the
counter has had since it was loaded before. -/
namespace PerCoreShard
open Library

structure Totals where
  accepted : UInt64 := 0
  active : UInt64 := 0
  closed : UInt64 := 0
  downUpBytes : UInt64 := 0
  upDownBytes : UInt64 := 0
  connectErrors : UInt64 := 0
  requests : UInt64 := 0
  upstreamRetries : UInt64 := 0
  deriving DecidableEq, Repr

namespace Totals

/-- What is loaded from the counters of one shard is added. -/
def add (t : Totals) (load : Counter → UInt64) : Totals where
  accepted := t.accepted + load .connectionsAccepted
  active := t.active + load .connectionsActive
  closed := t.closed + load .connectionsClosed
  downUpBytes := t.downUpBytes + load .bytesDownstreamToUpstream
  upDownBytes := t.upDownBytes + load .bytesUpstreamToDownstream
  connectErrors := t.connectErrors + load .upstreamConnectErrors
  requests := t.requests + load .requestsHandled
  upstreamRetries := t.upstreamRetries + load .upstreamRetries

/-- The sum for a counter. -/
def total (t : Totals) : Counter → UInt64
  | .connectionsAccepted => t.accepted
  | .connectionsActive => t.active
  | .connectionsClosed => t.closed
  | .bytesDownstreamToUpstream => t.downUpBytes
  | .bytesUpstreamToDownstream => t.upDownBytes
  | .upstreamConnectErrors => t.connectErrors
  | .requestsHandled => t.requests
  | .upstreamRetries => t.upstreamRetries

end Totals

def aggregate (shards : List (Counter → UInt64)) : Totals := shards.foldl Totals.add {}

theorem total_foldl_add (shards : List (Counter → UInt64)) (t : Totals) (c : Counter) :
    (shards.foldl Totals.add t).total c = t.total c + (shards.map fun load => load c).sum := by
  induction shards generalizing t with
  | nil => exact (UInt64.add_zero _).symm
  | cons load shards ih =>
    have hadd : (t.add load).total c = t.total c + load c := by cases c <;> rfl
    rw [List.foldl_cons,ih,hadd,List.map_cons,List.sum_cons,UInt64.add_assoc]

theorem total_aggregate (shards : List (Counter → UInt64)) (c : Counter) :
    (aggregate shards).total c = (shards.map fun load => load c).sum := by
  have hzero : ({} : Totals).total c = 0 := by cases c <;> rfl
  rw [aggregate,total_foldl_add,hzero,UInt64.zero_add]

/-- Sums of counters are sums modulo `2^64`. -/
theorem sum_ofInt (zs : List ℤ) : (zs.map UInt64.ofInt).sum = .ofInt zs.sum := by
  induction zs with
  | nil => rfl
  | cons z zs ih => rw [List.map_cons,List.sum_cons,List.sum_cons,ih,UInt64.ofInt_add]

theorem toNat_ofInt {z : ℤ} (h : 0 ≤ z) (hlt : z < 2 ^ 64) : ((UInt64.ofInt z).toNat : ℤ) = z := by
  rw [UInt64.ofInt,UInt64.toNat_ofNat',Int.emod_eq_of_lt h hlt]
  omega

namespace GatewayRuntime
variable {G : Gateway} {maxFree maxIdle : ℕ} {g g' : GatewayRuntime G} {c : Counter}

/-- What the sessions of shard `i` have on record to be counted. -/
def countedBy (g : GatewayRuntime G) (i : ℕ) (c : Counter) : ℤ :=
  (g.shards[i]?.map fun t => t.running.shard.counted c).getD 0

def counted (g : GatewayRuntime G) (c : Counter) : ℤ :=
  (g.shards.map fun t => t.running.shard.counted c).sum

/-- What `print_metrics_summary` adds up. -/
def printMetricsSummary (g : GatewayRuntime G) : Totals :=
  aggregate (g.shards.map fun t => t.running.shard.metrics.load)

theorem counted_eq (g : GatewayRuntime G) (c : Counter) :
    g.counted c = ((List.range g.shards.length).map fun i => g.countedBy i c).sum := by
  refine congrArg List.sum (List.ext_getElem (by simp) fun i hi _ => ?_)
  rw [List.length_map] at hi
  simp [countedBy,List.getElem?_eq_getElem hi]

theorem countedBy_nonneg (g : GatewayRuntime G) (i : ℕ) (hc : c ≠ .connectionsActive) :
    0 ≤ g.countedBy i c := by
  unfold countedBy
  cases g.shards[i]? with
  | none => exact Int.le_refl 0
  | some t => exact t.running.shard.counted_nonneg hc

theorem Dealt.balanced (h : Dealt maxFree maxIdle g) {t : ShardThread G} (ht : t ∈ g.shards) :
    t.running.shard.Balanced maxFree := by
  obtain ⟨custody,hjoint⟩ := RunningShard.joint_of_reaches (h.running t ht).1
  exact GatewayShard.balanced_of_reaches hjoint.shard

/-- No thread takes anything off a counter that only grows. -/
theorem Dealt.countedBy_le (h : Dealt maxFree maxIdle g) (hm : Moves g g') (i : ℕ)
    (hc : c ≠ .connectionsActive) : g.countedBy i c ≤ g'.countedBy i c := by
  cases hm with
  | posted running shards =>
    unfold countedBy
    rw [shards,List.getElem?_modify]
    cases g.shards[i]? with
    | none => exact Int.le_refl _
    | some t =>
      simp only [Option.map_some,Option.getD_some]
      split <;> exact Int.le_refl _
  | stepped j t u shard step eq =>
    subst eq
    have hin := List.mem_of_getElem? shard
    have hgrown : t.running.shard.counted c ≤ u.running.shard.counted c := by
      obtain ⟨ctx,hctx⟩ | ⟨x,hx⟩ | ⟨-,rfl⟩ := step
      · obtain ⟨-,-,-,-,rfl⟩ := ShardThread.runPosted_cases hctx
        exact GatewayShard.counted_le_of_step (x := .accept ctx) (h.balanced hin) rfl hc
      · obtain ⟨-,-,r,hr,rfl⟩ := ShardThread.run_cases hx
        exact RunningShard.counted_le_of_next (h.balanced hin) hr hc
      · exact Int.le_refl _
    unfold countedBy
    by_cases hij : j = i
    · subst hij
      rw [shard,List.getElem?_set_self (List.getElem?_eq_some_iff.mp shard).1]
      exact hgrown
    · rw [List.getElem?_set_ne hij]
  | same shards =>
    unfold countedBy
    rw [shards]

theorem Dealt.load (h : Dealt maxFree maxIdle g) {t : ShardThread G} (ht : t ∈ g.shards) :
    t.running.shard.metrics.load c = .ofInt (t.running.shard.counted c) := by
  obtain ⟨custody,hjoint⟩ := RunningShard.joint_of_reaches (h.running t ht).1
  exact GatewayShard.load_of_reaches hjoint.shard c

end GatewayRuntime

structure MetricsAggregator where
  intervalSeconds : ℕ
  started : Bool := false
  /-- `async_wait` was called on the timer and has not completed. -/
  waiting : Bool := false

namespace MetricsAggregator

/-- An interval of zero means no reports. -/
def start (a : MetricsAggregator) : MetricsAggregator :=
  { a with started := true, waiting := a.intervalSeconds != 0 }

/-- The timer was cancelled. -/
def onCancelled (a : MetricsAggregator) : MetricsAggregator := { a with waiting := false }

end MetricsAggregator

structure ReportingRuntime (G : Gateway) where
  runtime : GatewayRuntime G
  aggregator : MetricsAggregator

inductive ReportingEvent (G : Gateway)
  | runtime (x : RuntimeEvent G)
  | startMetrics
  | cancelled

namespace ReportingRuntime
variable {G : Gateway}

/-- A step that reports nothing. The timer is cancelled by `stop`. -/
def next (p : ReportingRuntime G) : ReportingEvent G → Option (ReportingRuntime G)
  | .runtime x => (p.runtime.next x).map fun g => { p with runtime := g }
  | .startMetrics =>
    if p.aggregator.started || p.runtime.listenerJoined then none
    else some { p with aggregator := p.aggregator.start }
  | .cancelled =>
    if p.aggregator.waiting && p.runtime.stopping && !p.runtime.listenerJoined then
      some { p with aggregator := p.aggregator.onCancelled }
    else none

def system (G : Gateway) (maxFree maxIdle intervalSeconds : ℕ) :
    System (ReportingRuntime G) (ReportingEvent G) :=
  .computed (fun p => (GatewayRuntime.system G maxFree maxIdle).initial p.runtime ∧
    p.aggregator = { intervalSeconds := intervalSeconds }) next

/-- The callback of the timer may run, and reports before it waits again. -/
def MayReport (p : ReportingRuntime G) : Prop :=
  p.aggregator.waiting = true ∧ p.runtime.listenerJoined = false

/-- The value of a counter of shard `i`. -/
def load (p : ReportingRuntime G) (i : ℕ) (c : Counter) : UInt64 :=
  (p.runtime.shards[i]?.map fun t => t.running.shard.metrics.load c).getD 0

section
variable {maxFree maxIdle intervalSeconds : ℕ} {p p' : ReportingRuntime G}

theorem runtime_of_reaches (h : (system G maxFree maxIdle intervalSeconds).Reaches p) :
    (GatewayRuntime.system G maxFree maxIdle).Reaches p.runtime ∧
      p.aggregator.intervalSeconds = intervalSeconds ∧
      (p.aggregator.waiting = true → intervalSeconds ≠ 0) := by
  refine h.invariant (I := fun p => (GatewayRuntime.system G maxFree maxIdle).Reaches p.runtime ∧
    p.aggregator.intervalSeconds = intervalSeconds ∧
      (p.aggregator.waiting = true → intervalSeconds ≠ 0)) ?_ ?_
  · rintro p ⟨hruntime,haggregator⟩
    rw [haggregator]
    exact ⟨.initial hruntime,rfl,fun hw => by cases hw⟩
  · rintro p x p' ⟨hruntime,hinterval,hwaiting⟩ hstep
    cases x with
    | runtime x =>
      obtain ⟨g,hg,rfl⟩ := Option.map_eq_some_iff.mp hstep
      exact ⟨hruntime.step trivial hg,hinterval,hwaiting⟩
    | startMetrics =>
      change ite _ _ _ = some p' at hstep
      split at hstep
      · cases hstep
      · obtain rfl := Option.some.inj hstep
        refine ⟨hruntime,hinterval,fun hw => ?_⟩
        have hstarted : (p.aggregator.intervalSeconds != 0) = true := hw
        rw [hinterval] at hstarted
        exact bne_iff_ne.mp hstarted
    | cancelled =>
      change ite _ _ _ = some p' at hstep
      split at hstep
      · obtain rfl := Option.some.inj hstep
        exact ⟨hruntime,hinterval,fun hw => by cases hw⟩
      · cases hstep

theorem countedBy_le_of_step (h : (system G maxFree maxIdle intervalSeconds).Reaches p)
    {x : ReportingEvent G} (hstep : p.next x = some p') (i : ℕ) {c : Counter}
    (hc : c ≠ .connectionsActive) : p.runtime.countedBy i c ≤ p'.runtime.countedBy i c := by
  have hdealt := GatewayRuntime.dealt_of_reaches (runtime_of_reaches h).1
  cases x with
  | runtime x =>
    obtain ⟨g,hg,rfl⟩ := Option.map_eq_some_iff.mp hstep
    exact hdealt.countedBy_le (GatewayRuntime.moves_of_next hg) i hc
  | startMetrics =>
    change ite _ _ _ = some p' at hstep
    split at hstep
    · cases hstep
    · exact Option.some.inj hstep ▸ Int.le_refl _
  | cancelled =>
    change ite _ _ _ = some p' at hstep
    split at hstep
    · exact Option.some.inj hstep ▸ Int.le_refl _
    · cases hstep

theorem load_eq (h : (system G maxFree maxIdle intervalSeconds).Reaches p) (i : ℕ) (c : Counter) :
    p.load i c = .ofInt (p.runtime.countedBy i c) := by
  have hdealt := GatewayRuntime.dealt_of_reaches (runtime_of_reaches h).1
  unfold load GatewayRuntime.countedBy
  cases ht : p.runtime.shards[i]? with
  | none => rfl
  | some t => exact hdealt.load (List.mem_of_getElem? ht)

end

end ReportingRuntime

/-- A run in which reports are made. -/
abbrev Reporting (G : Gateway) := Watched (ReportingRuntime G) (ℕ × Counter)

namespace Reporting
variable {G : Gateway}

def system (G : Gateway) (maxFree maxIdle intervalSeconds : ℕ) :
    System (Reporting G) (WatchedEvent (ReportingEvent G) (ℕ × Counter)) :=
  Watched.system _ (ReportingRuntime.system G maxFree maxIdle intervalSeconds)
    ReportingRuntime.MayReport

/-- What was reported, the oldest first. -/
def reports (w : Reporting G) : List Totals :=
  w.readings.map fun reading => aggregate ((List.range w.now.runtime.shards.length).map
    fun i c => (reading (i,c)).load i c)

section
variable {maxFree maxIdle intervalSeconds : ℕ} {w : Reporting G} {c : Counter}

/-- What stood behind the values of one reading. -/
def sumOf (w : Reporting G) (reading : ℕ × Counter → ReportingRuntime G) (c : Counter) : ℤ :=
  ((List.range w.now.runtime.shards.length).map
    fun i => (reading (i,c)).runtime.countedBy i c).sum

theorem inOrder_of_reaches (h : (system G maxFree maxIdle intervalSeconds).Reaches w)
    (hc : c ≠ .connectionsActive) (i : ℕ) :
    w.InOrder (ReportingRuntime.system G maxFree maxIdle intervalSeconds) (i,c)
      fun p => p.runtime.countedBy i c :=
  Watched.inOrder_of_reaches (fun _ _ _ hp hstep =>
    ReportingRuntime.countedBy_le_of_step hp hstep i hc) h

theorem total_report (h : (system G maxFree maxIdle intervalSeconds).Reaches w)
    (hc : c ≠ .connectionsActive) {reading : ℕ × Counter → ReportingRuntime G}
    (hr : reading ∈ w.readings) : (aggregate ((List.range w.now.runtime.shards.length).map
      fun i c => (reading (i,c)).load i c)).total c = .ofInt (w.sumOf reading c) := by
  have hload : ∀ i, (reading (i,c)).load i c =
      .ofInt ((reading (i,c)).runtime.countedBy i c) := by
    intro i
    have horder := inOrder_of_reaches h hc i
    exact ReportingRuntime.load_eq (horder.reached _ (horder.present hr).1) i c
  rw [total_aggregate,List.map_map,sumOf,← sum_ofInt,List.map_map]
  exact congrArg List.sum (List.map_congr_left fun i _ => hload i)

theorem sumOf_bounds (h : (system G maxFree maxIdle intervalSeconds).Reaches w)
    (hc : c ≠ .connectionsActive) {reading : ℕ × Counter → ReportingRuntime G}
    (hr : reading ∈ w.readings) : 0 ≤ w.sumOf reading c ∧
      w.sumOf reading c ≤ w.now.runtime.counted c := by
  constructor
  · refine List.sum_nonneg fun z hz => ?_
    obtain ⟨i,-,rfl⟩ := List.mem_map.mp hz
    exact GatewayRuntime.countedBy_nonneg _ i hc
  · rw [GatewayRuntime.counted_eq]
    exact List.sum_le_sum fun i _ => ((inOrder_of_reaches h hc i).present hr).2

/-- What a counter was reported to be, from report to report. -/
structure InStep (w : Reporting G) (c : Counter) : Prop where
  /-- No report is ahead of the counters. -/
  bounded : ∀ t ∈ w.reports, ((t.total c).toNat : ℤ) ≤ w.now.runtime.counted c
  /-- None falls behind an earlier one. -/
  order : w.reports.Pairwise fun t t' => t.total c ≤ t'.total c

theorem now_of_reaches (h : (system G maxFree maxIdle intervalSeconds).Reaches w) :
    (ReportingRuntime.system G maxFree maxIdle intervalSeconds).Reaches w.now := by
  have horder := inOrder_of_reaches h (c := .connectionsAccepted) (by decide) 0
  exact horder.reached _ (by simp [Watched.states])

theorem readings_of_disabled (h : (system G maxFree maxIdle intervalSeconds).Reaches w)
    (hzero : intervalSeconds = 0) : w.readings = [] := by
  refine System.ReachesWhen.invariant_with (I := fun w : Reporting G => w.readings = [])
    (fun w hw => now_of_reaches hw) ?_ ?_ h
  · rintro w ⟨-,-,hreadings⟩
    exact hreadings
  · rintro w (x | moments) w' hnow hw - hstep
    · obtain ⟨p,-,rfl⟩ := hstep
      exact hw
    · obtain ⟨hmay,-⟩ := hstep
      exact absurd hzero ((ReportingRuntime.runtime_of_reaches hnow).2.2 hmay.1)

theorem inStep_of_reaches (h : (system G maxFree maxIdle intervalSeconds).Reaches w)
    (hc : c ≠ .connectionsActive) (hlt : w.now.runtime.counted c < 2 ^ 64) : InStep w c := by
  have hvalue : ∀ reading ∈ w.readings, 0 ≤ w.sumOf reading c ∧ w.sumOf reading c < 2 ^ 64 :=
    fun reading hr =>
      ⟨(sumOf_bounds h hc hr).1,Int.lt_of_le_of_lt (sumOf_bounds h hc hr).2 hlt⟩
  refine ⟨fun t ht => ?_,List.pairwise_map.mpr (List.pairwise_iff_getElem.mpr ?_)⟩
  · obtain ⟨reading,hr,rfl⟩ := List.mem_map.mp ht
    obtain ⟨hnonneg,hsmall⟩ := hvalue reading hr
    rw [total_report h hc hr,toNat_ofInt hnonneg hsmall]
    exact (sumOf_bounds h hc hr).2
  · intro k m hk hm hkm
    have hrk := List.getElem_mem hk
    have hrm := List.getElem_mem hm
    obtain ⟨hnonneg,hsmall⟩ := hvalue _ hrk
    obtain ⟨hnonneg',hsmall'⟩ := hvalue _ hrm
    have hle : w.sumOf w.readings[k] c ≤ w.sumOf w.readings[m] c := List.sum_le_sum fun i _ =>
      List.pairwise_iff_getElem.mp (inOrder_of_reaches h hc i).order k m hk hm hkm
    rw [total_report h hc hrk,total_report h hc hrm,UInt64.le_iff_toNat_le]
    rw [← toNat_ofInt hnonneg hsmall,← toNat_ofInt hnonneg' hsmall'] at hle
    exact Int.ofNat_le.mp hle

/-- Whatever the shards do while their counters are added up: as long as a sum fits in 64 bits,
the reports of it never go down and never run ahead. There are none if the interval is zero. -/
theorem reports_in_step (h : (system G maxFree maxIdle intervalSeconds).Reaches w) :
    (intervalSeconds = 0 → w.reports = []) ∧ ∀ c, c ≠ .connectionsActive →
      w.now.runtime.counted c < 2 ^ 64 → InStep w c := by
  refine ⟨fun hzero => ?_,fun c => inStep_of_reaches h⟩
  rw [reports,readings_of_disabled h hzero]
  rfl

end

/-- Two shards, the first of which starts a session. -/
def startingRun : Reporting (.strict [] 64) :=
  let p : ReportingRuntime (.strict [] 64) :=
    { runtime := { shards := List.replicate 2 { running := .strictShard } }
      aggregator := { intervalSeconds := 10 } }
  Watched.play ReportingRuntime.next { now := p }
    [.startMetrics,.runtime (.accepted .none),.runtime (.runPosted 0 ())]

/-- The first report has one counter as it was before, the second one has all as they are. -/
def reportedRun : Reporting (.strict [] 64) :=
  (startingRun.readAt fun cell => if cell = (0,.connectionsAccepted) then 2 else 3).readAt
    fun _ => 3

theorem reaches_reportedRun : (system (.strict [] 64) 1 1 10).Reaches reportedRun := by
  have hstart : (system (.strict [] 64) 1 1 10).Reaches startingRun := by
    refine Watched.reaches_play (System.ReachesWhen.initial ?_) _
    refine ⟨⟨⟨by simp,fun t ht => ?_,rfl,rfl,rfl,rfl⟩,rfl⟩,rfl,rfl⟩
    rw [List.eq_of_mem_replicate ht]
    exact ⟨⟨rfl,⟨[(ascii "a",80)],by decide,rfl⟩,rfl⟩,rfl,rfl,rfl⟩
  have hlength : startingRun.states.length = 4 := by decide +kernel
  have hmay : startingRun.now.MayReport := ⟨by decide +kernel,by decide +kernel⟩
  refine Watched.reaches_readAt (Watched.reaches_readAt hstart hmay fun cell => ?_) hmay
    fun cell => ⟨?_,?_⟩
  · refine ⟨Nat.zero_le _,?_⟩
    rw [hlength]
    split <;> decide
  · change (if cell = (0,Counter.connectionsAccepted) then 2 else 3) ≤ 3
    split <;> decide
  · exact hlength ▸ Nat.lt_succ_self 3

theorem reports_in_step_reported :
    reportedRun.reports.map (fun t => (t.accepted,t.active)) = [(0,1),(1,1)] ∧
      InStep reportedRun .connectionsAccepted :=
  ⟨by decide +kernel,(reports_in_step reaches_reportedRun).2 .connectionsAccepted (by decide)
    (by decide +kernel)⟩

end Reporting

namespace GatewayRuntime
variable {G : Gateway} {maxFree maxIdle : ℕ} {g g' : GatewayRuntime G}

theorem length_of_moves (hm : Moves g g') : g'.shards.length = g.shards.length := by
  cases hm with
  | posted running shards => rw [shards,List.length_modify]
  | stepped i t u shard step eq => rw [eq,List.length_set]
  | same shards => rw [shards]

/-- The connections that were accepted are with the shards, started or still posted. -/
theorem Dealt.sum_accepted (h : Dealt maxFree maxIdle g) :
    (g.shards.map fun t => t.started.length + t.posted.length).sum = g.accepted := by
  rw [← sum_length_share h.positive g.accepted]
  refine congrArg List.sum (List.ext_getElem (by simp) fun i hi _ => ?_)
  rw [List.length_map] at hi
  simp only [List.getElem_map,List.getElem_range]
  rw [← h.shares i g.shards[i] (List.getElem?_eq_getElem hi),List.length_append]

/-- What the sums of `print_metrics_summary` say. -/
structure Summed (g : GatewayRuntime G) : Prop where
  tell : ∀ t ∈ g.shards, t.running.shard.MetricsTell
  total : ∀ c, g.printMetricsSummary.total c = .ofInt (g.counted c)
  active : g.printMetricsSummary.active =
    g.printMetricsSummary.accepted - g.printMetricsSummary.closed
  /-- A connection that is not counted is posted to its shard and was not started. -/
  accepted : g.counted .connectionsAccepted + (g.shards.map fun t => t.posted.length).sum =
    g.accepted
  retried : g.counted .upstreamRetries ≤ g.counted .requestsHandled

theorem Dealt.summed (h : Dealt maxFree maxIdle g) : Summed g := by
  have htotal : ∀ c, g.printMetricsSummary.total c = .ofInt (g.counted c) := by
    intro c
    rw [printMetricsSummary,total_aggregate,List.map_map,counted,← sum_ofInt,List.map_map]
    exact congrArg List.sum (List.map_congr_left fun t ht => h.load ht)
  have hactive : g.counted .connectionsActive =
      g.counted .connectionsAccepted - g.counted .connectionsClosed := by
    unfold counted
    induction g.shards with
    | nil => rfl
    | cons t ts ih =>
      simp only [List.map_cons,List.sum_cons]
      rw [ih,GatewayShard.counted_active]
      omega
  have htell : ∀ t ∈ g.shards, t.running.shard.MetricsTell := by
    intro t ht
    obtain ⟨custody,hjoint⟩ := RunningShard.joint_of_reaches (h.running t ht).1
    exact GatewayShard.metricsTell_of_reaches hjoint.shard
  refine ⟨htell,htotal,?_,?_,List.sum_le_sum fun t ht => (htell t ht).retried⟩
  · have ht := htotal .connectionsActive
    rw [hactive,sub_eq_add_neg,UInt64.ofInt_add,UInt64.ofInt_neg,← htotal,← htotal,
      ← UInt64.sub_eq_add_neg] at ht
    exact ht
  · have hstarted : ∀ t ∈ g.shards,
        t.running.shard.counted .connectionsAccepted = t.started.length := by
      intro t ht
      rw [(htell t ht).accepted,(h.running t ht).2]
    rw [← h.sum_accepted]
    unfold counted
    generalize g.shards = ts at hstarted ⊢
    induction ts with
    | nil => rfl
    | cons t ts ih =>
      obtain ⟨ht,hts⟩ := List.forall_mem_cons.mp hstarted
      have hrest := ih hts
      simp only [List.map_cons,List.sum_cons,ht,Nat.cast_add]
      omega

/-- Once every shard has stopped, the summary is what all sessions have recorded, and it stays
so. -/
theorem summary_final (h : (system G maxFree maxIdle).Reaches g)
    (hstopped : ∀ t ∈ g.shards, t.stopped = true)
    (h' : (System.computed (fun x => x = g) next).Reaches g') :
    g'.printMetricsSummary = g.printMetricsSummary ∧ Summed g' := by
  have hall : Dealt maxFree maxIdle g' ∧ Winding g g' ∧ g'.shards.length = g.shards.length := by
    refine h'.invariant (I := fun g' => Dealt maxFree maxIdle g' ∧ Winding g g' ∧
      g'.shards.length = g.shards.length) ?_ ?_
    · rintro _ rfl
      exact ⟨dealt_of_reaches h,⟨fun hs => ⟨hs,rfl⟩,fun i t ht _ => ht⟩,rfl⟩
    · rintro g₁ x g₂ ⟨hd,hw,hlength⟩ hstep
      have hm := moves_of_next hstep
      exact ⟨hd.moves hm,hw.trans (hd.winding hm),(length_of_moves hm).trans hlength⟩
  obtain ⟨hd,hw,hlength⟩ := hall
  have hshards : g'.shards = g.shards := by
    refine List.ext_getElem? fun i => ?_
    cases ht : g.shards[i]? with
    | none =>
      rw [List.getElem?_eq_none_iff] at ht ⊢
      exact hlength ▸ ht
    | some t => exact hw.stopped i t ht (hstopped t (List.mem_of_getElem? ht))
  exact ⟨by rw [printMetricsSummary,hshards,printMetricsSummary],hd.summed⟩

/-- The run in which three connections are accepted, to its end: one of them was not started. -/
def stoppedRuntime : GatewayRuntime (.strict [] 64) :=
  (System.play next (dealtRuntime 8) [.stopShard 1]).getD (dealtRuntime 8)

theorem summary_final_stopped :
    stoppedRuntime.printMetricsSummary = { accepted := 2, active := 2 } ∧
      Summed stoppedRuntime := by
  have hreach : (system (.strict [] 64) 1 1).Reaches stoppedRuntime :=
    (reaches_dealtRuntime 8).getD_play _
  have hstopped : ∀ t ∈ stoppedRuntime.shards, t.stopped = true := by
    rw [← List.all_eq_true]
    decide +kernel
  exact ⟨by decide +kernel,(summary_final hreach hstopped (.initial rfl)).2⟩

end GatewayRuntime
end PerCoreShard
