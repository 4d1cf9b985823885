import PerCoreShard.Config.Config
import PerCoreShard.Runtime.MetricsAggregator
import PerCoreShard.Session.DefaultFilters
import PerCoreShard.Util.CpuTopology

/-! The start of the program: the shards that are made of a configuration, the CPUs they are
given, and what of the configuration holds for as long as the program runs. -/
namespace PerCoreShard
open Library

namespace Config
variable (config : Config) (base : Gateway)

/-- What the sessions of a shard are made with. The parsers and the contexts of the filters are
no matter of configuration. -/
def gateway : Gateway :=
  { base with
    filterChain := buildDefaultFilterChain base.Ctx
    bodyBufferHighWatermarkBytes := config.bodyBufferHighWatermarkBytes.toNat
    bufferSize := config.bufferSize.toNat }

def hosts : List (Bytes × ℕ) := config.upstreams.map fun u => (u.host,u.port.toNat)

end Config

/-- The constructor of `GatewayShard`. -/
def ShardThread.create (config : Config) (base : Gateway) : ShardThread (config.gateway base) where
  running :=
    { shard :=
        { bufferPool :=
            { bufferSize := config.bufferSize.toNat, maxFree := config.bufferPoolMaxFree.toNat } }
      broker :=
        { upstreams :=
            { manager := .create config.hosts config.connectionPoolMaxIdlePerEndpoint.toNat } } }

namespace GatewayRuntime

def start (config : Config) (base : Gateway) : ReportingRuntime (config.gateway base) where
  runtime := { shards := List.replicate config.shardCount.toNat (.create config base) }
  aggregator := { intervalSeconds := config.metricsReportIntervalSeconds.toNat }

/-- The CPU to which `start` pins shard `i`. -/
def cpuOf (plan : ShardCpuPlan) (i : ℕ) : ℤ := plan.cpus[i]?.getD (toInt i)

/-- `start` warns that the CPU of shard `i` is a slower one. -/
def warned (plan : ShardCpuPlan) (i : ℕ) : Bool :=
  decide (i < plan.cpus.length) && decide (plan.topTierCount ≤ i)

end GatewayRuntime

/-- The program, once it has been started. -/
def Config.program (config : Config) (base : Gateway) :
    System (ReportingRuntime (config.gateway base)) (ReportingEvent (config.gateway base)) :=
  .computed (fun p => p = GatewayRuntime.start config base) ReportingRuntime.next

/-- The names of the endpoints, and how many idle connections are kept for each of them. -/
def UpstreamManager.settings (m : UpstreamManager) : List (Bytes × ℕ) × ℕ :=
  (m.endpoints.map fun ep => (ep.host,ep.port),m.connectionPoolMaxIdlePerEndpoint)

theorem UpstreamManager.settings_create (upstreams : List (Bytes × ℕ)) (maxIdle : ℕ) :
    (create upstreams maxIdle).settings = (upstreams,maxIdle) := by
  rw [settings,create,List.map_map]
  exact congrArg (·,maxIdle) (List.map_id _)

theorem UpstreamManager.settings_resolveAll (m : UpstreamManager)
    (resolve : Bytes → ℕ → Option NetEndpoint) : (m.resolveAll resolve).settings = m.settings := by
  simp [settings,resolveAll]

theorem Broker.settings_perform (b : Broker) (k : ℕ) (e : Effect) :
    (b.perform k e).upstreams.manager.settings = b.upstreams.manager.settings := by
  cases e with
  | acquireConnection index =>
    simp only [perform,Upstreams.acquireConnection]
    split <;> rfl
  | releaseConnection index socket =>
    simp only [perform,Upstreams.releaseConnection]
    split <;> rfl
  | _ => rfl

theorem Broker.settings_foldl_perform (es : List Effect) (b : Broker) (k : ℕ) :
    (es.foldl (perform k) b).upstreams.manager.settings = b.upstreams.manager.settings := by
  induction es generalizing b with
  | nil => rfl
  | cons e es ih => exact (ih _).trans (settings_perform b k e)

namespace RunningShard
variable {G : Gateway} {r r' : RunningShard G}

theorem settings_complete (r : RunningShard G) (k : ℕ) (op : Op) (c : Completion)
    (touch : G.Ctx → G.Ctx) : (r.complete k op c touch).broker.upstreams.manager.settings =
      r.broker.upstreams.manager.settings := by
  unfold complete
  split
  · exact Broker.settings_foldl_perform _ _ _
  · rfl

theorem settings_report (r : RunningShard G) (u : Upstreams) (touch : G.Ctx → G.Ctx) :
    (r.report u touch).broker.upstreams.manager.settings = u.manager.settings := by
  unfold report callBack
  split
  · split
    · exact settings_complete _ _ _ _ _
    · rfl
  · rfl

theorem settings_next {x : RunningEvent G} (h : r.next x = some r') :
    r'.broker.upstreams.manager.settings = r.broker.upstreams.manager.settings := by
  cases x with
  | accept ctx => exact Option.some.inj h ▸ rfl
  | complete k op c touch =>
    simp only [next] at h
    split at h
    · split at h
      · exact Option.some.inj h ▸ settings_complete r k op c touch
      · cases h
    · cases h
  | connectDone n err touch =>
    simp only [next] at h
    split at h
    next a _ =>
      split at h
      · have hmanager : (r.broker.upstreams.onConnectDone n a err).manager =
            r.broker.upstreams.manager := (Upstreams.attempts_foldl_perform a _ _).2.2.1
        exact Option.some.inj h ▸ (settings_report r _ touch).trans (by rw [hmanager])
      · cases h
    · cases h
  | timerDone n err touch =>
    simp only [next] at h
    split at h
    next a _ =>
      split at h
      · have hmanager : (r.broker.upstreams.onTimerDone n a err).manager =
            r.broker.upstreams.manager := (Upstreams.attempts_foldl_perform a _ _).2.2.1
        exact Option.some.inj h ▸ (settings_report r _ touch).trans (by rw [hmanager])
      · cases h
    · cases h
  | refresh resolve =>
    exact Option.some.inj h ▸ UpstreamManager.settings_resolveAll _ resolve

end RunningShard

/-- What every callback of a shard preserves, every step of the runtime preserves for all
shards. -/
theorem GatewayRuntime.forall_running {G : Gateway} {P : RunningShard G → Prop}
    (hP : ∀ r x r', P r → r.next x = some r' → P r') {g g' : GatewayRuntime G} (hm : Moves g g')
    (h : ∀ t ∈ g.shards, P t.running) : ∀ t ∈ g'.shards, P t.running := by
  cases hm with
  | posted running shards =>
    intro t ht
    rw [shards] at ht
    obtain ⟨i,hi⟩ := List.mem_iff_getElem?.mp ht
    rw [List.getElem?_modify] at hi
    obtain ⟨v,hv,rfl⟩ := Option.map_eq_some_iff.mp hi
    have hrunning := h v (List.mem_of_getElem? hv)
    split <;> exact hrunning
  | stepped i t u shard step eq =>
    subst eq
    have ht := h t (List.mem_of_getElem? shard)
    intro v hv
    rcases List.mem_or_eq_of_mem_set hv with hv | rfl
    · exact h v hv
    · obtain ⟨ctx,hctx⟩ | ⟨x,hx⟩ | ⟨-,rfl⟩ := step
      · obtain ⟨-,-,-,-,rfl⟩ := ShardThread.runPosted_cases hctx
        exact hP _ (.accept ctx) _ ht rfl
      · obtain ⟨-,-,r,hr,rfl⟩ := ShardThread.run_cases hx
        exact hP _ x r ht hr
      · exact ht
  | same shards => exact shards ▸ h

section
variable {config : Config} {base : Gateway} {p : ReportingRuntime (config.gateway base)}

theorem reaches_of_program (hwell : config.WellFormed) (h : (config.program base).Reaches p) :
    (ReportingRuntime.system (config.gateway base) config.bufferPoolMaxFree.toNat
      config.connectionPoolMaxIdlePerEndpoint.toNat
      config.metricsReportIntervalSeconds.toNat).Reaches p := by
  refine h.invariant ?_ fun _ _ _ hp hstep => hp.step trivial hstep
  rintro _ rfl
  have hpositive : config.shardCount.toNat ≠ 0 := fun hzero =>
    hwell.shards (UInt64.toNat_inj.mp hzero)
  have hhosts : config.hosts ≠ [] := by simpa [Config.hosts] using hwell.upstreams
  refine .initial ⟨⟨?_,fun t ht => ?_,rfl,rfl,rfl,rfl⟩,rfl⟩
  · simpa [GatewayRuntime.start] using hpositive
  · rw [List.eq_of_mem_replicate ht]
    exact ⟨⟨rfl,⟨config.hosts,hhosts,rfl⟩,rfl⟩,rfl,rfl,rfl⟩

/-- The settings of the managers and the number of shards stay what they were. -/
theorem settings_of_program (h : (config.program base).Reaches p) :
    p.runtime.shards.length = config.shardCount.toNat ∧ ∀ t ∈ p.runtime.shards,
      t.running.broker.upstreams.manager.settings =
        (config.hosts,config.connectionPoolMaxIdlePerEndpoint.toNat) := by
  refine h.invariant (I := fun p => p.runtime.shards.length = config.shardCount.toNat ∧
    ∀ t ∈ p.runtime.shards, t.running.broker.upstreams.manager.settings =
      (config.hosts,config.connectionPoolMaxIdlePerEndpoint.toNat)) ?_ ?_
  · rintro _ rfl
    refine ⟨List.length_replicate,fun t ht => ?_⟩
    rw [List.eq_of_mem_replicate ht]
    exact UpstreamManager.settings_create _ _
  · rintro p x p' ⟨hlength,hsettings⟩ hstep
    cases x with
    | runtime x =>
      obtain ⟨g,hg,rfl⟩ := Option.map_eq_some_iff.mp hstep
      have hm := GatewayRuntime.moves_of_next hg
      exact ⟨(GatewayRuntime.length_of_moves hm).trans hlength,GatewayRuntime.forall_running
        (fun r x r' hr hx => (RunningShard.settings_next hx).trans hr) hm hsettings⟩
    | startMetrics =>
      change ite _ _ _ = some p' at hstep
      split at hstep
      · cases hstep
      · exact Option.some.inj hstep ▸ ⟨hlength,hsettings⟩
    | cancelled =>
      change ite _ _ _ = some p' at hstep
      split at hstep
      · exact Option.some.inj hstep ▸ ⟨hlength,hsettings⟩
      · cases hstep

/-- What the configuration promises of a state of the program. -/
structure Configured (config : Config) (base : Gateway)
    (p : ReportingRuntime (config.gateway base)) : Prop where
  /-- There is a shard, also when none was asked for. -/
  shards : p.runtime.shards.length = config.shardCount.toNat ∧ 0 < p.runtime.shards.length
  buffers : ∀ t ∈ p.runtime.shards,
    t.running.shard.bufferPool.freeList.length ≤ config.bufferPoolMaxFree.toNat ∧
      ∀ b ∈ t.running.shard.bufferPool.freeList, b.data.length = config.bufferSize.toNat
  /-- Each manager has the endpoints of the file, and the one to be selected next is there. -/
  endpoints : ∀ t ∈ p.runtime.shards,
    (t.running.broker.upstreams.manager.endpoints.map fun ep => (ep.host,ep.port)) = config.hosts ∧
      t.running.broker.upstreams.manager.nextEndpoint < config.hosts.length
  idle : ∀ t ∈ p.runtime.shards, ∀ i, (t.running.broker.upstreams.manager.pool i).length ≤
    config.connectionPoolMaxIdlePerEndpoint.toNat
  relays : ∀ t ∈ p.runtime.shards, ∀ s ∈ t.running.shard.sessions, ∀ log ∈ s.cycles,
    RelaysAsRead (config.gateway base) (cycleOf log)
  /-- No timer for reports. -/
  silent : config.metricsReportIntervalSeconds = 0 → p.aggregator.waiting = false

/-- From its start on, whatever its threads do, a program that has accepted its command line
keeps to the file named there. -/
theorem runs_as_configured {api : Nlohmann} {machine : Config.Machine} {args : List Bytes}
    (h : Config.fromArgs api machine args = .ok config) (hp : (config.program base).Reaches p) :
    Configured config base p := by
  have hwell := Config.wellFormed_fromArgs h
  obtain ⟨hruntime,-,hwaiting⟩ :=
    ReportingRuntime.runtime_of_reaches (reaches_of_program hwell hp)
  have hdealt := GatewayRuntime.dealt_of_reaches hruntime
  obtain ⟨hlength,hsettings⟩ := settings_of_program hp
  have hjoint : ∀ t ∈ p.runtime.shards, ∃ c, RunningShard.Joint config.bufferPoolMaxFree.toNat
      config.connectionPoolMaxIdlePerEndpoint.toNat t.running c := fun t ht =>
    RunningShard.joint_of_reaches (hdealt.running t ht).1
  have hhosts : ∀ t ∈ p.runtime.shards,
      (t.running.broker.upstreams.manager.endpoints.map fun ep => (ep.host,ep.port)) =
        config.hosts := fun t ht => (Prod.mk.inj (hsettings t ht)).1
  refine ⟨⟨hlength,hdealt.positive⟩,fun t ht => ?_,fun t ht => ⟨hhosts t ht,?_⟩,fun t ht i => ?_,
    fun t ht s hs log hlog => ?_,fun hzero => ?_⟩
  · have hbalanced := hdealt.balanced ht
    exact ⟨hbalanced.maxFree ▸ hbalanced.sound.bounded,fun b hb =>
      (hbalanced.sound.sized b hb).trans hbalanced.bufferSize⟩
  · obtain ⟨c,hc⟩ := hjoint t ht
    rw [← hhosts t ht,List.length_map]
    exact (Upstreams.tracked_of_reaches hc.books.reached).shelved.next
  · obtain ⟨c,hc⟩ := hjoint t ht
    have hidle := (Upstreams.tracked_of_reaches hc.books.reached).shelved.bounded i
    exact (Prod.mk.inj (hsettings t ht)).2 ▸ hidle
  · have hreached := (hdealt.balanced ht).reached s hs
    exact relaysAsRead_of_conforms rfl (HttpSession.conforms_of_reaches hreached hlog)
  · refine Bool.eq_false_iff.mpr fun hw => hwaiting hw ?_
    rw [hzero]
    rfl

end

/-- As much of JSON as the file of one test says. -/
inductive SmallJson
  | number (n : ℕ)
  | string (s : Bytes)
  | array (items : List SmallJson)
  | object (members : List (Bytes × SmallJson))

namespace SmallJson

def member (name : Bytes) : SmallJson → Option SmallJson
  | .object members => members.lookup name
  | _ => none

def isArray : SmallJson → Bool
  | .array _ => true
  | _ => false

def items : SmallJson → List SmallJson
  | .array items => items
  | _ => []

def getNumber : SmallJson → Except Bytes ℕ
  | .number n => .ok n
  | _ => .error (ascii "type must be number")

def getString : SmallJson → Except Bytes Bytes
  | .string s => .ok s
  | _ => .error (ascii "type must be string")

/-- No shard, and one endpoint. -/
def text : Bytes :=
  ascii "\x7b\"shard_count\":0,\"upstreams\":[\x7b\"host\":\"a\",\"port\":80\x7d]\x7d"

def nlohmann : Nlohmann where
  Json := SmallJson
  parse bytes :=
    if bytes = text then .ok (.object [(ascii "shard_count",.number 0),(ascii "upstreams",
      .array [.object [(ascii "host",.string (ascii "a")),(ascii "port",.number 80)]])])
    else .error (ascii "parse error")
  contains j name := (j.member name).isSome
  member j name := (j.member name).elim (.error (ascii "key not found")) .ok
  isArray := isArray
  items := items
  getUnsignedShort j := j.getNumber.map .ofNat
  getUnsigned j := j.getNumber.map .ofNat
  getSize j := j.getNumber.map .ofNat
  getString := getString

def machine : Config.Machine where
  hardwareConcurrency := 4
  read path := if path = ascii "config.json" then some text else none

def config : Config where
  shardCount := 1
  upstreams := [{ host := ascii "a", port := 80 }]

/-- A connection is accepted, and its session started. -/
def accepting : List (ReportingEvent (config.gateway (.strict [] 64))) :=
  [.startMetrics,.runtime (.accepted .none),.runtime (.runPosted 0 ())]

def started : ReportingRuntime (config.gateway (.strict [] 64)) :=
  let p := GatewayRuntime.start config (.strict [] 64)
  (System.play ReportingRuntime.next p accepting).getD p

end SmallJson

theorem runs_as_configured_started :
    SmallJson.started.runtime.shards.map (fun t => t.running.shard.sessions.length) = [1] ∧
      Configured SmallJson.config (.strict [] 64) SmallJson.started := by
  have hargs : Config.fromArgs SmallJson.nlohmann SmallJson.machine
      [ascii "--config",ascii "config.json"] = .ok SmallJson.config := by rfl
  have hinitial : (SmallJson.config.program (.strict [] 64)).Reaches
      (GatewayRuntime.start SmallJson.config (.strict [] 64)) := .initial rfl
  exact ⟨by decide +kernel,runs_as_configured hargs (hinitial.getD_play SmallJson.accepting)⟩

namespace GatewayRuntime
variable {plan : ShardCpuPlan} {kind : ℕ → List ℤ}

/-- How the CPUs of a plan are given to so many shards. -/
structure CpusGiven (plan : ShardCpuPlan) (kind : ℕ → List ℤ) (shards : ℕ) : Prop where
  /-- No shard of the plan has a faster CPU than one before it. -/
  order : ∀ i j, i < j → j < plan.cpus.length → ∃ a b, cpuOf plan i ∈ kind a ∧
    cpuOf plan j ∈ kind b ∧ b ≤ a
  /-- The warning is given for the shards of the plan whose CPU is not of the fastest kind that
  has a CPU in the plan. -/
  warning : ∃ fastest, (∃ cpu ∈ plan.cpus, cpu ∈ kind fastest) ∧
    (∀ faster, fastest < faster → ∀ cpu ∈ plan.cpus, cpu ∉ kind faster) ∧
    ∀ i, warned plan i = true ↔ i < plan.cpus.length ∧ cpuOf plan i ∉ kind fastest
  /-- Two shards share a CPU only if one has come too late for the plan, and its number is that
  of a CPU in the plan. -/
  apart : (∀ i j, i < j → j < shards → cpuOf plan i ≠ cpuOf plan j) ↔
    ∀ i, plan.cpus.length ≤ i → i < shards → (i : ℤ) ∉ plan.cpus

theorem cpuOf_of_lt {i : ℕ} (hi : i < plan.cpus.length) : cpuOf plan i = plan.cpus[i] := by
  rw [cpuOf,List.getElem?_eq_getElem hi,Option.getD_some]

theorem cpuOf_of_le {i : ℕ} (hi : plan.cpus.length ≤ i) (hlt : i < 2 ^ 31) :
    cpuOf plan i = i := by
  rw [cpuOf,List.getElem?_eq_none hi,Option.getD_none,Hwloc.toInt_of_lt hlt]

theorem cpus_given (h : plan.WellFormed kind) {shards : ℕ} (hshards : shards ≤ 2 ^ 31) :
    CpusGiven plan kind shards := by
  refine ⟨fun i j hij hj => ?_,?_,fun happart i hi hlt hin => ?_,fun hnew i j hij hj heq => ?_⟩
  · obtain ⟨a,b,ha,hb,hab⟩ :=
      List.pairwise_iff_getElem.mp h.ordered i j (hij.trans hj) hj hij
    rw [cpuOf_of_lt (hij.trans hj),cpuOf_of_lt hj]
    exact ⟨a,b,ha,hb,by omega⟩
  · obtain ⟨fastest,hthere,hfaster,htop⟩ := h.fastest
    refine ⟨fastest,hthere,hfaster,fun i => ?_⟩
    rw [warned,Bool.and_eq_true,decide_eq_true_iff,decide_eq_true_iff]
    refine and_congr_right fun hi => ?_
    rw [cpuOf_of_lt hi,← htop,← Nat.not_lt]
    refine not_congr ⟨fun hlt => ?_,fun hin => ?_⟩
    · exact List.mem_take_iff_getElem.mpr ⟨i,by omega,rfl⟩
    · obtain ⟨k,hk,heq⟩ := List.mem_take_iff_getElem.mp hin
      have hki := (h.nodup.getElem_inj_iff).mp heq
      omega
  · obtain ⟨k,hk,heq⟩ := List.mem_iff_getElem.mp hin
    refine happart k i (hk.trans_le hi) hlt ?_
    rw [cpuOf_of_lt hk,heq,cpuOf_of_le hi (hlt.trans_le hshards)]
  · rcases Nat.lt_or_ge j plan.cpus.length with hlate | hlate
    · rw [cpuOf_of_lt (hij.trans hlate),cpuOf_of_lt hlate,h.nodup.getElem_inj_iff] at heq
      omega
    · rw [cpuOf_of_le hlate (hj.trans_le hshards)] at heq
      rcases Nat.lt_or_ge i plan.cpus.length with hearly | hearly
      · rw [cpuOf_of_lt hearly] at heq
        exact hnew j hlate hj (heq ▸ List.getElem_mem hearly)
      · rw [cpuOf_of_le hearly (by omega)] at heq
        omega

/-- CPUs `2` and `3` are the fast ones. There is no CPU `4`, but a CPU `5`. -/
def hybridKind : ℕ → List ℤ
  | 0 => [0,1,5]
  | 1 => [2,3]
  | _ => []

def hybridPlan : ShardCpuPlan := { cpus := [2,3,0,1,5], topTierCount := 2 }

theorem wellFormed_hybridPlan : hybridPlan.WellFormed hybridKind := by
  refine ⟨by decide,by decide,by decide,?_,by decide,1,⟨2,by decide,by decide⟩,?_,fun cpu => .rfl⟩
  · have hslow : ∀ cpu ∈ [2,3], ∀ cpu' ∈ [0,1,5], ∃ i j, cpu ∈ hybridKind i ∧
        cpu' ∈ hybridKind j ∧ (j < i ∨ j = i ∧ cpu < cpu') := fun cpu hc cpu' hc' =>
      ⟨1,0,hc,hc',.inl Nat.zero_lt_one⟩
    have hwithin : ∀ k, (hybridKind k).Pairwise (· < ·) → (hybridKind k).Pairwise fun cpu cpu' =>
        ∃ i j, cpu ∈ hybridKind i ∧ cpu' ∈ hybridKind j ∧ (j < i ∨ j = i ∧ cpu < cpu') :=
      fun k hk => hk.imp_of_mem fun hc hc' hlt => ⟨k,k,hc,hc',.inr ⟨rfl,hlt⟩⟩
    exact List.pairwise_append.mpr ⟨hwithin 1 (by decide),hwithin 0 (by decide),hslow⟩
  · rintro (_ | _ | j) hj cpu _
    · cases hj
    · omega
    · exact List.not_mem_nil

/-- With six shards the last one gets the CPU of the one before it. -/
theorem cpus_given_hybridPlan :
    (List.range 6).map (cpuOf hybridPlan) = [2,3,0,1,5,5] ∧ CpusGiven hybridPlan hybridKind 6 :=
  ⟨by decide,cpus_given wellFormed_hybridPlan (by decide)⟩

end GatewayRuntime
end PerCoreShard
