import Mathlib.Data.Finset.Sort
import Mathlib.Data.Int.Order.Basic

/-! `build_shard_cpu_plan`: the CPUs on which the shards run, those of the fastest kind first. -/
namespace PerCoreShard

structure ShardCpuPlan where
  /-- Logical CPU numbers, the faster ones first. -/
  cpus : List ℤ
  topTierCount : ℕ := 0
  deriving DecidableEq, Repr

/-- `static_cast<int>` of an `unsigned`. -/
def toInt (n : ℕ) : ℤ := Int.bmod n (2 ^ 32)

/-- What hwloc answers about the machine. There is no cpuset for a kind whose query fails. -/
structure Hwloc where
  init : Bool := true
  load : Bool := true
  nrKinds : ℤ
  info : ℕ → Option (Finset ℕ)

def homogeneousFallback (hardwareConcurrency : ℕ) : ShardCpuPlan :=
  let cpus := (List.range hardwareConcurrency).map toInt
  { cpus := cpus, topTierCount := cpus.length }

namespace Hwloc

/-- The CPUs of one kind, as `hwloc_bitmap_foreach` visits them. -/
def kindCpus (h : Hwloc) (i : ℕ) : List ℤ :=
  match h.info i with
  | none => []
  | some cpuset => (cpuset.sort (· ≤ ·)).map Nat.cast

/-- The loop over the kinds, of which the first `i` are still to come. -/
def collect (h : Hwloc) : ℕ → ShardCpuPlan → ShardCpuPlan
  | 0,plan => plan
  | i+1,plan =>
    let cpus := plan.cpus ++ (h.kindCpus i).mergeSort
    h.collect i
      { cpus := cpus
        topTierCount := if (i : ℤ) = h.nrKinds - 1 then cpus.length else plan.topTierCount }

def buildShardCpuPlan (h : Hwloc) (hardwareConcurrency : ℕ) : ShardCpuPlan :=
  if !h.init then homogeneousFallback hardwareConcurrency
  else if !h.load then homogeneousFallback hardwareConcurrency
  else if h.nrKinds ≤ 0 then homogeneousFallback hardwareConcurrency
  else
    let plan := h.collect h.nrKinds.toNat { cpus := [] }
    if plan.cpus = [] then homogeneousFallback hardwareConcurrency else plan

/-- hwloc names no CPU. -/
def unknown (h : Hwloc) : Bool :=
  !h.init || !h.load || (List.range h.nrKinds.toNat).all fun i => (h.kindCpus i).isEmpty

/-- The CPUs of a kind; a machine about which nothing is known has a single one. -/
def kind (h : Hwloc) (hardwareConcurrency i : ℕ) : List ℤ :=
  if h.unknown then if i = 0 then (List.range hardwareConcurrency).map toInt else []
  else if i < h.nrKinds.toNat then h.kindCpus i else []

/-- No CPU is of two kinds. -/
def Disjoint (h : Hwloc) : Prop :=
  ∀ i j cpu, cpu ∈ h.kindCpus i → cpu ∈ h.kindCpus j → i = j

end Hwloc

/-- A plan for a machine whose kinds of CPU are `kind`, the slowest first. -/
structure ShardCpuPlan.WellFormed (plan : ShardCpuPlan) (kind : ℕ → List ℤ) : Prop where
  nonempty : plan.cpus ≠ []
  nodup : plan.cpus.Nodup
  nonneg : ∀ cpu ∈ plan.cpus, 0 ≤ cpu
  /-- Faster kinds first, and ascending numbers within a kind. -/
  ordered : plan.cpus.Pairwise fun cpu cpu' =>
    ∃ i j, cpu ∈ kind i ∧ cpu' ∈ kind j ∧ (j < i ∨ j = i ∧ cpu < cpu')
  top : 1 ≤ plan.topTierCount ∧ plan.topTierCount ≤ plan.cpus.length
  /-- The CPUs counted are those of the fastest kind that is in the plan. -/
  fastest : ∃ i, (∃ cpu ∈ plan.cpus, cpu ∈ kind i) ∧
    (∀ j, i < j → ∀ cpu ∈ plan.cpus, cpu ∉ kind j) ∧
    ∀ cpu, cpu ∈ plan.cpus.take plan.topTierCount ↔ cpu ∈ kind i

namespace Hwloc
variable {h : Hwloc} {n : ℕ}

theorem pairwise_kindCpus (h : Hwloc) (i : ℕ) : (h.kindCpus i).Pairwise (· < ·) := by
  unfold kindCpus
  split
  · exact .nil
  · next cpuset _ =>
    refine List.pairwise_map.mpr ((Finset.sortedLT_sort cpuset).pairwise.imp ?_)
    intro a b hab
    exact Int.ofNat_lt.mpr hab

theorem mergeSort_kindCpus (h : Hwloc) (i : ℕ) : (h.kindCpus i).mergeSort = h.kindCpus i := by
  apply List.mergeSort_of_pairwise
  refine (h.pairwise_kindCpus i).imp ?_
  intro a b hab
  simpa using hab.le

theorem nonneg_of_mem_kindCpus {i : ℕ} {cpu : ℤ} (hc : cpu ∈ h.kindCpus i) : 0 ≤ cpu := by
  unfold kindCpus at hc
  split at hc
  · cases hc
  · obtain ⟨k,-,rfl⟩ := List.mem_map.mp hc
    exact Int.natCast_nonneg k

/-- The CPUs of the first `i` kinds, the fastest first. -/
def slower (h : Hwloc) (i : ℕ) : List ℤ := (List.range i).reverse.flatMap h.kindCpus

theorem slower_succ (h : Hwloc) (i : ℕ) : h.slower (i + 1) = h.kindCpus i ++ h.slower i := by
  simp [slower,List.range_succ]

theorem mem_slower {i : ℕ} {cpu : ℤ} : cpu ∈ h.slower i ↔ ∃ j < i, cpu ∈ h.kindCpus j := by
  simp [slower]

theorem collect_cpus (h : Hwloc) (i : ℕ) (plan : ShardCpuPlan) :
    (h.collect i plan).cpus = plan.cpus ++ h.slower i := by
  induction i generalizing plan with
  | zero => simp [collect,slower]
  | succ i ih => rw [collect,ih,mergeSort_kindCpus,slower_succ,List.append_assoc]

/-- The slower kinds do not count. -/
theorem collect_topTierCount {i : ℕ} (hi : (i : ℤ) < h.nrKinds) (plan : ShardCpuPlan) :
    (h.collect i plan).topTierCount = plan.topTierCount := by
  induction i generalizing plan with
  | zero => rfl
  | succ i ih =>
    rw [collect,ih (by omega),if_neg (by omega)]

theorem collect_all {k : ℕ} (hk : h.nrKinds = k + 1) :
    h.collect h.nrKinds.toNat { cpus := [] } =
      { cpus := h.slower (k + 1), topTierCount := (h.kindCpus k).length } := by
  have hn : h.nrKinds.toNat = k + 1 := by omega
  have htop : (h.collect (k + 1) { cpus := [] }).topTierCount = (h.kindCpus k).length := by
    rw [collect,collect_topTierCount (by omega),if_pos (by omega),mergeSort_kindCpus,List.nil_append]
  have hcpus := h.collect_cpus (k + 1) { cpus := [] }
  rw [hn]
  generalize h.collect (k + 1) { cpus := [] } = plan at htop hcpus
  obtain ⟨cpus,top⟩ := plan
  subst htop
  rw [List.nil_append] at hcpus
  subst hcpus
  rfl

theorem isEmpty_of_unknown (hu : h.unknown = true) (hi : h.init = true) (hl : h.load = true) {i : ℕ}
    (hlt : i < h.nrKinds.toNat) : h.kindCpus i = [] := by
  simp only [unknown,hi,hl,Bool.not_true,Bool.false_or,List.all_eq_true,List.mem_range] at hu
  simpa using hu i hlt

theorem build_of_unknown (hu : h.unknown = true) :
    h.buildShardCpuPlan n = homogeneousFallback n := by
  have hempty : h.init = true → h.load = true →
      (h.collect h.nrKinds.toNat { cpus := [] }).cpus = [] := by
    intro hi hl
    rw [collect_cpus,List.nil_append,List.eq_nil_iff_forall_not_mem]
    intro cpu hc
    obtain ⟨i,hlt,hmem⟩ := mem_slower.mp hc
    rw [isEmpty_of_unknown hu hi hl hlt] at hmem
    cases hmem
  unfold buildShardCpuPlan
  cases hi : h.init with
  | false => rfl
  | true =>
    cases hl : h.load with
    | false => rfl
    | true =>
      simp only [Bool.not_true,Bool.false_eq_true,if_false,if_pos (hempty hi hl)]
      exact ite_self _

theorem build_of_known (hu : h.unknown = false) : ∃ k : ℕ, h.nrKinds = k + 1 ∧
    h.slower (k + 1) ≠ [] ∧ h.buildShardCpuPlan n =
      { cpus := h.slower (k + 1), topTierCount := (h.kindCpus k).length } := by
  simp only [unknown,Bool.or_eq_false_iff,Bool.not_eq_false',List.all_eq_false,List.mem_range] at hu
  obtain ⟨⟨hi,hl⟩,i,hlt,hne⟩ := hu
  obtain ⟨k,hk⟩ : ∃ k : ℕ, h.nrKinds = k + 1 := ⟨h.nrKinds.toNat - 1,by omega⟩
  obtain ⟨cpu,hcpu⟩ := List.exists_mem_of_ne_nil (h.kindCpus i) (by simpa using hne)
  have hslower : h.slower (k + 1) ≠ [] := List.ne_nil_of_mem (mem_slower.mpr ⟨i,by omega,hcpu⟩)
  refine ⟨k,hk,hslower,?_⟩
  simp only [buildShardCpuPlan,hi,hl,Bool.not_true,Bool.false_eq_true,if_false]
  rw [if_neg (by omega),collect_all hk,if_neg hslower]

theorem kind_of_known (hu : h.unknown = false) {k : ℕ} (hk : h.nrKinds = k + 1) (i : ℕ) :
    h.kind n i = if i < k + 1 then h.kindCpus i else [] := by
  have hn : h.nrKinds.toNat = k + 1 := by omega
  simp [kind,hu,hn]

theorem ordered_slower (h : Hwloc) (i : ℕ) : (h.slower i).Pairwise fun cpu cpu' =>
    ∃ a b, a < i ∧ b < i ∧ cpu ∈ h.kindCpus a ∧ cpu' ∈ h.kindCpus b ∧ (b < a ∨ b = a ∧ cpu < cpu') := by
  induction i with
  | zero => exact .nil
  | succ i ih =>
    rw [slower_succ,List.pairwise_append]
    refine ⟨?_,?_,?_⟩
    · refine (h.pairwise_kindCpus i).imp_of_mem ?_
      intro cpu cpu' hc hc' hlt
      exact ⟨i,i,i.lt_succ_self,i.lt_succ_self,hc,hc',.inr ⟨rfl,hlt⟩⟩
    · refine ih.imp ?_
      rintro cpu cpu' ⟨a,b,ha,hb,hrest⟩
      exact ⟨a,b,by omega,by omega,hrest⟩
    · intro cpu hc cpu' hc'
      obtain ⟨b,hb,hmem⟩ := mem_slower.mp hc'
      exact ⟨i,b,i.lt_succ_self,by omega,hc,hmem,.inl hb⟩

theorem nodup_slower (hd : h.Disjoint) (i : ℕ) : (h.slower i).Nodup := by
  refine (h.ordered_slower i).imp ?_
  rintro cpu cpu' ⟨a,b,-,-,ha,hb,hlt⟩ rfl
  obtain rfl := hd a b cpu ha hb
  omega

/-- With a CPU of the fastest kind the plan is what it should be. -/
theorem wellFormed_of_known (hd : h.Disjoint) (hu : h.unknown = false) {k : ℕ}
    (hk : h.nrKinds = k + 1) (hfast : h.kindCpus k ≠ []) :
    (ShardCpuPlan.mk (h.slower (k + 1)) (h.kindCpus k).length).WellFormed (h.kind n) := by
  have hkind := fun i => kind_of_known (n := n) hu hk i
  have htake : (h.slower (k + 1)).take (h.kindCpus k).length = h.kindCpus k := by
    rw [slower_succ,List.take_left']
    rfl
  obtain ⟨first,hfirst⟩ := List.exists_mem_of_ne_nil _ hfast
  refine ⟨?_,nodup_slower hd _,?_,?_,⟨?_,?_⟩,k,⟨first,?_,?_⟩,?_,?_⟩
  · simp [slower_succ,hfast]
  · intro cpu hc
    obtain ⟨j,-,hj⟩ := mem_slower.mp hc
    exact nonneg_of_mem_kindCpus hj
  · refine (h.ordered_slower (k + 1)).imp ?_
    rintro cpu cpu' ⟨a,b,ha,hb,hc,hc',hlt⟩
    exact ⟨a,b,by rwa [hkind,if_pos ha],by rwa [hkind,if_pos hb],hlt⟩
  · exact List.length_pos_iff.mpr hfast
  · simp [slower_succ]
  · exact mem_slower.mpr ⟨k,k.lt_succ_self,hfirst⟩
  · rwa [hkind,if_pos k.lt_succ_self]
  · intro j hj cpu _
    rw [hkind,if_neg (by omega)]
    exact List.not_mem_nil
  · intro cpu
    rw [htake,hkind,if_pos k.lt_succ_self]

theorem toInt_of_lt {k : ℕ} (hk : k < 2 ^ 31) : toInt k = k := by
  unfold toInt
  rw [Int.bmod_eq_of_le] <;> omega

theorem fallback_cpus (hn : n ≤ 2 ^ 31) :
    (homogeneousFallback n).cpus = (List.range n).map Nat.cast := by
  refine List.map_congr_left ?_
  intro k hk
  exact toInt_of_lt (by rw [List.mem_range] at hk; omega)

theorem wellFormed_fallback (hn : 1 ≤ n) {kind : ℕ → List ℤ}
    (hkind : ∀ i, kind i = if i = 0 then (List.range n).map toInt else []) :
    (homogeneousFallback n).WellFormed kind ↔ n ≤ 2 ^ 31 := by
  have hlen : (homogeneousFallback n).topTierCount = (homogeneousFallback n).cpus.length := rfl
  have hmem : ∀ cpu, cpu ∈ kind 0 ↔ cpu ∈ (homogeneousFallback n).cpus := by
    intro cpu
    rw [hkind,if_pos rfl]
    rfl
  constructor
  · intro h
    by_contra hlt
    have hneg := h.nonneg (toInt (2 ^ 31)) (List.mem_map_of_mem (List.mem_range.mpr (by omega)))
    revert hneg
    decide
  · intro hle
    have hcpus := fallback_cpus hle
    have hsorted : (homogeneousFallback n).cpus.Pairwise (· < ·) := by
      rw [hcpus]
      refine List.pairwise_map.mpr (List.pairwise_lt_range.imp ?_)
      intro a b hab
      exact Int.ofNat_lt.mpr hab
    have hzero : (0 : ℤ) ∈ (homogeneousFallback n).cpus := by
      rw [hcpus]
      exact List.mem_map.mpr ⟨0,List.mem_range.mpr hn,rfl⟩
    refine ⟨List.ne_nil_of_mem hzero,hsorted.imp fun hab => hab.ne,?_,?_,⟨?_,hlen.le⟩,0,
      ⟨0,hzero,(hmem 0).mpr hzero⟩,?_,?_⟩
    · intro cpu hc
      rw [hcpus] at hc
      obtain ⟨k,-,rfl⟩ := List.mem_map.mp hc
      exact Int.natCast_nonneg k
    · refine hsorted.imp_of_mem ?_
      intro cpu cpu' hc hc' hlt
      exact ⟨0,0,(hmem _).mpr hc,(hmem _).mpr hc',.inr ⟨rfl,hlt⟩⟩
    · rw [hlen]
      exact List.length_pos_of_mem hzero
    · intro j hj cpu _
      rw [hkind,if_neg (by omega)]
      exact List.not_mem_nil
    · intro cpu
      rw [hlen,List.take_length]
      exact (hmem cpu).symm

/-- The plan is what it should be unless the fastest kind is without a CPU while another has
one, or the fallback counts CPUs beyond the numbers an `int` has. -/
theorem wellFormed_iff (hn : 1 ≤ n) (hd : h.Disjoint) :
    (h.buildShardCpuPlan n).WellFormed (h.kind n) ↔
      if h.unknown then n ≤ 2 ^ 31 else h.kindCpus (h.nrKinds.toNat - 1) ≠ [] := by
  cases hu : h.unknown with
  | true =>
    rw [build_of_unknown hu,if_pos rfl]
    exact wellFormed_fallback hn fun i => by simp [kind,hu]
  | false =>
    obtain ⟨k,hk,hne,hbuild⟩ := build_of_known (n := n) hu
    have hlast : h.nrKinds.toNat - 1 = k := by omega
    rw [hbuild,if_neg Bool.false_ne_true,hlast]
    refine ⟨fun hw hempty => ?_,wellFormed_of_known hd hu hk⟩
    have htop := hw.top.1
    simp [hempty] at htop

/-- Two kinds of CPU, and the query for the faster one fails. -/
def fastestUnknown : Hwloc where
  nrKinds := 2
  info i := if i = 0 then some {0,1} else none

theorem disjoint_fastestUnknown : fastestUnknown.Disjoint := by
  intro i j cpu hi hj
  have hzero : ∀ i, cpu ∈ fastestUnknown.kindCpus i → i = 0 := by
    intro i hi
    by_contra hne
    simp [kindCpus,fastestUnknown,hne] at hi
  rw [hzero i hi,hzero j hj]

theorem wellFormed_iff_fastestUnknown :
    (fastestUnknown.buildShardCpuPlan 4).WellFormed (fastestUnknown.kind 4) ↔
      if fastestUnknown.unknown then 4 ≤ 2 ^ 31
      else fastestUnknown.kindCpus (fastestUnknown.nrKinds.toNat - 1) ≠ [] :=
  wellFormed_iff (by decide) disjoint_fastestUnknown

/-- There none of the CPUs is counted as one of the fastest. -/
theorem top_tier_missed : ¬∀ (h : Hwloc) (n : ℕ), 1 ≤ n → h.Disjoint →
    (h.buildShardCpuPlan n).WellFormed (h.kind n) := by
  intro hall
  have htop := (hall fastestUnknown 4 (by decide) disjoint_fastestUnknown).top.1
  have hsome : fastestUnknown.kindCpus 0 ≠ [] := by
    have hmem : (0 : ℤ) ∈ fastestUnknown.kindCpus 0 := by simp [kindCpus,fastestUnknown]
    exact List.ne_nil_of_mem hmem
  have hu : fastestUnknown.unknown = false := by
    simp only [unknown,Bool.or_eq_false_iff,List.all_eq_false]
    exact ⟨⟨rfl,rfl⟩,0,by decide,by simpa using hsome⟩
  obtain ⟨k,hk,-,hbuild⟩ := build_of_known (n := 4) hu
  obtain rfl : k = 1 := by
    have : (2 : ℤ) = k + 1 := hk
    omega
  rw [hbuild] at htop
  exact absurd htop (by decide)

end Hwloc
end PerCoreShard
