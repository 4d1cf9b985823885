import Mathlib.Data.List.Nodup
import Mathlib.Data.Nat.ModEq

/-! Dealing the numbers `0,1,2,…` to `n` hands in turn. -/
namespace PerCoreShard.Library

/-- What hand `i` has when `m` numbers have been dealt to `n` hands. -/
def share (n i m : ℕ) : List ℕ := (List.range m).filter fun j => j % n = i

section
variable {n i m : ℕ}

@[simp] theorem share_zero (n i : ℕ) : share n i 0 = [] := rfl

theorem share_succ (n i m : ℕ) :
    share n i (m + 1) = if m % n = i then share n i m ++ [m] else share n i m := by
  rw [share,List.range_succ,List.filter_append,← share]
  split
  next h => simp [h]
  next h => simp [h]

theorem mem_share {j : ℕ} : j ∈ share n i m ↔ j < m ∧ j % n = i := by
  simp [share]

/-- One more than a number with remainder `r`: the next remainder, or the next quotient. -/
theorem div_mod_succ (hn : 0 < n) (m : ℕ) :
    (m % n + 1 < n ∧ (m + 1) / n = m / n ∧ (m + 1) % n = m % n + 1) ∨
      (m % n + 1 = n ∧ (m + 1) / n = m / n + 1 ∧ (m + 1) % n = 0) := by
  have hdm := Nat.div_add_mod m n
  have hlt := Nat.mod_lt m hn
  rcases Nat.lt_or_eq_of_le (Nat.succ_le_of_lt hlt) with hr | hr
  · refine .inl ⟨hr,(Nat.div_mod_unique hn).mpr ⟨?_,hr⟩⟩
    omega
  · refine .inr ⟨hr,(Nat.div_mod_unique hn).mpr ⟨?_,hn⟩⟩
    rw [Nat.mul_add]
    omega

/-- The `k`-th number a hand gets. -/
theorem share_eq_map (hi : i < n) (m : ℕ) :
    share n i m = (List.range (m / n + if i < m % n then 1 else 0)).map fun k => i + k * n := by
  have hn : 0 < n := (Nat.zero_le i).trans_lt hi
  induction m with
  | zero => simp
  | succ m ih =>
    rw [share_succ,ih]
    obtain ⟨hr,hdiv,hmod⟩ | ⟨hr,hdiv,hmod⟩ := div_mod_succ hn m <;> rw [hdiv,hmod]
    · split
      next hmi =>
        have hm : m = i + m / n * n := by
          have := Nat.div_add_mod m n
          rw [Nat.mul_comm] at this
          omega
        rw [if_neg (by omega),if_pos (by omega),List.range_succ,List.map_append]
        exact congrArg _ (by simpa using hm)
      next hmi =>
        have hiff : i < m % n ↔ i < m % n + 1 := by omega
        simp only [hiff]
    · split
      next hmi =>
        have hm : m = i + m / n * n := by
          have := Nat.div_add_mod m n
          rw [Nat.mul_comm] at this
          omega
        rw [if_neg (by omega),if_neg (by omega),Nat.add_zero,Nat.add_zero,List.range_succ,
          List.map_append]
        exact congrArg _ (by simpa using hm)
      next hmi => rw [if_pos (by omega),if_neg (by omega)]

theorem length_share (hi : i < n) (m : ℕ) :
    (share n i m).length = m / n + if i < m % n then 1 else 0 := by
  rw [share_eq_map hi,List.length_map,List.length_range]

/-- No hand gets more than one number more than another. -/
theorem length_share_le (hi : i < n) {j : ℕ} (hj : j < n) (m : ℕ) :
    (share n i m).length ≤ (share n j m).length + 1 := by
  rw [length_share hi,length_share hj]
  split <;> omega

/-- How often a remainder occurs. -/
theorem count_map_mod (n i m : ℕ) :
    ((List.range m).map (· % n)).count i = (share n i m).length := by
  rw [List.count,List.countP_map,List.countP_eq_length_filter]
  rfl

theorem sum_map_add_ite (is : List ℕ) (g : ℕ → ℕ) (r : ℕ) :
    (is.map fun i => g i + if r = i then 1 else 0).sum = (is.map g).sum + is.count r := by
  induction is with
  | nil => rfl
  | cons i is ih =>
    rw [List.map_cons,List.sum_cons,ih,List.map_cons,List.sum_cons,List.count_cons]
    by_cases h : r = i
    · simp only [h,if_true,beq_self_eq_true]
      omega
    · have hne : i ≠ r := fun hi => h hi.symm
      simp only [h,if_false,beq_eq_false_iff_ne.mpr hne,Bool.false_eq_true]
      omega

/-- Together the hands have all the numbers. -/
theorem sum_length_share (hn : 0 < n) (m : ℕ) :
    ((List.range n).map fun i => (share n i m).length).sum = m := by
  induction m with
  | zero => simp
  | succ m ih =>
    have hstep : ∀ i, (share n i (m + 1)).length =
        (share n i m).length + if m % n = i then 1 else 0 := by
      intro i
      rw [share_succ]
      by_cases h : m % n = i <;> simp [h]
    have hone : (List.range n).count (m % n) = 1 :=
      List.nodup_iff_count_eq_one.mp List.nodup_range _ (List.mem_range.mpr (Nat.mod_lt m hn))
    simp only [hstep]
    rw [sum_map_add_ite,ih,hone]

theorem getElem?_share (hi : i < n) {k j : ℕ} (h : (share n i m)[k]? = some j) : j = i + k * n := by
  rw [share_eq_map hi,List.getElem?_map] at h
  obtain ⟨x,hx,rfl⟩ := Option.map_eq_some_iff.mp h
  obtain ⟨hlt,rfl⟩ := List.getElem?_eq_some_iff.mp hx
  simp

end
end PerCoreShard.Library
