import Mathlib.Data.List.Pairwise
import Mathlib.Order.Basic
import PerCoreShard.Library.Computed

/-! Reading a running system from outside, cell by cell and without stopping it. A value that is
read was current at some moment of the run, for each cell at a moment of its own, and no cell is
read at an earlier moment than it was read before. -/
namespace PerCoreShard.Library

structure Watched (σ ι : Type) where
  now : σ
  /-- The states before, the oldest first. -/
  past : List σ := []
  /-- The moments of the last reading. -/
  seen : ι → ℕ := fun _ => 0
  /-- For each reading, the states its values were taken from. -/
  readings : List (ι → σ) := []

inductive WatchedEvent (ε ι : Type)
  | run (e : ε)
  | read (moments : ι → ℕ)

namespace Watched
variable {σ ι ε α : Type} {S : System σ ε} {may : σ → Prop} {w : Watched σ ι} {i : ι} {f : σ → α}

def states (w : Watched σ ι) : List σ := w.past ++ [w.now]

/-- The system has gone on to another state. -/
def runTo (w : Watched σ ι) (s : σ) : Watched σ ι := { w with now := s, past := w.states }

/-- Every cell is read, each as it was at its moment. -/
def readAt (w : Watched σ ι) (moments : ι → ℕ) : Watched σ ι :=
  { w with
    seen := moments
    readings := w.readings ++ [fun i => w.states[moments i]?.getD w.now] }

/-- The system, with readings in those states in which they are made. -/
def system (ι : Type) (S : System σ ε) (may : σ → Prop) :
    System (Watched σ ι) (WatchedEvent ε ι) where
  initial w := S.initial w.now ∧ w.past = [] ∧ w.readings = []
  step w x w' := match x with
    | .run e => ∃ s, S.step w.now e s ∧ w' = w.runTo s
    | .read moments => may w.now ∧
      (∀ i, w.seen i ≤ moments i ∧ moments i < w.states.length) ∧ w' = w.readAt moments

variable [Preorder α]

/-- The invariant, for a cell whose value only grows. -/
structure InOrder (S : System σ ε) (i : ι) (f : σ → α) (w : Watched σ ι) : Prop where
  reached : ∀ s ∈ w.states, S.Reaches s
  grown : w.states.Pairwise fun s t => f s ≤ f t
  taken : ∀ r ∈ w.readings, ∃ k ≤ w.seen i, w.states[k]? = some (r i)
  order : w.readings.Pairwise fun r r' => f (r i) ≤ f (r' i)

theorem InOrder.le_now (h : InOrder S i f w) {s : σ} (hs : s ∈ w.states) : f s ≤ f w.now := by
  rcases List.mem_append.mp hs with hs | hs
  · exact (List.pairwise_append.mp h.grown).2.2 s hs w.now (by simp)
  · rw [List.mem_singleton.mp hs]

theorem InOrder.le_of_le (h : InOrder S i f w) {k m : ℕ} {s t : σ} (hkm : k ≤ m)
    (hs : w.states[k]? = some s) (ht : w.states[m]? = some t) : f s ≤ f t := by
  obtain ⟨hk,rfl⟩ := List.getElem?_eq_some_iff.mp hs
  obtain ⟨hm,rfl⟩ := List.getElem?_eq_some_iff.mp ht
  rcases Nat.eq_or_lt_of_le hkm with rfl | hlt
  · exact le_refl _
  · exact List.pairwise_iff_getElem.mp h.grown k m hk hm hlt

theorem InOrder.runTo (h : InOrder S i f w) {e : ε} {s : σ} (hs : S.step w.now e s)
    (hgrows : f w.now ≤ f s) : InOrder S i f (w.runTo s) := by
  have hnow : w.now ∈ w.states := by simp [states]
  have hstates : (w.runTo s).states = w.states ++ [s] := rfl
  refine ⟨fun t ht => ?_,?_,fun r hr => ?_,h.order⟩
  · rw [hstates] at ht
    rcases List.mem_append.mp ht with ht | ht
    · exact h.reached t ht
    · rw [List.mem_singleton.mp ht]
      exact (h.reached w.now hnow).step trivial hs
  · rw [hstates,List.pairwise_append]
    refine ⟨h.grown,List.pairwise_singleton _ _,fun t ht u hu => ?_⟩
    rw [List.mem_singleton.mp hu]
    exact (h.le_now ht).trans hgrows
  · obtain ⟨k,hk,hget⟩ := h.taken r hr
    refine ⟨k,hk,?_⟩
    rw [hstates,List.getElem?_append_left (List.getElem?_eq_some_iff.mp hget).1]
    exact hget

theorem InOrder.readAt (h : InOrder S i f w) {moments : ι → ℕ} (hlater : w.seen i ≤ moments i)
    (hlt : moments i < w.states.length) : InOrder S i f (w.readAt moments) := by
  have hget : w.states[moments i]? = some (w.states[moments i]?.getD w.now) := by
    rw [List.getElem?_eq_getElem hlt]
    rfl
  refine ⟨h.reached,h.grown,fun r hr => ?_,?_⟩
  · rcases List.mem_append.mp hr with hr | hr
    · obtain ⟨k,hk,hr⟩ := h.taken r hr
      exact ⟨k,Nat.le_trans hk hlater,hr⟩
    · rw [List.mem_singleton.mp hr]
      exact ⟨moments i,Nat.le_refl _,hget⟩
  · refine List.pairwise_append.mpr ⟨h.order,List.pairwise_singleton _ _,fun r hr r' hr' => ?_⟩
    obtain ⟨k,hk,htaken⟩ := h.taken r hr
    rw [List.mem_singleton.mp hr']
    exact h.le_of_le (Nat.le_trans hk hlater) htaken hget

/-- What is read of a cell that only grows never goes back, and is never ahead of the cell. -/
theorem inOrder_of_reaches
    (hgrows : ∀ s e s', S.Reaches s → S.step s e s' → f s ≤ f s')
    (h : (system ι S may).Reaches w) : InOrder S i f w := by
  refine h.invariant ?_ ?_
  · rintro ⟨now,past,seen,readings⟩ ⟨hinitial,rfl,rfl⟩
    refine ⟨fun s hs => ?_,List.pairwise_singleton _ _,by simp,List.Pairwise.nil⟩
    rw [List.mem_singleton.mp hs]
    exact .initial hinitial
  · rintro w (e | moments) w' hw hstep
    · obtain ⟨s,hs,rfl⟩ := hstep
      exact hw.runTo hs (hgrows _ _ _ (hw.reached _ (by simp [states])) hs)
    · obtain ⟨-,hmoments,rfl⟩ := hstep
      exact hw.readAt (hmoments i).1 (hmoments i).2

theorem InOrder.present (h : InOrder S i f w) {r : ι → σ} (hr : r ∈ w.readings) :
    r i ∈ w.states ∧ f (r i) ≤ f w.now := by
  obtain ⟨k,-,hget⟩ := h.taken r hr
  have hin : r i ∈ w.states := List.mem_of_getElem? hget
  exact ⟨hin,h.le_now hin⟩

/-- Go on with the steps of a computed system that are possible. -/
def play (next : σ → ε → Option σ) (w : Watched σ ι) (es : List ε) : Watched σ ι :=
  es.foldl (fun w e => ((next w.now e).map w.runTo).getD w) w

theorem reaches_play {initial : σ → Prop} {next : σ → ε → Option σ}
    (h : (system ι (.computed initial next) may).Reaches w) (es : List ε) :
    (system ι (.computed initial next) may).Reaches (w.play next es) := by
  induction es generalizing w with
  | nil => exact h
  | cons e es ih =>
    have hone : (system ι (.computed initial next) may).Reaches
        (((next w.now e).map w.runTo).getD w) := by
      cases hnext : next w.now e with
      | none => exact h
      | some s => exact .step (e := WatchedEvent.run e) h trivial ⟨s,hnext,rfl⟩
    exact ih hone

theorem reaches_readAt (h : (system ι S may).Reaches w) (hmay : may w.now) {moments : ι → ℕ}
    (hmoments : ∀ i, w.seen i ≤ moments i ∧ moments i < w.states.length) :
    (system ι S may).Reaches (w.readAt moments) :=
  .step (e := WatchedEvent.read moments) h trivial ⟨hmay,hmoments,rfl⟩

end Watched
end PerCoreShard.Library
