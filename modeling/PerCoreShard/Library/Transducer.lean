import Mathlib.Data.List.Basic
import Mathlib.Data.List.Infix

/-! Deterministic transducers that may fail: one reaction to each input symbol, an output
word for every reaction, and no reaction after a failure. The result of a run does not
depend on how its input was cut. -/
namespace PerCoreShard.Library

/-- The reaction to one symbol: some output, and either a next state or a final failure. -/
inductive Reaction (σ β : Type)
  | next (out : List β) (state : σ)
  | fail (out : List β) (state : σ)

structure Transducer (α β : Type) where
  State : Type
  start : State
  react : State → α → Reaction State β

/-- The outcome of a run: everything that was output, the state it stopped in, and whether
it stopped because of a failure. -/
structure Outcome (σ β : Type) where
  out : List β
  state : σ
  failed : Bool

namespace Transducer
variable {α β : Type} (T : Transducer α β)

def run : T.State → List α → Outcome T.State β
  | s,[] => ⟨[],s,false⟩
  | s,a::as =>
    match T.react s a with
    | .next out s' => ⟨out ++ (run s' as).out,(run s' as).state,(run s' as).failed⟩
    | .fail out s' => ⟨out,s',true⟩

@[simp] theorem run_nil (s : T.State) : T.run s [] = ⟨[],s,false⟩ := rfl

/-- Continue a finished run with more input; a failed run ignores it. -/
def continueRun (r : Outcome T.State β) (ys : List α) : Outcome T.State β :=
  if r.failed then r
  else ⟨r.out ++ (T.run r.state ys).out,(T.run r.state ys).state,(T.run r.state ys).failed⟩

/-- Cutting the input in two does not change the run. -/
theorem run_append (s : T.State) (xs ys : List α) :
    T.run s (xs ++ ys) = T.continueRun (T.run s xs) ys := by
  induction xs generalizing s with
  | nil => simp [continueRun]
  | cons x xs ih =>
    simp only [List.cons_append,run]
    cases hr : T.react s x with
    | next out s' =>
      simp only [ih,continueRun]
      split_ifs <;> simp [List.append_assoc]
    | fail out s' => simp [continueRun]

theorem run_append_of_not_failed {s : T.State} {xs : List α} (ys : List α)
    (h : (T.run s xs).failed = false) :
    T.run s (xs ++ ys) = ⟨(T.run s xs).out ++ (T.run (T.run s xs).state ys).out,
      (T.run (T.run s xs).state ys).state,(T.run (T.run s xs).state ys).failed⟩ := by
  rw [run_append,continueRun,if_neg (by simp [h])]

theorem run_append_of_failed {s : T.State} {xs : List α} (ys : List α)
    (h : (T.run s xs).failed = true) : T.run s (xs ++ ys) = T.run s xs := by
  rw [run_append,continueRun,if_pos h]

/-- More input never takes back output. -/
theorem run_out_prefix (s : T.State) {xs zs : List α} (h : xs <+: zs) :
    (T.run s xs).out <+: (T.run s zs).out := by
  obtain ⟨ys,rfl⟩ := h
  cases hf : (T.run s xs).failed with
  | true => rw [T.run_append_of_failed ys hf]
  | false =>
    rw [T.run_append_of_not_failed ys hf]
    exact List.prefix_append _ _

theorem prefix_not_failed {s : T.State} {xs zs : List α} (h : xs <+: zs)
    (hz : (T.run s zs).failed = false) : (T.run s xs).failed = false := by
  obtain ⟨ys,rfl⟩ := h
  cases hf : (T.run s xs).failed with
  | true =>
    rw [T.run_append_of_failed ys hf,hf] at hz
    exact hz
  | false => rfl

end Transducer
end PerCoreShard.Library
