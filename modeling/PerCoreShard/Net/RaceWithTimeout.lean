import PerCoreShard.Net.Types

/-! `race_with_timeout`: a cancellable operation against a timer. The handlers of the two share
a flag, and whichever runs first calls `on_done`. -/
namespace PerCoreShard

/-- What the handlers do, in order. -/
inductive RaceAction
  | cancelTimer
  | cancelOp
  | onDone (err : NetError)
  deriving DecidableEq, Repr

/-- The flag the handlers share. -/
structure Race where
  done : Bool := false
  deriving DecidableEq, Repr

def NetError.timedOut : NetError := ⟨1,ascii "operation timed out"⟩

namespace Race

/-- The handler of the timer. A timer that was cancelled reports an error. -/
def onTimer (r : Race) (err : NetError) : List RaceAction × Race :=
  if r.done || !err.ok then ([],r)
  else ([.cancelOp,.onDone .timedOut],{ done := true })

/-- The handler of the operation. -/
def onOp (r : Race) (err : NetError) : List RaceAction × Race :=
  if r.done then ([],r)
  else ([.cancelTimer,.onDone err],{ done := true })

/-- One of the handlers is called. -/
inductive Signal
  | timer (err : NetError)
  | op (err : NetError)

def react (r : Race) : Signal → List RaceAction × Race
  | .timer err => r.onTimer err
  | .op err => r.onOp err

def run : Race → List Signal → List RaceAction
  | _,[] => []
  | r,x::xs => (r.react x).1 ++ run (r.react x).2 xs

theorem react_of_done {r : Race} (h : r.done = true) (x : Signal) : r.react x = ([],r) := by
  cases x <;> simp [react,onTimer,onOp,h]

theorem run_of_done {r : Race} (h : r.done = true) (xs : List Signal) : r.run xs = [] := by
  induction xs with
  | nil => rfl
  | cons x xs ih => simp [run,react_of_done h,ih]

/-- However often and in whatever order the handlers are called, `on_done` is called once, with
the result of the operation or with a timeout after the operation was cancelled; and not at
all only while the operation has not completed. -/
theorem run_cases (xs : List Signal) :
    (run {} xs = [] ∧ ∀ err, .op err ∉ xs) ∨ run {} xs = [.cancelOp,.onDone .timedOut] ∨
      ∃ err, .op err ∈ xs ∧ run {} xs = [.cancelTimer,.onDone err] := by
  induction xs with
  | nil => simp [run]
  | cons x xs ih =>
    cases x with
    | op err =>
      refine .inr (.inr ⟨err,by simp,?_⟩)
      simp [run,react,onOp,run_of_done]
    | timer err =>
      cases hok : err.ok with
      | true => simp [run,react,onTimer,hok,run_of_done]
      | false => simpa [run,react,onTimer,hok] using ih

end Race
end PerCoreShard
