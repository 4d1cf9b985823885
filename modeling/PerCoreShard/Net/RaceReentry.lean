import PerCoreShard.Library.Transition
import PerCoreShard.Net.RaceWithTimeout

/-! `race_with_timeout` with handlers that may be called at any moment: before `start_op` has
returned, and while another handler is inside `cancel_op`, the timer or `on_done`. -/
namespace PerCoreShard
open Library

namespace Race

/-- The handler of the operation, or that of a timer that was not cancelled, is called. -/
def Signal.decides : Signal → Bool
  | .timer err => err.ok
  | .op _ => true

/-- What the first deciding call makes its handler do. -/
def Signal.outcome : Signal → List RaceAction
  | .timer _ => [.cancelOp,.onDone .timedOut]
  | .op err => [.cancelTimer,.onDone err]

end Race

/-- A race as it is played: the calls of handlers so far, what these did, and for every call
that is still in progress, the innermost first, what its handler does when what it has called
returns. -/
structure RacePlay where
  race : Race := {}
  heard : List Race.Signal := []
  log : List RaceAction := []
  frames : List (List RaceAction) := []

namespace RacePlay

/-- A handler runs up to the first call it makes. -/
def signal (p : RacePlay) (x : Race.Signal) : RacePlay :=
  match (p.race.react x).1 with
  | [] => { p with race := (p.race.react x).2, heard := p.heard ++ [x] }
  | action::rest =>
    { race := (p.race.react x).2
      heard := p.heard ++ [x]
      log := p.log ++ [action]
      frames := rest::p.frames }

/-- What the innermost handler has called returns. -/
def proceed (p : RacePlay) : RacePlay :=
  match p.frames with
  | (action::rest)::frames => { p with log := p.log ++ [action], frames := rest::frames }
  | []::frames => { p with frames := frames }
  | [] => p

/-- At first `race_with_timeout` is inside `start_op`. -/
def start : RacePlay := { frames := [[]] }

inductive Event
  | signal (x : Race.Signal)
  | proceed

def next (p : RacePlay) : Event → RacePlay
  | .signal x => p.signal x
  | .proceed => p.proceed

/-- Handlers are called in any order and any number of times, and calls return in any order
that calls can. -/
def system : System RacePlay Event where
  initial p := p = start
  step p e p' := p' = p.next e

/-- The call that decided the race. -/
def decidedBy (p : RacePlay) : Option Race.Signal := p.heard.find? Race.Signal.decides

/-- What the handlers have still to do. -/
def left (p : RacePlay) : List RaceAction := p.frames.flatten

/-- Until the race is decided nothing is done, and then what its first deciding call does. -/
structure Sound (p : RacePlay) : Prop where
  done : p.race.done = p.decidedBy.isSome
  undecided : p.decidedBy = none → p.log = [] ∧ p.left = []
  decided : ∀ x, p.decidedBy = some x → p.log ++ p.left = x.outcome

theorem react_of_undecided {r : Race} (hr : r.done = false) (x : Race.Signal) :
    r.react x = if x.decides then (x.outcome,{ done := true }) else ([],r) := by
  cases x with
  | op err => simp [Race.react,Race.onOp,hr,Race.Signal.decides,Race.Signal.outcome]
  | timer err =>
    cases hok : err.ok <;>
      simp [Race.react,Race.onTimer,hr,hok,Race.Signal.decides,Race.Signal.outcome]

theorem Sound.signal {p : RacePlay} (h : p.Sound) (x : Race.Signal) : (p.signal x).Sound := by
  have hheard : ∀ p' : RacePlay, p'.heard = p.heard ++ [x] →
      p'.decidedBy = p.decidedBy.or (if x.decides then some x else none) := by
    intro p' hp'
    rw [decidedBy,hp',List.find?_append,List.find?_singleton]
    rfl
  cases hd : p.decidedBy with
  | some winner =>
    -- the race was decided before, and the handler does nothing
    have hdone : p.race.done = true := by rw [h.done,hd]; rfl
    have hquiet := Race.react_of_done hdone x
    have hp : p.signal x = { p with heard := p.heard ++ [x] } := by
      simp [RacePlay.signal,hquiet]
    have hsame : (p.signal x).decidedBy = some winner := by
      rw [hheard _ (by rw [hp]),hd]
      rfl
    refine ⟨?_,fun hno => ?_,fun y hy => ?_⟩
    · rw [hsame,hp]
      exact hdone
    · rw [hsame] at hno
      cases hno
    · rw [hsame] at hy
      rw [hp,← Option.some.inj hy]
      exact h.decided winner hd
  | none =>
    have hdone : p.race.done = false := by rw [h.done,hd]; rfl
    obtain ⟨hlog,hleft⟩ := h.undecided hd
    have hreact := react_of_undecided hdone x
    cases hx : x.decides with
    | false =>
      rw [hx,if_neg (by simp)] at hreact
      have hp : p.signal x = { p with heard := p.heard ++ [x] } := by
        simp [RacePlay.signal,hreact]
      have hsame : (p.signal x).decidedBy = none := by
        rw [hheard _ (by rw [hp]),hd,hx]
        rfl
      refine ⟨?_,fun _ => ?_,fun y hy => ?_⟩
      · rw [hsame,hp]
        exact hdone
      · rw [hp]
        exact ⟨hlog,hleft⟩
      · rw [hsame] at hy
        cases hy
    | true =>
      rw [hx,if_pos rfl] at hreact
      obtain ⟨action,rest,hout⟩ : ∃ action rest, x.outcome = action::rest := by
        cases x <;> exact ⟨_,_,rfl⟩
      have hp : p.signal x =
          { race := { done := true }
            heard := p.heard ++ [x]
            log := p.log ++ [action]
            frames := rest::p.frames } := by
        simp [RacePlay.signal,hreact,hout]
      have hnow : (p.signal x).decidedBy = some x := by
        rw [hheard _ (by rw [hp]),hd,hx]
        rfl
      refine ⟨?_,fun hno => ?_,fun y hy => ?_⟩
      · rw [hnow,hp]
        rfl
      · rw [hnow] at hno
        cases hno
      · rw [hnow] at hy
        rw [← Option.some.inj hy,hout,hp,hlog]
        change [action] ++ (rest ++ p.left) = _
        rw [hleft,List.append_nil]
        rfl

theorem Sound.proceed {p : RacePlay} (h : p.Sound) : p.proceed.Sound := by
  have hkeep : p.proceed.race = p.race ∧ p.proceed.heard = p.heard ∧
      p.proceed.log ++ p.proceed.left = p.log ++ p.left := by
    unfold RacePlay.proceed left
    split
    next heq => simp [heq]
    next heq => simp [heq]
    next => exact ⟨rfl,rfl,rfl⟩
  obtain ⟨hrace,hheard,hall⟩ := hkeep
  have hsame : p.proceed.decidedBy = p.decidedBy := by rw [decidedBy,hheard]; rfl
  refine ⟨?_,fun hno => ?_,fun x hx => ?_⟩
  · rw [hrace,hsame]
    exact h.done
  · obtain ⟨hlog,hleft⟩ := h.undecided (hsame.symm.trans hno)
    rw [hlog,hleft] at hall
    exact List.append_eq_nil_iff.mp hall
  · rw [hall]
    exact h.decided x (hsame.symm.trans hx)

theorem sound_of_reaches {p : RacePlay} (h : system.Reaches p) : p.Sound := by
  refine h.invariant ?_ ?_
  · rintro p rfl
    exact ⟨rfl,fun _ => ⟨rfl,rfl⟩,fun x hx => by cases hx⟩
  · rintro p e p' hp rfl
    cases e with
    | signal x => exact hp.signal x
    | proceed => exact hp.proceed

end RacePlay
end PerCoreShard
