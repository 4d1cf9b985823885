import PerCoreShard.Net.RaceReentry
import PerCoreShard.Upstream.UpstreamManager

/-! The race of a connect against its timeout, and the socket that the three lambdas of
`connect_fresh` share. -/
namespace PerCoreShard
open Library

/-- What the lambdas of a connect do for an action of its race. -/
def ConnectAttempt.effect (a : ConnectAttempt) : RaceAction → UpstreamEffect
  | .cancelTimer => .cancelTimer a.socket
  | .cancelOp => .cancelConnect a.socket
  | .onDone err =>
    if !err.ok then .callback a.call a.index err none
    else .callback a.call a.index .none (some a.socket)

/-- What a connect does to the socket it has created: `start_connecting`, and then the actions
of the race. -/
def ConnectAttempt.effects (a : ConnectAttempt) (target : NetEndpoint)
    (actions : List RaceAction) : List UpstreamEffect :=
  .connect a.socket a.index target::actions.map a.effect

/-- The shared socket is dereferenced. -/
def UpstreamEffect.derefs (socket : SocketId) : UpstreamEffect → Bool
  | .connect s _ _ | .cancelConnect s => s == socket
  | _ => false

/-- The shared socket is moved to the caller. -/
def UpstreamEffect.movesOut (socket : SocketId) : UpstreamEffect → Bool
  | .callback _ _ _ (some s) => s == socket
  | _ => false

namespace Upstreams

theorem perform_eq (a : ConnectAttempt) (u : Upstreams) (action : RaceAction) :
    perform a u action = u.emit (a.effect action) := by
  cases action with
  | cancelTimer => rfl
  | cancelOp => rfl
  | onDone err => cases hok : err.ok <;> simp [perform,deliverResult,ConnectAttempt.effect,hok]

theorem log_foldl_perform (a : ConnectAttempt) (actions : List RaceAction) (u : Upstreams) :
    (actions.foldl (perform a) u).log = u.log ++ actions.map a.effect := by
  induction actions generalizing u with
  | nil => simp
  | cons action actions ih => simp [ih,perform_eq,emit]

theorem log_onConnectDone (u : Upstreams) (k : ℕ) (a : ConnectAttempt) (err : NetError) :
    (u.onConnectDone k a err).log =
      u.log ++ .connectDone a.socket err::(a.race.onOp err).1.map a.effect := by
  simp [onConnectDone,log_foldl_perform,emit]

theorem log_onTimerDone (u : Upstreams) (k : ℕ) (a : ConnectAttempt) (err : NetError) :
    (u.onTimerDone k a err).log =
      u.log ++ .timerDone a.socket err::(a.race.onTimer err).1.map a.effect := by
  simp [onTimerDone,log_foldl_perform,emit]

end Upstreams

def RaceAction.isOnDone : RaceAction → Bool
  | .onDone _ => true
  | _ => false

/-- What `race_with_timeout` promises at every moment of a race, and what `connect_fresh` makes
of it. -/
structure OneWinner (p : RacePlay) : Prop where
  once : p.log.countP RaceAction.isOnDone ≤ 1
  undecided : p.decidedBy = none → p.log = []
  operation : ∀ err, p.decidedBy = some (.op err) → p.log ++ p.left = [.cancelTimer,.onDone err]
  timeout : ∀ err, p.decidedBy = some (.timer err) →
    p.log ++ p.left = [.cancelOp,.onDone .timedOut]
  /-- Nothing is left to do but by the handler that won, before it returns. -/
  prompt : ∀ x, p.decidedBy = some x → (∀ rest ∈ p.frames, rest = []) → p.log = x.outcome
  socket : ∀ (a : ConnectAttempt) (target : NetEndpoint), (a.effects target p.log).Pairwise
    fun e f => e.movesOut a.socket = true → f.derefs a.socket = false

theorem socket_of_outcome (x : Race.Signal) (a : ConnectAttempt) (target : NetEndpoint) :
    (a.effects target x.outcome).Pairwise
      fun e f => e.movesOut a.socket = true → f.derefs a.socket = false := by
  cases x <;> simp [ConnectAttempt.effects,Race.Signal.outcome,UpstreamEffect.movesOut,
    ConnectAttempt.effect]

/-- However the handlers are called, while others run or not, the race has one winner. -/
theorem one_winner (p : RacePlay) (h : RacePlay.system.Reaches p) : OneWinner p := by
  have hs := RacePlay.sound_of_reaches h
  have hprefix : ∃ actions, p.log <+: actions ∧ actions.countP RaceAction.isOnDone ≤ 1 ∧
      ∀ (a : ConnectAttempt) (target : NetEndpoint), (a.effects target actions).Pairwise
        fun e f => e.movesOut a.socket = true → f.derefs a.socket = false := by
    cases hd : p.decidedBy with
    | none =>
      refine ⟨[],by rw [(hs.undecided hd).1],by simp,fun a target => ?_⟩
      exact List.pairwise_singleton _ _
    | some x =>
      refine ⟨x.outcome,⟨_,hs.decided x hd⟩,?_,socket_of_outcome x⟩
      cases x <;> simp [Race.Signal.outcome,RaceAction.isOnDone]
  obtain ⟨actions,hpre,hcount,hsocket⟩ := hprefix
  refine ⟨(hpre.sublist.countP_le).trans hcount,fun hd => (hs.undecided hd).1,
    fun err hd => hs.decided _ hd,fun err hd => hs.decided _ hd,fun x hd hidle => ?_,
    fun a target => (hsocket a target).sublist ?_⟩
  · rw [← hs.decided x hd,RacePlay.left,List.flatten_eq_nil_iff.mpr hidle,List.append_nil]
  · exact (hpre.sublist.map a.effect).cons_cons _

/-- The timeout wins, the connect completes inside `cancel_op`, and the timer fires again inside
`on_done`. -/
theorem one_winner_reentered : OneWinner (((((RacePlay.start.next .proceed).next
    (.signal (.timer .none))).next (.signal (.op .none))).next .proceed).next
    (.signal (.timer .none))) :=
  one_winner _ (.step (.step (.step (.step (.step (.initial rfl) trivial rfl) trivial rfl)
    trivial rfl) trivial rfl) trivial rfl)

end PerCoreShard
