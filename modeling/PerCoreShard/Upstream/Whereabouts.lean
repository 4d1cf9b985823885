import PerCoreShard.Upstream.Custody

/-! Where the sockets are between two steps of the manager: no socket that was ever created is
left where nobody would close it. -/
namespace PerCoreShard
open Library

/-- The places where a socket can stay: it is being connected, in a hand or in a pool, or it is
closed. -/
def Place.rests : Place → Bool
  | .unborn | .connected _ | .released _ => false
  | _ => true

namespace Upstreams

structure Settled (u : Upstreams) : Prop where
  rests : ∀ socket < u.sockets, (placeOf u.log socket).rests = true
  /-- A connect that was started and not decided is one the manager knows of. -/
  connecting : ∀ socket i, placeOf u.log socket = .connecting i →
    ∃ a ∈ u.attempts, a.socket = socket ∧ a.index = i ∧ a.race.done = false

section
variable {u u' : Upstreams}

/-- A step that creates no socket and leaves those it moves at places where they can stay. -/
theorem Settled.next (h : Settled u) (hsockets : u'.sockets = u.sockets)
    (hs : ∀ s, placeOf u'.log s = placeOf u.log s ∨
      ((placeOf u'.log s).rests = true ∧ ∀ i, placeOf u'.log s ≠ .connecting i))
    (ha : ∀ a ∈ u.attempts, a.race.done = false →
      (∀ i, placeOf u'.log a.socket ≠ .connecting i) ∨ ∃ b ∈ u'.attempts, b.socket = a.socket ∧
        b.index = a.index ∧ b.race.done = false) : Settled u' where
  rests s hlt := by
    rcases hs s with hsame | ⟨hrests,-⟩
    · rw [hsame]
      exact h.rests s (hsockets ▸ hlt)
    · exact hrests
  connecting s i hi := by
    rcases hs s with hsame | ⟨-,hnot⟩
    · obtain ⟨a,hin,rfl,rfl,hd⟩ := h.connecting s i (hsame ▸ hi)
      rcases ha a hin hd with hnot | hstill
      · exact absurd hi (hnot a.index)
      · exact hstill
    · exact absurd hi (hnot i)

/-- A step that takes one socket to where it can stay, and does nothing about the connects. -/
theorem Settled.move (h : Settled u) (hsockets : u'.sockets = u.sockets)
    (hattempts : u'.attempts = u.attempts) (socket : SocketId)
    (hs : ∀ s, s ≠ socket → placeOf u'.log s = placeOf u.log s)
    (hrests : (placeOf u'.log socket).rests = true)
    (hnot : ∀ i, placeOf u'.log socket ≠ .connecting i) : Settled u' := by
  refine h.next hsockets (fun s => ?_) fun a ha hd => .inr ⟨a,hattempts ▸ ha,rfl,rfl,hd⟩
  by_cases heq : s = socket
  · subst heq
    exact .inr ⟨hrests,hnot⟩
  · exact .inl (hs s heq)

theorem Settled.connectFresh (h : Settled u) (index : ℕ) (fresh : Bool) :
    Settled ((u.beginAcquire index fresh).connectFresh u.calls index) := by
  obtain ⟨target,hlog⟩ : ∃ target,
      ((u.beginAcquire index fresh).connectFresh u.calls index).log =
        u.log ++ [.acquire u.calls index fresh] ++ [.connect u.sockets index target] := ⟨_,rfl⟩
  have hattempts : ((u.beginAcquire index fresh).connectFresh u.calls index).attempts =
      u.attempts ++ [{ call := u.calls, index := index, socket := u.sockets }] := rfl
  have hnew : placeOf ((u.beginAcquire index fresh).connectFresh u.calls index).log u.sockets =
      .connecting index := by
    rw [hlog,placeOf_append]
    simp [Place.after]
  have hold : ∀ s, s ≠ u.sockets →
      placeOf ((u.beginAcquire index fresh).connectFresh u.calls index).log s =
        placeOf u.log s := by
    intro s hs
    rw [hlog,placeOf_append,placeOf_append,
      Place.after_of_not_moves (by simpa [UpstreamEffect.moves] using Ne.symm hs),
      Place.after_of_not_moves rfl]
  refine ⟨fun s hs => ?_,fun s i hi => ?_⟩
  · by_cases heq : s = u.sockets
    · rw [heq,hnew]
      rfl
    · rw [hold s heq]
      have hlt : s < u.sockets + 1 := hs
      exact h.rests s (by omega)
  · by_cases heq : s = u.sockets
    · subst heq
      rw [hnew] at hi
      exact ⟨_,hattempts ▸ List.mem_append_right _ (List.mem_singleton_self _),rfl,
        Place.connecting.inj hi,rfl⟩
    · rw [hold s heq] at hi
      obtain ⟨a,ha,hrest⟩ := h.connecting s i hi
      exact ⟨a,hattempts ▸ List.mem_append_left _ ha,hrest⟩

theorem after_other {e : UpstreamEffect} {s socket : SocketId} (hs : s ≠ socket)
    (hm : e.moves s = (socket == s)) (p : Place) : p.after s e = p :=
  Place.after_of_not_moves (by rw [hm,beq_eq_false_iff_ne]; exact Ne.symm hs) p

theorem Settled.acquireConnection (h : Settled u) (index : ℕ) :
    Settled (u.acquireConnection index) := by
  unfold Upstreams.acquireConnection
  split
  next socket hlast =>
    have hlog : ∀ s, placeOf ((u.beginAcquire index false).takePooled u.calls index socket).log s =
        (placeOf u.log s).after s (.callback u.calls index .none (some socket)) := by
      intro s
      change placeOf (u.log ++ [.acquire u.calls index false] ++ [_]) s = _
      rw [placeOf_append,placeOf_append]
      rfl
    refine h.move rfl rfl socket (fun s hs => ?_) ?_ fun i => ?_
    · rw [hlog,after_other hs rfl]
    · simp [hlog,Place.after,Place.rests]
    · simp [hlog,Place.after]
  next => exact h.connectFresh index false

theorem Settled.releaseConnection (h : Settled u) (index : ℕ) (socket : SocketId) :
    Settled (u.releaseConnection index socket) := by
  have hlog : ∃ e, (e = .close socket ∨ e = .pool index socket) ∧
      (u.releaseConnection index socket).log = u.log ++ [.release index socket] ++ [e] := by
    unfold Upstreams.releaseConnection
    split
    · exact ⟨_,.inl rfl,rfl⟩
    · exact ⟨_,.inr rfl,rfl⟩
  have hsame : (u.releaseConnection index socket).sockets = u.sockets ∧
      (u.releaseConnection index socket).attempts = u.attempts := by
    unfold Upstreams.releaseConnection
    split <;> exact ⟨rfl,rfl⟩
  obtain ⟨e,he,hlog⟩ := hlog
  refine h.move hsame.1 hsame.2 socket (fun s hs => ?_) ?_ fun i => ?_ <;>
    rw [hlog,placeOf_append,placeOf_append]
  · rw [after_other (e := .release index socket) hs rfl]
    rcases he with rfl | rfl <;> exact after_other hs rfl _
  · rcases he with rfl | rfl <;> simp [Place.after,Place.rests]
  · rcases he with rfl | rfl <;> simp [Place.after]

theorem Settled.discard (h : Settled u) (socket : SocketId) :
    Settled (u.emit (.discard socket)) := by
  have hplace : ∀ s, placeOf (u.emit (.discard socket)).log s =
      (placeOf u.log s).after s (.discard socket) := fun s => placeOf_append _ _ _
  refine h.move rfl rfl socket (fun s hs => ?_) ?_ fun i => ?_ <;> rw [hplace]
  · exact after_other hs rfl _
  · simp [Place.after,Place.rests]
  · simp [Place.after]

/-- A handler of a connect leaves the other connects as they are. -/
theorem mem_set_of_mem {n : ℕ} {a b : ConnectAttempt} (hn : u.attempts[n]? = some a)
    (hset : u'.attempts = u.attempts.set n b) : b ∈ u'.attempts ∧
      ∀ x ∈ u.attempts, x = a ∨ x ∈ u'.attempts := by
  obtain ⟨xs,ys,hold,hnew⟩ := exists_of_set (b := b) hn
  rw [hset,hnew,hold]
  refine ⟨by simp,fun x hx => ?_⟩
  simp only [List.mem_append,List.mem_cons] at hx ⊢
  tauto

/-- A handler that has decided nothing. -/
theorem Settled.undecided (h : Settled u) {n : ℕ} {a b : ConnectAttempt}
    (hn : u.attempts[n]? = some a) (hsockets : u'.sockets = u.sockets)
    (hset : u'.attempts = u.attempts.set n b) (hb : b.socket = a.socket ∧ b.index = a.index ∧
      b.race = a.race)
    (hs : ∀ s, placeOf u'.log s = placeOf u.log s) : Settled u' := by
  obtain ⟨hin,hothers⟩ := mem_set_of_mem hn hset
  refine h.next hsockets (fun s => .inl (hs s)) fun x hx hd => .inr ?_
  rcases hothers x hx with rfl | hx
  · exact ⟨b,hin,hb.1,hb.2.1,by rw [hb.2.2]; exact hd⟩
  · exact ⟨x,hx,rfl,rfl,hd⟩

/-- A handler that has decided the race of its connect. -/
theorem Settled.decided (h : Settled u) {n : ℕ} {a b : ConnectAttempt}
    (hn : u.attempts[n]? = some a) (hsockets : u'.sockets = u.sockets)
    (hset : u'.attempts = u.attempts.set n b)
    (hs : ∀ s, s ≠ a.socket → placeOf u'.log s = placeOf u.log s)
    (hrests : (placeOf u'.log a.socket).rests = true)
    (hnot : ∀ i, placeOf u'.log a.socket ≠ .connecting i) : Settled u' := by
  refine h.next hsockets (fun s => ?_) fun x hx hd => ?_
  · by_cases heq : s = a.socket
    · subst heq
      exact .inr ⟨hrests,hnot⟩
    · exact .inl (hs s heq)
  · rcases (mem_set_of_mem hn hset).2 x hx with rfl | hx
    · exact .inl hnot
    · exact .inr ⟨x,hx,rfl,rfl,hd⟩

theorem Settled.onTimerDone (h : Settled u) {n : ℕ} {a : ConnectAttempt}
    (hn : u.attempts[n]? = some a) (err : NetError) : Settled (u.onTimerDone n a err) := by
  have hlog := log_onTimerDone u n a err
  have hset : (u.onTimerDone n a err).attempts =
      u.attempts.set n { a with race := (a.race.onTimer err).2, waiting := false } :=
    (attempts_foldl_perform a _ _).1
  have hsockets : (u.onTimerDone n a err).sockets = u.sockets :=
    (attempts_foldl_perform a _ _).2.2.2
  cases hdecides : a.race.done || !err.ok with
  | true =>
    have hreact : a.race.onTimer err = ([],a.race) := by simp [Race.onTimer,hdecides]
    rw [hreact] at hlog hset
    refine h.undecided hn hsockets hset ⟨rfl,rfl,rfl⟩ fun s => ?_
    rw [hlog]
    exact placeOf_append _ _ _
  | false =>
    have hreact : a.race.onTimer err = ([.cancelOp,.onDone .timedOut],{ done := true }) := by
      simp [Race.onTimer,hdecides]
    rw [hreact] at hlog hset
    have hplaces : ∀ s, placeOf (u.onTimerDone n a err).log s =
        (placeOf u.log s).after s (.cancelConnect a.socket) := by
      intro s
      rw [hlog,placeOf,List.foldl_append]
      rfl
    refine h.decided hn hsockets hset (fun s hs => ?_) ?_ fun i => ?_ <;> rw [hplaces]
    · exact after_other hs rfl _
    · simp [Place.after,Place.rests]
    · simp [Place.after]

theorem Settled.onConnectDone (h : Settled u) (ht : Tracked u) {n : ℕ} {a : ConnectAttempt}
    (hn : u.attempts[n]? = some a) (hc : a.connecting = true) (err : NetError) :
    Settled (u.onConnectDone n a err) := by
  have hlog := log_onConnectDone u n a err
  have hset : (u.onConnectDone n a err).attempts =
      u.attempts.set n { a with race := (a.race.onOp err).2, connecting := false } :=
    (attempts_foldl_perform a _ _).1
  have hsockets : (u.onConnectDone n a err).sockets = u.sockets :=
    (attempts_foldl_perform a _ _).2.2.2
  have hattempt := ht.attempts a (List.mem_of_getElem? hn)
  cases hd : a.race.done with
  | true =>
    have hreact : a.race.onOp err = ([],a.race) := by simp [Race.onOp,hd]
    rw [hreact] at hlog hset
    refine h.undecided hn hsockets hset ⟨rfl,rfl,rfl⟩ fun s => ?_
    rw [hlog,List.map_nil,placeOf_append]
    by_cases hs : s = a.socket
    · subst hs
      rw [hattempt.late hd hc]
      simp [Place.after]
    · exact after_other hs rfl _
  | false =>
    have hreact : a.race.onOp err = ([.cancelTimer,.onDone err],{ done := true }) := by
      simp [Race.onOp,hd]
    rw [hreact] at hlog hset
    have hplaces : ∀ s, placeOf (u.onConnectDone n a err).log s =
        ((placeOf u.log s).after s (.connectDone a.socket err)).after s
          (a.effect (.onDone err)) := by
      intro s
      rw [hlog,placeOf,List.foldl_append]
      rfl
    refine h.decided hn hsockets hset (fun s hs => ?_) ?_ fun i => ?_ <;> rw [hplaces]
    · rw [after_other (e := .connectDone a.socket err) hs rfl]
      cases hok : err.ok with
      | false => simp [ConnectAttempt.effect,hok,Place.after]
      | true =>
        simp only [ConnectAttempt.effect,hok,Bool.not_true,Bool.false_eq_true,if_false]
        exact after_other hs rfl _
    all_goals
      rw [hattempt.place hd]
      cases hok : err.ok <;> simp [ConnectAttempt.effect,hok,Place.after,Place.rests]

theorem settled_of_reaches {maxIdle : ℕ} (h : (system maxIdle).Reaches u) : Settled u := by
  refine System.ReachesWhen.invariant_with (I := Settled) (fun u hu => tracked_of_reaches hu) ?_ ?_ h
  · rintro _ ⟨upstreams,-,rfl⟩
    exact ⟨(fun s hs => absurd hs (Nat.not_lt_zero s)),(fun s i hi => by cases hi)⟩
  · rintro u x u' ht hI - hstep
    cases hstep with
    | request r hr =>
      cases r with
      | select =>
        exact hI.next rfl (fun s => .inl (placeOf_append _ _ _)) fun a ha hd =>
          .inr ⟨a,ha,rfl,rfl,hd⟩
      | acquire index => exact hI.acquireConnection index
      | acquireFresh index => exact hI.connectFresh index true
      | release index socket => exact hI.releaseConnection index socket
      | discard socket => exact hI.discard socket
    | connectDone n a err hn hc => exact hI.onConnectDone ht hn hc err
    | timerDone n a err hn hw => exact hI.onTimerDone hn err
    | refresh resolve => exact hI.next rfl (fun s => .inl rfl) fun a ha hd => .inr ⟨a,ha,rfl,rfl,hd⟩

end

end Upstreams
end PerCoreShard
