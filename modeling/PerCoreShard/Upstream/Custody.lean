import Mathlib.Logic.Function.Basic
import PerCoreShard.Upstream.ConnectFresh
import PerCoreShard.Upstream.Guarantees

/-! The manager as those see it who call it. Every caller has some sockets in its hands and
waits for some others; a socket changes hands only through the manager, and nobody but its
holder has a say in what becomes of it. -/
namespace PerCoreShard
open Library

/-- What the callers have: sockets with the endpoints they are for, and the endpoints for which
they wait. -/
structure Custody where
  hand : ℕ → List (SocketId × ℕ) := fun _ => []
  asked : ℕ → List ℕ := fun _ => []

namespace Custody

def setHand (c : Custody) (k : ℕ) (sockets : List (SocketId × ℕ)) : Custody :=
  { c with hand := Function.update c.hand k sockets }

def setAsked (c : Custody) (k : ℕ) (endpoints : List ℕ) : Custody :=
  { c with asked := Function.update c.asked k endpoints }

@[simp] theorem hand_setHand (c : Custody) (k : ℕ) (sockets : List (SocketId × ℕ)) (j : ℕ) :
    (c.setHand k sockets).hand j = if j = k then sockets else c.hand j :=
  Function.update_apply _ _ _ _
@[simp] theorem asked_setHand (c : Custody) (k : ℕ) (sockets : List (SocketId × ℕ)) :
    (c.setHand k sockets).asked = c.asked := rfl
@[simp] theorem hand_setAsked (c : Custody) (k : ℕ) (endpoints : List ℕ) :
    (c.setAsked k endpoints).hand = c.hand := rfl
@[simp] theorem asked_setAsked (c : Custody) (k : ℕ) (endpoints : List ℕ) (j : ℕ) :
    (c.setAsked k endpoints).asked j = if j = k then endpoints else c.asked j :=
  Function.update_apply _ _ _ _

/-- All that the caller `k` has. -/
def set (c : Custody) (k : ℕ) (sockets : List (SocketId × ℕ)) (endpoints : List ℕ) : Custody :=
  (c.setHand k sockets).setAsked k endpoints

@[simp] theorem hand_set (c : Custody) (k : ℕ) (sockets : List (SocketId × ℕ)) (endpoints : List ℕ)
    (j : ℕ) : (c.set k sockets endpoints).hand j = if j = k then sockets else c.hand j :=
  Function.update_apply _ _ _ _
@[simp] theorem asked_set (c : Custody) (k : ℕ) (sockets : List (SocketId × ℕ)) (endpoints : List ℕ)
    (j : ℕ) : (c.set k sockets endpoints).asked j = if j = k then endpoints else c.asked j :=
  Function.update_apply _ _ _ _
@[simp] theorem set_setHand (c : Custody) (k : ℕ) (sockets sockets' : List (SocketId × ℕ))
    (endpoints : List ℕ) : (c.set k sockets endpoints).setHand k sockets' =
      c.set k sockets' endpoints := by
  simp [set,setHand,setAsked]
@[simp] theorem set_setAsked (c : Custody) (k : ℕ) (sockets : List (SocketId × ℕ))
    (endpoints endpoints' : List ℕ) : (c.set k sockets endpoints).setAsked k endpoints' =
      c.set k sockets endpoints' := by
  simp [set,setAsked]
theorem set_hand_self (c : Custody) (k : ℕ) (endpoints : List ℕ) :
    c.set k (c.hand k) endpoints = c.setAsked k endpoints := by
  simp [set,setHand,setAsked]
theorem set_self (c : Custody) (k : ℕ) : c.set k (c.hand k) (c.asked k) = c := by
  simp [set,setHand,setAsked]

end Custody

/-- The callback of an acquire call with its arguments. -/
def UpstreamEffect.answer : UpstreamEffect → Option (ℕ × NetError × Option SocketId)
  | .callback call _ err socket => some (call,err,socket)
  | _ => none

/-- A socket in the hands of a caller was handed to it by a callback. -/
theorem callback_of_held {log : List UpstreamEffect} {socket : SocketId} {call index : ℕ}
    (h : placeOf log socket = .held call index) :
    ∃ err, .callback call index err (some socket) ∈ log := by
  induction log using List.reverseRecOn with
  | nil => cases h
  | append_singleton log e ih =>
    rw [placeOf_append] at h
    have hold : placeOf log socket = .held call index →
        ∃ err, .callback call index err (some socket) ∈ log ++ [e] := by
      intro hp
      obtain ⟨err,hin⟩ := ih hp
      exact ⟨err,List.mem_append_left _ hin⟩
    cases hm : e.moves socket with
    | false => exact hold (Place.after_of_not_moves hm (placeOf log socket) ▸ h)
    | true =>
      cases e with
      | callback call' index' err s =>
        cases s with
        | none => cases hm
        | some s =>
          obtain rfl : s = socket := eq_of_beq hm
          obtain ⟨rfl,rfl⟩ : call' = call ∧ index' = index := by simpa [Place.after] using h
          exact ⟨err,by simp⟩
      | connectDone s err =>
        obtain rfl : s = socket := eq_of_beq hm
        refine hold ?_
        cases hp : placeOf log s <;> simp_all [Place.after]
        split at h <;> cases h
      | _ => simp_all [UpstreamEffect.moves,Place.after]

/-- A socket in a pool was released to it. -/
theorem release_of_pooled {log : List UpstreamEffect} (h : Orderly log) {socket : SocketId}
    {index : ℕ} (hp : placeOf log socket = .released index ∨ placeOf log socket = .pooled index) :
    .release index socket ∈ log := by
  refine h.induct (P := fun log => placeOf log socket = .released index ∨
    placeOf log socket = .pooled index → .release index socket ∈ log) (by simp) ?_ hp
  intro log e _ ih hpermit hp
  rw [placeOf_append] at hp
  cases hm : e.moves socket with
  | false =>
    rw [Place.after_of_not_moves hm] at hp
    exact List.mem_append_left _ (ih hp)
  | true =>
    cases e with
    | release i s =>
      obtain rfl : s = socket := eq_of_beq hm
      obtain rfl : i = index := by simpa [Place.after] using hp
      exact List.mem_append_right _ (List.mem_singleton_self _)
    | pool i s =>
      obtain rfl : s = socket := eq_of_beq hm
      obtain rfl : i = index := by simpa [Place.after] using hp
      exact List.mem_append_left _ (ih (.inl hpermit))
    | callback call i err s =>
      cases s with
      | none => cases hm
      | some s => simp_all [UpstreamEffect.moves,Place.after]
    | connectDone s err =>
      obtain rfl : s = socket := eq_of_beq hm
      rcases hpermit with ⟨i,hi⟩ | hi
      · cases hok : err.ok <;> simp [Place.after,hi,hok] at hp
      · simp [Place.after,hi] at hp
    | _ => simp_all [UpstreamEffect.moves,Place.after]

namespace Upstreams

/-- The caller `k` holds the socket, which is one for the endpoint. The list tells for each
acquire call who made it. -/
def HeldBy (u : Upstreams) (callers : List ℕ) (k : ℕ) (socket : SocketId) (index : ℕ) : Prop :=
  ∃ call, callers[call]? = some k ∧ placeOf u.log socket = .held call index

/-- The connects whose callbacks the caller `k` waits for. -/
def waits (callers : List ℕ) (k : ℕ) (a : ConnectAttempt) : Bool :=
  !a.race.done && callers[a.call]? == some k

/-- The endpoints of the connects the caller `k` waits for. -/
def asks (u : Upstreams) (callers : List ℕ) (k : ℕ) : List ℕ :=
  (u.attempts.filter (waits callers k)).map ConnectAttempt.index

/-- The manager stands to its callers as the custody says. -/
structure Books (maxIdle : ℕ) (u : Upstreams) (callers : List ℕ) (c : Custody) : Prop where
  reached : (system maxIdle).Reaches u
  size : callers.length = u.calls
  hand : ∀ k socket index, u.HeldBy callers k socket index ↔ (socket,index) ∈ c.hand k
  asked : ∀ k, u.asks callers k = c.asked k

section
variable {maxIdle : ℕ} {u u' : Upstreams} {callers : List ℕ} {c : Custody}

/-- No socket is in two hands. -/
theorem Books.exclusive (h : Books maxIdle u callers c) {j k : ℕ} {socket : SocketId}
    {index index' : ℕ} (hj : (socket,index) ∈ c.hand j) (hk : (socket,index') ∈ c.hand k) :
    j = k ∧ index = index' := by
  obtain ⟨call,hcall,hp⟩ := (h.hand _ _ _).mpr hj
  obtain ⟨call',hcall',hp'⟩ := (h.hand _ _ _).mpr hk
  obtain ⟨rfl,rfl⟩ := Place.held.inj (hp.symm.trans hp')
  exact ⟨Option.some.inj (hcall.symm.trans hcall'),rfl⟩

theorem Books.call_lt (h : Books maxIdle u callers c) {socket : SocketId} {call index : ℕ}
    (hp : placeOf u.log socket = .held call index) : call < callers.length := by
  obtain ⟨err,hin⟩ := callback_of_held hp
  rw [h.size]
  by_contra hle
  have := (tracked_of_reaches h.reached).uncalled call (Nat.not_lt.mp hle) _ hin
  simp [UpstreamEffect.callsBack] at this

/-- Later callers do not change who holds a socket that stays where it is. -/
theorem Books.heldBy_congr (h : Books maxIdle u callers c) (more : List ℕ) {socket : SocketId}
    (hs : placeOf u'.log socket = placeOf u.log socket) (k index : ℕ) :
    u'.HeldBy (callers ++ more) k socket index ↔ u.HeldBy callers k socket index := by
  unfold HeldBy
  rw [hs]
  refine exists_congr fun call => and_congr_left fun hp => ?_
  rw [List.getElem?_append_left (h.call_lt hp)]

theorem heldBy_of_place {socket : SocketId} {call index : ℕ}
    (hp : placeOf u.log socket = .held call index) (k index' : ℕ) :
    u.HeldBy callers k socket index' ↔ callers[call]? = some k ∧ index' = index := by
  constructor
  · rintro ⟨call',hcall,hp'⟩
    obtain ⟨rfl,rfl⟩ := Place.held.inj (hp.symm.trans hp')
    exact ⟨hcall,rfl⟩
  · rintro ⟨hcall,rfl⟩
    exact ⟨call,hcall,hp⟩

theorem not_heldBy {socket : SocketId} (hp : ∀ call index, placeOf u.log socket ≠ .held call index)
    (k index : ℕ) : ¬u.HeldBy callers k socket index := by
  rintro ⟨call,-,hheld⟩
  exact hp call index hheld

theorem Books.asks_append (h : Books maxIdle u callers c) (more : List ℕ) (k : ℕ) :
    u.asks (callers ++ more) k = c.asked k := by
  rw [← h.asked]
  unfold asks
  congr 1
  refine List.filter_congr fun a ha => ?_
  have hlt := ((tracked_of_reaches h.reached).attempts a ha).call
  rw [waits,waits,List.getElem?_append_left (h.size ▸ hlt)]

/-- A step that moves no socket into or out of a hand. -/
theorem Books.unmoved (h : Books maxIdle u callers c) (more : List ℕ) (asked : ℕ → List ℕ)
    (hr : (system maxIdle).Reaches u') (hsize : (callers ++ more).length = u'.calls)
    (hs : ∀ socket, placeOf u'.log socket = placeOf u.log socket ∨
      ((∀ call index, placeOf u.log socket ≠ .held call index) ∧
        ∀ call index, placeOf u'.log socket ≠ .held call index))
    (hasked : ∀ k, u'.asks (callers ++ more) k = asked k) :
    Books maxIdle u' (callers ++ more) { c with asked := asked } where
  reached := hr
  size := hsize
  hand k socket index := by
    rcases hs socket with hs | ⟨hbefore,hafter⟩
    · exact (h.heldBy_congr more hs k index).trans (h.hand k socket index)
    · exact (iff_of_false (not_heldBy hafter k index) (not_heldBy hbefore k index)).trans
        (h.hand k socket index)
  asked := hasked

/-- A step by which a caller parts with a socket. -/
theorem Books.parted (h : Books maxIdle u callers c) (hr : (system maxIdle).Reaches u')
    (hcalls : u'.calls = u.calls) (hattempts : u'.attempts = u.attempts) {k : ℕ}
    {socket : SocketId} {index : ℕ} (hin : (socket,index) ∈ c.hand k)
    (hs : ∀ s, s ≠ socket → placeOf u'.log s = placeOf u.log s)
    (hgone : ∀ call index, placeOf u'.log socket ≠ .held call index) :
    Books maxIdle u' callers (c.setHand k ((c.hand k).filter fun p => p.1 ≠ socket)) where
  reached := hr
  size := h.size.trans hcalls.symm
  hand j s i := by
    rw [Custody.hand_setHand]
    by_cases heq : s = socket
    · subst heq
      refine iff_of_false (not_heldBy hgone j i) fun hj => ?_
      split at hj
      · simp at hj
      next hne => exact hne (h.exclusive hj hin).1
    · have hold := h.heldBy_congr [] (hs s heq) j i
      rw [List.append_nil] at hold
      rw [hold,h.hand]
      split
      next hjk => simp [hjk,heq]
      next => rfl
  asked j := by
    rw [Custody.asked_setHand,← h.asked,asks,asks,hattempts]

/-- A step by which a caller is given a socket nobody had. -/
theorem Books.given (h : Books maxIdle u callers c) (more : List ℕ) (asked : ℕ → List ℕ)
    (call index : ℕ) (hr : (system maxIdle).Reaches u')
    (hsize : (callers ++ more).length = u'.calls) {k : ℕ} {socket : SocketId}
    (hk : (callers ++ more)[call]? = some k)
    (hfree : ∀ call index, placeOf u.log socket ≠ .held call index)
    (hs : ∀ s, s ≠ socket → placeOf u'.log s = placeOf u.log s)
    (hplace : placeOf u'.log socket = .held call index)
    (hasked : ∀ j, u'.asks (callers ++ more) j = asked j) :
    Books maxIdle u' (callers ++ more)
      { hand := (c.setHand k ((socket,index)::c.hand k)).hand, asked := asked } where
  reached := hr
  size := hsize
  hand j s i := by
    change _ ↔ (s,i) ∈ (c.setHand k _).hand j
    rw [Custody.hand_setHand]
    by_cases heq : s = socket
    · subst heq
      have hnone : ∀ j i, (s,i) ∉ c.hand j := fun j i hin =>
        not_heldBy hfree j i ((h.hand j s i).mpr hin)
      rw [heldBy_of_place hplace,hk]
      split
      next hjk => simp [hjk,hnone]
      next hjk => simp [hnone,Ne.symm hjk]
    · rw [h.heldBy_congr more (hs s heq),h.hand]
      split
      next hjk => simp [hjk,heq]
      next => rfl
  asked := hasked

theorem Books.initial (h : (system maxIdle).initial u) : Books maxIdle u [] {} := by
  obtain ⟨upstreams,hne,rfl⟩ := h
  refine ⟨.initial ⟨upstreams,hne,rfl⟩,rfl,fun k socket index => ?_,fun _ => rfl⟩
  exact iff_of_false (not_heldBy (by simp) k index) (by simp)

theorem Books.selectEndpoint (h : Books maxIdle u callers c) :
    Books maxIdle u.selectEndpoint callers c := by
  have hsize : (callers ++ []).length = u.selectEndpoint.calls := by
    rw [List.append_nil]
    exact h.size
  have hr : (system maxIdle).Reaches u.selectEndpoint :=
    h.reached.step trivial (.request .select trivial)
  have hb := h.unmoved [] c.asked hr hsize (fun socket => .inl (placeOf_append _ _ _))
    (h.asks_append [])
  rwa [List.append_nil] at hb

theorem Books.refresh (h : Books maxIdle u callers c) (resolve : Bytes → ℕ → Option NetEndpoint) :
    Books maxIdle { u with manager := u.manager.resolveAll resolve } callers c := by
  have hr : (system maxIdle).Reaches { u with manager := u.manager.resolveAll resolve } :=
    h.reached.step trivial (.refresh resolve)
  have hb := h.unmoved [] c.asked hr (by simpa using h.size) (fun socket => .inl rfl)
    (h.asks_append [])
  rwa [List.append_nil] at hb

theorem Books.placed (h : Books maxIdle u callers c) {k index : ℕ} {socket : SocketId}
    (hin : (socket,index) ∈ c.hand k) : ∃ call, placeOf u.log socket = .held call index := by
  obtain ⟨call,-,hp⟩ := (h.hand k socket index).mpr hin
  exact ⟨call,hp⟩

theorem Books.discard (h : Books maxIdle u callers c) {k index : ℕ} {socket : SocketId}
    (hin : (socket,index) ∈ c.hand k) : Books maxIdle (u.emit (.discard socket)) callers
      (c.setHand k ((c.hand k).filter fun p => p.1 ≠ socket)) := by
  obtain ⟨call,hp⟩ := h.placed hin
  have hr : (system maxIdle).Reaches (u.emit (.discard socket)) :=
    h.reached.step trivial (.request (.discard socket) ⟨call,index,hp⟩)
  refine h.parted hr rfl rfl hin (fun s hs => ?_) fun call' index' => ?_
  · exact (placeOf_append _ _ _).trans
      (Place.after_of_not_moves (by simpa [UpstreamEffect.moves] using Ne.symm hs) _)
  · simp [Upstreams.emit,Place.after]

theorem Books.releaseConnection (h : Books maxIdle u callers c) {k index : ℕ} {socket : SocketId}
    (hin : (socket,index) ∈ c.hand k) : Books maxIdle (u.releaseConnection index socket) callers
      (c.setHand k ((c.hand k).filter fun p => p.1 ≠ socket)) := by
  obtain ⟨call,hp⟩ := h.placed hin
  have hlog : ∃ e, (e = .close socket ∨ e = .pool index socket) ∧
      (u.releaseConnection index socket).log = u.log ++ [.release index socket] ++ [e] := by
    unfold Upstreams.releaseConnection
    split
    · exact ⟨_,.inl rfl,rfl⟩
    · exact ⟨_,.inr rfl,rfl⟩
  obtain ⟨e,he,hlog⟩ := hlog
  have hr : (system maxIdle).Reaches (u.releaseConnection index socket) :=
    h.reached.step trivial (.request (.release index socket) ⟨call,hp⟩)
  refine h.parted hr ?_ ?_ hin (fun s hs => ?_) fun call' index' => ?_
  · unfold Upstreams.releaseConnection
    split <;> rfl
  · unfold Upstreams.releaseConnection
    split <;> rfl
  · have hmoves : e.moves s = false := by
      rcases he with rfl | rfl <;> simpa [UpstreamEffect.moves] using Ne.symm hs
    rw [hlog,placeOf_append,placeOf_append,Place.after_of_not_moves hmoves,
      Place.after_of_not_moves (by simpa [UpstreamEffect.moves] using Ne.symm hs)]
  · rw [hlog,placeOf_append]
    rcases he with rfl | rfl <;> simp [Place.after]

theorem Books.acquirePooled (h : Books maxIdle u callers c) (k : ℕ) {index : ℕ}
    {socket : SocketId} (hi : index < u.manager.endpoints.length)
    (hlast : (u.manager.pool index).getLast? = some socket) :
    Books maxIdle (u.acquireConnection index) (callers ++ [k])
        (c.setHand k ((socket,index)::c.hand k)) ∧
      ∀ j i, (socket,i) ∉ c.hand j := by
  have hplace := ((tracked_of_reaches h.reached).shelved.mem index socket).mp
    (List.mem_of_getLast? hlast)
  have hfree : ∀ call i, placeOf u.log socket ≠ .held call i := by simp [hplace]
  have hlog : (u.acquireConnection index).log = u.log ++ [.acquire u.calls index false] ++
      [.callback u.calls index .none (some socket)] := by
    unfold Upstreams.acquireConnection
    rw [hlast]
    rfl
  have hcalls : (u.acquireConnection index).calls = u.calls + 1 := by
    unfold Upstreams.acquireConnection
    rw [hlast]
    rfl
  have hattempts : (u.acquireConnection index).attempts = u.attempts := by
    unfold Upstreams.acquireConnection
    rw [hlast]
    rfl
  have hr : (system maxIdle).Reaches (u.acquireConnection index) :=
    h.reached.step trivial (.request (.acquire index) hi)
  refine ⟨h.given [k] c.asked u.calls index hr (by simp [hcalls,h.size]) (by simp [← h.size]) hfree
    (fun s hs => ?_) ?_ fun j => ?_,
    fun j i hin => not_heldBy hfree j i ((h.hand j socket i).mpr hin)⟩
  · rw [hlog,placeOf_append,placeOf_append,
      Place.after_of_not_moves (by simpa [UpstreamEffect.moves] using Ne.symm hs),
      Place.after_of_not_moves rfl]
  · rw [hlog,placeOf_append]
    simp [Place.after]
  · rw [asks,hattempts]
    exact h.asks_append [k] j

/-- A connect is started on behalf of `k`. -/
theorem Books.connecting (h : Books maxIdle u callers c) (k index : ℕ) (fresh : Bool)
    (hr : (system maxIdle).Reaches ((u.beginAcquire index fresh).connectFresh u.calls index)) :
    Books maxIdle ((u.beginAcquire index fresh).connectFresh u.calls index) (callers ++ [k])
      (c.setAsked k (c.asked k ++ [index])) := by
  have hunborn := (tracked_of_reaches h.reached).unborn u.sockets le_rfl
  have hlog : ∃ target, ((u.beginAcquire index fresh).connectFresh u.calls index).log =
      u.log ++ [.acquire u.calls index fresh] ++ [.connect u.sockets index target] := ⟨_,rfl⟩
  obtain ⟨target,hlog⟩ := hlog
  have hattempts : ((u.beginAcquire index fresh).connectFresh u.calls index).attempts =
      u.attempts ++ [{ call := u.calls, index := index, socket := u.sockets }] := rfl
  refine h.unmoved [k] (c.setAsked k (c.asked k ++ [index])).asked hr
    (by simp [Upstreams.connectFresh,beginAcquire,Upstreams.emit,h.size]) (fun socket => ?_)
    fun j => ?_
  · by_cases hs : u.sockets = socket
    · subst hs
      refine .inr ⟨by simp [hunborn],fun call i => ?_⟩
      rw [hlog,placeOf_append]
      simp [Place.after]
    · refine .inl ?_
      rw [hlog,placeOf_append,placeOf_append,
        Place.after_of_not_moves (by simpa [UpstreamEffect.moves] using hs),
        Place.after_of_not_moves rfl]
  · have hold : ((u.attempts.filter (waits (callers ++ [k]) j)).map ConnectAttempt.index) =
        c.asked j := h.asks_append [k] j
    have hnew : (callers ++ [k])[u.calls]? = some k := by simp [← h.size]
    change _ = (c.setAsked k _).asked j
    rw [Custody.asked_setAsked,asks,hattempts,List.filter_append,List.map_append,hold]
    split
    next hjk => simp [waits,hnew,hjk]
    next hjk => simp [waits,hnew,Ne.symm hjk]

theorem Books.acquireEmpty (h : Books maxIdle u callers c) (k : ℕ) {index : ℕ}
    (hi : index < u.manager.endpoints.length) (hlast : (u.manager.pool index).getLast? = none) :
    Books maxIdle (u.acquireConnection index) (callers ++ [k])
      (c.setAsked k (c.asked k ++ [index])) := by
  have heq : u.acquireConnection index =
      (u.beginAcquire index false).connectFresh u.calls index := by
    unfold Upstreams.acquireConnection
    rw [hlast]
  rw [heq]
  exact h.connecting k index false (heq ▸ h.reached.step trivial (.request (.acquire index) hi))

theorem Books.acquireFresh (h : Books maxIdle u callers c) (k : ℕ) {index : ℕ}
    (hi : index < u.manager.endpoints.length) :
    Books maxIdle (u.acquireFreshConnection index) (callers ++ [k])
      (c.setAsked k (c.asked k ++ [index])) :=
  h.connecting k index true (h.reached.step trivial (.request (.acquireFresh index) hi))

theorem attempts_foldl_perform (a : ConnectAttempt) (actions : List RaceAction) (u : Upstreams) :
    (actions.foldl (perform a) u).attempts = u.attempts ∧
      (actions.foldl (perform a) u).calls = u.calls ∧
      (actions.foldl (perform a) u).manager = u.manager ∧
      (actions.foldl (perform a) u).sockets = u.sockets := by
  induction actions generalizing u with
  | nil => exact ⟨rfl,rfl,rfl,rfl⟩
  | cons action actions ih => simp [ih,perform_eq,Upstreams.emit]

theorem exists_of_set {n : ℕ} {a b : ConnectAttempt} (hn : u.attempts[n]? = some a) :
    ∃ xs ys, u.attempts = xs ++ a::ys ∧ u.attempts.set n b = xs ++ b::ys := by
  obtain ⟨hlt,rfl⟩ := List.getElem?_eq_some_iff.mp hn
  obtain ⟨xs,ys,hold,-,hnew⟩ := @List.exists_of_set _ n b _ hlt
  exact ⟨xs,ys,hold,hnew⟩

/-- A handler that has decided nothing. -/
theorem asks_set {n : ℕ} {a b : ConnectAttempt} (hn : u.attempts[n]? = some a)
    (hset : u'.attempts = u.attempts.set n b) (hrace : b.race = a.race) (hcall : b.call = a.call)
    (hindex : b.index = a.index) (k : ℕ) : u'.asks callers k = u.asks callers k := by
  obtain ⟨xs,ys,hold,hnew⟩ := exists_of_set (b := b) hn
  have hw : waits callers k b = waits callers k a := by rw [waits,waits,hrace,hcall]
  rw [asks,asks,hset,hnew,hold,List.filter_append,List.filter_append,List.filter_cons,
    List.filter_cons,hw]
  split <;> simp [hindex]

/-- A handler that has decided the one race its caller waited for. -/
theorem Books.asks_settled (h : Books maxIdle u callers c) {n k : ℕ} {a b : ConnectAttempt}
    (hn : u.attempts[n]? = some a) (hset : u'.attempts = u.attempts.set n b)
    (hdone : b.race.done = true) (hk : callers[a.call]? = some k) (hw : a.race.done = false)
    (hone : (c.asked k).length ≤ 1) :
    c.asked k = [a.index] ∧ ∀ j, u'.asks callers j = (c.setAsked k []).asked j := by
  obtain ⟨xs,ys,hold,hnew⟩ := exists_of_set (b := b) hn
  have hwaits : ∀ j, waits callers j a = decide (j = k) := by
    intro j
    by_cases hj : j = k
    · simp [waits,hw,hk,hj]
    · simp [waits,hw,hk,hj,Ne.symm hj]
  have hnone : ∀ j, waits callers j b = false := by simp [waits,hdone]
  have hsplit : ∀ j, c.asked j = (xs.filter (waits callers j)).map ConnectAttempt.index ++
      ((if j = k then [a.index] else []) ++
        (ys.filter (waits callers j)).map ConnectAttempt.index) := by
    intro j
    rw [← h.asked,asks,hold,List.filter_append,List.filter_cons,hwaits,List.map_append]
    by_cases hj : j = k <;> simp [hj]
  have hlen := hone
  rw [hsplit k] at hlen
  simp only [if_true,List.length_append,List.length_cons,List.length_nil,List.length_map] at hlen
  have hxs : xs.filter (waits callers k) = [] := List.eq_nil_of_length_eq_zero (by omega)
  have hys : ys.filter (waits callers k) = [] := List.eq_nil_of_length_eq_zero (by omega)
  refine ⟨by simp [hsplit k,hxs,hys],fun j => ?_⟩
  rw [Custody.asked_setAsked,asks,hset,hnew,List.filter_append,List.filter_cons,hnone,
    List.map_append]
  by_cases hj : j = k
  · simp [hj,hxs,hys]
  · simp [hj,hsplit j]

/-- The callback that has run from `u` to `u'`, if one has. -/
def answered (u u' : Upstreams) : Option (ℕ × NetError × Option SocketId) :=
  (u'.log.drop u.log.length).findSome? UpstreamEffect.answer

theorem answered_of_log {es : List UpstreamEffect} (h : u'.log = u.log ++ es) :
    u.answered u' = es.findSome? UpstreamEffect.answer := by
  rw [answered,h,List.drop_left]

theorem answered_onConnectDone (u : Upstreams) (n : ℕ) {a : ConnectAttempt}
    (hd : a.race.done = false) (err : NetError) :
    u.answered (u.onConnectDone n a err) = (a.effect (.onDone err)).answer := by
  have hlog := log_onConnectDone u n a err
  have hreact : a.race.onOp err = ([.cancelTimer,.onDone err],{ done := true }) := by
    simp [Race.onOp,hd]
  rw [hreact] at hlog
  have htimer : (a.effect .cancelTimer).answer = none := rfl
  have hentry : (UpstreamEffect.connectDone a.socket err).answer = none := rfl
  rw [answered_of_log hlog,List.map_cons,List.map_singleton,List.findSome?_cons,hentry,
    List.findSome?_cons,htimer,List.findSome?_singleton]

theorem answered_onTimerDone (u : Upstreams) (n : ℕ) {a : ConnectAttempt}
    (hd : a.race.done = false) {err : NetError} (hok : err.ok = true) :
    u.answered (u.onTimerDone n a err) = some (a.call,.timedOut,none) := by
  have hlog := log_onTimerDone u n a err
  have hreact : a.race.onTimer err = ([.cancelOp,.onDone .timedOut],{ done := true }) := by
    simp [Race.onTimer,hd,hok]
  rw [hreact] at hlog
  rw [answered_of_log hlog]
  rfl

/-- What a handler of a connect has come to for the caller that waits for it. -/
inductive Reported (maxIdle : ℕ) (u : Upstreams) (callers : List ℕ) (c : Custody)
    (u' : Upstreams) : Prop
  | quiet (answer : u.answered u' = none) (books : Books maxIdle u' callers c)
  | refused (k call index : ℕ) (err : NetError) (caller : callers[call]? = some k)
    (asked : c.asked k = [index]) (failed : err.ok = false)
    (answer : u.answered u' = some (call,err,none))
    (books : Books maxIdle u' callers (c.setAsked k []))
  | connected (k call index : ℕ) (err : NetError) (socket : SocketId)
    (caller : callers[call]? = some k) (asked : c.asked k = [index]) (ok : err.ok = true)
    (answer : u.answered u' = some (call,err,some socket))
    (unheld : ∀ j i, (socket,i) ∉ c.hand j)
    (books : Books maxIdle u' callers
      ((c.setAsked k []).setHand k ((socket,index)::c.hand k)))

/-- A handler that decided nothing, because the race was decided or the timer was cancelled. -/
theorem Books.quiet (h : Books maxIdle u callers c) {n : ℕ} {a b : ConnectAttempt}
    (hn : u.attempts[n]? = some a) (hset : u'.attempts = u.attempts.set n b)
    (hrace : b.race = a.race) (hcall : b.call = a.call) (hindex : b.index = a.index)
    (hr : (system maxIdle).Reaches u') (hcalls : u'.calls = u.calls) {e : UpstreamEffect}
    (hlog : u'.log = u.log ++ [e]) (he : e.answer = none)
    (hplaces : ∀ socket, placeOf u'.log socket = placeOf u.log socket ∨
      ((∀ call index, placeOf u.log socket ≠ .held call index) ∧
        ∀ call index, placeOf u'.log socket ≠ .held call index)) :
    Reported maxIdle u callers c u' := by
  have hb := h.unmoved [] c.asked hr (by simpa [hcalls] using h.size) hplaces
    fun k => by rw [asks_set hn hset hrace hcall hindex,h.asks_append]
  rw [List.append_nil] at hb
  exact .quiet (by rw [answered_of_log hlog,List.findSome?_singleton,he]) hb

theorem Books.caller (h : Books maxIdle u callers c) {n : ℕ} {a : ConnectAttempt}
    (hn : u.attempts[n]? = some a) : ∃ k, callers[a.call]? = some k := by
  have hlt := ((tracked_of_reaches h.reached).attempts a (List.mem_of_getElem? hn)).call
  rw [← h.size] at hlt
  exact ⟨_,List.getElem?_eq_getElem hlt⟩

/-- A handler that decided the race against the caller. -/
theorem Books.refused (h : Books maxIdle u callers c) (hone : ∀ k, (c.asked k).length ≤ 1) {n : ℕ}
    {a b : ConnectAttempt} (hn : u.attempts[n]? = some a)
    (hset : u'.attempts = u.attempts.set n b) (hdone : b.race.done = true)
    (hw : a.race.done = false) (hr : (system maxIdle).Reaches u') (hcalls : u'.calls = u.calls)
    {err : NetError} (hfailed : err.ok = false)
    (hanswer : u.answered u' = some (a.call,err,none))
    (hs : ∀ s, s ≠ a.socket → placeOf u'.log s = placeOf u.log s)
    (hlost : placeOf u'.log a.socket = .lost) : Reported maxIdle u callers c u' := by
  obtain ⟨k,hk⟩ := h.caller hn
  obtain ⟨hasked,hasks⟩ := h.asks_settled hn hset hdone hk hw (hone k)
  have hplace := ((tracked_of_reaches h.reached).attempts a (List.mem_of_getElem? hn)).place hw
  have hb := h.unmoved [] (c.setAsked k []).asked hr (by simpa [hcalls] using h.size)
    (fun socket => ?_) (by simpa using hasks)
  · rw [List.append_nil] at hb
    exact .refused k a.call a.index err hk hasked hfailed hanswer hb
  · by_cases hsocket : socket = a.socket
    · exact .inr ⟨by simp [hsocket,hplace],by simp [hsocket,hlost]⟩
    · exact .inl (hs socket hsocket)

theorem Books.onTimerDone (h : Books maxIdle u callers c) (hone : ∀ k, (c.asked k).length ≤ 1)
    {n : ℕ} {a : ConnectAttempt} (hn : u.attempts[n]? = some a) (hw : a.waiting = true)
    (err : NetError) : Reported maxIdle u callers c (u.onTimerDone n a err) := by
  have hr : (system maxIdle).Reaches (u.onTimerDone n a err) :=
    h.reached.step trivial (.timerDone n a err hn hw)
  have hlog := log_onTimerDone u n a err
  have hset : (u.onTimerDone n a err).attempts =
      u.attempts.set n { a with race := (a.race.onTimer err).2, waiting := false } :=
    (attempts_foldl_perform a _ _).1
  have hcalls : (u.onTimerDone n a err).calls = u.calls := (attempts_foldl_perform a _ _).2.1
  cases hdecides : a.race.done || !err.ok with
  | true =>
    have hreact : a.race.onTimer err = ([],a.race) := by simp [Race.onTimer,hdecides]
    rw [hreact] at hlog hset
    refine h.quiet hn hset rfl rfl rfl hr hcalls hlog rfl fun socket => .inl ?_
    rw [hlog]
    exact placeOf_append _ _ _
  | false =>
    obtain ⟨hd,hok⟩ := (Bool.or_eq_false_iff).mp hdecides
    have hreact : a.race.onTimer err = ([.cancelOp,.onDone .timedOut],{ done := true }) := by
      simp [Race.onTimer,hdecides]
    rw [hreact] at hlog hset
    have hplaces : ∀ s, placeOf (u.onTimerDone n a err).log s =
        (placeOf u.log s).after s (.cancelConnect a.socket) := by
      intro s
      rw [hlog,placeOf,List.foldl_append]
      rfl
    have hfailed : NetError.timedOut.ok = false := rfl
    refine h.refused hone hn hset rfl hd hr hcalls hfailed (u.answered_onTimerDone n hd (by simpa using hok))
      (fun s hs => ?_) ?_
    · rw [hplaces,Place.after_of_not_moves (by simpa [UpstreamEffect.moves] using Ne.symm hs)]
    · rw [hplaces]
      simp [Place.after]

theorem Books.onConnectDone (h : Books maxIdle u callers c) (hone : ∀ k, (c.asked k).length ≤ 1)
    {n : ℕ} {a : ConnectAttempt} (hn : u.attempts[n]? = some a) (hc : a.connecting = true)
    (err : NetError) : Reported maxIdle u callers c (u.onConnectDone n a err) := by
  have hr : (system maxIdle).Reaches (u.onConnectDone n a err) :=
    h.reached.step trivial (.connectDone n a err hn hc)
  have hlog := log_onConnectDone u n a err
  have hset : (u.onConnectDone n a err).attempts =
      u.attempts.set n { a with race := (a.race.onOp err).2, connecting := false } :=
    (attempts_foldl_perform a _ _).1
  have hcalls : (u.onConnectDone n a err).calls = u.calls := (attempts_foldl_perform a _ _).2.1
  have hother : ∀ s, s ≠ a.socket → ∀ p : Place, p.after s (.connectDone a.socket err) = p :=
    fun s hs p => Place.after_of_not_moves (by simpa [UpstreamEffect.moves] using Ne.symm hs) p
  cases hd : a.race.done with
  | true =>
    have hreact : a.race.onOp err = ([],a.race) := by simp [Race.onOp,hd]
    rw [hreact] at hlog hset
    refine h.quiet hn hset rfl rfl rfl hr hcalls hlog rfl fun socket => ?_
    rw [hlog]
    have hlate := ((tracked_of_reaches h.reached).attempts a (List.mem_of_getElem? hn)).late hd hc
    by_cases hs : socket = a.socket
    · subst hs
      refine .inr ⟨by simp [hlate],fun call i => ?_⟩
      rw [List.map_nil,placeOf_append,hlate]
      simp [Place.after]
    · exact .inl ((placeOf_append _ _ _).trans (hother socket hs _))
  | false =>
    have hreact : a.race.onOp err = ([.cancelTimer,.onDone err],{ done := true }) := by
      simp [Race.onOp,hd]
    rw [hreact] at hlog hset
    have hplace := ((tracked_of_reaches h.reached).attempts a (List.mem_of_getElem? hn)).place hd
    have hplaces : ∀ s, placeOf (u.onConnectDone n a err).log s =
        ((placeOf u.log s).after s (.connectDone a.socket err)).after s (a.effect (.onDone err)) := by
      intro s
      rw [hlog,placeOf,List.foldl_append]
      rfl
    have hanswer := u.answered_onConnectDone n hd err
    cases hok : err.ok with
    | false =>
      have heffect : a.effect (.onDone err) = .callback a.call a.index err none := by
        simp [ConnectAttempt.effect,hok]
      rw [heffect] at hplaces hanswer
      refine h.refused hone hn hset rfl hd hr hcalls hok hanswer (fun s hs => ?_) ?_
      · rw [hplaces,hother s hs]
        rfl
      · rw [hplaces,hplace]
        simp [Place.after,hok]
    | true =>
      have heffect : a.effect (.onDone err) = .callback a.call a.index .none (some a.socket) := by
        simp [ConnectAttempt.effect,hok]
      rw [heffect] at hplaces hanswer
      obtain ⟨k,hk⟩ := h.caller hn
      obtain ⟨hasked,hasks⟩ := h.asks_settled hn hset rfl hk hd (hone k)
      have hfree : ∀ call i, placeOf u.log a.socket ≠ .held call i := by simp [hplace]
      have hb := h.given [] (c.setAsked k []).asked a.call a.index hr
        (by simpa [hcalls] using h.size) (by simpa using hk) hfree (fun s hs => ?_) ?_
        (by simpa using hasks)
      · rw [List.append_nil] at hb
        exact .connected k a.call a.index .none a.socket hk hasked rfl hanswer
          (fun j i hin => not_heldBy hfree j i ((h.hand j _ i).mpr hin)) hb
      · rw [hplaces,hother s hs,
          Place.after_of_not_moves (by simpa [UpstreamEffect.moves] using Ne.symm hs)]
      · rw [hplaces]
        simp [Place.after]

end

end Upstreams
end PerCoreShard
