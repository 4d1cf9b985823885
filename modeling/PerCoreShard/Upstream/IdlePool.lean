import Mathlib.Data.List.Nodup
import PerCoreShard.Upstream.Ownership

/-! The idle pools under any interleaving of calls, connects and timeouts: the pools of the
manager are where the record says they are, and every socket is in one place. -/
namespace PerCoreShard
open Library

/-- The pools hold the sockets that were put there, within their bounds. -/
structure Shelved (m : UpstreamManager) (log : List UpstreamEffect) : Prop where
  next : m.nextEndpoint < m.endpoints.length
  size : m.idlePools.length = m.endpoints.length
  mem : ∀ i socket, socket ∈ m.pool i ↔ placeOf log socket = .pooled i
  nodup : ∀ i, (m.pool i).Nodup
  bounded : ∀ i, (m.pool i).length ≤ m.connectionPoolMaxIdlePerEndpoint

theorem Shelved.emit {m : UpstreamManager} {log : List UpstreamEffect} {e : UpstreamEffect}
    (h : Shelved m log) (hm : ∀ socket i, e.moves socket = true →
      placeOf log socket ≠ .pooled i ∧ placeOf (log ++ [e]) socket ≠ .pooled i) :
    Shelved m (log ++ [e]) := by
  refine { h with mem := fun i socket => ?_ }
  cases hmoves : e.moves socket with
  | false => rw [placeOf_append,Place.after_of_not_moves hmoves,h.mem]
  | true =>
    obtain ⟨hbefore,hafter⟩ := hm socket i hmoves
    rw [h.mem]
    exact ⟨fun hin => absurd hin hbefore,fun hin => absurd hin hafter⟩

namespace Upstreams

/-- What is known of a connect: until its race is decided its socket is connecting and its
callback has not run, and if the connect has not completed by then, it is lost. -/
structure Attempting (u : Upstreams) (a : ConnectAttempt) : Prop where
  call : a.call < u.calls
  socket : a.socket < u.sockets
  connecting : a.race.done = false → a.connecting = true
  place : a.race.done = false → placeOf u.log a.socket = .connecting a.index
  uncalled : a.race.done = false → ∀ e ∈ u.log, e.callsBack a.call = false
  late : a.race.done = true → a.connecting = true → placeOf u.log a.socket = .lost

theorem Attempting.next {u u' : Upstreams} {a : ConnectAttempt} {e : UpstreamEffect}
    (h : Attempting u a) (hp : Permits u.log e) (hlog : u'.log = u.log ++ [e])
    (hcalls : u.calls ≤ u'.calls) (hsockets : u.sockets ≤ u'.sockets)
    (hm : e.moves a.socket = true → a.race.done = true)
    (hc : e.callsBack a.call = true → a.race.done = true) : Attempting u' a where
  call := h.call.trans_le hcalls
  socket := h.socket.trans_le hsockets
  connecting := h.connecting
  place hd := by
    have hstill : e.moves a.socket = false := by
      cases hmoves : e.moves a.socket with
      | false => rfl
      | true =>
        rw [hm hmoves] at hd
        cases hd
    rw [hlog,placeOf_append,Place.after_of_not_moves hstill,h.place hd]
  uncalled hd x hx := by
    rw [hlog] at hx
    rcases List.mem_append.mp hx with hx | hx
    · exact h.uncalled hd x hx
    · rw [List.mem_singleton.mp hx]
      cases hcalls : e.callsBack a.call with
      | false => rfl
      | true =>
        rw [hc hcalls] at hd
        cases hd
  late hd hconnecting := by
    rw [hlog]
    exact lost_stays hp (h.late hd hconnecting)

/-- The invariant of the manager and its connects. -/
structure Tracked (u : Upstreams) : Prop where
  orderly : Orderly u.log
  shelved : Shelved u.manager u.log
  unborn : ∀ socket, u.sockets ≤ socket → placeOf u.log socket = .unborn
  uncalled : ∀ call, u.calls ≤ call → ∀ e ∈ u.log, e.callsBack call = false
  unasked : ∀ call index fresh, .acquire call index fresh ∈ u.log → call < u.calls
  chosen : ∀ e ∈ u.log, ∀ index ∈ e.chooses, index < u.manager.endpoints.length
  attempts : ∀ a ∈ u.attempts, Attempting u a
  sockets : (u.attempts.map ConnectAttempt.socket).Nodup
  calls : (u.attempts.map ConnectAttempt.call).Nodup

/-- An effect that is permitted and about sockets and calls that exist. -/
structure Fits (u : Upstreams) (e : UpstreamEffect) : Prop where
  socket : ∀ socket, e.moves socket = true → socket < u.sockets
  call : ∀ call, e.callsBack call = true → call < u.calls
  acquire : ∀ call index fresh, e = .acquire call index fresh → call < u.calls
  endpoint : ∀ index ∈ e.chooses, index < u.manager.endpoints.length

/-- The parts of the invariant that do not speak of the connects in flight. -/
theorem Tracked.next {u u' : Upstreams} {e : UpstreamEffect} (h : Tracked u)
    (hp : Permits u.log e) (hlog : u'.log = u.log ++ [e]) (hfits : u'.Fits e)
    (hcalls : u.calls ≤ u'.calls) (hsockets : u.sockets ≤ u'.sockets)
    (hendpoints : u'.manager.endpoints.length = u.manager.endpoints.length)
    (hshelved : Shelved u'.manager (u.log ++ [e]))
    (hattempts : ∀ a ∈ u'.attempts, Attempting u' a)
    (hs : (u'.attempts.map ConnectAttempt.socket).Nodup)
    (hc : (u'.attempts.map ConnectAttempt.call).Nodup) : Tracked u' where
  orderly := by
    rw [hlog]
    exact (atEvery_append _ _ _).mpr ⟨h.orderly,hp,trivial⟩
  shelved := by rwa [hlog]
  unborn socket hle := by
    rw [hlog,placeOf_append]
    cases hm : e.moves socket with
    | false => rw [Place.after_of_not_moves hm,h.unborn socket (hsockets.trans hle)]
    | true => exact absurd (hfits.socket socket hm) (Nat.not_lt.mpr hle)
  uncalled call hle x hx := by
    rw [hlog] at hx
    rcases List.mem_append.mp hx with hx | hx
    · exact h.uncalled call (hcalls.trans hle) x hx
    · rw [List.mem_singleton.mp hx]
      cases hc : e.callsBack call with
      | false => rfl
      | true => exact absurd (hfits.call call hc) (Nat.not_lt.mpr hle)
  unasked call index fresh hx := by
    rw [hlog] at hx
    rcases List.mem_append.mp hx with hx | hx
    · exact (h.unasked call index fresh hx).trans_le hcalls
    · exact hfits.acquire call index fresh (List.mem_singleton.mp hx).symm
  chosen x hx index hi := by
    rw [hlog] at hx
    rcases List.mem_append.mp hx with hx | hx
    · rw [hendpoints]
      exact h.chosen x hx index hi
    · exact hfits.endpoint index (List.mem_singleton.mp hx ▸ hi)
  attempts := hattempts
  sockets := hs
  calls := hc

/-- An effect that leaves the manager and the connects as they are. -/
theorem Tracked.emit {u : Upstreams} {e : UpstreamEffect} (h : Tracked u) (hp : Permits u.log e)
    (hfits : u.Fits e)
    (hpool : ∀ socket i, e.moves socket = true →
      placeOf u.log socket ≠ .pooled i ∧ placeOf (u.log ++ [e]) socket ≠ .pooled i)
    (hm : ∀ a ∈ u.attempts, e.moves a.socket = true → a.race.done = true)
    (hc : ∀ a ∈ u.attempts, e.callsBack a.call = true → a.race.done = true) :
    Tracked (u.emit e) :=
  h.next hp rfl { hfits with } le_rfl le_rfl rfl (h.shelved.emit hpool)
    (fun a ha => (h.attempts a ha).next hp rfl le_rfl le_rfl (hm a ha) (hc a ha)) h.sockets h.calls

/-- An effect about no socket and no callback. -/
theorem Tracked.note {u : Upstreams} {e : UpstreamEffect} (h : Tracked u) (hp : Permits u.log e)
    (hm : ∀ socket, e.moves socket = false) (hc : ∀ call, e.callsBack call = false)
    (hacquire : ∀ call index fresh, e = .acquire call index fresh → call < u.calls)
    (hendpoint : ∀ index ∈ e.chooses, index < u.manager.endpoints.length) :
    Tracked (u.emit e) := by
  refine h.emit hp ⟨fun s hs => ?_,fun c hs => ?_,hacquire,hendpoint⟩ (fun s i hs => ?_)
    (fun a _ hs => ?_) (fun a _ hs => ?_)
  · rw [hm] at hs
    cases hs
  · rw [hc] at hs
    cases hs
  · rw [hm] at hs
    cases hs
  · rw [hm] at hs
    cases hs
  · rw [hc] at hs
    cases hs

theorem Tracked.selectEndpoint {u : Upstreams} (h : Tracked u) : Tracked u.selectEndpoint := by
  have hpos : 0 < u.manager.endpoints.length := Nat.zero_lt_of_lt h.shelved.next
  have hm : Tracked { u with manager := u.manager.selectEndpoint.2 } :=
    { h with
      shelved := { h.shelved with next := Nat.mod_lt _ hpos }
      attempts := fun a ha => { h.attempts a ha with } }
  refine hm.note trivial (fun _ => rfl) (fun _ => rfl) (by simp) ?_
  rintro _ ⟨⟩
  exact h.shelved.next

theorem Tracked.beginAcquire {u : Upstreams} (h : Tracked u) (index : ℕ) (fresh : Bool) :
    Tracked (u.beginAcquire index fresh) := by
  have hm : Tracked { u with calls := u.calls + 1 } :=
    { h with
      uncalled := fun call hle => h.uncalled call (Nat.le_of_succ_le hle)
      unasked := fun call i f hin => (h.unasked call i f hin).trans (Nat.lt_succ_self _)
      attempts := fun a ha =>
        { h.attempts a ha with call := (h.attempts a ha).call.trans (Nat.lt_succ_self _) } }
  refine hm.note trivial (fun _ => rfl) (fun _ => rfl) ?_ (by simp [UpstreamEffect.chooses])
  rintro _ _ _ ⟨⟩
  exact Nat.lt_succ_self _

/-- An acquire call that has neither been called back nor started a connect. -/
structure Pending (u : Upstreams) (call : ℕ) : Prop where
  asked : call < u.calls
  uncalled : ∀ e ∈ u.log, e.callsBack call = false
  unstarted : ∀ a ∈ u.attempts, a.call ≠ call

theorem Tracked.pending {u : Upstreams} (h : Tracked u) (index : ℕ) (fresh : Bool) :
    (u.beginAcquire index fresh).Pending u.calls where
  asked := Nat.lt_succ_self _
  uncalled e he := by
    rcases List.mem_append.mp he with he | he
    · exact h.uncalled u.calls le_rfl e he
    · rw [List.mem_singleton.mp he]
      rfl
  unstarted a ha hcall := Nat.lt_irrefl _ (hcall ▸ (h.attempts a ha).call)

theorem Tracked.connectFresh {u : Upstreams} (h : Tracked u) {call index : ℕ}
    (hc : u.Pending call) (hi : index < u.manager.endpoints.length) :
    Tracked (u.connectFresh call index) := by
  have hold : ∀ a ∈ u.attempts, a.socket ≠ u.sockets := fun a ha heq =>
    Nat.lt_irrefl _ (heq ▸ (h.attempts a ha).socket)
  have hunborn := h.unborn u.sockets le_rfl
  refine h.next (e := .connect u.sockets index _) hunborn rfl ⟨?_,?_,?_,?_⟩ le_rfl
    (Nat.le_succ _) rfl (h.shelved.emit ?_) ?_ ?_ ?_
  · intro s hs
    obtain rfl : u.sockets = s := by simpa [UpstreamEffect.moves] using hs
    exact Nat.lt_succ_self _
  · simp [UpstreamEffect.callsBack]
  · simp
  · rintro _ ⟨⟩
    exact hi
  · intro s i hs
    obtain rfl : u.sockets = s := by simpa [UpstreamEffect.moves] using hs
    simp [hunborn,Place.after]
  · intro a ha
    rcases List.mem_append.mp ha with ha | ha
    · refine (h.attempts a ha).next (e := .connect u.sockets index _) hunborn rfl le_rfl
        (Nat.le_succ _) (fun hs => ?_) (fun hs => ?_)
      · obtain heq : u.sockets = a.socket := by simpa [UpstreamEffect.moves] using hs
        exact absurd heq.symm (hold a ha)
      · cases hs
    · rw [List.mem_singleton.mp ha]
      refine ⟨hc.asked,Nat.lt_succ_self _,fun _ => rfl,fun _ => ?_,fun _ x hx => ?_,fun hd => ?_⟩
      · change placeOf (u.log ++ [_]) u.sockets = _
        simp [Place.after]
      · rcases List.mem_append.mp hx with hx | hx
        · exact hc.uncalled x hx
        · rw [List.mem_singleton.mp hx]
          rfl
      · cases hd
  · change ((u.attempts ++ [_]).map ConnectAttempt.socket).Nodup
    rw [List.map_append]
    refine List.nodup_append.mpr ⟨h.sockets,by simp,?_⟩
    simpa using hold
  · change ((u.attempts ++ [_]).map ConnectAttempt.call).Nodup
    rw [List.map_append]
    refine List.nodup_append.mpr ⟨h.calls,by simp,?_⟩
    simpa using hc.unstarted

theorem Tracked.takePooled {u : Upstreams} (h : Tracked u) {call index : ℕ}
    (hc : u.Pending call) (hfresh : ∀ i, .acquire call i true ∉ u.log) {socket : SocketId}
    (hlast : (u.manager.pool index).getLast? = some socket) :
    Tracked (u.takePooled call index socket) := by
  obtain ⟨rest,hrest⟩ : ∃ rest, u.manager.pool index = rest ++ [socket] :=
    ⟨_,(List.dropLast_append_getLast? _ hlast).symm⟩
  have hin : socket ∈ u.manager.pool index := by simp [hrest]
  have hplace := (h.shelved.mem index socket).mp hin
  have hlt := UpstreamManager.lt_of_mem_pool hin
  have hnodup := h.shelved.nodup index
  rw [hrest,List.nodup_append] at hnodup
  have hborn : socket < u.sockets := by
    by_contra hle
    rw [h.unborn socket (Nat.not_lt.mp hle)] at hplace
    cases hplace
  have hpermit : Permits u.log (.callback call index .none (some socket)) :=
    ⟨hc.uncalled,rfl,.inr ⟨hplace,hfresh⟩⟩
  have hpool : ∀ i, (u.manager.setPool index (u.manager.pool index).dropLast).pool i =
      if i = index then rest else u.manager.pool i := by
    intro i
    rw [UpstreamManager.pool_setPool hlt,hrest,List.dropLast_concat]
  refine h.next hpermit rfl ⟨?_,?_,?_,?_⟩ le_rfl le_rfl rfl ?_ ?_ h.sockets h.calls
  · intro s hs
    obtain rfl : socket = s := by simpa [UpstreamEffect.moves] using hs
    exact hborn
  · intro c hs
    obtain rfl : call = c := by simpa [UpstreamEffect.callsBack] using hs
    exact hc.asked
  · simp
  · simp [UpstreamEffect.chooses]
  · refine ⟨h.shelved.next,?_,fun i s => ?_,fun i => ?_,fun i => ?_⟩
    · exact List.length_set.trans h.shelved.size
    · change s ∈ (u.manager.setPool _ _).pool i ↔ _
      rw [hpool,placeOf_append]
      by_cases hs : socket = s
      · subst hs
        have hnot : socket ∉ rest := fun hr => hnodup.2.2 _ hr _ (by simp) rfl
        simp only [Place.after,if_true]
        refine iff_of_false ?_ (by simp)
        split
        · exact hnot
        · rw [h.shelved.mem,hplace]
          simp_all [eq_comm]
      · have hstill : (placeOf u.log s).after s
            (.callback call index .none (some socket)) = placeOf u.log s :=
          Place.after_of_not_moves (by simp [UpstreamEffect.moves,hs]) _
        rw [hstill,← h.shelved.mem]
        split
        next hi =>
          subst hi
          simp [hrest,Ne.symm hs]
        next => rfl
    · change ((u.manager.setPool _ _).pool i).Nodup
      rw [hpool]
      split
      · exact hnodup.1
      · exact h.shelved.nodup i
    · change ((u.manager.setPool _ _).pool i).length ≤ _
      rw [hpool]
      split
      · have := h.shelved.bounded index
        rw [hrest,List.length_append] at this
        exact (Nat.le_add_right _ _).trans this
      · exact h.shelved.bounded i
  · intro a ha
    refine (h.attempts a ha).next hpermit rfl le_rfl le_rfl (fun hs => ?_) (fun hs => ?_)
    · obtain heq : socket = a.socket := by simpa [UpstreamEffect.moves] using hs
      cases hd : a.race.done with
      | true => rfl
      | false =>
        have := (h.attempts a ha).place hd
        rw [← heq,hplace] at this
        cases this
    · obtain heq : call = a.call := by simpa [UpstreamEffect.callsBack] using hs
      exact absurd heq.symm (hc.unstarted a ha)

theorem Tracked.acquireConnection {u : Upstreams} (h : Tracked u) {index : ℕ}
    (hi : index < u.manager.endpoints.length) : Tracked (u.acquireConnection index) := by
  have hbegin := h.beginAcquire index false
  have hpending := h.pending index false
  unfold Upstreams.acquireConnection
  split
  next socket hlast =>
    refine hbegin.takePooled hpending (fun i hin => ?_) hlast
    rcases List.mem_append.mp hin with hin | hin
    · exact Nat.lt_irrefl _ (h.unasked _ _ _ hin)
    · simp at hin
  next => exact hbegin.connectFresh hpending hi

theorem Tracked.acquireFreshConnection {u : Upstreams} (h : Tracked u) {index : ℕ}
    (hi : index < u.manager.endpoints.length) : Tracked (u.acquireFreshConnection index) :=
  (h.beginAcquire index true).connectFresh (h.pending index true) hi

/-- A move of a socket that is neither connecting nor in a pool, before or after. -/
theorem Tracked.move {u : Upstreams} {e : UpstreamEffect} (h : Tracked u) (socket : SocketId)
    (hp : Permits u.log e) (hm : ∀ s, e.moves s = true → s = socket)
    (hc : ∀ call, e.callsBack call = false) (hacquire : ∀ call i f, e ≠ .acquire call i f)
    (hchooses : e.chooses = none) (hborn : placeOf u.log socket ≠ .unborn)
    (hconnecting : ∀ i, placeOf u.log socket ≠ .connecting i)
    (hbefore : ∀ i, placeOf u.log socket ≠ .pooled i)
    (hafter : ∀ i, placeOf (u.log ++ [e]) socket ≠ .pooled i) : Tracked (u.emit e) := by
  have hlt : socket < u.sockets := by
    by_contra hle
    exact hborn (h.unborn socket (Nat.not_lt.mp hle))
  refine h.emit hp ⟨fun s hs => hm s hs ▸ hlt,fun c hs => ?_,
    fun c i f he => absurd he (hacquire c i f),by simp [hchooses]⟩
    (fun s i hs => hm s hs ▸ ⟨hbefore i,hafter i⟩)
    (fun a ha hs => ?_) (fun a _ hs => ?_)
  · rw [hc] at hs
    cases hs
  · cases hd : a.race.done with
    | true => rfl
    | false => exact absurd ((h.attempts a ha).place hd) (hm a.socket hs ▸ hconnecting a.index)
  · rw [hc] at hs
    cases hs

theorem Tracked.discard {u : Upstreams} (h : Tracked u) {socket : SocketId}
    (hheld : ∃ call index, placeOf u.log socket = .held call index) :
    Tracked (u.emit (.discard socket)) := by
  obtain ⟨call,index,hplace⟩ := hheld
  refine h.move socket ⟨call,index,hplace⟩ (fun s hs => ?_) (fun _ => rfl) (by simp)
    rfl (by simp [hplace]) (by simp [hplace]) (by simp [hplace]) (by simp [Place.after])
  exact (eq_of_beq hs).symm

/-- A socket that was released is put into a pool that has room for it. -/
theorem Tracked.poolReleased {u : Upstreams} (h : Tracked u) {index : ℕ} {socket : SocketId}
    (hplace : placeOf u.log socket = .released index) (hlt : index < u.manager.idlePools.length)
    (hroom : (u.manager.pool index).length < u.manager.connectionPoolMaxIdlePerEndpoint) :
    Tracked ({ u with
      manager := u.manager.setPool index (u.manager.pool index ++ [socket]) }.emit
      (.pool index socket)) := by
  have hborn : socket < u.sockets := by
    by_contra hle
    rw [h.unborn socket (Nat.not_lt.mp hle)] at hplace
    cases hplace
  have hout : ∀ i, socket ∉ u.manager.pool i := fun i hin => by
    rw [h.shelved.mem,hplace] at hin
    cases hin
  have hpool : ∀ i, (u.manager.setPool index (u.manager.pool index ++ [socket])).pool i =
      if i = index then u.manager.pool index ++ [socket] else u.manager.pool i :=
    fun i => UpstreamManager.pool_setPool hlt _ i
  refine h.next (e := .pool index socket) hplace rfl ⟨fun s hs => eq_of_beq hs ▸ hborn,?_,?_,?_⟩
    le_rfl le_rfl rfl ?_ ?_ h.sockets h.calls
  · simp [UpstreamEffect.callsBack]
  · simp
  · simp [UpstreamEffect.chooses]
  · refine ⟨h.shelved.next,List.length_set.trans h.shelved.size,fun i s => ?_,fun i => ?_,
      fun i => ?_⟩
    · change s ∈ (u.manager.setPool _ _).pool i ↔ _
      rw [hpool,placeOf_append]
      by_cases hs : socket = s
      · subst hs
        simp only [Place.after,if_true,Place.pooled.injEq]
        split
        next hi => simp [hi]
        next hi => exact iff_of_false (hout i) (Ne.symm hi)
      · have hstill : (placeOf u.log s).after s (.pool index socket) = placeOf u.log s :=
          Place.after_of_not_moves (by simp [UpstreamEffect.moves,hs]) _
        rw [hstill,← h.shelved.mem]
        split
        next hi =>
          subst hi
          simp [Ne.symm hs]
        next => rfl
    · change ((u.manager.setPool _ _).pool i).Nodup
      rw [hpool]
      split
      · refine List.nodup_append.mpr ⟨h.shelved.nodup index,by simp,?_⟩
        rintro a ha b hb rfl
        exact hout index (List.mem_singleton.mp hb ▸ ha)
      · exact h.shelved.nodup i
    · change ((u.manager.setPool _ _).pool i).length ≤ _
      rw [hpool]
      split
      · rw [List.length_append]
        exact hroom
      · exact h.shelved.bounded i
  · intro a ha
    refine (h.attempts a ha).next (e := .pool index socket) hplace rfl le_rfl le_rfl (fun hs => ?_)
      (fun hs => by cases hs)
    cases hd : a.race.done with
    | true => rfl
    | false =>
      have := (h.attempts a ha).place hd
      rw [← eq_of_beq hs,hplace] at this
      cases this

theorem Tracked.releaseConnection {u : Upstreams} (h : Tracked u) {index : ℕ}
    {socket : SocketId} (hheld : ∃ call, placeOf u.log socket = .held call index) :
    Tracked (u.releaseConnection index socket) := by
  obtain ⟨call,hplace⟩ := hheld
  have hrelease : Tracked (u.emit (.release index socket)) := by
    refine h.move socket ⟨call,hplace⟩ (fun s hs => ?_) (fun _ => rfl) (by simp)
      rfl (by simp [hplace]) (by simp [hplace]) (by simp [hplace]) (by simp [Place.after])
    exact (eq_of_beq hs).symm
  have hreleased : placeOf (u.emit (.release index socket)).log socket = .released index := by
    simp [Upstreams.emit,Place.after]
  unfold Upstreams.releaseConnection
  split
  · refine hrelease.move socket ⟨index,hreleased⟩ (fun s hs => ?_) (fun _ => rfl)
      (by simp) rfl (by simp [hreleased]) (by simp [hreleased]) (by simp [hreleased])
      (by simp [Place.after])
    exact (eq_of_beq hs).symm
  next hroom =>
    have hexplained : ConnectedFor _ socket index :=
      (explained hrelease.orderly socket).endpoint index (by rw [hreleased]; rfl)
    obtain ⟨⟨target,hconnect⟩,-⟩ := hexplained
    have hlt : index < u.manager.idlePools.length := by
      rw [h.shelved.size]
      exact hrelease.chosen _ hconnect index rfl
    exact hrelease.poolReleased hreleased hlt (Nat.lt_of_not_le hroom)

theorem map_setAttempt {as : List ConnectAttempt} {k : ℕ} {a b : ConnectAttempt}
    (hk : as[k]? = some a) (f : ConnectAttempt → ℕ) (hf : f b = f a) :
    (as.set k b).map f = as.map f := by
  obtain ⟨hlt,rfl⟩ := List.getElem?_eq_some_iff.mp hk
  have hlt' : k < (as.map f).length := by simpa using hlt
  have hself : (as.map f).set k (as.map f)[k] = as.map f := List.set_getElem_self hlt'
  rw [List.map_set,hf]
  simpa only [List.getElem_map] using hself

/-- What becomes of an attempt when one of its handlers was called. -/
theorem Tracked.setAttempt {u : Upstreams} (h : Tracked u) {k : ℕ} {a b : ConnectAttempt}
    (hk : u.attempts[k]? = some a) (hb : Attempting u b) (hs : b.socket = a.socket)
    (hc : b.call = a.call) : Tracked { u with attempts := u.attempts.set k b } := by
  refine { h with attempts := fun x hx => ?_, sockets := ?_, calls := ?_ }
  · rcases List.mem_or_eq_of_mem_set hx with hx | rfl
    · exact { h.attempts x hx with }
    · exact { hb with }
  · change ((u.attempts.set k b).map _).Nodup
    rw [map_setAttempt hk _ hs]
    exact h.sockets
  · change ((u.attempts.set k b).map _).Nodup
    rw [map_setAttempt hk _ hc]
    exact h.calls

theorem Tracked.eq_of_socket {u : Upstreams} (h : Tracked u) {a b : ConnectAttempt}
    (ha : a ∈ u.attempts) (hb : b ∈ u.attempts) (hs : a.socket = b.socket) : a = b :=
  List.inj_on_of_nodup_map h.sockets ha hb hs

theorem Tracked.eq_of_call {u : Upstreams} (h : Tracked u) {a b : ConnectAttempt}
    (ha : a ∈ u.attempts) (hb : b ∈ u.attempts) (hc : a.call = b.call) : a = b :=
  List.inj_on_of_nodup_map h.calls ha hb hc

theorem uncalled_emit {log : List UpstreamEffect} {call : ℕ} {e : UpstreamEffect}
    (h : ∀ x ∈ log, x.callsBack call = false) (he : e.callsBack call = false) :
    ∀ x ∈ log ++ [e], x.callsBack call = false := by
  intro x hx
  rcases List.mem_append.mp hx with hx | hx
  · exact h x hx
  · exact List.mem_singleton.mp hx ▸ he

/-- The callback of an attempt whose race is decided. -/
theorem Tracked.deliverResult {u : Upstreams} (h : Tracked u) {a : ConnectAttempt}
    (ha : a ∈ u.attempts) (hd : a.race.done = true)
    (hc : ∀ e ∈ u.log, e.callsBack a.call = false) {err : NetError}
    (hok : err.ok = true → placeOf u.log a.socket = .connected a.index) :
    Tracked (u.deliverResult a err) := by
  have hcall : ∀ b ∈ u.attempts, a.call = b.call → b.race.done = true :=
    fun b hb heq => h.eq_of_call ha hb heq ▸ hd
  unfold Upstreams.deliverResult
  cases herr : err.ok with
  | false =>
    have hp : Permits u.log (.callback a.call a.index err none) := ⟨hc,herr⟩
    simp only [Bool.not_false,if_true]
    refine h.emit hp ⟨?_,fun c hs => eq_of_beq hs ▸ (h.attempts a ha).call,by simp,
      by simp [UpstreamEffect.chooses]⟩ ?_ ?_ (fun b hb hs => hcall b hb (eq_of_beq hs))
    · simp [UpstreamEffect.moves]
    · simp [UpstreamEffect.moves]
    · simp [UpstreamEffect.moves]
  | true =>
    have hplace := hok herr
    have hp : Permits u.log (.callback a.call a.index .none (some a.socket)) :=
      ⟨hc,rfl,.inl hplace⟩
    simp only [Bool.not_true,Bool.false_eq_true,if_false]
    refine h.emit hp ⟨fun s hs => eq_of_beq hs ▸ (h.attempts a ha).socket,
      fun c hs => eq_of_beq hs ▸ (h.attempts a ha).call,by simp,by simp [UpstreamEffect.chooses]⟩
      (fun s i hs => ?_) (fun b hb hs => ?_) (fun b hb hs => hcall b hb (eq_of_beq hs))
    · rw [← eq_of_beq hs,placeOf_append,hplace]
      simp [Place.after]
    · exact h.eq_of_socket ha hb (eq_of_beq hs) ▸ hd

theorem Tracked.onConnectDone {u : Upstreams} (h : Tracked u) {k : ℕ} {a : ConnectAttempt}
    (hk : u.attempts[k]? = some a) (hc : a.connecting = true) (err : NetError) :
    Tracked (u.onConnectDone k a err) := by
  have ha := h.attempts a (List.mem_of_getElem? hk)
  have hlt : k < u.attempts.length := (List.getElem?_eq_some_iff.mp hk).1
  cases hd : a.race.done with
  | true =>
    have hplace := ha.late hd hc
    have hset : Tracked { u with attempts := u.attempts.set k { a with connecting := false } } :=
      h.setAttempt hk { ha with
        connecting := fun hn => by rw [hd] at hn; cases hn
        late := fun _ hn => by cases hn } rfl rfl
    have honly : u.onConnectDone k a err =
        { u with attempts := u.attempts.set k { a with connecting := false } }.emit
          (.connectDone a.socket err) := by
      simp [Upstreams.onConnectDone,Race.onOp,hd]
    rw [honly]
    refine hset.move a.socket (.inr hplace) (fun s hs => (eq_of_beq hs).symm)
      (fun _ => rfl) (by simp) rfl ?_ ?_ ?_ ?_
    · simp [hplace]
    · simp [hplace]
    · simp [hplace]
    · simp [hplace,Place.after]
  | false =>
    have hplace := ha.place hd
    set b : ConnectAttempt := { a with race := { done := true }, connecting := false } with hb
    set u0 : Upstreams := { u with attempts := u.attempts.set k b } with hu0
    have hmem : b ∈ u0.attempts := List.mem_set hlt b
    have hset : Tracked u0 := h.setAttempt hk
      { ha with
        connecting := fun hn => by cases hn
        place := fun hn => by cases hn
        uncalled := fun hn => by cases hn
        late := fun _ hn => by cases hn } rfl rfl
    have honly : u.onConnectDone k a err =
        ((u0.emit (.connectDone a.socket err)).emit (.cancelTimer a.socket)).deliverResult a err := by
      simp [Upstreams.onConnectDone,Race.onOp,hd,perform,hu0,hb]
    have hdone : Tracked (u0.emit (.connectDone a.socket err)) := by
      refine hset.emit (.inl ⟨a.index,hplace⟩) ⟨fun s hs => eq_of_beq hs ▸ ha.socket,?_,by simp,
        by simp [UpstreamEffect.chooses]⟩ (fun s i hs => ?_) (fun x hx hs => ?_)
        (fun x _ hs => by cases hs)
      · simp [UpstreamEffect.callsBack]
      · rw [← eq_of_beq hs,placeOf_append]
        change placeOf u.log a.socket ≠ _ ∧ (placeOf u.log a.socket).after _ _ ≠ _
        rw [hplace]
        cases hok : err.ok <;> simp [Place.after,hok]
      · exact hset.eq_of_socket hmem hx (eq_of_beq hs) ▸ rfl
    have hcancelled : Tracked ((u0.emit (.connectDone a.socket err)).emit (.cancelTimer a.socket)) :=
      hdone.note trivial (fun _ => rfl) (fun _ => rfl) (by simp) (by simp [UpstreamEffect.chooses])
    rw [honly]
    refine hcancelled.deliverResult (a := b) hmem rfl
      (uncalled_emit (uncalled_emit (ha.uncalled hd) rfl) rfl) (fun hok => ?_)
    · change placeOf (u.log ++ [_] ++ [_]) a.socket = .connected a.index
      rw [placeOf_append,placeOf_append,hplace]
      simp [Place.after,hok]

/-- The timer wins: the attempt is over before its connect has completed. -/
theorem Tracked.cancelConnect {u : Upstreams} (h : Tracked u) {k : ℕ} {a : ConnectAttempt}
    (hk : u.attempts[k]? = some a) (hd : a.race.done = false) :
    Tracked ({ u with
      attempts := u.attempts.set k { a with race := { done := true }, waiting := false } }.emit
      (.cancelConnect a.socket)) := by
  set b : ConnectAttempt := { a with race := { done := true }, waiting := false } with hb
  have ha := h.attempts a (List.mem_of_getElem? hk)
  have hplace := ha.place hd
  have hmem : b ∈ u.attempts.set k b := List.mem_set (List.getElem?_eq_some_iff.mp hk).1 b
  have hsockets : ((u.attempts.set k b).map ConnectAttempt.socket).Nodup := by
    rw [map_setAttempt (b := b) hk _ rfl]
    exact h.sockets
  have hcalls : ((u.attempts.set k b).map ConnectAttempt.call).Nodup := by
    rw [map_setAttempt (b := b) hk _ rfl]
    exact h.calls
  refine h.next (e := .cancelConnect a.socket) ⟨a.index,hplace⟩ rfl
    ⟨fun s hs => eq_of_beq hs ▸ ha.socket,?_,by simp,by simp [UpstreamEffect.chooses]⟩ le_rfl
    le_rfl rfl (h.shelved.emit fun s i hs => ?_) (fun x hx => ?_) hsockets hcalls
  · simp [UpstreamEffect.callsBack]
  · rw [← eq_of_beq hs,placeOf_append,hplace]
    simp [Place.after]
  · by_cases hs : x.socket = a.socket
    · obtain rfl : x = b := List.inj_on_of_nodup_map hsockets hx hmem hs
      refine ⟨ha.call,ha.socket,(fun hn => by cases hn),(fun hn => by cases hn),
        (fun hn => by cases hn),fun _ _ => ?_⟩
      change placeOf (u.log ++ [_]) a.socket = _
      rw [placeOf_append]
      simp [Place.after]
    · have hold : x ∈ u.attempts := by
        refine (List.mem_or_eq_of_mem_set hx).resolve_right fun heq => hs ?_
        rw [heq]
      refine (h.attempts x hold).next (e := .cancelConnect a.socket) ⟨a.index,hplace⟩
        rfl le_rfl le_rfl (fun hm => ?_) (fun hm => by cases hm)
      exact absurd (eq_of_beq hm).symm hs

theorem Tracked.onTimerDone {u : Upstreams} (h : Tracked u) {k : ℕ} {a : ConnectAttempt}
    (hk : u.attempts[k]? = some a) (err : NetError) : Tracked (u.onTimerDone k a err) := by
  have hin := List.mem_of_getElem? hk
  have ha := h.attempts a hin
  have hlt : k < u.attempts.length := (List.getElem?_eq_some_iff.mp hk).1
  have hquiet : a.race.onTimer err = ([],a.race) → Tracked (u.onTimerDone k a err) := by
    intro hnothing
    have honly : u.onTimerDone k a err =
        { u with attempts := u.attempts.set k { a with waiting := false } }.emit
          (.timerDone a.socket err) := by
      simp [Upstreams.onTimerDone,hnothing]
    rw [honly]
    have hset : Tracked { u with attempts := u.attempts.set k { a with waiting := false } } :=
      h.setAttempt hk { ha with } rfl rfl
    exact hset.note trivial (fun _ => rfl) (fun _ => rfl) (by simp) (by simp [UpstreamEffect.chooses])
  cases hd : a.race.done with
  | true => exact hquiet (by simp [Race.onTimer,hd])
  | false =>
    cases hok : err.ok with
    | false => exact hquiet (by simp [Race.onTimer,hok])
    | true =>
      have hexpired : Tracked (u.emit (.timerDone a.socket err)) :=
        h.note trivial (fun _ => rfl) (fun _ => rfl) (by simp) (by simp [UpstreamEffect.chooses])
      have hcancelled := hexpired.cancelConnect hk hd
      have honly : u.onTimerDone k a err = ({ u.emit (.timerDone a.socket err) with
          attempts := u.attempts.set k { a with race := { done := true }, waiting := false } }.emit
          (.cancelConnect a.socket)).deliverResult a .timedOut := by
        simp [Upstreams.onTimerDone,Race.onTimer,hd,hok,perform,Upstreams.emit]
      rw [honly]
      refine hcancelled.deliverResult (a := { a with race := { done := true }, waiting := false })
        (List.mem_set hlt _) rfl (uncalled_emit (uncalled_emit (ha.uncalled hd) rfl) rfl)
        (fun hn => by cases hn)

theorem tracked_of_reaches {maxIdle : ℕ} {u : Upstreams} (h : (system maxIdle).Reaches u) :
    Tracked u := by
  refine h.invariant ?_ ?_
  · rintro _ ⟨upstreams,hne,rfl⟩
    have hempty : ∀ i, (UpstreamManager.create upstreams maxIdle).pool i = [] := by
      intro i
      simp only [UpstreamManager.create,UpstreamManager.pool,List.getD_eq_getElem?_getD,
        List.getElem?_replicate]
      split <;> rfl
    refine ⟨trivial,⟨?_,by simp [UpstreamManager.create],fun i s => ?_,fun i => ?_,fun i => ?_⟩,
      fun _ _ => rfl,by simp,by simp,by simp,by simp,by simp,by simp⟩
    · simpa [UpstreamManager.create] using List.length_pos_iff.mpr hne
    · simp [hempty]
    · simp [hempty]
    · simp [hempty]
  · intro u e u' hu hstep
    cases hstep with
    | request r hr =>
      cases r with
      | select => exact hu.selectEndpoint
      | acquire index => exact hu.acquireConnection hr
      | acquireFresh index => exact hu.acquireFreshConnection hr
      | release index socket => exact hu.releaseConnection hr
      | discard socket => exact hu.discard hr
    | connectDone k a err hk hc => exact hu.onConnectDone hk hc err
    | timerDone k a err hk hw => exact hu.onTimerDone hk err
    | refresh resolve =>
      have hlen : (u.manager.resolveAll resolve).endpoints.length = u.manager.endpoints.length := by
        simp [UpstreamManager.resolveAll]
      exact { hu with
        shelved := { hu.shelved with
          next := hlen ▸ hu.shelved.next
          size := hu.shelved.size.trans hlen.symm }
        chosen := fun e he i hi => hlen ▸ hu.chosen e he i hi
        attempts := fun a ha => { hu.attempts a ha with } }

end Upstreams
end PerCoreShard
