import PerCoreShard.Library.RoundRobin
import PerCoreShard.Upstream.Custody

/-! The endpoints of an `UpstreamManager`: the turns in which they are selected, and the
addresses that are connected to while their names are resolved again and again. -/
namespace PerCoreShard
open Library

def UpstreamEffect.selected : UpstreamEffect → Option ℕ
  | .select index => some index
  | _ => none

def UpstreamEvent.resolver : UpstreamEvent → Option (Bytes → ℕ → Option NetEndpoint)
  | .refresh resolve => some resolve
  | _ => none

namespace Upstreams

/-- The address that `connect_fresh` finds for an endpoint. -/
def address (u : Upstreams) (index : ℕ) : NetEndpoint :=
  ((u.manager.endpoints[index]?).map UpstreamEndpoint.resolved).getD {}

/-- What a step has to do with the endpoints. -/
inductive Concerns (u : Upstreams) (e : UpstreamEvent) (u' : Upstreams) : Prop
  | select (event : e.resolver = none)
      (log : u'.log = u.log ++ [.select u.manager.nextEndpoint])
      (manager : u'.manager = u.manager.selectEndpoint.2)
  | connect (event : e.resolver = none) (index : ℕ) (fresh : Bool)
      (inRange : index < u.manager.endpoints.length)
      (log : u'.log = u.log ++
        [.acquire u.calls index fresh,.connect u.sockets index (u.address index)])
      (manager : u'.manager = u.manager)
  | refresh (resolve : Bytes → ℕ → Option NetEndpoint) (event : e.resolver = some resolve)
      (log : u'.log = u.log) (manager : u'.manager = u.manager.resolveAll resolve)
  | apart (event : e.resolver = none) (entries : List UpstreamEffect)
      (log : u'.log = u.log ++ entries) (plain : ∀ x ∈ entries, x.chooses = none)
      (endpoints : u'.manager.endpoints = u.manager.endpoints)
      (next : u'.manager.nextEndpoint = u.manager.nextEndpoint)

theorem chooses_effect (a : ConnectAttempt) (actions : List RaceAction) :
    ∀ x ∈ actions.map a.effect, x.chooses = none := by
  intro x hx
  obtain ⟨action,-,rfl⟩ := List.mem_map.mp hx
  cases action with
  | cancelTimer | cancelOp => rfl
  | onDone err =>
    cases hok : err.ok <;> simp [ConnectAttempt.effect,hok,UpstreamEffect.chooses]

theorem concerns_of_step {u u' : Upstreams} {e : UpstreamEvent} (h : Step u e u') :
    Concerns u e u' := by
  cases h with
  | request r hr =>
    cases r with
    | select => exact .select rfl rfl rfl
    | acquire index =>
      change Concerns u _ (u.acquireConnection index)
      unfold acquireConnection
      split
      next socket _ =>
        refine .apart rfl [.acquire u.calls index false,.callback u.calls index .none (some socket)]
          ?_ (by simp [UpstreamEffect.chooses]) rfl rfl
        simp [takePooled,beginAcquire,emit]
      next => exact .connect rfl index false hr (by simp [connectFresh,beginAcquire,emit,address]) rfl
    | acquireFresh index =>
      refine .connect rfl index true hr ?_ rfl
      simp [serve,acquireFreshConnection,connectFresh,beginAcquire,emit,address]
    | release index socket =>
      change Concerns u _ (u.releaseConnection index socket)
      unfold releaseConnection
      split
      · exact .apart rfl [.release index socket,.close socket] (by simp [emit])
          (by simp [UpstreamEffect.chooses]) rfl rfl
      · exact .apart rfl [.release index socket,.pool index socket] (by simp [emit])
          (by simp [UpstreamEffect.chooses]) rfl rfl
    | discard socket =>
      exact .apart rfl [.discard socket] rfl (by simp [UpstreamEffect.chooses]) rfl rfl
  | connectDone k a err _ _ =>
    have hmanager : (u.onConnectDone k a err).manager = u.manager :=
      (attempts_foldl_perform a _ _).2.2.1
    refine .apart rfl _ (log_onConnectDone u k a err) ?_ (by rw [hmanager]) (by rw [hmanager])
    exact List.forall_mem_cons.mpr ⟨rfl,chooses_effect a _⟩
  | timerDone k a err _ _ =>
    have hmanager : (u.onTimerDone k a err).manager = u.manager :=
      (attempts_foldl_perform a _ _).2.2.1
    refine .apart rfl _ (log_onTimerDone u k a err) ?_ (by rw [hmanager]) (by rw [hmanager])
    exact List.forall_mem_cons.mpr ⟨rfl,chooses_effect a _⟩
  | refresh resolve => exact .refresh resolve rfl rfl rfl

/-- The endpoints that were selected, the first one first. -/
def selections (u : Upstreams) : List ℕ := u.log.filterMap UpstreamEffect.selected

theorem selected_of_chooses {es : List UpstreamEffect} (h : ∀ x ∈ es, x.chooses = none) :
    es.filterMap UpstreamEffect.selected = [] := by
  refine List.filterMap_eq_nil_iff.mpr fun x hx => ?_
  have hx := h x hx
  cases x with
  | select => cases hx
  | _ => rfl

/-- The selections so far went round and round, and `next_endpoint_` says where they are. -/
structure InTurn (u : Upstreams) : Prop where
  positive : 0 < u.manager.endpoints.length
  next : u.manager.nextEndpoint = u.selections.length % u.manager.endpoints.length
  order : u.selections = (List.range u.selections.length).map (· % u.manager.endpoints.length)

theorem InTurn.same {u u' : Upstreams} (h : InTurn u) {entries : List UpstreamEffect}
    (hlog : u'.log = u.log ++ entries) (hplain : entries.filterMap UpstreamEffect.selected = [])
    (hlength : u'.manager.endpoints.length = u.manager.endpoints.length)
    (hnext : u'.manager.nextEndpoint = u.manager.nextEndpoint) : InTurn u' := by
  have hselections : u'.selections = u.selections := by
    rw [selections,hlog,List.filterMap_append,hplain,List.append_nil,selections]
  refine ⟨hlength ▸ h.positive,?_,?_⟩
  · rw [hnext,hselections,hlength,h.next]
  · rw [hselections,hlength]
    exact h.order

theorem InTurn.step {u u' : Upstreams} {e : UpstreamEvent} (h : InTurn u) (hs : Step u e u') :
    InTurn u' := by
  cases concerns_of_step hs with
  | select event log manager =>
    have hselections : u'.selections = u.selections ++ [u.manager.nextEndpoint] := by
      rw [selections,log,List.filterMap_append]
      rfl
    have hlength : u'.manager.endpoints.length = u.manager.endpoints.length := by
      rw [manager]
      rfl
    refine ⟨hlength ▸ h.positive,?_,?_⟩
    · rw [manager,hselections,List.length_append,List.length_singleton]
      change (u.manager.nextEndpoint + 1) % u.manager.endpoints.length = _
      rw [h.next,Nat.mod_add_mod]
      rfl
    · rw [hselections,List.length_append,List.length_singleton,List.range_succ,List.map_append,
        hlength,← h.order,h.next]
      rfl
  | connect event index fresh inRange log manager =>
    exact h.same log rfl (by rw [manager]) (by rw [manager])
  | refresh resolve event log manager =>
    have hlog : u'.log = u.log ++ [] := by rw [log,List.append_nil]
    refine h.same hlog rfl ?_ (by rw [manager]; rfl)
    rw [manager]
    exact List.length_map ..
  | apart event entries log plain endpoints next =>
    exact h.same log (selected_of_chooses plain) (by rw [endpoints]) next

theorem inTurn_of_reaches {maxIdle : ℕ} {u : Upstreams} (h : (system maxIdle).Reaches u) :
    InTurn u := by
  refine h.invariant ?_ fun _ _ _ => InTurn.step
  rintro _ ⟨upstreams,hne,rfl⟩
  refine ⟨?_,rfl,rfl⟩
  rw [show (UpstreamManager.create upstreams maxIdle).endpoints.length = upstreams.length from
    List.length_map ..]
  exact List.length_pos_of_ne_nil hne

/-- Whatever is asked of the manager in between, requests are given to the endpoints in turn, and
no endpoint gets more than one request more than another. -/
theorem selections_in_turn {maxIdle : ℕ} {u : Upstreams} (h : (system maxIdle).Reaches u) :
    (∀ k index, u.selections[k]? = some index → index = k % u.manager.endpoints.length) ∧
      ∀ i j, i < u.manager.endpoints.length → j < u.manager.endpoints.length →
        u.selections.count i ≤ u.selections.count j + 1 := by
  have hturn := inTurn_of_reaches h
  refine ⟨fun k index hk => ?_,fun i j hi hj => ?_⟩
  · rw [hturn.order,List.getElem?_map] at hk
    obtain ⟨x,hx,rfl⟩ := Option.map_eq_some_iff.mp hk
    obtain ⟨_,rfl⟩ := List.getElem?_eq_some_iff.mp hx
    simp
  · rw [hturn.order,count_map_mod,count_map_mod]
    exact length_share_le hi hj _

def twoUpstreams : Upstreams := { manager := .create [(ascii "a",80),(ascii "b",80)] 1 }

theorem selections_in_turn_two :
    let u := (twoUpstreams.selectEndpoint.acquireFreshConnection 0).selectEndpoint.selectEndpoint
    u.selections = [0,1,0] ∧ u.selections.count 0 ≤ u.selections.count 1 + 1 := by
  have hinitial : (system 1).Reaches twoUpstreams :=
    .initial ⟨[(ascii "a",80),(ascii "b",80)],by decide,rfl⟩
  have hacquired : (system 1).Reaches (twoUpstreams.selectEndpoint.acquireFreshConnection 0) :=
    .step (.step hinitial trivial (.request .select trivial)) trivial
      (.request (.acquireFresh 0) Nat.zero_lt_two)
  have hselected := hacquired.step trivial (.request .select trivial)
  exact ⟨by decide,(selections_in_turn (hselected.step trivial (.request .select trivial))).2 0 1
    (by decide) (by decide)⟩

/-- A manager with all that has happened to it. -/
def traced (upstreams : List (Bytes × ℕ)) (maxIdle : ℕ) :
    System (Upstreams × List UpstreamEvent) UpstreamEvent where
  initial p := upstreams ≠ [] ∧ p = ({ manager := .create upstreams maxIdle },[])
  step p e p' := Step p.1 e p'.1 ∧ p'.2 = p.2 ++ [e]

/-- The address that the resolver found for a name when it last found one. -/
def lastResolved (trace : List UpstreamEvent) (host : Bytes) (port : ℕ) : Option NetEndpoint :=
  (trace.filterMap UpstreamEvent.resolver).reverse.findSome? fun resolve => resolve host port

theorem lastResolved_append (trace : List UpstreamEvent) (e : UpstreamEvent) (host : Bytes)
    (port : ℕ) : lastResolved (trace ++ [e]) host port =
      (e.resolver.bind fun resolve => resolve host port).or (lastResolved trace host port) := by
  rw [lastResolved,List.filterMap_append,List.reverse_append]
  cases he : e.resolver with
  | none => simp [he,lastResolved]
  | some resolve => cases hr : resolve host port <;> simp [he,hr,lastResolved]

/-- The endpoints are those of the configuration, at the addresses found last. -/
theorem endpoints_of_traced {upstreams : List (Bytes × ℕ)} {maxIdle : ℕ}
    {p : Upstreams × List UpstreamEvent} (h : (traced upstreams maxIdle).Reaches p) :
    p.1.manager.endpoints = upstreams.map fun q =>
      { host := q.1, port := q.2, resolved := (lastResolved p.2 q.1 q.2).getD {} } := by
  refine h.invariant (I := fun p => p.1.manager.endpoints = upstreams.map fun q =>
    { host := q.1, port := q.2, resolved := (lastResolved p.2 q.1 q.2).getD {} }) ?_ ?_
  · rintro _ ⟨-,rfl⟩
    rfl
  · rintro ⟨u,trace⟩ e ⟨u',trace'⟩ hI ⟨hs,rfl⟩
    simp only [lastResolved_append]
    change u.manager.endpoints = _ at hI
    cases concerns_of_step hs with
    | select event log manager =>
      simp only [event,Option.bind_none,Option.none_or]
      rw [manager]
      exact hI
    | connect event index fresh inRange log manager =>
      simp only [event,Option.bind_none,Option.none_or]
      rw [manager]
      exact hI
    | refresh resolve event log manager =>
      rw [manager]
      change u.manager.endpoints.map _ = _
      rw [hI,List.map_map]
      refine List.map_congr_left fun q _ => ?_
      cases hr : resolve q.1 q.2 <;> simp [event,hr]
    | apart event entries log plain endpoints next =>
      simp only [event,Option.bind_none,Option.none_or]
      rw [endpoints]
      exact hI

/-- In every interleaving of requests, refreshes and completions, what is connected to is the
address that the resolver found last for the name in the configuration; a refresh that fails
leaves the address before it in force. -/
theorem connects_to_last_resolved {upstreams : List (Bytes × ℕ)} {maxIdle : ℕ} {u u' : Upstreams}
    {trace : List UpstreamEvent} (h : (traced upstreams maxIdle).Reaches (u,trace))
    {e : UpstreamEvent} (hs : Step u e u') : ∃ entries, u'.log = u.log ++ entries ∧
      ∀ socket index target, .connect socket index target ∈ entries → ∃ host port,
        upstreams[index]? = some (host,port) ∧
          target = (lastResolved trace host port).getD {} := by
  have hendpoints : u.manager.endpoints = _ := endpoints_of_traced h
  cases concerns_of_step hs with
  | select event log => exact ⟨_,log,by simp⟩
  | connect event index fresh inRange log =>
    refine ⟨_,log,fun socket i target hin => ?_⟩
    obtain ⟨rfl,rfl,rfl⟩ : socket = u.sockets ∧ i = index ∧ target = u.address index := by
      simpa using hin
    rw [hendpoints,List.length_map] at inRange
    refine ⟨_,_,List.getElem?_eq_getElem inRange,?_⟩
    rw [address,hendpoints,List.getElem?_map,List.getElem?_eq_getElem inRange]
    rfl
  | refresh resolve event log => exact ⟨[],by rw [log,List.append_nil],by simp⟩
  | apart event entries log plain =>
    refine ⟨entries,log,fun socket index target hin => ?_⟩
    cases plain _ hin

/-- The resolver finds the name in the first refresh and not in the second. -/
def found : Bytes → ℕ → Option NetEndpoint := fun _ port => some ⟨ascii "10.0.0.1",port⟩

def notFound : Bytes → ℕ → Option NetEndpoint := fun _ _ => none

def refreshedTwice : Upstreams :=
  { manager := (twoUpstreams.manager.resolveAll found).resolveAll notFound }

theorem connects_to_last_resolved_twice :
    (refreshedTwice.acquireConnection 1).log =
      [.acquire 0 1 false,.connect 0 1 ⟨ascii "10.0.0.1",80⟩] ∧
    ∃ entries, (refreshedTwice.acquireConnection 1).log = refreshedTwice.log ++ entries ∧
      ∀ socket index target, .connect socket index target ∈ entries → ∃ host port,
        [(ascii "a",80),(ascii "b",80)][index]? = some (host,port) ∧
          target = (lastResolved [.refresh found,.refresh notFound] host port).getD {} := by
  have hinitial : (traced [(ascii "a",80),(ascii "b",80)] 1).Reaches (twoUpstreams,[]) :=
    .initial ⟨by decide,rfl⟩
  have hfound : (traced [(ascii "a",80),(ascii "b",80)] 1).Reaches
      ({ manager := twoUpstreams.manager.resolveAll found },[.refresh found]) :=
    hinitial.step trivial ⟨.refresh found,rfl⟩
  have htwice : (traced [(ascii "a",80),(ascii "b",80)] 1).Reaches
      (refreshedTwice,[.refresh found,.refresh notFound]) :=
    hfound.step trivial ⟨.refresh notFound,rfl⟩
  exact ⟨by decide,connects_to_last_resolved htwice (.request (.acquire 1) Nat.one_lt_two)⟩

end Upstreams
end PerCoreShard
