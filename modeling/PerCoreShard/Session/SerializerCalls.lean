import PerCoreShard.Session.Gating

/-! The usage contract of the serializers, read off the log of a cycle: which calls the
serializer in use has had, and which it may still get. -/
namespace PerCoreShard
open Library LlhttpParser

/-- A call that adds to what a serializer has to write. -/
inductive SerializerCall
  | start
  | provideBody (isLast : Bool)
  deriving DecidableEq, Repr

/-- What a serializer may be called with after the calls it had: `start` comes first and only
once, and nothing is provided after the last piece. -/
def SerializerCall.Allowed (calls : List SerializerCall) : SerializerCall → Prop
  | .start => calls = []
  | .provideBody _ => calls.head? = some .start ∧ .provideBody true ∉ calls

def Effect.serializerCall (isRequest : Bool) : Effect → Option SerializerCall
  | .startRequest _ => if isRequest then some .start else none
  | .provideRequest _ isLast => if isRequest then some (.provideBody isLast) else none
  | .startResponse _ => if isRequest then none else some .start
  | .provideResponse _ isLast => if isRequest then none else some (.provideBody isLast)
  | _ => none

/-- `start_response_phase` and `respond_directly` create the response serializer anew. The one
for the request is created with the cycle. -/
def Effect.newSerializer (isRequest : Bool) : Effect → Bool
  | .startResponsePhase | .respondDirectly _ _ => !isRequest
  | _ => false

/-- The calls that the serializer in use has had. -/
def serializerCalls (isRequest : Bool) (log : List Effect) : List SerializerCall :=
  log.foldl (fun calls e => if e.newSerializer isRequest then []
    else calls ++ (e.serializerCall isRequest).toList) []

@[simp] theorem serializerCalls_append (isRequest : Bool) (log : List Effect) (e : Effect) :
    serializerCalls isRequest (log ++ [e]) = if e.newSerializer isRequest then []
      else serializerCalls isRequest log ++ (e.serializerCall isRequest).toList := by
  simp [serializerCalls]

/-- Every call in the log was one its serializer may get. -/
def FollowsContract (isRequest : Bool) (log : List Effect) : Prop :=
  AtEvery (fun past e => ∀ call ∈ e.serializerCall isRequest,
    call.Allowed (serializerCalls isRequest past)) log

namespace Ledger
variable {H : Type}

/-- The calls that have brought a serializer where the books say it is. -/
def serializerCalls (l : Ledger H) : List SerializerCall :=
  (l.head.map fun _ => .start).toList ++ l.provided.map fun p => .provideBody p.2

theorem started_of_head {l : Ledger H} (h : l.head.isSome = true) :
    l.serializerCalls.head? = some .start := by
  obtain ⟨head,hhead⟩ := Option.isSome_iff_exists.mp h
  simp [serializerCalls,hhead]

theorem serializerCalls_of_empty {l : Ledger H} (hh : l.head = none) (hp : l.provided = []) :
    l.serializerCalls = [] := by
  simp [serializerCalls,hh,hp]

theorem provideBody_allowed {l : Ledger H} (hh : l.head.isSome = true)
    (hf : final l.provided = false) (isLast : Bool) :
    (SerializerCall.provideBody isLast).Allowed l.serializerCalls := by
  refine ⟨started_of_head hh,fun hmem => ?_⟩
  rcases List.mem_append.mp hmem with hm | hm
  · simp at hm
  · obtain ⟨p,hp,hlast⟩ := List.mem_map.mp hm
    have hflag : p.2 = true := by simpa using hlast
    have hfinal : final l.provided = true := List.any_eq_true.mpr ⟨p,hp,hflag⟩
    rw [hf] at hfinal
    cases hfinal

end Ledger

section
variable {G : Gateway}

theorem serializerCalls_request {log : List Effect} (h : Conforms G log) :
    serializerCalls true log = (cycleOf log).request.serializerCalls := by
  refine h.induct_log (P := fun log => serializerCalls true log =
    (cycleOf log).request.serializerCalls) rfl fun log e _ ih ha => ?_
  rw [serializerCalls_append,cycleOf_append,ih]
  cases e with
  | startRequest head =>
    obtain ⟨-,hnone,-,hp,-⟩ := ha
    simp [Effect.newSerializer,Effect.serializerCall,Cycle.record,Ledger.serializerCalls,hnone,hp]
  | provideRequest chunk isLast =>
    simp [Effect.newSerializer,Effect.serializerCall,Cycle.record,Ledger.serializerCalls]
  | _ => exact List.append_nil _

theorem followsContract_request {log : List Effect} (h : Conforms G log) :
    FollowsContract true log := by
  refine (atEvery_iff _ _).mpr fun past e future heq call hcall => ?_
  obtain ⟨hpast,ha⟩ := Conforms.allows (heq ▸ h)
  rw [serializerCalls_request hpast]
  cases e with
  | startRequest head =>
    obtain rfl := Option.some.inj hcall
    exact Ledger.serializerCalls_of_empty ha.2.1 ha.2.2.2.1
  | provideRequest chunk isLast =>
    obtain rfl := Option.some.inj hcall
    exact Ledger.provideBody_allowed ha.2.2.started ha.2.2.notFinal isLast
  | _ => cases hcall

/-- Before a response is read there is nothing to relay. -/
theorem response_unread {log : List Effect} (h : Conforms G log)
    (hd : (cycleOf log).direct = false) (hr : (cycleOf log).response.reads = []) :
    (cycleOf log).response.filtered = none ∧ (cycleOf log).response.head = none := by
  refine h.induct_log (P := fun log => (cycleOf log).direct = false →
    (cycleOf log).response.reads = [] →
    (cycleOf log).response.filtered = none ∧ (cycleOf log).response.head = none)
    (fun _ _ => ⟨rfl,rfl⟩) (fun log e _ ih ha hd hr => ?_) hd hr
  rw [cycleOf_append] at hd hr ⊢
  have hdirect : ∀ head body, log.getLast? = some (.respondDirectly head body) →
      (cycleOf log).direct = true := fun _ _ => direct_of_last
  generalize cycleOf log = c at *
  cases e with
  | startResponsePhase => exact ih hd ha.2.2.2
  | upstreamRead raw => simp [Cycle.record] at hr
  | filterResponse head result filtered =>
    have hreads : c.response.reads = [] := hr
    have hheader := ha.2.2.2.2.2.1
    simp only [Ledger.parse,Ledger.input,hreads,List.flatten_nil,parsed_nil] at hheader
    cases hheader
  | startResponse head =>
    rcases ha with ⟨body,hlast⟩ | ⟨-,-,-,-,head',filtered,keepAlive,hfiltered,-⟩
    · rw [show c.direct = false from hd] at hdirect
      cases hdirect head body hlast
    · rw [(ih hd hr).1] at hfiltered
      cases hfiltered
  | respondDirectly head body => cases hd
  | _ => exact ih hd hr

/-- Between the order to answer itself and the start of the answer, the session has a serializer
that was not called yet. -/
def Cycle.renewed (c : Cycle) : Bool := c.direct && !c.replying

theorem renewed_of_not_direct {c : Cycle} (h : c.direct = false) : c.renewed = false := by
  simp [Cycle.renewed,h]

/-- The last entry is the start of an answer of the session itself. -/
theorem replying_of_last {log : List Effect} {head : ResponseHead}
    (h : log.getLast? = some (.startResponse head)) (hd : (cycleOf log).direct = true) :
    (cycleOf log).replying = true ∧ (cycleOf log).response.head = some head := by
  rw [← List.dropLast_append_getLast? _ h,cycleOf_append] at hd ⊢
  exact ⟨hd,rfl⟩

theorem head_of_replying {log : List Effect} (h : Conforms G log)
    (hr : (cycleOf log).replying = true) : (cycleOf log).response.head.isSome = true := by
  refine h.induct (P := fun c => c.replying = true → c.response.head.isSome = true)
    (fun hn => by cases hn) (fun c last e ih _ hn => ?_) hr
  cases e <;> first | rfl | exact ih hn

/-- The last entry is the order to answer itself. -/
theorem renewed_of_last {log : List Effect} {head : ResponseHead} {body : Bytes}
    (h : Conforms G log) (hlast : log.getLast? = some (.respondDirectly head body)) :
    (cycleOf log).renewed = true := by
  rw [← List.dropLast_append_getLast? _ hlast] at h ⊢
  rw [conforms_append] at h
  rw [cycleOf_append]
  simp [Cycle.renewed,Cycle.record,not_replying_of_not_direct h.1 h.2.1]

theorem serializerCalls_response {log : List Effect} (h : Conforms G log) :
    serializerCalls false log = if (cycleOf log).renewed then []
      else (cycleOf log).response.serializerCalls := by
  refine h.induct_log (P := fun log => serializerCalls false log =
    if (cycleOf log).renewed then [] else (cycleOf log).response.serializerCalls) rfl
    fun log e hlog ih ha => ?_
  rw [serializerCalls_append,cycleOf_append,ih]
  cases e with
  | startResponsePhase =>
    obtain ⟨hfwd,-,-,hreads⟩ := ha
    have hhead := (response_unread hlog hfwd.notDirect hreads).2
    have hprovided := ((booked_response hlog hfwd.notDirect).unstarted hhead).2
    have hafter : ((cycleOf log).record .startResponsePhase).renewed = false :=
      renewed_of_not_direct hfwd.notDirect
    rw [hafter]
    exact (Ledger.serializerCalls_of_empty (by exact hhead) (by exact hprovided)).symm
  | startResponse head =>
    have hafter : ((cycleOf log).record (.startResponse head)).renewed = false := by
      cases hd : (cycleOf log).direct <;> simp [Cycle.renewed,Cycle.record,hd]
    rw [hafter]
    rcases ha with ⟨body,hlast⟩ | ⟨hdirect,-,hhead,-⟩
    · rw [renewed_of_last hlog hlast]
      rfl
    · have hprovided := ((booked_response hlog hdirect).unstarted hhead).2
      rw [renewed_of_not_direct hdirect,if_neg Bool.false_ne_true,
        Ledger.serializerCalls_of_empty hhead hprovided]
      rfl
  | provideResponse chunk isLast =>
    have hbefore : (cycleOf log).renewed = false := by
      rcases ha with ⟨hd,-,-,head,hlast,-⟩ | ⟨hd,-⟩
      · simp [Cycle.renewed,(replying_of_last hlast hd).1]
      · exact renewed_of_not_direct hd
    have hafter : ((cycleOf log).record (.provideResponse chunk isLast)).renewed = false := hbefore
    rw [hbefore,hafter]
    simp [Effect.newSerializer,Effect.serializerCall,Cycle.record,Ledger.serializerCalls]
  | respondDirectly head body =>
    have hafter : ((cycleOf log).record (.respondDirectly head body)).renewed = true := by
      simp [Cycle.renewed,Cycle.record,not_replying_of_not_direct hlog ha.1]
    rw [hafter]
    rfl
  | _ => exact List.append_nil _

theorem followsContract_response {log : List Effect} (h : Conforms G log) :
    FollowsContract false log := by
  refine (atEvery_iff _ _).mpr fun past e future heq call hcall => ?_
  obtain ⟨hpast,ha⟩ := Conforms.allows (heq ▸ h)
  rw [serializerCalls_response hpast]
  cases e with
  | startResponse head =>
    obtain rfl := Option.some.inj hcall
    rcases ha with ⟨body,hlast⟩ | ⟨hdirect,-,hhead,-⟩
    · rw [renewed_of_last hpast hlast]
      rfl
    · have hprovided := ((booked_response hpast hdirect).unstarted hhead).2
      rw [renewed_of_not_direct hdirect]
      exact Ledger.serializerCalls_of_empty hhead hprovided
  | provideResponse chunk isLast =>
    obtain rfl := Option.some.inj hcall
    rcases ha with ⟨hd,hprovided,-,head,hlast,-⟩ | ⟨hd,-,hs⟩
    · obtain ⟨hreplying,hhead⟩ := replying_of_last hlast hd
      have hfinal : final (cycleOf past).response.provided = false := by rw [hprovided]; rfl
      rw [show (cycleOf past).renewed = false by simp [Cycle.renewed,hreplying]]
      exact Ledger.provideBody_allowed (by simp [hhead]) hfinal isLast
    · rw [renewed_of_not_direct hd]
      exact Ledger.provideBody_allowed hs.started hs.notFinal isLast
  | _ => cases hcall

end
end PerCoreShard
