import PerCoreShard.Filter.Streaming
import PerCoreShard.Session.Adds
import PerCoreShard.Session.Drain
import PerCoreShard.Session.Flight
import PerCoreShard.Session.Gating

/-! A request body that the gate holds back, and what an upstream has seen of the request by
then. The session connects and sends the head without regard to the answers of the gate. -/
namespace PerCoreShard
open Library

/-- The calls of the gate for the body of the request. -/
def requestCalls (log : List Effect) : List GateCall := log.filterMap (Effect.gateCall true)

/-- The gate has been called, and every call has answered that it is still buffering. -/
structure Held (log : List Effect) : Prop where
  asked : requestCalls log ≠ []
  buffering : ∀ call ∈ requestCalls log, call.result = .stillBuffering

instance (log : List Effect) : Decidable (Held log) :=
  decidable_of_iff (requestCalls log ≠ [] ∧ ∀ call ∈ requestCalls log, call.result = .stillBuffering)
    ⟨fun h => ⟨h.1,h.2⟩,fun h => ⟨h.1,h.2⟩⟩

/-- No byte of the request was written to an upstream socket. -/
def Unwritten (log : List Effect) : Prop := ∀ e ∈ log, e.writes = false

instance (log : List Effect) : Decidable (Unwritten log) :=
  inferInstanceAs (Decidable (∀ e ∈ log, e.writes = false))

/-- While the body is held back nothing is written, and nothing ever is if it is rejected
then. -/
structure BackendUntouched (log : List Effect) : Prop where
  held : ∀ past, past <+: log → Held past → Unwritten past
  rejected : ∀ past call future, log = past ++ .gateRequest call::future → Held past →
    call.result.rejects = true → Unwritten log

/-- The rule for one entry: the first call does not hold the body back when bytes were written
before, and nothing is written while the body is held back. -/
structure Backed (past : List Effect) (e : Effect) : Prop where
  first : ∀ call, e = .gateRequest call → requestCalls past = [] →
    call.result = .stillBuffering → Unwritten past
  written : e.writes = true → ¬Held past

theorem backed_of_neither {past : List Effect} {e : Effect} (ha : e.asks = false)
    (hw : e.writes = false) : Backed past e where
  first := by
    rintro call rfl
    cases ha
  written h := by
    rw [hw] at h
    cases h

theorem requestCalls_append (past es : List Effect) :
    requestCalls (past ++ es) = requestCalls past ++ requestCalls es := List.filterMap_append

theorem requestCalls_of_not_asks {es : List Effect} (h : ∀ e ∈ es, e.asks = false) :
    requestCalls es = [] := by
  refine List.filterMap_eq_nil_iff.mpr fun e he => ?_
  have := h e he
  cases e <;> first | rfl | cases this

theorem held_append_iff {past es : List Effect} (h : ∀ e ∈ es, e.asks = false) :
    Held (past ++ es) ↔ Held past := by
  have heq : requestCalls (past ++ es) = requestCalls past := by
    rw [requestCalls_append,requestCalls_of_not_asks h,List.append_nil]
  constructor <;> rintro ⟨hasked,hall⟩
  · exact ⟨heq ▸ hasked,heq ▸ hall⟩
  · exact ⟨heq.symm ▸ hasked,heq.symm ▸ hall⟩

theorem Held.before {past es : List Effect} (h : Held (past ++ es)) (hasked : requestCalls past ≠ []) :
    Held past :=
  ⟨hasked,fun call hcall => h.buffering call (by rw [requestCalls_append]; simp [hcall])⟩

/-- A log of entries that keep the rule has written nothing while the body is held back. -/
theorem unwritten_of_backed {log : List Effect} (h : AtEvery Backed log) :
    Held log → Unwritten log := by
  refine h.induct (P := fun log => Held log → Unwritten log) (fun h => absurd rfl h.asked) ?_
  intro log e _ ih he hheld
  have hold : Unwritten log := by
    by_cases hasked : requestCalls log = []
    · cases e with
      | gateRequest call =>
        refine he.first call rfl hasked (hheld.buffering call ?_)
        rw [requestCalls_append]
        exact List.mem_append_right _ (List.mem_singleton_self _)
      | _ =>
        refine absurd ?_ hheld.asked
        rw [requestCalls_append,hasked]
        rfl
    · exact ih (hheld.before hasked)
  refine List.forall_mem_append.mpr ⟨hold,?_⟩
  rintro x hx
  obtain rfl := List.mem_singleton.mp hx
  cases hw : x.writes with
  | false => rfl
  | true =>
    have hnone : requestCalls [x] = [] := by
      cases x <;> first | rfl | cases hw
    refine absurd ?_ (he.written hw)
    refine hheld.before fun hnil => hheld.asked ?_
    rw [requestCalls_append,hnil,hnone,List.append_nil]

theorem backendUntouched_of_backed {G : Gateway} {log : List Effect} (hc : Conforms G log)
    (h : AtEvery Backed log) : BackendUntouched log where
  held := by
    rintro past ⟨future,rfl⟩ hheld
    exact unwritten_of_backed ((atEvery_append _ _ _).mp h).1 hheld
  rejected := by
    rintro past call future rfl hheld hr e he
    rcases List.mem_append.mp he with he | he
    · exact unwritten_of_backed ((atEvery_append _ _ _).mp h).1 hheld e he
    rcases List.mem_cons.mp he with rfl | he
    · rfl
    have hc' : Conforms G ((past ++ [.gateRequest call]) ++ future) := by simpa using hc
    have hrefused : (cycleOf (past ++ [.gateRequest call])).refused = true := by
      rw [cycleOf_append]
      simp [Cycle.record,hr]
    have hstopped := not_goesOn_after hc' hrefused e he
    cases e <;> first | rfl | cases hstopped

namespace HttpSession
variable {G : Gateway}

/-- What the loop of `process_downstream_chunk` makes of a read. -/
def takenIn (s : HttpSession G) (e : Event G) : Bool × HttpSession G :=
  relayLoop feedRequest filterRequestHead drainRequest requestStuck (e.completion.data.length + 1)
    e.completion.data
    ({ s with
      pending := s.pending.erase e.op
      filterCtx := e.answers.touch s.filterCtx }.noteRequestRead e.completion.data)

/-- The first call of the cycle comes with this read and holds the body back. -/
def FirstHeld (s : HttpSession G) (e : Event G) : Prop :=
  requestCalls s.log = [] ∧
    ∃ call ∈ (requestCalls (s.takenIn e).2.log).head?, call.result = .stillBuffering

/-- A step that leaves the backend untouched: no connection is handed over while the body is
held back, and no body is held back after the head was sent. -/
def KeptBack (s : HttpSession G) (e : Event G) : Prop :=
  match e.op with
  | .readRequest => e.completion.ok = true →
    (s.FirstHeld e → Unwritten s.log) ∧
      ((s.takenIn e).1 = true → Held (s.takenIn e).2.log →
        (s.takenIn e).2.socketAtHand e.answers = none)
  | .connect | .retryConnect _ | .rereadConnect =>
    e.completion.ok = true → e.completion.socket.isSome = true → ¬Held s.log
  | _ => True

/-- With a body that is not held back all writes keep the rule. -/
theorem Adds.backed {s t : HttpSession G} (h : Adds (fun e => !e.asks) s t) (hheld : ¬Held s.log)
    (hs : Each Backed s) : Each Backed t := by
  obtain ⟨es,hlog,hes⟩ := h.log
  intro log hmem
  rcases List.mem_append.mp hmem with hp | hp
  · exact hs log (List.mem_append_left _ (h.past ▸ hp))
  rw [List.mem_singleton.mp hp,hlog]
  refine (atEvery_append _ _ _).mpr ⟨hs s.log (by simp [cycles]),?_⟩
  have key : ∀ past, ¬Held past → Along Backed past es := by
    clear hlog
    induction es with
    | nil => exact fun _ _ => trivial
    | cons e es ih =>
      intro past hpast
      obtain ⟨he,hes⟩ := List.forall_mem_cons.mp hes
      have he' : e.asks = false := by simpa using he
      have hpast' : ¬Held (past ++ [e]) :=
        fun hn => hpast ((held_append_iff (by simpa using he')).mp hn)
      refine ⟨⟨?_,fun _ => hpast⟩,ih hes _ hpast'⟩
      rintro call rfl
      cases he'
  exact key s.log hheld

theorem Keeps.backed {s t : HttpSession G} (h : Keeps (fun e => !e.asks && !e.writes) s t)
    (hs : Each Backed s) : Each Backed t := by
  refine h Backed (fun past e he => ?_) hs
  simp only [Bool.and_eq_true,Bool.not_eq_true'] at he
  exact backed_of_neither he.1 he.2

/-- What a read that is taken in adds. -/
theorem adds_takenIn (s : HttpSession G) (e : Event G) :
    Adds (fun x => !x.writes) s (s.takenIn e).2 := by
  have hp : ∀ x : Effect, x.writes = false → (!x.writes) = true := fun x hx => by simp [hx]
  refine Adds.trans ?_ (adds_relayRequest hp _ _ _)
  refine Adds.emit ?_ rfl
  exact .same rfl rfl

theorem backed_takenIn {s : HttpSession G} {e : Event G} (h : s.FirstHeld e → Unwritten s.log)
    (hs : Each Backed s) : Each Backed (s.takenIn e).2 := by
  have hadds := adds_takenIn s e
  obtain ⟨es,hlog,hes⟩ := hadds.log
  intro log hmem
  rcases List.mem_append.mp hmem with hp | hp
  · exact hs log (List.mem_append_left _ (hadds.past ▸ hp))
  rw [List.mem_singleton.mp hp]
  refine (atEvery_iff _ _).mpr fun past x future heq => ?_
  rcases List.append_eq_append_iff.mp (hlog.symm.trans heq) with ⟨more,rfl,hnew⟩ | ⟨more,hpast,hnew⟩
  · have hx : x.writes = false := by simpa using hes x (by simp [hnew])
    refine ⟨?_,fun hw => by rw [hx] at hw; cases hw⟩
    rintro call rfl hnone hbuffering
    have hmore : ∀ y ∈ more, y.writes = false := fun y hy => by simpa using hes y (by simp [hnew,hy])
    rw [requestCalls_append,List.append_eq_nil_iff] at hnone
    refine List.forall_mem_append.mpr ⟨h ⟨hnone.1,call,?_,hbuffering⟩,hmore⟩
    rw [heq,requestCalls_append,requestCalls_append,hnone.1,hnone.2]
    simp [requestCalls,Effect.gateCall]
  · cases more with
    | nil =>
      have hx : x.writes = false := by simpa using hes x (by simp [← show x::future = es from hnew])
      refine ⟨?_,fun hw => by rw [hx] at hw; cases hw⟩
      rintro call rfl hnone hbuffering
      rw [List.append_nil] at hpast
      refine hpast ▸ h ⟨hpast ▸ hnone,call,?_,hbuffering⟩
      rw [heq,requestCalls_append,hnone]
      simp [requestCalls,Effect.gateCall]
    | cons y more =>
      obtain ⟨rfl,-⟩ := List.cons.inj hnew
      exact (atEvery_iff _ _).mp (hs s.log (by simp [cycles])) past x more hpast

/-- Between two callbacks the last entry is the start of what the session waits for. -/
theorem OneInFlight.written {s : HttpSession G} {op : Op} (h : OneInFlight s) (hop : op ∈ s.pending)
    {data : Bytes} (hw : op = .writeRequest data ∨ op = .retryWrite data ∨ op = .rereadWrite data) :
    .writeUpstream data ∈ s.log := by
  cases h with
  | closed _ hidle => simp [hidle] at hop
  | waiting op' _ hpending _ _ started =>
    rw [hpending,List.mem_singleton] at hop
    obtain ⟨u,x,-,hx,rfl⟩ := started
    have hlast : x ∈ ((u.emit x).await op').log := by simp [await,emit]
    subst hop
    rcases hw with rfl | rfl | rfl <;> exact hx.1 ▸ hlast

/-- While a write is in flight the body is not held back. -/
theorem not_held_of_written {s : HttpSession G} {data : Bytes} (hs : Each Backed s)
    (hw : .writeUpstream data ∈ s.log) : ¬Held s.log := by
  intro hheld
  have := unwritten_of_backed (hs s.log (by simp [cycles])) hheld _ hw
  cases this

theorem backed_deliver {s : HttpSession G} {e : Event G} (hflight : OneInFlight s)
    (he : e.op ∈ s.pending) (hk : s.KeptBack e) (hs : Each Backed s) :
    Each Backed (s.deliver e) := by
  have hbase : Each Backed { s with
      pending := s.pending.erase e.op, filterCtx := e.answers.touch s.filterCtx } := hs
  have hmay : ∀ x : Effect, x.asks = false → (!x.asks) = true := fun x hx => by simp [hx]
  have hneither : ∀ x : Effect, x.asks = false → x.writes = false →
      (!x.asks && !x.writes) = true := fun x ha hw => by simp [ha,hw]
  have hwrite : ∀ data, e.op = .writeRequest data ∨ e.op = .retryWrite data ∨
      e.op = .rereadWrite data → ¬Held s.log :=
    fun data hw => not_held_of_written hs (hflight.written he hw)
  obtain ⟨op,c,a⟩ := e
  unfold deliver
  cases op with
  | readRequest =>
    change Each Backed (onRequestRead _ c a)
    unfold onRequestRead
    split
    · refine Keeps.backed (Adds.keeps (Adds.trans (Adds.emit (.refl _) ?_) (adds_close hneither _)))
        hbase
      rfl
    next hok =>
      obtain ⟨hfirst,hnone⟩ := hk (by simpa using hok)
      have hloop : Each Backed (s.takenIn ⟨.readRequest,c,a⟩).2 := backed_takenIn hfirst hs
      change Each Backed (if (s.takenIn ⟨.readRequest,c,a⟩).1 = true then
        (s.takenIn ⟨.readRequest,c,a⟩).2.continueRequest a else _)
      split
      next hgo =>
        by_cases hheld : Held (s.takenIn ⟨.readRequest,c,a⟩).2.log
        · exact (adds_continueRequest_of_none hneither (hnone hgo hheld)).keeps.backed hloop
        · exact (adds_continueRequest hmay _ a).backed hheld hloop
      · exact hloop
  | connect =>
    by_cases hgot : c.ok = true ∧ c.socket.isSome = true
    · exact (adds_onConnected hmay _ c false).backed (hk hgot.1 hgot.2) hbase
    · change Each Backed (onConnected _ c false)
      unfold onConnected
      split
      next hok hsocket => exact absurd ⟨hok,by simp [hsocket]⟩ hgot
      · exact (adds_connectError hneither _).keeps.backed hbase
  | writeRequest data =>
    exact (adds_onRequestWritten hmay _ data c).backed (hwrite data (.inl rfl)) hbase
  | retryConnect n =>
    by_cases hgot : c.ok = true ∧ c.socket.isSome = true
    · exact (adds_onRetryConnected hmay _ n c).backed (hk hgot.1 hgot.2) hbase
    · change Each Backed (onRetryConnected _ n c)
      unfold onRetryConnected
      split
      next hok hsocket => exact absurd ⟨hok,by simp [hsocket]⟩ hgot
      · exact (adds_connectError hneither _).keeps.backed hbase
  | retryWrite data =>
    exact (adds_onRetryWritten hmay _ data c).backed (hwrite data (.inr (.inl rfl))) hbase
  | rereadConnect =>
    by_cases hgot : c.ok = true ∧ c.socket.isSome = true
    · exact (adds_onRereadConnected hmay _ c).backed (hk hgot.1 hgot.2) hbase
    · change Each Backed (onRereadConnected _ c)
      unfold onRereadConnected
      split
      next hok hsocket => exact absurd ⟨hok,by simp [hsocket]⟩ hgot
      · exact (adds_connectError hneither _).keeps.backed hbase
  | rereadWrite data =>
    exact (adds_onRereadWritten hmay _ data c).backed (hwrite data (.inr (.inr rfl))) hbase
  | readResponse => exact (keeps_onResponseRead hneither _ c).backed hbase
  | writeResponse data => exact (keeps_onResponseWritten hneither _ data c).backed hbase

theorem backed_of_reaches {s : HttpSession G} (h : (system G).ReachesWhen KeptBack s) :
    Each Backed s := by
  refine h.invariant_with (I := Each Backed) (fun s hs => oneInFlight_of_reaches hs.reaches) ?_ ?_
  · rintro _ ⟨ctx,readBuf,writeBuf,-,-,rfl⟩ log hlog
    have : log = [.onAccept,.acquireBuffer readBuf.id,.acquireBuffer writeBuf.id,
      .readDownstream] := by simpa [cycles,start,readRequestChunk,emit,await] using hlog
    rw [this]
    exact ⟨backed_of_neither rfl rfl,backed_of_neither rfl rfl,backed_of_neither rfl rfl,
      backed_of_neither rfl rfl,trivial⟩
  · rintro s e _ hs hI hk ⟨he,-,rfl⟩
    exact backed_deliver hs he hk hI

/-- In every run that hands over no connection while a body is held back, and holds back no
body after the head was sent, a body that is held back leaves the backend untouched. -/
theorem backend_untouched {s : HttpSession G} (h : (system G).ReachesWhen KeptBack s)
    {log : List Effect} (hlog : log ∈ s.cycles) : BackendUntouched log :=
  backendUntouched_of_backed (conforms_of_reaches h.reaches hlog) (backed_of_reaches h log hlog)

instance (s : HttpSession G) (e : Event G) : Decidable (s.FirstHeld e) :=
  inferInstanceAs (Decidable (_ ∧ ∃ call ∈ (requestCalls (s.takenIn e).2.log).head?, _))

instance (s : HttpSession G) : (e : Event G) → Decidable (s.KeptBack e)
  | ⟨.readRequest,_,_⟩ =>
    inferInstanceAs (Decidable (_ → (_ → Unwritten s.log) ∧ (_ → Held _ → _ = none)))
  | ⟨.connect,_,_⟩ | ⟨.retryConnect _,_,_⟩ | ⟨.rereadConnect,_,_⟩ =>
    inferInstanceAs (Decidable (_ → _ → ¬Held s.log))
  | ⟨.writeRequest _,_,_⟩ | ⟨.retryWrite _,_,_⟩ | ⟨.rereadWrite _,_,_⟩ | ⟨.readResponse,_,_⟩
  | ⟨.writeResponse _,_,_⟩ => inferInstanceAs (Decidable True)

/-- A body that is held back, and an upstream that cannot be reached. -/
def unreachableRun : HttpSession (.strict [BodyFilterGate.bufferingFilter] 128) :=
  strictRun [BodyFilterGate.bufferingFilter] 128
    [.read (ascii "POST / HTTP/1.1\r\nContent-Length: 4\r\n\r\nab"),.failed 0]

theorem backend_untouched_unreachable : BackendUntouched unreachableRun.log :=
  backend_untouched (s := unreachableRun) (reaches_strictRun (by decide +kernel)) (by simp [cycles])

/-- The connection is there before the body is. -/
def heldRun : HttpSession (.strict [BodyFilterGate.bufferingFilter] 128) :=
  strictRun [BodyFilterGate.bufferingFilter] 128
    [.read (ascii "POST / HTTP/1.1\r\nContent-Length: 4\r\n\r\nab"),.connected 7]

/-- The head is written while the filter holds the body back. -/
theorem head_before_body :
    ¬∀ (G : Gateway) (s : HttpSession G), (system G).Reaches s → ∀ log ∈ s.cycles,
      BackendUntouched log := by
  intro h
  have hreach : (system _).Reaches heldRun := reaches_strictRun (by decide +kernel)
  have hnone := (h _ heldRun hreach heldRun.log (by simp [cycles])).held heldRun.log
    (List.prefix_refl _) (by decide +kernel)
  revert hnone
  decide +kernel

end HttpSession
end PerCoreShard
