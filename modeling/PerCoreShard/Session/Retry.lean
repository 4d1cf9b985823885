import PerCoreShard.Session.History

/-! Sending a request again. After a retry the request reaches the connection then in use
exactly once; what a failing write had already delivered is not taken back. -/
namespace PerCoreShard
open Library

/-- The endpoint a connection is asked for. -/
def Effect.acquires : Effect → Option ℕ
  | .acquireConnection index => some index
  | .acquireFreshConnection index => some index
  | _ => none

def Effect.isRetry : Effect → Bool
  | .upstreamRetry _ => true
  | _ => false

/-- The bytes of the response, read by read. -/
def Effect.responseBytes : Effect → Option Bytes
  | .upstreamRead data => some data
  | _ => none

theorem responseReads_of_conforms {G : Gateway} {log : List Effect} (h : Conforms G log) :
    (cycleOf log).response.reads = log.filterMap Effect.responseBytes := by
  refine h.induct_log (P := fun log => (cycleOf log).response.reads =
    log.filterMap Effect.responseBytes) rfl fun log e _ ih ha => ?_
  rw [cycleOf_append,List.filterMap_append,← ih]
  cases e with
  | startResponsePhase =>
    -- the response phase may begin again only while nothing was read
    rw [ha.2.2.2]
    rfl
  | upstreamRead data => rfl
  | _ => exact (List.append_nil _).symm

theorem retries_of_conforms {G : Gateway} {log : List Effect} (h : Conforms G log) :
    (cycleOf log).retries = log.countP Effect.isRetry ∧ (cycleOf log).retries ≤ 1 := by
  refine h.induct_log (P := fun log => (cycleOf log).retries = log.countP Effect.isRetry ∧
    (cycleOf log).retries ≤ 1) ⟨rfl,Nat.zero_le 1⟩ fun log e _ ih ha => ?_
  rw [cycleOf_append,List.countP_append,← ih.1]
  cases e with
  | upstreamRetry cause =>
    have hzero : (cycleOf log).retries = 0 := by cases cause <;> exact ha.1
    simp [Cycle.record,Effect.isRetry,hzero]
  | _ => exact ⟨rfl,ih.2⟩

/-- Every connection of a cycle is asked for at the endpoint chosen first. -/
theorem acquires_of_conforms {G : Gateway} {log : List Effect} (h : Conforms G log) :
    ∀ index ∈ log.filterMap Effect.acquires, (cycleOf log).endpoint = some index := by
  refine h.induct_log (P := fun log => ∀ index ∈ log.filterMap Effect.acquires,
    (cycleOf log).endpoint = some index) (by simp) fun log e _ ih ha => ?_
  rw [cycleOf_append]
  intro index hindex
  rw [List.filterMap_append,List.mem_append] at hindex
  cases e with
  | selectEndpoint i =>
    -- the endpoint is chosen only once
    rcases hindex with hi | hi
    · rw [ha.2] at ih
      cases ih index hi
    · simp [Effect.acquires] at hi
  | acquireConnection i =>
    rcases hindex with hi | hi
    · exact ih index hi
    · have : index = i := by simpa [Effect.acquires] using hi
      exact this ▸ ha.2.1
  | acquireFreshConnection i =>
    rcases hindex with hi | hi
    · exact ih index hi
    · have : index = i := by simpa [Effect.acquires] using hi
      exact this ▸ ha.2.1
  | _ =>
    rcases hindex with hi | hi
    · exact ih index hi
    · simp [Effect.acquires] at hi

/-- What the books say of the serialised request. -/
theorem wire_of_head {l : Ledger RequestHead} {head : RequestHead} (h : l.head = some head) :
    l.wire = head.bytes ++ encodeAll (hasChunkedEncoding head.headers) l.provided := by
  simp only [Ledger.wire,h]
  rfl

/-- The retries of one request cycle. -/
structure DeliveredOnce (log : List Effect) : Prop where
  /-- When the response is awaited, the connection has been given the whole request, once. -/
  whole : ∀ past future, log = past ++ .startResponsePhase::future →
    ∃ head, (cycleOf past).request.head = some head ∧
      final (cycleOf past).request.provided = true ∧
      (cycleOf past).request.sent = head.bytes ++
        encodeAll (hasChunkedEncoding head.headers) (cycleOf past).request.provided
  once : log.countP Effect.isRetry ≤ 1
  sameEndpoint : ∀ i ∈ log.filterMap Effect.acquires, ∀ j ∈ log.filterMap Effect.acquires, i = j
  /-- After a retry no connection is taken out of the pool. -/
  fresh : ∀ past e future, log = past ++ e::future → past.countP Effect.isRetry ≠ 0 →
    (∀ index, e ≠ .acquireConnection index) ∧ ∀ socket, e ≠ .connected socket true
  /-- After a failed read the request is repeated only while no byte of a response is known,
  and it is repeated as a whole. -/
  snapshot : ∀ past bytes future, log = past ++ .upstreamRetry (.afterRead bytes)::future →
    past.filterMap Effect.responseBytes = [] ∧ final (cycleOf past).request.provided = true ∧
      ∃ head, (cycleOf past).request.head = some head ∧
        bytes = head.bytes ++
          encodeAll (hasChunkedEncoding head.headers) (cycleOf past).request.provided

theorem deliveredOnce_of_conforms {G : Gateway} {log : List Effect} (h : Conforms G log) :
    DeliveredOnce log where
  whole := by
    rintro past future rfl
    obtain ⟨-,hfwd,hfinal,hsent,-⟩ := h.allows
    obtain ⟨head,hhead⟩ := Option.isSome_iff_exists.mp hfwd.started
    exact ⟨head,hhead,hfinal,hsent.trans (wire_of_head hhead)⟩
  once := by
    obtain ⟨hcount,hle⟩ := retries_of_conforms h
    exact hcount ▸ hle
  sameEndpoint i hi j hj :=
    Option.some.inj ((acquires_of_conforms h i hi).symm.trans (acquires_of_conforms h j hj))
  fresh := by
    rintro past e future rfl hretried
    obtain ⟨hpast,ha⟩ := h.allows
    rw [← (retries_of_conforms hpast).1] at hretried
    constructor
    · rintro index rfl
      exact hretried ha.2.2
    · rintro socket rfl
      exact hretried (ha.2.1 rfl)
  snapshot := by
    rintro past bytes future rfl
    obtain ⟨hpast,ha⟩ := h.allows
    obtain ⟨-,hresponding,hreads,hfinal,hbytes,hsent,-⟩ := ha
    obtain ⟨head,hhead⟩ :=
      Option.isSome_iff_exists.mp (hpast.request_of_responding hresponding).1
    exact ⟨(responseReads_of_conforms hpast).symm.trans hreads,hfinal,head,hhead,
      hbytes.trans (wire_of_head hhead)⟩

namespace HttpSession
variable {G : Gateway}

/-- In every run, whatever fails, each request cycle delivers its request exactly once. -/
theorem request_delivered_once {s : HttpSession G} (h : (system G).Reaches s) :
    ∀ log ∈ s.cycles, DeliveredOnce log :=
  fun _ hlog => deliveredOnce_of_conforms (conforms_of_reaches h hlog)

/-- A run in which the pooled connection turns out to be dead when the response is read. -/
def rereadRun : HttpSession (.strict [] 64) :=
  strictRun [] 64 [.read (ascii "GET / HTTP/1.1\r\n\r\n"),.connected 7,.wrote 42,.failed 0,
    .connected 8,.wrote 42]

theorem request_delivered_once_reread : rereadRun.log.countP Effect.isRetry = 1 ∧
    rereadRun.log.count .startResponsePhase = 2 ∧ ∀ log ∈ rereadRun.cycles, DeliveredOnce log :=
  ⟨by decide +kernel,by decide +kernel,
    request_delivered_once (reaches_strictRun (by decide +kernel))⟩

/-- The first write of a request does not fail after a part of it was accepted. -/
def FirstFailureClean (s : HttpSession G) (e : Event G) : Prop :=
  match e.op with
  | .writeRequest data => e.completion.ok = false → s.upstreamWroteOnce = false →
    s.upstreamRetryUsed = false → data.take e.completion.written = []
  | _ => True

instance (s : HttpSession G) (e : Event G) : Decidable (FirstFailureClean s e) := by
  unfold FirstFailureClean
  split <;> infer_instance

/-- A request is repeated after a failed write only if nothing of it was accepted; if
something was, the session does nothing more but close. -/
structure NoResend (s : HttpSession G) : Prop where
  retries : ∀ log ∈ s.cycles, ∀ past n future,
    log = past ++ .upstreamRetry (.afterWrite n)::future → (cycleOf past).request.sent = []
  closes : ∀ log ∈ s.cycles, ∀ past data written future,
    log = past ++ .upstreamWriteFailed data written::future →
    (cycleOf past).request.sent ++ data.take written ≠ [] →
    s.closing = true ∧ s.pending = [] ∧ ∀ e ∈ future, e.isClosing = true

/-- A failing write that could be repeated had delivered nothing. -/
def CleanFailure (past : List Effect) (e : Effect) : Prop :=
  ∀ data written, e = .upstreamWriteFailed data written → (cycleOf past).wroteOnce = false →
    (cycleOf past).retries = 0 → data.take written = []

/-- Nothing at all had been delivered when a write failed. -/
def NothingAccepted (past : List Effect) (e : Effect) : Prop :=
  ∀ data written, e = .upstreamWriteFailed data written →
    (cycleOf past).request.sent ++ data.take written = []

theorem cleanFailure_of_first {s : HttpSession G} {e : Event G} (h : Suspended s)
    (he : e.op ∈ s.pending) (hclean : FirstFailureClean s e) :
    ∀ x ∈ inputEntry e.op e.completion, CleanFailure s.log x := by
  cases h with
  | closed _ _ idle => simp [idle] at he
  | waiting op c live waits =>
    rw [live.pending,List.mem_singleton] at he
    unfold FirstFailureClean at hclean
    rintro x hx data written rfl honce hretries
    rw [live.log] at honce hretries
    rw [he] at hclean hx
    cases op <;> simp only [inputEntry,List.mem_singleton,List.not_mem_nil] at hx
    case writeRequest data' =>
      obtain ⟨hs,-⟩ := waits
      split at hx
      · cases hx
      next hok =>
        obtain ⟨rfl,rfl⟩ : data = data' ∧ written = e.completion.written := by simpa using hx
        refine hclean (by simpa using hok) (hs.wroteOnce.trans honce) ?_
        have := hs.retries
        rw [hretries] at this
        cases hu : s.upstreamRetryUsed with
        | false => rfl
        | true => simp [hu] at this
    case retryWrite =>
      rw [waits.2.2.1] at hretries
      cases hretries
    case rereadWrite =>
      rw [waits.2.2.2.1] at honce
      cases honce
    all_goals split at hx <;> cases hx

theorem each_cleanFailure {s : HttpSession G}
    (h : (system G).ReachesWhen FirstFailureClean s) : Each CleanFailure s := by
  refine each_of_reaches (fun past x hx data written heq => ?_)
    (fun s e hs he hclean => cleanFailure_of_first hs he hclean) h
  rw [heq] at hx
  cases hx

/-- What was accepted before a write is repeated, in a log whose failures are clean. -/
theorem sent_at_writeRetry {log past future : List Effect} {n : ℕ} (hc : Conforms G log)
    (hclean : AtEvery CleanFailure log)
    (hlog : log = past ++ .upstreamRetry (.afterWrite n)::future) :
    (cycleOf past).request.sent = [] := by
  subst hlog
  obtain ⟨hpast,hretries,honce,data,written,hlast,-⟩ := hc.allows
  obtain ⟨before,rfl⟩ : ∃ before, past = before ++ [.upstreamWriteFailed data written] :=
    ⟨_,(List.dropLast_append_getLast? _ hlast).symm⟩
  obtain ⟨-,-,hnothing⟩ := conforms_append.mp hpast
  have htake : data.take written = [] := by
    refine (atEvery_iff _ _).mp hclean before _ (.upstreamRetry (.afterWrite n)::future) (by simp)
      data written rfl ?_ ?_
    · rw [cycleOf_append] at honce
      exact honce
    · rw [cycleOf_append] at hretries
      exact hretries
  rw [cycleOf_append] at honce ⊢
  simp only [Cycle.record,htake,List.append_nil]
  exact hnothing honce

/-- What closing leaves behind. -/
theorem close_extends {s : HttpSession G} (h : s.closing = false) (hp : s.pending = []) :
    s.close.closing = true ∧ s.close.pending = [] ∧ ∃ tail,
      s.close.cycles = s.past ++ [s.log ++ tail] ∧ ∀ e ∈ tail, e.isClosing = true := by
  rw [close_eq h]
  exact ⟨rfl,hp,_,rfl,s.isClosing_closingEffects⟩

theorem written_of_inputEntry {op : Op} {c : Completion} {data : Bytes} {written : ℕ}
    (h : .upstreamWriteFailed data written ∈ inputEntry op c) : written = c.written := by
  cases hok : c.ok <;> cases op <;> simp_all [inputEntry]

/-- The completion of a write that fails after something of the request was accepted. -/
def FailsAfterAccepting (s : HttpSession G) (e : Event G) : Prop :=
  ∃ data, .upstreamWriteFailed data e.completion.written ∈ inputEntry e.op e.completion ∧
    (cycleOf s.log).request.sent ++ data.take e.completion.written ≠ []

/-- Such a completion makes the session close at once. -/
theorem deliver_of_failsAfterAccepting {s : HttpSession G} {e : Event G} (h : Suspended s)
    (he : e.op ∈ s.pending) (hclean : FirstFailureClean s e) (hf : FailsAfterAccepting s e) :
    ∃ (t : HttpSession G) (data : Bytes), s.deliver e = t.close ∧ t.closing = false ∧
      t.pending = [] ∧ t.past = s.past ∧
      t.log = s.log ++ [.upstreamWriteFailed data e.completion.written] := by
  cases h with
  | closed _ _ idle => simp [idle] at he
  | waiting op c live waits =>
    rw [live.pending,List.mem_singleton] at he
    obtain ⟨data,hin,haccepted⟩ := hf
    obtain ⟨op',comp,a⟩ := e
    dsimp only at he hin haccepted
    subst he
    let base : HttpSession G :=
      { s with pending := s.pending.erase op', filterCtx := a.touch s.filterCtx }
    have hopen : base.closing = false := live.isOpen
    have hidle : base.pending = [] := by simp [base,live.pending]
    have hbase : base.log = s.log := rfl
    have hpast : base.past = s.past := rfl
    have honce : base.upstreamWroteOnce = s.upstreamWroteOnce := rfl
    have hused : base.upstreamRetryUsed = s.upstreamRetryUsed := rfl
    change ∃ (t : HttpSession G) (data : Bytes), handle base ⟨op',comp,a⟩ = t.close ∧ _
    generalize base = b at *
    cases op' <;> simp only [inputEntry,List.mem_singleton,List.not_mem_nil] at hin
    case writeRequest data' =>
      obtain ⟨hs,-⟩ := waits
      cases hok : comp.ok with
      | true => simp [hok] at hin
      | false =>
        obtain rfl : data = data' := by simpa [hok] using hin
        refine ⟨b.emit (.upstreamWriteFailed data comp.written),data,?_,hopen,hidle,hpast,
          by rw [log_emit,hbase]⟩
        have hno : ¬(!b.upstreamWroteOnce && !b.upstreamRetryUsed) = true := by
          simp only [Bool.and_eq_true,Bool.not_eq_true',not_and,honce,hused]
          intro hw hu
          have hsent := hs.nothing (hs.wroteOnce.symm.trans hw)
          rw [live.log,hsent,List.nil_append] at haccepted
          exact haccepted (hclean hok hw hu)
        change b.onRequestWritten data comp = _
        simp only [onRequestWritten,hok,Bool.not_false,if_true]
        exact if_neg hno
    case retryWrite data' =>
      cases hok : comp.ok with
      | true => simp [hok] at hin
      | false =>
        refine ⟨b.emit (.upstreamWriteFailed data' comp.written),data',?_,hopen,hidle,hpast,
          by rw [log_emit,hbase]⟩
        change b.onRetryWritten data' comp = _
        simp [onRetryWritten,hok]
    case rereadWrite data' =>
      cases hok : comp.ok with
      | true => simp [hok] at hin
      | false =>
        refine ⟨b.emit (.upstreamWriteFailed data' comp.written),data',?_,hopen,hidle,hpast,
          by rw [log_emit,hbase]⟩
        change b.onRereadWritten data' comp = _
        simp [onRereadWritten,hok]
    all_goals split at hin <;> cases hin

/-- After a failure that came too late for a retry there is nothing but closing. -/
def Closes (s : HttpSession G) : Prop :=
  ∀ log ∈ s.cycles, ∀ past data written future,
    log = past ++ .upstreamWriteFailed data written::future →
    (cycleOf past).request.sent ++ data.take written ≠ [] →
    s.closing = true ∧ s.pending = [] ∧ ∀ e ∈ future, e.isClosing = true

theorem Each.closes {s : HttpSession G} (h : Each NothingAccepted s) : Closes s := by
  rintro log hlog past data written future hat haccepted
  exact absurd ((atEvery_iff _ _).mp (h log hlog) past _ future hat data written rfl) haccepted

/-- Closing after such a failure. -/
theorem closes_close {s t : HttpSession G} {data : Bytes} {written : ℕ}
    (h : Each NothingAccepted s) (ht : t.closing = false) (hidle : t.pending = [])
    (hpast : t.past = s.past) (hlog : t.log = s.log ++ [.upstreamWriteFailed data written]) :
    Closes t.close := by
  obtain ⟨hclosing,hpending,tail,hcycles,htail⟩ := close_extends ht hidle
  rintro log hmem past data' written' future hat haccepted
  rw [hcycles,hpast,hlog] at hmem
  refine ⟨hclosing,hpending,?_⟩
  rcases List.mem_append.mp hmem with hp | hp
  · exact absurd ((atEvery_iff _ _).mp (h log (List.mem_append_left _ hp)) past _ future hat data'
      written' rfl) haccepted
  · rw [List.mem_singleton.mp hp,List.append_assoc,List.singleton_append] at hat
    rcases List.append_eq_append_iff.mp hat with ⟨mid,hp,hm⟩ | ⟨mid,hp,hm⟩
    · -- the entry is the last one before closing, or one made while closing
      cases mid with
      | nil =>
        obtain ⟨-,rfl⟩ := List.cons.inj hm
        exact htail
      | cons x mid =>
        obtain ⟨-,hm⟩ := List.cons.inj hm
        have := htail (.upstreamWriteFailed data' written') (by simp [hm])
        cases this
    · cases mid with
      | nil =>
        obtain ⟨-,rfl⟩ := List.cons.inj hm.symm
        exact htail
      | cons x mid =>
        obtain ⟨rfl,-⟩ := List.cons.inj hm
        exact absurd ((atEvery_iff _ _).mp (h s.log (by simp [cycles])) past _ mid hp data'
          written' rfl) haccepted

theorem closes_of_reaches {s : HttpSession G} (h : (system G).ReachesWhen FirstFailureClean s) :
    Closes s := by
  have key : Each NothingAccepted s ∨ (Closes s ∧ s.pending = []) := by
    refine h.invariant_with (I := fun s => Each NothingAccepted s ∨ (Closes s ∧ s.pending = []))
      (fun s hs => suspended_of_reaches hs.reaches) ?_ ?_
    · rintro _ ⟨ctx,readBuf,writeBuf,-,-,rfl⟩
      refine .inl fun log hlog => ?_
      have : log = [.onAccept,.acquireBuffer readBuf.id,.acquireBuffer writeBuf.id,
        .readDownstream] := by simpa [cycles,start,readRequestChunk,emit,await] using hlog
      subst this
      refine ⟨?_,?_,?_,?_,trivial⟩ <;> rintro data written ⟨⟩
    · rintro s e _ hs hI hclean ⟨he,hlen,rfl⟩
      have hI : Each NothingAccepted s := hI.resolve_right fun hn => by simp [hn.2] at he
      by_cases hf : FailsAfterAccepting s e
      · obtain ⟨t,data,heq,ht,hidle,hpast,hlog⟩ := deliver_of_failsAfterAccepting hs he hclean hf
        rw [heq]
        exact .inr ⟨closes_close hI ht hidle hpast hlog,(close_extends ht hidle).2.1⟩
      · refine .inl (Each.deliver (fun past x hx data written heq => ?_) hs he hlen hI ?_)
        · rw [heq] at hx
          cases hx
        · rintro x hx data written rfl
          obtain rfl := written_of_inputEntry hx
          by_contra haccepted
          exact hf ⟨data,hx,haccepted⟩
  exact key.elim Each.closes And.left

/-- In every run in which no first write fails after a part of it was accepted, no byte of a
request is sent twice. -/
theorem no_resend {s : HttpSession G} (h : (system G).ReachesWhen FirstFailureClean s) :
    NoResend s where
  retries log hlog _ _ _ hat :=
    sent_at_writeRetry (conforms_of_reaches h.reaches hlog) (each_cleanFailure h log hlog) hat
  closes := closes_of_reaches h

theorem no_resend_clean :
    (strictRun [] 64 [.read (ascii "GET / HTTP/1.1\r\n\r\n"),.connected 7,.failed 0]).log.countP
      Effect.isRetry = 1 ∧
    NoResend (strictRun [] 64 [.read (ascii "GET / HTTP/1.1\r\n\r\n"),.connected 7,.failed 0]) :=
  ⟨by decide +kernel,no_resend (reaches_strictRun (by decide +kernel))⟩

/-- Five bytes of the first write are accepted before it fails, and it is repeated. -/
def resendRun : HttpSession (.strict [] 64) :=
  strictRun [] 64 [.read (ascii "GET / HTTP/1.1\r\n\r\n"),.connected 7,.failed 5]

theorem resends_accepted_bytes :
    ¬∀ (G : Gateway) (s : HttpSession G), (system G).Reaches s → NoResend s := by
  intro h
  have hreach : (system _).Reaches resendRun := reaches_strictRun (by decide +kernel)
  have hsent := (h _ resendRun hreach).retries resendRun.log (by simp [cycles])
    (resendRun.log.takeWhile fun e => !e.isRetry) 42
    (resendRun.log.dropWhile fun e => !e.isRetry).tail (by decide +kernel)
  revert hsent
  decide +kernel

end HttpSession
end PerCoreShard
