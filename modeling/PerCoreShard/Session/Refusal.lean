import PerCoreShard.Session.History

/-! Requests the parser fails on. The session notices the failure when a later feed makes no
progress, so a failure at the very end of a read passes unnoticed. -/
namespace PerCoreShard
open Library

/-- Effects by which a request is sent on, more of it is waited for, or its cycle is ended as
if it had been served. -/
def Effect.carriesOn : Effect → Bool
  | .readDownstream | .selectEndpoint _ | .acquireConnection _ | .acquireFreshConnection _ => true
  | .writeUpstream _ | .startResponsePhase | .resetForNextRequest => true
  | _ => false

/-- A filter or the gate rejects the request. -/
def Effect.rejectsRequest : Effect → Bool
  | .filterRequest _ result _ => result.rejects
  | .gateRequest call => call.result.rejects
  | _ => false

/-- A request is rejected before the next read of the client. -/
def RejectedAtOnce (future : List Effect) : Prop :=
  ∃ between e rest, future = between ++ e::rest ∧ e.rejectsRequest = true ∧
    ∀ data, .downstreamRead data ∉ between

theorem not_carriesOn_of_ofRead {e : Effect} (h : e.ofRead = true) : e.carriesOn = false := by
  cases e <;> simp_all [Effect.ofRead,Effect.carriesOn]

theorem ofRead_of_rejectsRequest {e : Effect} (h : e.rejectsRequest = true) : e.ofRead = true := by
  cases e <;> simp_all [Effect.rejectsRequest,Effect.ofRead]

section
variable {G : Gateway}

theorem errorUnseen_of_responding {log : List Effect} (h : Conforms G log)
    (hr : (cycleOf log).responding = true) : (cycleOf log).ErrorUnseen := by
  refine h.induct (P := fun c => c.responding = true → c.ErrorUnseen) (fun hn => by cases hn)
    (fun c last e ih ha hr => ?_) hr
  cases e with
  | startResponsePhase => exact ha.1.errorUnseen
  | requestError consumed =>
    have hnot : c.responding = false := ha.2.1
    rw [show c.responding = true from hr] at hnot
    cases hnot
  | _ => exact ih hr

/-- A request is carried on only if it was not refused and no error was seen. -/
theorem carriesOn_allowed {log : List Effect} {e : Effect} (h : Conforms G log)
    (ha : (cycleOf log).Allows G log.getLast? e) (he : e.carriesOn = true) :
    (cycleOf log).refused = false ∧ (cycleOf log).ErrorUnseen := by
  cases e <;> try cases he
  case readDownstream => exact ⟨ha.2.1,ha.2.2.2⟩
  case selectEndpoint => exact ⟨ha.1.notRefused,ha.1.errorUnseen⟩
  case acquireConnection => exact ⟨ha.1.notRefused,ha.1.errorUnseen⟩
  case acquireFreshConnection => exact ⟨ha.1.notRefused,ha.1.errorUnseen⟩
  case writeUpstream => exact ⟨ha.1.notRefused,ha.1.errorUnseen⟩
  case startResponsePhase => exact ⟨ha.1.notRefused,ha.1.errorUnseen⟩
  case resetForNextRequest =>
    exact ⟨ha.1.notRefused,errorUnseen_of_responding h ha.1.responding⟩

theorem unread_keeps {log more : List Effect} {k : ℕ} (h : Conforms G (log ++ more))
    (hk : (cycleOf log).unread = some k) : (cycleOf (log ++ more)).unread = some k := by
  refine h.keeps (P := fun c => c.unread = some k) (fun c last e hP ha => ?_) hk
  cases e with
  | requestError consumed =>
    rw [ha.2.2.1] at hP
    cases hP
  | _ => exact hP

theorem refused_keeps {log more : List Effect} (h : Conforms G (log ++ more))
    (hr : (cycleOf log).refused = true) : (cycleOf (log ++ more)).refused = true := by
  refine h.keeps (P := fun c => c.refused = true) (fun c last e hP _ => ?_) hr
  cases e <;> simp_all [Cycle.record]

theorem refused_of_rejectsRequest (c : Cycle) {e : Effect} (h : e.rejectsRequest = true) :
    (c.record e).refused = true := by
  cases e <;> try cases h
  case filterRequest head result filtered =>
    have hr : result.rejects = true := h
    simp [Cycle.record,hr]
  case gateRequest call =>
    have hr : call.result.rejects = true := h
    simp [Cycle.record,hr]

/-- The entries of one read follow each other. -/
theorem ofRead_before {log : List Effect} {e : Effect}
    (ha : (cycleOf log).Allows G log.getLast? e) (he : e.ofRead = true)
    (hne : ∀ data, e ≠ .downstreamRead data) : log.getLast?.any Effect.ofRead = true := by
  cases e <;> try cases he
  case downstreamRead data => exact absurd rfl (hne data)
  case requestError consumed =>
    obtain ⟨-,-,-,-,raw,hlast,-⟩ := ha
    rw [hlast]
    rfl
  case requestHandled => exact ha
  case filterRequest =>
    rw [ha.1]
    rfl
  case startRequest => exact ha.1
  case gateRequest => exact ha.1
  case provideRequest => exact ha.1

theorem ofRead_between {log between : List Effect} {e : Effect}
    (h : Conforms G (log ++ between ++ [e])) (he : e.ofRead = true)
    (hne : ∀ data, e ≠ .downstreamRead data) (hb : ∀ data, .downstreamRead data ∉ between) :
    ∀ x ∈ between, x.ofRead = true := by
  induction between using List.reverseRecOn generalizing e with
  | nil => simp
  | append_singleton between y ih =>
    rw [conforms_append] at h
    have hy : y.ofRead = true := by
      have := ofRead_before h.2 he hne
      rw [← List.append_assoc] at this
      simpa using this
    have hpre := h.1
    rw [← List.append_assoc] at hpre
    have hall := ih hpre hy (fun data hc => hb data (by simp [hc]))
      fun data hc => hb data (by simp [hc])
    intro x hx
    rcases List.mem_append.mp hx with hx | hx
    · exact hall x hx
    · exact List.mem_singleton.mp hx ▸ hy

/-- After an entry that rules it out, nothing carries the request on. -/
theorem not_carriesOn_after {log future : List Effect} (h : Conforms G (log ++ future))
    (hno : ∀ more, Conforms G (log ++ more) → ¬((cycleOf (log ++ more)).refused = false ∧
      (cycleOf (log ++ more)).ErrorUnseen)) : ∀ e ∈ future, e.carriesOn = false := by
  intro e he
  obtain ⟨more,rest,rfl⟩ := List.append_of_mem he
  rw [← List.append_assoc] at h
  obtain ⟨hc,ha⟩ := h.allows
  cases hcarries : e.carriesOn with
  | false => rfl
  | true => exact absurd (carriesOn_allowed hc ha hcarries) (hno more hc)

/-- The failure is noticed when some of the read is left over, and it has no consequences
when a filter rejects the request at once. -/
theorem not_carriesOn_after_error {past future : List Effect} {raw : Bytes} {n : ℕ}
    (h : Conforms G (past ++ .requestError n::future))
    (hlast : past.getLast? = some (.downstreamRead raw))
    (hwhen : n < raw.length ∨ RejectedAtOnce future) :
    (∀ e ∈ future, e.carriesOn = false) ∧
      ¬((cycleOf (past ++ .requestError n::future)).refused = false ∧
        (cycleOf (past ++ .requestError n::future)).ErrorUnseen) := by
  obtain ⟨-,ha⟩ := h.allows
  obtain ⟨-,-,-,before,raw',hlast',hreads,-⟩ := ha
  obtain rfl : raw = raw' := by simpa using hlast.symm.trans hlast'
  have hunread : (cycleOf (past ++ [.requestError n])).unread = some (raw.length - n) := by
    simp [Cycle.record,hreads]
  have heq : past ++ .requestError n::future = past ++ [.requestError n] ++ future := by simp
  rw [heq] at h ⊢
  rcases hwhen with hlt | ⟨between,e,rest,rfl,hrejects,hbetween⟩
  · have hno : ∀ more, Conforms G (past ++ [.requestError n] ++ more) →
        ¬((cycleOf (past ++ [.requestError n] ++ more)).refused = false ∧
          (cycleOf (past ++ [.requestError n] ++ more)).ErrorUnseen) := by
      rintro more hc ⟨-,hun⟩
      have := unread_keeps hc hunread
      rcases hun with hun | hun
      · rw [this] at hun
        cases hun
      · rw [this] at hun
        have := Option.some.inj hun
        omega
    exact ⟨not_carriesOn_after h hno,hno future h⟩
  · have hread := ofRead_of_rejectsRequest hrejects
    have heq' : past ++ [.requestError n] ++ (between ++ e::rest) =
        past ++ [.requestError n] ++ between ++ [e] ++ rest := by simp
    rw [heq'] at h ⊢
    have hrefused : (cycleOf (past ++ [.requestError n] ++ between ++ [e])).refused = true := by
      rw [cycleOf_append]
      exact refused_of_rejectsRequest _ hrejects
    have hno : ∀ more, Conforms G (past ++ [.requestError n] ++ between ++ [e] ++ more) →
        ¬((cycleOf (past ++ [.requestError n] ++ between ++ [e] ++ more)).refused = false ∧
          (cycleOf (past ++ [.requestError n] ++ between ++ [e] ++ more)).ErrorUnseen) := by
      rintro more hc ⟨hfalse,-⟩
      rw [refused_keeps hc hrefused] at hfalse
      cases hfalse
    have hpre : Conforms G (past ++ [.requestError n] ++ between ++ [e]) := by
      cases rest with
      | nil => simpa using h
      | cons x rest => exact h.allows.1
    refine ⟨fun x hx => ?_,hno rest h⟩
    rcases List.mem_append.mp hx with hx | hx
    · refine not_carriesOn_of_ofRead (ofRead_between hpre hread (fun data hc => ?_) hbetween x hx)
      rw [hc] at hrejects
      cases hrejects
    · rcases List.mem_cons.mp hx with rfl | hx
      · exact not_carriesOn_of_ofRead hread
      · exact not_carriesOn_after h hno x hx

end

namespace HttpSession
variable {G : Gateway}

/-- A session waits for anything but the end of its own response only while the request is
neither refused nor known to be wrong. -/
theorem Waits.unrefused {s : HttpSession G} {c : Cycle} {op : Op} (h : Waits s c op) :
    (c.refused = false ∧ c.ErrorUnseen) ∨
      (s.directResponseMode = true ∧ ∃ data, op = .writeResponse data) := by
  cases op with
  | readRequest => exact .inl ⟨h.1.notRefused,h.2.1⟩
  | connect => exact .inl ⟨h.1.notRefused,h.1.unseen⟩
  | writeRequest => exact .inl ⟨h.1.notRefused,h.1.unseen⟩
  | retryConnect => exact .inl ⟨h.1.notRefused,h.1.unseen⟩
  | retryWrite => exact .inl ⟨h.1.notRefused,h.1.unseen⟩
  | rereadConnect => exact .inl ⟨h.1.notRefused,h.1.unseen⟩
  | rereadWrite => exact .inl ⟨h.1.notRefused,h.1.unseen⟩
  | readResponse => exact .inl ⟨h.1.request.notRefused,h.1.unseen⟩
  | writeResponse data =>
    rcases h with hr | ⟨ha,-⟩
    · exact .inr ⟨hr.direct,data,rfl⟩
    · exact .inl ⟨ha.request.notRefused,ha.unseen⟩

/-- Nothing is sent on, and the session closes without reading from the client again, at
once or after the response it gives itself. -/
structure Dropped (s : HttpSession G) (future : List Effect) : Prop where
  nothing : ∀ e ∈ future, e.carriesOn = false
  ends : s.closing = true ∨
    (s.directResponseMode = true ∧ ∃ data, s.pending = [.writeResponse data])

/-- A request the parser fails on is dropped, unless the failure lies at the end of a read
and no filter rejects the request then. -/
theorem failed_request_dropped {s : HttpSession G} (h : (system G).Reaches s) :
    ∀ log ∈ s.cycles, ∀ past n future, log = past ++ .requestError n::future →
      ∃ raw, past.getLast? = some (.downstreamRead raw) ∧
        (n < raw.length ∨ RejectedAtOnce future → Dropped s future) := by
  rintro log hlog past n future rfl
  have hc := conforms_of_reaches h hlog
  obtain ⟨-,ha⟩ := hc.allows
  obtain ⟨-,-,-,before,raw,hlast,-⟩ := ha
  refine ⟨raw,hlast,fun hwhen => ?_⟩
  obtain ⟨hnothing,hno⟩ := not_carriesOn_after_error hc hlast hwhen
  refine ⟨hnothing,?_⟩
  have hs := suspended_of_reaches h
  rcases List.mem_append.mp hlog with hp | hp
  · -- a finished cycle would have been carried on
    have hreset := (hs.sound.past _ hp).2
    have hmem : .resetForNextRequest ∈ future := by
      rw [List.getLast?_append_cons] at hreset
      rcases List.mem_cons.mp (List.mem_of_getLast? hreset) with hm | hm
      · cases hm
      · exact hm
    have := hnothing _ hmem
    cases this
  · rw [List.mem_singleton] at hp
    rw [hp] at hno
    cases hs with
    | closed _ closing _ _ => exact .inl closing
    | waiting op c live waits =>
      rw [live.log] at hno
      obtain ⟨hdirect,data,hop⟩ := waits.unrefused.resolve_left hno
      exact .inr ⟨hdirect,data,by rw [live.pending,hop]⟩

/-- The request has no reliable length, and a byte comes behind its header block. -/
def followedRun : HttpSession (.strict [] 64) :=
  strictRun [] 64 [.read (ascii "POST / HTTP/1.1\r\nTransfer-Encoding: gzip\r\n\r\nx")]

theorem failed_request_dropped_early :
    followedRun.log.count (.requestError 44) = 1 ∧
    ∀ log ∈ followedRun.cycles, ∀ past n future, log = past ++ .requestError n::future →
      ∃ raw, past.getLast? = some (.downstreamRead raw) ∧
        (n < raw.length ∨ RejectedAtOnce future → Dropped followedRun future) :=
  ⟨by decide +kernel,failed_request_dropped (reaches_strictRun (by decide +kernel))⟩

/-- The request has no reliable length, which is found out at the end of the read. -/
def unlimitedRun : HttpSession (.strict [] 64) :=
  strictRun [] 64 [.read (ascii "POST / HTTP/1.1\r\nTransfer-Encoding: gzip\r\n\r\n")]

theorem failed_request_sent_on :
    ¬∀ (G : Gateway) (s : HttpSession G), (system G).Reaches s → ∀ log ∈ s.cycles,
      ∀ past n future, log = past ++ .requestError n::future → Dropped s future := by
  intro h
  have hreach : (system _).Reaches unlimitedRun := reaches_strictRun (by decide +kernel)
  have hdropped := h _ unlimitedRun hreach unlimitedRun.log (by simp [cycles])
    (unlimitedRun.log.takeWhile fun e => e != .requestError 44) 44
    (unlimitedRun.log.dropWhile fun e => e != .requestError 44).tail (by decide +kernel)
  have hsent := hdropped.nothing (.selectEndpoint 0) (by decide +kernel)
  cases hsent

end HttpSession
end PerCoreShard
