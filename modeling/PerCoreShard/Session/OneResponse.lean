import PerCoreShard.Session.Delivery

/-! The bytes handed to the downstream socket in one cycle. They begin one response, unless a
response body is rejected after some of it was written: the rejection is then answered with a
second response. -/
namespace PerCoreShard
open Library

section
variable {G : Gateway}

/-- A cycle writes one response: when the session answers itself nothing was written before,
and all that was written begins the response that was started last. -/
structure OneResponse (log : List Effect) : Prop where
  direct : ∀ past head body future, log = past ++ .respondDirectly head body::future →
    (cycleOf past).issued = []
  unstarted : (cycleOf log).response.head = none → (cycleOf log).issued = []
  bytes : ∀ head, (cycleOf log).response.head = some head → (cycleOf log).issued <+:
    head.bytes ++ encodeAll (hasChunkedEncoding head.headers) (cycleOf log).response.provided

/-- A data filter or the watermark rejects the response body. -/
def Effect.rejectsBody : Effect → Bool
  | .gateResponse call => call.result.rejects
  | _ => false

/-- No filter rejects a piece of the response body, and its buffer does not pass the watermark,
once a byte of the response was written. -/
def NoLateRejection (log : List Effect) : Prop :=
  AtEvery (fun past e => e.rejectsBody = true → (cycleOf past).issued = []) log

instance (log : List Effect) : Decidable (NoLateRejection log) :=
  inferInstanceAs (Decidable (AtEvery _ _))

theorem NoLateRejection.of_append {log more : List Effect} (h : NoLateRejection (log ++ more)) :
    NoLateRejection log :=
  ((atEvery_append _ _ _).mp h).1

/-- When the session answers itself nothing was written before. -/
theorem issued_of_direct {log : List Effect} {head : ResponseHead} {body : Bytes}
    (hn : NoLateRejection log)
    (ha : (cycleOf log).Allows G log.getLast? (.respondDirectly head body)) :
    (cycleOf log).issued = [] := by
  obtain ⟨-,-,h | ⟨call,rejection,text,hlast,hres⟩,-⟩ := ha
  · exact h
  · obtain ⟨before,rfl⟩ : ∃ before, log = before ++ [.gateResponse call] :=
      ⟨_,(List.dropLast_append_getLast? _ hlast).symm⟩
    rw [cycleOf_append]
    obtain ⟨-,hlate,-⟩ := (atEvery_append _ _ _).mp hn
    exact hlate (by simp [Effect.rejectsBody,hres,GateResult.rejects])

/-- Nothing was written before the current response was started, and what was written since
then begins it. -/
theorem issued_prefix {log : List Effect} (h : Conforms G log) (hn : NoLateRejection log) :
    (cycleOf log).earlier = [] ∧ (cycleOf log).issued <+: (cycleOf log).response.wire ∧
      ∀ head body, log.getLast? = some (.respondDirectly head body) → (cycleOf log).issued = [] := by
  refine h.induct_log (P := fun log => NoLateRejection log → (cycleOf log).earlier = [] ∧
    (cycleOf log).issued <+: (cycleOf log).response.wire ∧ ∀ head body,
      log.getLast? = some (.respondDirectly head body) → (cycleOf log).issued = [])
    (fun _ => ⟨rfl,List.prefix_rfl,fun _ _ hl => by cases hl⟩) (fun log e _ ih ha hn => ?_) hn
  have hdirect : ∀ head body, e = .respondDirectly head body → (cycleOf log).issued = [] := by
    rintro head body rfl
    exact issued_of_direct hn.of_append ha
  obtain ⟨hearlier,hpre,hlast⟩ := ih hn.of_append
  rw [cycleOf_append]
  generalize hc : cycleOf log = c at *
  have hstays : ∀ head body, (log ++ [e]).getLast? = some (.respondDirectly head body) →
      (c.record e).issued = [] := by
    intro head body hl
    obtain rfl : e = .respondDirectly head body := by simpa using hl
    exact hdirect head body rfl
  cases e with
  | startResponse head =>
    have hnone : c.issued = [] := by
      rcases ha with ⟨body,hl⟩ | ⟨-,-,-,h,-⟩
      · exact hlast head body hl
      · exact h
    refine ⟨hnone,?_,hstays⟩
    rw [show (c.record (.startResponse head)).issued = [] from hnone]
    exact List.nil_prefix
  | provideResponse chunk isLast =>
    exact ⟨hearlier,hpre.trans (Ledger.wire_provide _ _),hstays⟩
  | writeDownstream data =>
    obtain ⟨hissued,⟨rest,hnext⟩,-⟩ := ha
    refine ⟨hearlier,⟨rest,?_⟩,hstays⟩
    change c.issued ++ data ++ rest = c.response.wire
    rw [hissued,hearlier,List.nil_append,hnext]
  | _ => exact ⟨hearlier,hpre,hstays⟩

theorem oneResponse_of_conforms {log : List Effect} (h : Conforms G log)
    (hn : NoLateRejection log) : OneResponse log := by
  obtain ⟨-,hpre,-⟩ := issued_prefix h hn
  refine ⟨?_,fun hnone => ?_,fun head hhead => ?_⟩
  · rintro past head body future rfl
    exact issued_of_direct hn.of_append h.allows.2
  · unfold Ledger.wire at hpre
    rw [hnone] at hpre
    exact List.prefix_nil.mp hpre
  · unfold Ledger.wire at hpre
    rw [hhead] at hpre
    exact hpre

end

namespace HttpSession
variable {G : Gateway}

/-- In every run every cycle writes one response, if no response body is rejected after some of
it was written. -/
theorem one_response_per_cycle {s : HttpSession G} (h : (system G).Reaches s) :
    ∀ log ∈ s.cycles, NoLateRejection log → OneResponse log :=
  fun _ hlog hn => oneResponse_of_conforms (conforms_of_reaches h hlog) hn

def badGateway : ResponseHead where
  status := 502
  reason := ascii "Bad Gateway"

/-- Rejects the piece of body `b`. -/
def rejectFilter : Filter Unit where
  onResponseData data _ ctx :=
    (if data = ascii "b" then .respond ⟨badGateway,[]⟩ else .continue_,data,ctx)

/-- The response comes in one read, and its body is rejected before anything was written. -/
def rejectedRun : HttpSession (.strict [rejectFilter] 64) :=
  strictRun [rejectFilter] 64 [.read (ascii "GET / HTTP/1.1\r\n\r\n"),.connected 7,.wrote 42,
    .read (ascii "HTTP/1.1 200 OK\r\nContent-Length: 1\r\n\r\nb")]

theorem one_response_per_cycle_rejected : OneResponse rejectedRun.log := by
  have hreach : (system _).Reaches rejectedRun := reaches_strictRun (by decide +kernel)
  exact one_response_per_cycle hreach rejectedRun.log (by simp [cycles]) (by decide +kernel)

/-- The second piece of the body is rejected after the first one was written. -/
def lateRun : HttpSession (.strict [rejectFilter] 64) :=
  strictRun [rejectFilter] 64 [.read (ascii "GET / HTTP/1.1\r\n\r\n"),.connected 7,.wrote 42,
    .read (ascii "HTTP/1.1 200 OK\r\nContent-Length: 2\r\n\r\na"),.wrote 63,
    .read (ascii "b")]

/-- A second response is written behind the first one. -/
theorem second_response_written : ¬∀ (G : Gateway) (s : HttpSession G), (system G).Reaches s →
    ∀ log ∈ s.cycles, OneResponse log := by
  intro h
  have hreach : (system _).Reaches lateRun := reaches_strictRun (by decide +kernel)
  have hone := h _ lateRun hreach lateRun.log (by simp [cycles])
  have hissued := hone.direct
    (lateRun.log.takeWhile fun e => e != .respondDirectly badGateway [])
    badGateway [] (lateRun.log.dropWhile fun e => e != .respondDirectly badGateway []).tail
    (by decide +kernel)
  revert hissued
  decide +kernel

end HttpSession
end PerCoreShard
