import PerCoreShard.Session.OneResponse
import PerCoreShard.Session.RequestRelay
import PerCoreShard.Session.ResponseRelay

/-! The filter chain every shard is built with. Its one filter adds a `Via` header to the heads
that pass. With it a session never answers a request itself, and what it sends on is what it has
read. -/
namespace PerCoreShard
open Library LlhttpParser

/-- The header `ViaHeaderFilter` adds. -/
def viaHeader : Header := ⟨ascii "Via",ascii "1.1 perCoreShard"⟩

def RequestHead.withVia (head : RequestHead) : RequestHead :=
  { head with headers := head.headers ++ [viaHeader] }

def ResponseHead.withVia (head : ResponseHead) : ResponseHead :=
  { head with headers := head.headers ++ [viaHeader] }

def viaHeaderFilter (Ctx : Type) : Filter Ctx where
  onRequest head ctx := (.continue_,head.withVia,ctx)
  onResponse head ctx := (.continue_,head.withVia,ctx)

def buildDefaultFilterChain (Ctx : Type) : FilterChain Ctx := [viaHeaderFilter Ctx]

/-- No filter of the chain looks at a body or rejects a head. -/
structure FilterChain.LetsPass {Ctx : Type} (filters : FilterChain Ctx) : Prop where
  noData : filters.NoData
  request : ∀ head ctx, (filters.applyRequest head ctx).1 = .continue_
  response : ∀ head ctx, (filters.applyResponse head ctx).1 = .continue_

theorem letsPass_default (Ctx : Type) : (buildDefaultFilterChain Ctx).LetsPass := by
  refine ⟨fun f hf => ?_,fun _ _ => rfl,fun _ _ => rfl⟩
  rw [List.mem_singleton.mp hf]
  exact fun _ _ _ => ⟨rfl,rfl⟩

section
variable {G : Gateway} {log : List Effect}

theorem unrefused_of_conforms (hpass : G.filterChain.LetsPass) (h : Conforms G log) :
    (cycleOf log).refused = false := by
  refine h.induct_log (P := fun log => (cycleOf log).refused = false) rfl fun log e hlog ih ha => ?_
  have hu := untouched_of_conforms hpass.noData (conforms_append.mpr ⟨hlog,ha⟩)
  rw [cycleOf_append] at hu ⊢
  cases e with
  | filterRequest head result filtered =>
    obtain ⟨-,-,-,-,-,-,-,-,ctx,ctx',happly⟩ := ha
    have hresult := hpass.request head ctx
    rw [happly] at hresult
    subst hresult
    exact (Bool.or_false _).trans ih
  | filterResponse head result filtered =>
    obtain ⟨-,-,-,-,-,-,-,ctx,ctx',happly⟩ := ha
    have hresult := hpass.response head ctx
    rw [happly] at hresult
    subst hresult
    exact (Bool.or_false _).trans ih
  | gateRequest call =>
    have hresult := hu.1.results call (List.mem_append_right _ (List.mem_singleton_self call))
    change ((cycleOf log).refused || call.result.rejects) = false
    rw [hresult,ih]
    rfl
  | gateResponse call =>
    have hresult := hu.2.results call (List.mem_append_right _ (List.mem_singleton_self call))
    change ((cycleOf log).refused || call.result.rejects) = false
    rw [hresult,ih]
    rfl
  | _ => exact ih

theorem undirected_of_conforms (hpass : G.filterChain.LetsPass) (h : Conforms G log) :
    (cycleOf log).direct = false := by
  cases hd : (cycleOf log).direct with
  | false => rfl
  | true =>
    have hrefused := refused_of_direct h hd
    rw [unrefused_of_conforms hpass h] at hrefused
    cases hrefused

theorem unanswered_of_conforms (hpass : G.filterChain.LetsPass) (h : Conforms G log)
    (head : ResponseHead) (body : Bytes) : .respondDirectly head body ∉ log := by
  intro hin
  obtain ⟨past,future,rfl⟩ := List.append_of_mem hin
  obtain ⟨hpast,-,hrefused,-⟩ := h.allows
  rw [unrefused_of_conforms hpass hpast] at hrefused
  cases hrefused

theorem noLateRejection_of_conforms (hpass : G.filterChain.LetsPass) (h : Conforms G log) :
    NoLateRejection log := by
  refine (atEvery_iff _ _).mpr fun past e future heq hrejects => ?_
  subst heq
  obtain ⟨hpast,ha⟩ := h.allows
  have hunrefused := unrefused_of_conforms hpass (conforms_append.mpr ⟨hpast,ha⟩)
  rw [cycleOf_append] at hunrefused
  cases e with
  | gateResponse call =>
    have hcall : ((cycleOf past).refused || call.result.rejects) = false := hunrefused
    rw [show call.result.rejects = true from hrejects,Bool.or_true] at hcall
    cases hcall
  | _ => cases hrejects

/-- The head a relayed response is written with, traced back to the bytes that were read. -/
theorem head_response (hpass : G.filterChain.LetsPass) (h : Conforms G log) {head : ResponseHead}
    (hh : (cycleOf log).response.head = some head) : ∃ before ctx filtered ctx' keepAlive,
      before <+: (cycleOf log).response.input ∧
      (parsed G.responseLlhttp ResponseHead before).headerDone = true ∧
      G.filterChain.applyResponse (parsed G.responseLlhttp ResponseHead before).head ctx =
        (.continue_,filtered,ctx') ∧ head = Cycle.relayedHead filtered keepAlive := by
  have hpassed : ∀ head, (cycleOf log).response.head = some head → ∃ shown filtered keepAlive,
      (cycleOf log).response.filtered = some (shown,.continue_,filtered) ∧
        head = Cycle.relayedHead filtered keepAlive := by
    refine h.induct_log (P := fun log => ∀ head, (cycleOf log).response.head = some head →
      ∃ shown filtered keepAlive, (cycleOf log).response.filtered = some (shown,.continue_,filtered) ∧
        head = Cycle.relayedHead filtered keepAlive) (fun _ hn => by cases hn) fun log e hlog ih ha => ?_
    rw [cycleOf_append]
    cases e with
    | filterResponse head result filtered =>
      intro head' hh'
      obtain ⟨shown,filtered',keepAlive,hfiltered,-⟩ := ih head' hh'
      rw [ha.2.2.2.1] at hfiltered
      cases hfiltered
    | startResponse head =>
      rcases ha with ⟨body,hlast⟩ | ⟨-,-,-,-,shown,filtered,keepAlive,hfiltered,-,hhead⟩
      · have hdirect := direct_of_last hlast
        rw [undirected_of_conforms hpass hlog] at hdirect
        cases hdirect
      · rintro _ ⟨rfl⟩
        exact ⟨shown,filtered,keepAlive,hfiltered,hhead⟩
    | _ => exact ih
  obtain ⟨shown,filtered,keepAlive,hfiltered,hhead⟩ := hpassed head hh
  obtain ⟨before,ctx,ctx',hpre,hd,rfl,happly⟩ := shown_response h _ _ _ hfiltered
  exact ⟨before,ctx,filtered,ctx',keepAlive,hpre,hd,happly,hhead⟩

end

/-- What is sent upstream belongs to the request that was read, and what is written downstream to
the response that was read: the heads with the `Via` and the `Connection` header of the gateway,
the bodies unchanged. -/
structure RelaysAsRead (G : Gateway) (c : Cycle) : Prop where
  requestHead : ∀ head, c.request.head = some head → ∃ before, before <+: c.request.input ∧
    (parsed G.requestLlhttp RequestHead before).headerDone = true ∧
      head = Cycle.forwardedHead (parsed G.requestLlhttp RequestHead before).head.withVia
  requestBody : payload c.request.provided <+: (c.request.parse G.requestLlhttp).scratch
  sent : c.request.sent <+: c.request.wire
  responseHead : ∀ head, c.response.head = some head → ∃ before keepAlive,
    before <+: c.response.input ∧
      (parsed G.responseLlhttp ResponseHead before).headerDone = true ∧
        head = Cycle.relayedHead (parsed G.responseLlhttp ResponseHead before).head.withVia keepAlive
  responseBody : payload c.response.provided <+: (c.response.parse G.responseLlhttp).scratch
  issued : c.issued <+: c.response.wire

theorem relaysAsRead_of_conforms {G : Gateway} (hG : G.filterChain = buildDefaultFilterChain G.Ctx)
    {log : List Effect} (h : Conforms G log) : RelaysAsRead G (cycleOf log) := by
  have hpass : G.filterChain.LetsPass := hG ▸ letsPass_default G.Ctx
  have hu := untouched_of_conforms hpass.noData h
  have hsent := sent_prefix h
  have hissued := issued_prefix h (noLateRejection_of_conforms hpass h)
  have hrequest := Ledger.Booked.payload_prefix (booked_request h) hu.1
  have hresponse := Ledger.Booked.payload_prefix (booked_response h (undirected_of_conforms hpass h)) hu.2
  refine ⟨fun head hh => ?_,hrequest,hsent,fun head hh => ?_,hresponse,hissued.2.1⟩
  · obtain ⟨before,ctx,filtered,ctx',hpre,hd,happly,hhead⟩ := head_request h hh
    rw [hG] at happly
    obtain rfl : RequestHead.withVia _ = filtered := (Prod.mk.inj (Prod.mk.inj happly).2).1
    exact ⟨before,hpre,hd,hhead⟩
  · obtain ⟨before,ctx,filtered,ctx',keepAlive,hpre,hd,happly,hhead⟩ := head_response hpass h hh
    rw [hG] at happly
    obtain rfl : ResponseHead.withVia _ = filtered := (Prod.mk.inj (Prod.mk.inj happly).2).1
    exact ⟨before,keepAlive,hpre,hd,hhead⟩

namespace HttpSession
variable {G : Gateway}

/-- In every run of a session with the chain of the gateway, no cycle is answered by the session
itself, and each of them relays what was read in it. -/
theorem default_chain_relays (hG : G.filterChain = buildDefaultFilterChain G.Ctx)
    {s : HttpSession G} (h : (system G).Reaches s) : ∀ log ∈ s.cycles,
      RelaysAsRead G (cycleOf log) ∧ ∀ head body, .respondDirectly head body ∉ log := by
  intro log hlog
  have hconforms := conforms_of_reaches h hlog
  exact ⟨relaysAsRead_of_conforms hG hconforms,
    unanswered_of_conforms (hG ▸ letsPass_default G.Ctx) hconforms⟩

/-- A response with a body, which is relayed in one write. -/
def viaRun : HttpSession (.strict (buildDefaultFilterChain Unit) 128) :=
  strictRun (buildDefaultFilterChain Unit) 128 [.read (ascii "GET / HTTP/1.1\r\n\r\n"),.connected 7,
    .wrote 65,.read (ascii "HTTP/1.1 200 OK\r\nContent-Length: 1\r\n\r\nb")]

theorem default_chain_relays_via :
    (cycleOf viaRun.log).issued = ascii ("HTTP/1.1 200 OK\r\nContent-Length: 1\r\n" ++
      "Via: 1.1 perCoreShard\r\nConnection: keep-alive\r\n\r\nb") ∧
    RelaysAsRead (.strict (buildDefaultFilterChain Unit) 128) (cycleOf viaRun.log) ∧
    ∀ head body, .respondDirectly head body ∉ viaRun.log := by
  have hreach : (system _).Reaches viaRun := reaches_strictRun (by decide +kernel)
  exact ⟨by decide +kernel,default_chain_relays rfl hreach viaRun.log (by simp [cycles])⟩

end HttpSession
end PerCoreShard
