import PerCoreShard.Session.Refusal
import PerCoreShard.Session.RequestRelay
import PerCoreShard.Session.Upstream

/-! The filters gate the upstream. An upstream is looked for only after the filters have let
the head of the request pass and while nothing was rejected; once something is rejected, the
session writes the response it was told to give and closes. -/
namespace PerCoreShard
open Library LlhttpParser

/-- Calls that look for an upstream connection. -/
def Effect.seeksUpstream : Effect → Bool
  | .selectEndpoint _ | .acquireConnection _ | .acquireFreshConnection _ => true
  | _ => false

/-- What would go on with a request or its connections as if nothing had been rejected. -/
def Effect.goesOn : Effect → Bool
  | .selectEndpoint _ | .acquireConnection _ | .acquireFreshConnection _ => true
  | .connected _ _ | .writeUpstream _ | .startResponsePhase => true
  | .releaseConnection _ _ | .dropUpstream _ | .readDownstream | .resetForNextRequest => true
  | _ => false

/-- The bytes handed to downstream writes. -/
def writtenDownstream (log : List Effect) : Bytes :=
  log.flatMap fun e => match e with
    | .writeDownstream data => data
    | _ => []

/-- A response given in place of the one the client asked for, as it goes over the wire. -/
def replyBytes (reply : ResponseHead × Bytes) : Bytes :=
  reply.1.bytes ++ encodeAll (hasChunkedEncoding reply.1.headers) [(reply.2,true)]

section
variable {G : Gateway}

/-- The head of the request that was read so far was shown to the filters, and they all let
it pass. -/
def Admitted (G : Gateway) (log : List Effect) : Prop :=
  ∃ head filtered, .filterRequest head .continue_ filtered ∈ log ∧
    ∃ before ctx ctx', before <+: (cycleOf log).request.input ∧
      (parsed G.requestLlhttp RequestHead before).headerDone = true ∧
      head = (parsed G.requestLlhttp RequestHead before).head ∧
      G.filterChain.applyRequest head ctx = (.continue_,filtered,ctx')

/-- An upstream is looked for only when the filters let the head pass and none rejected since. -/
def Gates (G : Gateway) (past : List Effect) (e : Effect) : Prop :=
  e.seeksUpstream = true → Admitted G past ∧ ∀ x ∈ past, x.reply = none

theorem refused_of_reply (c : Cycle) {e : Effect} {reply : ResponseHead × Bytes}
    (h : e.reply = some reply) : (c.record e).refused = true := by
  have hhead : ∀ r : FilterHeaderResult, r.reply = some reply → r.rejects = true := by
    rintro (_ | response) hr
    · cases hr
    · rfl
  have hgate : ∀ r : GateResult, r.reply = some reply → r.rejects = true := by
    rintro (data | _ | ⟨head,body⟩) hr
    · cases hr
    · cases hr
    · rfl
  cases e <;> try cases h
  case filterRequest => simp [Cycle.record,hhead _ h]
  case gateRequest => simp [Cycle.record,hgate _ h]
  case filterResponse => simp [Cycle.record,hhead _ h]
  case gateResponse => simp [Cycle.record,hgate _ h]

theorem reply_none_of_not_refused {log : List Effect} (h : Conforms G log)
    (hr : (cycleOf log).refused = false) : ∀ x ∈ log, x.reply = none := by
  intro x hx
  obtain ⟨past,future,rfl⟩ := List.append_of_mem hx
  cases hreply : x.reply with
  | none => rfl
  | some reply =>
    have hpast : (cycleOf (past ++ [x])).refused = true := by
      rw [cycleOf_append]
      exact refused_of_reply _ hreply
    have heq : past ++ x::future = past ++ [x] ++ future := by simp
    rw [heq] at h hr
    rw [refused_keeps h hpast] at hr
    cases hr

/-- What the books say about the filtered head is on record. -/
theorem filtered_on_record {log : List Effect} (h : Conforms G log) :
    ∀ head result filtered, (cycleOf log).request.filtered = some (head,result,filtered) →
      .filterRequest head result filtered ∈ log := by
  refine h.induct_log (P := fun log => ∀ head result filtered,
    (cycleOf log).request.filtered = some (head,result,filtered) →
      .filterRequest head result filtered ∈ log) (fun _ _ _ hn => by cases hn) ?_
  intro log e _ ih _ head result filtered hf
  rw [cycleOf_append] at hf
  cases e with
  | filterRequest head' result' filtered' =>
    simp only [Cycle.record,Option.some.injEq,Prod.mk.injEq] at hf
    obtain ⟨rfl,rfl,rfl⟩ := hf
    simp
  | _ => exact List.mem_append_left _ (ih _ _ _ hf)

theorem admitted_of_started {log : List Effect} (h : Conforms G log)
    (hs : (cycleOf log).request.head.isSome = true) : Admitted G log := by
  obtain ⟨head,hhead⟩ := Option.isSome_iff_exists.mp hs
  obtain ⟨shown,filtered,hf,-⟩ := passed_request h head hhead
  exact ⟨shown,filtered,filtered_on_record h _ _ _ hf,shown_request h _ _ _ hf⟩

theorem gates_of_conforms {log : List Effect} (h : Conforms G log) : AtEvery (Gates G) log := by
  refine (atEvery_iff _ _).mpr fun past e future heq hseeks => ?_
  obtain ⟨hc,ha⟩ := (heq ▸ h).allows
  have hforward : (cycleOf past).Forwarding := by
    cases e <;> try cases hseeks
    case selectEndpoint => exact ha.1
    case acquireConnection => exact ha.1
    case acquireFreshConnection => exact ha.1
  exact ⟨admitted_of_started hc hforward.started,reply_none_of_not_refused hc hforward.notRefused⟩

theorem not_goesOn_of_refused {log : List Effect} {e : Effect}
    (ha : (cycleOf log).Allows G log.getLast? e) (hr : (cycleOf log).refused = true) :
    e.goesOn = false := by
  have hno : (cycleOf log).refused = false → e.goesOn = false := fun h => by
    rw [hr] at h
    cases h
  cases e <;> first | rfl | skip
  case selectEndpoint => exact hno ha.1.notRefused
  case acquireConnection => exact hno ha.1.notRefused
  case acquireFreshConnection => exact hno ha.1.notRefused
  case connected => exact hno ha.2.2
  case writeUpstream => exact hno ha.1.notRefused
  case startResponsePhase => exact hno ha.1.notRefused
  case releaseConnection => exact hno ha.1.notRefused
  case dropUpstream => exact hno ha
  case readDownstream => exact hno ha.2.1
  case resetForNextRequest => exact hno ha.1.notRefused

theorem not_goesOn_after {log future : List Effect} (h : Conforms G (log ++ future))
    (hr : (cycleOf log).refused = true) : ∀ e ∈ future, e.goesOn = false := by
  intro e he
  obtain ⟨more,rest,rfl⟩ := List.append_of_mem he
  rw [← List.append_assoc] at h
  obtain ⟨hc,ha⟩ := h.allows
  exact not_goesOn_of_refused ha (refused_keeps hc hr)

/-- The books from a rejection on: nothing is written but the reply it asks for. `before` was
written when the rejection came. -/
structure Refusing (reply : ResponseHead × Bytes) (before : Bytes) (c : Cycle)
    (last : Option Effect) : Prop where
  isRefused : c.refused = true
  told : c.direct = true → c.reply = some reply
  asked : ∀ x ∈ last, ∀ r, x.reply = some r → r = reply
  answered : ∀ head body, last = some (.respondDirectly head body) →
    head = reply.1 ∧ c.direct = true ∧ c.replying = false
  silent : c.replying = false → c.issued = before
  indirect : c.direct = false → c.replying = false
  speaking : c.replying = true → c.earlier = before ∧ c.response.head = some reply.1 ∧
    (c.response.provided = [] ∨ c.response.provided = [(reply.2,true)]) ∧
    c.issued <+: before ++ replyBytes reply

/-- A reply that was begun goes over the wire as such. -/
theorem Refusing.wire {reply : ResponseHead × Bytes} {before : Bytes} {c : Cycle}
    {last : Option Effect} (h : Refusing reply before c last) (hr : c.replying = true) :
    c.response.wire <+: replyBytes reply := by
  obtain ⟨-,hhead,hprovided,-⟩ := h.speaking hr
  rcases hprovided with hp | hp
  · simp [Ledger.wire,hhead,hp,replyBytes,encodeAll,WireHead.bytes]
  · simp [Ledger.wire,hhead,hp,replyBytes,Ledger.chunked,WireHead.bytes,WireHead.headers]

theorem Refusing.record {reply : ResponseHead × Bytes} {before : Bytes} {c : Cycle}
    {last : Option Effect} {e : Effect} (h : Refusing reply before c last)
    (ha : c.Allows G last e) : Refusing reply before (c.record e) (some e) := by
  have hnot : c.refused = false → Refusing reply before (c.record e) (some e) := fun hn => by
    rw [h.isRefused] at hn
    cases hn
  cases e with
  | filterRequest => exact hnot ha.2.2.2.1
  | gateRequest => exact hnot ha.2.2.2.1
  | filterResponse => exact hnot ha.2.2.1
  | gateResponse => exact hnot ha.2.2.1
  | respondDirectly head body =>
    obtain ⟨hd,-,-,x,hlast,hx⟩ := ha
    have hreply : (head,body) = reply := h.asked x hlast _ hx
    have hsilent := h.indirect hd
    refine ⟨h.isRefused,fun _ => congrArg some hreply,by simp [Effect.reply],?_,h.silent,
      (fun hn => by cases hn),h.speaking⟩
    rintro _ _ ⟨⟩
    exact ⟨congrArg Prod.fst hreply,rfl,hsilent⟩
  | startResponse head =>
    rcases ha with ⟨body,hlast⟩ | ⟨hd,-⟩
    · obtain ⟨rfl,hd,hsilent⟩ := h.answered head body hlast
      have hissued := h.silent hsilent
      refine ⟨h.isRefused,h.told,by simp [Effect.reply],by simp,fun hn => ?_,fun hn => ?_,
        fun _ => ⟨hissued,rfl,.inl rfl,?_⟩⟩
      · rw [show c.direct = false from hn] at hd
        cases hd
      · rw [show c.direct = false from hn] at hd
        cases hd
      · change c.issued <+: _
        rw [hissued]
        exact List.prefix_append _ _
    · refine ⟨h.isRefused,h.told,by simp [Effect.reply],by simp,
        fun _ => h.silent (h.indirect hd),fun _ => hd,fun hn => ?_⟩
      rw [show c.direct = true from hn] at hd
      cases hd
  | provideResponse chunk isLast =>
    refine ⟨h.isRefused,h.told,by simp [Effect.reply],by simp,h.silent,h.indirect,fun hr => ?_⟩
    obtain ⟨hearlier,hhead,-,hissued⟩ := h.speaking hr
    have hsilent := h.indirect
    rcases ha with ⟨hd,hprovided,rfl,head,-,htold⟩ | ⟨hd,-⟩
    · obtain rfl : (head,chunk) = reply := Option.some.inj (htold.symm.trans (h.told hd))
      exact ⟨hearlier,hhead,.inr (by simp [Cycle.record,hprovided]),hissued⟩
    · rw [show c.replying = true from hr] at hsilent
      cases hsilent hd
  | writeDownstream data =>
    obtain ⟨hissued,⟨rest,hwire⟩,hreplying⟩ := ha
    have hr := hreplying h.isRefused
    obtain ⟨hearlier,hhead,hprovided,-⟩ := h.speaking hr
    refine ⟨h.isRefused,h.told,by simp [Effect.reply],by simp,fun hn => ?_,h.indirect,
      fun _ => ⟨hearlier,hhead,hprovided,?_⟩⟩
    · rw [show c.replying = false from hn] at hr
      cases hr
    · change c.issued ++ data <+: before ++ replyBytes reply
      rw [hissued,hearlier,List.append_assoc]
      refine (List.prefix_append_right_inj _).mpr (List.IsPrefix.trans ?_ (h.wire hr))
      exact ⟨rest,hwire.symm⟩
  | _ =>
    exact ⟨h.isRefused,h.told,by simp [Effect.reply],by simp,h.silent,h.indirect,h.speaking⟩

theorem not_replying_of_not_direct {log : List Effect} (h : Conforms G log)
    (hd : (cycleOf log).direct = false) : (cycleOf log).replying = false := by
  refine h.induct (P := fun c => c.direct = false → c.replying = false) (fun _ => rfl)
    (fun c last e ih _ hd => ?_) hd
  cases e with
  | startResponse head => exact hd
  | respondDirectly head body => cases hd
  | _ => exact ih hd

theorem refusing_of_reply {past : List Effect} {x : Effect} {reply : ResponseHead × Bytes}
    (h : Conforms G past) (ha : (cycleOf past).Allows G past.getLast? x)
    (hx : x.reply = some reply) :
    Refusing reply (cycleOf past).issued ((cycleOf past).record x) (some x) := by
  have hrefused := refused_of_reply (cycleOf past) hx
  have hsilent := not_replying_of_not_direct h
  have hmain : ∀ c : Cycle, c.refused = true → c.direct = false → c.replying = false →
      Refusing reply c.issued c (some x) := by
    intro c hr hd hs
    refine ⟨hr,fun hn => ?_,?_,?_,fun _ => rfl,fun _ => hs,fun hn => ?_⟩
    · rw [hd] at hn
      cases hn
    · rintro _ ⟨⟩ r hr
      exact Option.some.inj (hr.symm.trans hx)
    · rintro head body ⟨⟩
      cases hx
    · rw [hs] at hn
      cases hn
  cases x <;> try cases hx
  case filterRequest => exact hmain _ hrefused ha.2.1 (hsilent ha.2.1)
  case gateRequest => exact hmain _ hrefused ha.2.1 (hsilent ha.2.1)
  case filterResponse => exact hmain _ hrefused ha.1 (hsilent ha.1)
  case gateResponse => exact hmain _ hrefused ha.1 (hsilent ha.1)

theorem refusing_after {past future : List Effect} {x : Effect} {reply : ResponseHead × Bytes}
    (h : Conforms G (past ++ [x] ++ future)) (hx : x.reply = some reply) :
    Refusing reply (cycleOf past).issued (cycleOf (past ++ [x] ++ future))
      (past ++ [x] ++ future).getLast? := by
  induction future using List.reverseRecOn with
  | nil =>
    rw [List.append_nil,conforms_append] at h
    simpa using refusing_of_reply h.1 h.2 hx
  | append_singleton future e ih =>
    rw [← List.append_assoc,conforms_append] at h
    rw [← List.append_assoc,cycleOf_append,List.getLast?_concat]
    exact (ih h.1).record h.2

theorem issued_append (log future : List Effect) :
    (cycleOf (log ++ future)).issued = (cycleOf log).issued ++ writtenDownstream future := by
  induction future using List.reverseRecOn with
  | nil => simp [writtenDownstream]
  | append_singleton future e ih =>
    rw [← List.append_assoc,cycleOf_append]
    cases e <;> simp [Cycle.record,ih,writtenDownstream]

/-- Once something is rejected, only the reply it asks for is written to the client. -/
theorem written_after_reply {past future : List Effect} {x : Effect}
    {reply : ResponseHead × Bytes} (h : Conforms G (past ++ [x] ++ future))
    (hx : x.reply = some reply) : writtenDownstream future <+: replyBytes reply := by
  have hrefusing := refusing_after h hx
  have hissued := issued_append (past ++ [x]) future
  have hx0 : (cycleOf (past ++ [x])).issued = (cycleOf past).issued := by
    rw [cycleOf_append]
    cases x <;> first | rfl | cases hx
  rw [hx0] at hissued
  cases hr : (cycleOf (past ++ [x] ++ future)).replying with
  | false =>
    have hnone : writtenDownstream future = [] := by
      have := hissued.symm.trans (hrefusing.silent hr)
      simpa using this
    rw [hnone]
    exact List.nil_prefix
  | true =>
    obtain ⟨-,-,-,hpre⟩ := hrefusing.speaking hr
    rw [hissued] at hpre
    exact (List.prefix_append_right_inj _).mp hpre

end

namespace HttpSession
variable {G : Gateway}

/-- A connection in hand stays there or is closed. -/
theorem held_or_closed {before future : List Effect} {socket : SocketId}
    (h : AtEvery ClosesHeld (before ++ future)) (hheld : upstreamOf before = some socket)
    (hno : ∀ e ∈ future, e.goesOn = false) :
    upstreamOf (before ++ future) = some socket ∨ .closeUpstream socket ∈ future := by
  induction future using List.reverseRecOn with
  | nil => exact .inl (by simpa using hheld)
  | append_singleton future e ih =>
    rw [← List.append_assoc] at h ⊢
    obtain ⟨hpre,hcloses,-⟩ := (atEvery_append _ _ _).mp h
    have he : e.goesOn = false := hno e (by simp)
    rcases ih hpre fun x hx => hno x (by simp [hx]) with hin | hin
    · rw [upstreamOf_append,hin]
      cases e with
      | closeUpstream other =>
        have : upstreamOf (before ++ future) = some other := hcloses other rfl
        rw [hin] at this
        exact .inr (by simp [Option.some.inj this])
      | connected => cases he
      | dropUpstream => cases he
      | releaseConnection => cases he
      | _ => exact .inl rfl
    · exact .inr (by simp [hin])

/-- Every write of the session's own response brings its end closer. -/
theorem remaining_pullAndWriteDirect {s : HttpSession G} (hd : s.directResponseMode = true)
    (hz : s.responseSerializer.Coherent) :
    s.pullAndWriteResponseToDownstream.closing = true ∨
      s.pullAndWriteResponseToDownstream.responseSerializer.remaining.length <
        s.responseSerializer.remaining.length := by
  have hp := hz.pull s.writeBufSize
  have hdirect : s.afterResponsePull.directResponseMode = true := hd
  rw [pullAndWriteResponseToDownstream_eq]
  split
  · split
    · rw [finishCycle_of_direct hdirect]
      exact .inl (closing_close _)
    · simp only [hd,Bool.not_true,Bool.false_and,Bool.false_eq_true,if_false]
      exact .inl (closing_close _)
  next hne =>
    refine .inr ?_
    change (s.responseSerializer.pull s.writeBufSize).2.remaining.length < _
    have hpos : 0 < (s.responseSerializer.pull s.writeBufSize).1.length := by
      rw [List.length_pos_iff]
      simpa using hne
    rw [hp.out,List.length_take] at hpos
    rw [hp.remaining,List.length_drop]
    omega

theorem onResponseWritten_direct {s : HttpSession G} (hd : s.directResponseMode = true)
    (hz : s.responseSerializer.Coherent) (data : Bytes) (c : Completion) :
    (s.onResponseWritten data c).directResponseMode = true ∧
      ((s.onResponseWritten data c).closing = true ∨
        (s.onResponseWritten data c).responseSerializer.remaining.length <
          s.responseSerializer.remaining.length) := by
  unfold onResponseWritten
  split
  · exact ⟨by rw [directResponseMode_close]; exact hd,.inl (closing_close _)⟩
  · exact ⟨direct_pullAndWriteResponse hd,remaining_pullAndWriteDirect hd hz⟩

theorem Suspended.replying {s : HttpSession G} (h : Suspended s)
    (hd : s.directResponseMode = true) (ho : s.closing = false) :
    ∃ data c, s.pending = [.writeResponse data] ∧ Replying s c data := by
  cases h with
  | closed _ closing =>
    rw [closing] at ho
    cases ho
  | waiting op c live waits =>
    have hno : s.directResponseMode = false → ∃ data c, s.pending = [.writeResponse data] ∧
        Replying s c data := fun hn => by
      rw [hd] at hn
      cases hn
    cases op with
    | readRequest => exact hno waits.1.direct
    | connect => exact hno waits.1.direct
    | writeRequest => exact hno waits.1.direct
    | retryConnect => exact hno waits.1.direct
    | retryWrite => exact hno waits.1.direct
    | rereadConnect => exact hno waits.1.direct
    | rereadWrite => exact hno waits.1.direct
    | readResponse => exact hno waits.1.request.direct
    | writeResponse data =>
      rcases waits with hr | ⟨ha,-⟩
      · exact ⟨data,c,live.pending,hr⟩
      · exact hno ha.request.direct

/-- A session that answers for itself closes after so many completions, whatever they are. -/
theorem closes_of_direct (n : ℕ) {s : HttpSession G} (h : Suspended s)
    (hd : s.directResponseMode = true)
    (hn : s.closing = true ∨ s.responseSerializer.remaining.length < n)
    (xs : List (Completion × Answers G)) (hlen : n ≤ xs.length) : (s.play xs).closing = true := by
  induction n generalizing s xs with
  | zero =>
    have hc := hn.resolve_right (Nat.not_lt_zero _)
    rwa [play_of_idle (h.idle hc)]
  | succ n ih =>
    cases hc : s.closing with
    | true => rwa [play_of_idle (h.idle hc)]
    | false =>
      obtain ⟨data,c,hpending,hreplying⟩ := h.replying hd hc
      cases xs with
      | nil => cases hlen
      | cons x xs =>
        have hrest : s.responseSerializer.remaining.length < n + 1 := by
          simpa [hc] using hn
        have hresume : s.resume x = s.deliver ⟨.writeResponse data,x.1,x.2⟩ := by
          simp [resume,hpending]
        have hsus : Suspended (s.resume x) := by
          rw [hresume]
          exact suspended_deliver h (by simp [hpending])
        have hwritten := onResponseWritten_direct (s := { s with
          pending := s.pending.erase (.writeResponse data), filterCtx := x.2.touch s.filterCtx })
          hd hreplying.coherent data x.1
        have hdirect : (s.resume x).directResponseMode = true := by
          rw [hresume]
          exact hwritten.1
        have hless : (s.resume x).closing = true ∨
            (s.resume x).responseSerializer.remaining.length < n := by
          rw [hresume]
          refine hwritten.2.imp_right fun hlt => ?_
          exact lt_of_lt_of_le hlt (Nat.le_of_lt_succ hrest)
        exact ih hsus hdirect hless xs (by simpa using hlen)

/-- What a session does after a rejection that it made when `past` was on record in its current
cycle and that tells it to give `reply`: it neither seeks nor uses nor pools an upstream and
takes no more requests, writes nothing but the reply, closes the connection it held and
ends whatever completes. -/
structure Refuses (s : HttpSession G) (past future : List Effect) (reply : ResponseHead × Bytes) :
    Prop where
  nothing : ∀ e ∈ future, e.goesOn = false
  written : writtenDownstream future <+: replyBytes reply
  closed : s.closing = true → ∀ socket, upstreamOf (s.past.flatten ++ past) = some socket →
    .closeUpstream socket ∈ future
  ends : ∃ n, ∀ xs : List (Completion × Answers G), n ≤ xs.length → (s.play xs).closing = true

theorem ends_of_refused {s : HttpSession G} (h : Suspended s)
    (hr : (cycleOf s.log).refused = true) :
    ∃ n, ∀ xs : List (Completion × Answers G), n ≤ xs.length → (s.play xs).closing = true := by
  cases h with
  | closed sound closing idle settled =>
    exact ⟨0,fun xs _ => by rwa [play_of_idle idle]⟩
  | waiting op c live waits =>
    have hdirect : s.directResponseMode = true := by
      rcases waits.unrefused with ⟨hn,-⟩ | ⟨hd,-⟩
      · rw [live.log,hn] at hr
        cases hr
      · exact hd
    exact ⟨_,closes_of_direct _ (.waiting op c live waits) hdirect (.inr (Nat.lt_succ_self _))⟩

/-- A cycle in which something was rejected is the last one. -/
theorem refused_not_past {s : HttpSession G} (h : Suspended s) {past future : List Effect}
    {x : Effect} {reply : ResponseHead × Bytes} (hx : x.reply = some reply)
    (hno : ∀ e ∈ future, e.goesOn = false) : past ++ x::future ∉ s.past := by
  intro hmem
  have hlast := (h.sound.past _ hmem).2
  rw [List.getLast?_append_cons] at hlast
  rcases List.mem_cons.mp (List.mem_of_getLast? hlast) with rfl | hin
  · cases hx
  · cases hno _ hin

/-- An upstream is looked for only behind the filters, and a rejection is final. -/
theorem filters_gate {s : HttpSession G} (h : (system G).Reaches s) : ∀ log ∈ s.cycles,
    AtEvery (Gates G) log ∧ ∀ past x future reply, log = past ++ x::future →
      x.reply = some reply → log = s.log ∧ log ∉ s.past ∧ Refuses s past future reply := by
  intro log hlog
  have hc := conforms_of_reaches h hlog
  have hs := suspended_of_reaches h
  refine ⟨gates_of_conforms hc,?_⟩
  rintro past x future reply rfl hx
  have heq : past ++ x::future = past ++ [x] ++ future := by simp
  have hrefused : (cycleOf (past ++ [x])).refused = true := by
    rw [cycleOf_append]
    exact refused_of_reply _ hx
  have hno : ∀ e ∈ future, e.goesOn = false := not_goesOn_after (heq ▸ hc) hrefused
  have hnotPast : past ++ x::future ∉ s.past := refused_not_past hs hx hno
  have hcurrent : past ++ x::future = s.log := by
    rcases List.mem_append.mp hlog with hp | hp
    · exact absurd hp hnotPast
    · exact List.mem_singleton.mp hp
  refine ⟨hcurrent,hnotPast,hno,written_after_reply (heq ▸ hc) hx,fun hclosing socket hheld => ?_,
    ends_of_refused hs ?_⟩
  · have hhistory : s.history = s.past.flatten ++ past ++ [x] ++ future := by
      simp [history,cycles,← hcurrent]
    have hx0 : upstreamOf (s.past.flatten ++ past ++ [x]) = some socket := by
      rw [upstreamOf_append,hheld]
      cases x <;> first | rfl | cases hx
    have hcloses := closesHeld_of_reaches h
    rw [hhistory] at hcloses
    have hnone : upstreamOf s.history = none := by
      have hholds := holds_of_reaches h
      rwa [Holds,hclosing] at hholds
    refine (held_or_closed hcloses hx0 hno).resolve_left fun hin => ?_
    rw [← hhistory,hnone] at hin
    cases hin
  · rw [← hcurrent,heq]
    exact refused_keeps (heq ▸ hc) hrefused

/-- A filter that does not let any response pass. -/
def denyResponses : Filter Unit where
  onResponse := fun head ctx =>
    (.respond ⟨{ status := 502, reason := ascii "Denied" },[]⟩,head,ctx)

/-- A response is rejected while the session holds the connection it came from. -/
def deniedRun : HttpSession (.strict [denyResponses] 128) :=
  strictRun [denyResponses] 128 [.read (ascii "GET /a HTTP/1.1\r\n\r\n"),.connected 7,.wrote 43,
    .read (ascii "HTTP/1.1 200 OK\r\nContent-Length: 0\r\n\r\n"),.wrote 23]

theorem filters_gate_denied : deniedRun.log.count (.closeUpstream 7) = 1 ∧
    ∀ log ∈ deniedRun.cycles, AtEvery (Gates (.strict [denyResponses] 128)) log ∧
      ∀ past x future reply, log = past ++ x::future → x.reply = some reply →
        log = deniedRun.log ∧ log ∉ deniedRun.past ∧ Refuses deniedRun past future reply :=
  ⟨by decide +kernel,filters_gate (reaches_strictRun (by decide +kernel))⟩

end HttpSession
end PerCoreShard
