import PerCoreShard.Net.Http.Llhttp.Message
import PerCoreShard.Session.History

/-! What the log of a cycle says about a body: what entered the gate, in which pieces, and what
came out of it at the end. -/
namespace PerCoreShard
open Library LlhttpParser

namespace Ledger

theorem input_read {H : Type} (l : Ledger H) (raw : Bytes) :
    Ledger.input { l with reads := l.reads ++ [raw] } = l.input ++ raw := by
  simp [Ledger.input]

variable {H : Type} [WireHead H] {ll : Llhttp} {l : Ledger H}

/-- One more piece adds to the end of what goes over the wire. -/
theorem wire_provide (l : Ledger H) (p : Bytes × Bool) :
    l.wire <+: Ledger.wire { l with provided := l.provided ++ [p] } := by
  unfold Ledger.wire
  cases l.head with
  | none => exact List.prefix_rfl
  | some head =>
    refine ⟨Serializer.encode (Ledger.chunked head) p.1 p.2,?_⟩
    simp only [encodeAll_append,List.append_assoc]

/-- The body bytes parsed before the last read. -/
def scratchBefore (l : Ledger H) (ll : Llhttp) : Bytes :=
  (parsed ll H l.reads.dropLast.flatten).scratch

/-- The facts that hold of every message. -/
structure Booked (l : Ledger H) (ll : Llhttp) : Prop where
  unstarted : l.head = none → l.gates = [] ∧ l.provided = []
  gated : gated l.gates <+: (l.parse ll).scratch
  /-- After the end of the stream was shown to the gate there is nothing more to show. -/
  ended : ∀ g ∈ l.gates, g.endStream = true →
    PerCoreShard.gated l.gates = (l.parse ll).scratch ∧ (l.parse ll).messageDone = true
  last : ∀ g ∈ l.gates.dropLast, g.endStream = false
  /-- The last piece of a complete body is shown as such if it came with the last read. -/
  shown : PerCoreShard.gated l.gates = (l.parse ll).scratch → (l.parse ll).messageDone = true →
    l.scratchBefore ll ≠ (l.parse ll).scratch →
    ∃ init g, l.gates = init ++ [g] ∧ g.endStream = true
  /-- Only the last piece is flagged as the last one. -/
  only : final l.provided.dropLast = false
  provided : ∃ init tail, l.provided = init ++ tail ∧ init <+: forwards l.gates ∧
    (tail = [] ∨ tail = [([],true)])
  complete : final l.provided = true →
    (l.parse ll).messageDone = true ∧ PerCoreShard.gated l.gates = (l.parse ll).scratch ∧
      (l.provided = forwards l.gates ∨ l.provided = forwards l.gates ++ [([],true)])

theorem booked_empty : Booked ({} : Ledger H) ll where
  unstarted _ := ⟨rfl,rfl⟩
  gated := List.nil_prefix
  ended g hg := by simp at hg
  last g hg := by simp at hg
  shown _ _ hne := absurd rfl hne
  only := rfl
  provided := ⟨[],[],rfl,List.nil_prefix,.inl rfl⟩
  complete h := by simp [final] at h

theorem Booked.notFinal (h : Booked l ll) (hm : (l.parse ll).messageDone = false) :
    final l.provided = false := by
  cases hf : final l.provided with
  | false => rfl
  | true =>
    rw [(h.complete hf).1] at hm
    cases hm

theorem Booked.read (h : Booked l ll) (raw : Bytes) (hm : (l.parse ll).messageDone = false) :
    Booked { l with reads := l.reads ++ [raw] } ll := by
  have hpre : (l.parse ll).scratch <+:
      (Ledger.parse { l with reads := l.reads ++ [raw] } ll).scratch := by
    unfold Ledger.parse
    rw [input_read]
    exact scratch_prefix (List.prefix_append _ _)
  refine { h with gated := h.gated.trans hpre, ended := ?_, shown := ?_, complete := ?_ }
  · intro g hg he
    rw [(h.ended g hg he).2] at hm
    cases hm
  · intro hg _ hne
    have hbefore : scratchBefore { l with reads := l.reads ++ [raw] } ll = (l.parse ll).scratch := by
      simp [scratchBefore,Ledger.parse,Ledger.input]
    rw [hbefore] at hne
    have hge := h.gated
    rw [show PerCoreShard.gated l.gates = _ from hg] at hge
    exact absurd (hpre.eq_of_length (le_antisymm hpre.length_le hge.length_le)) hne
  · intro hf
    have := h.notFinal hm
    rw [show final l.provided = true from hf] at this
    cases this

theorem mem_forwards {gates : List GateCall} {p : Bytes × Bool} (h : p ∈ forwards gates) :
    ∃ g ∈ gates, g.result = .forward p.1 ∧ g.endStream = p.2 := by
  obtain ⟨g,hg,hp⟩ := List.mem_filterMap.mp h
  refine ⟨g,hg,?_⟩
  split at hp
  next data hr =>
    obtain rfl := Option.some.inj hp
    exact ⟨hr,rfl⟩
  next => cases hp

theorem forwards_append (gates more : List GateCall) :
    forwards (gates ++ more) = forwards gates ++ forwards more := List.filterMap_append

section
variable {Ctx : Type} {filters : FilterChain Ctx} {watermark : ℕ} {isRequest : Bool}
  {call : GateCall}

/-- The gate is not called again once it was shown the end. -/
theorem Booked.none_ended (h : Booked l ll) (hs : l.GateStep ll filters watermark isRequest call) :
    ∀ g ∈ l.gates, g.endStream = false := by
  obtain ⟨rest,hnext,-⟩ := hs.next
  intro g hg
  cases he : g.endStream with
  | false => rfl
  | true =>
    have := (h.ended g hg he).1
    rw [← hnext,List.append_assoc] at this
    have := List.append_cancel_left ((List.append_nil _).trans this)
    exact absurd (List.append_eq_nil_iff.mp this.symm).1 hs.nonempty

theorem Booked.gate (h : Booked l ll) (hs : l.GateStep ll filters watermark isRequest call) :
    Booked { l with gates := l.gates ++ [call] } ll := by
  obtain ⟨rest,hnext,hend⟩ := hs.next
  have hnone := h.none_ended hs
  have hgated : ∀ h : call.endStream = true,
      PerCoreShard.gated l.gates ++ call.chunk = (l.parse ll).scratch ∧ (l.parse ll).messageDone = true := by
    intro he
    rw [he,Eq.comm,Bool.and_eq_true,List.isEmpty_iff] at hend
    rw [← hnext,hend.1,List.append_nil]
    exact ⟨rfl,hend.2⟩
  refine { h with
    unstarted := fun hn => ?_, gated := ?_, ended := ?_, last := ?_, shown := ?_, provided := ?_,
    complete := fun hf => ?_ }
  · have := hs.started
    rw [show l.head = none from hn] at this
    cases this
  · rw [gated_append]
    exact ⟨rest,hnext⟩
  · intro g hg he
    rw [gated_append]
    rcases List.mem_append.mp hg with hg | hg
    · rw [hnone g hg] at he
      cases he
    · exact hgated (List.mem_singleton.mp hg ▸ he)
  · rw [List.dropLast_concat]
    exact hnone
  · intro hg hm _
    refine ⟨l.gates,call,rfl,?_⟩
    rw [gated_append,show (Ledger.parse { l with gates := l.gates ++ [call] } ll).scratch =
      (l.parse ll).scratch from rfl,← hnext] at hg
    have hrest : rest = [] := List.append_cancel_left ((hg.symm).trans (List.append_nil _).symm)
    rw [hend,hrest]
    exact hm
  · obtain ⟨init,tail,hp,hi,ht⟩ := h.provided
    refine ⟨init,tail,hp,?_,ht⟩
    rw [forwards_append]
    exact hi.trans (List.prefix_append _ _)
  · have := hs.notFinal
    rw [show final l.provided = true from hf] at this
    cases this

end

theorem Booked.provide {chunk : Bytes} {isLast : Bool} (h : Booked l ll)
    (hs : l.ProvideStep ll chunk isLast) :
    Booked { l with provided := l.provided ++ [(chunk,isLast)] } ll := by
  refine { h with
    unstarted := fun hn => ?_, only := ?_, provided := ?_, complete := fun hf => ?_ }
  · have := hs.started
    rw [show l.head = none from hn] at this
    cases this
  · rw [List.dropLast_concat]
    exact hs.notFinal
  · rcases hs.piece with hp | ⟨hp,rfl,rfl,-,-⟩
    · exact ⟨_,[],(List.append_nil _).symm,hp ▸ List.prefix_rfl,.inl rfl⟩
    · exact ⟨_,_,rfl,hp ▸ List.prefix_rfl,.inr rfl⟩
  · rcases hs.piece with hp | ⟨hp,rfl,rfl,hm,hg⟩
    · rw [final_append,hs.notFinal,Bool.false_or] at hf
      have hmem : (chunk,isLast) ∈ forwards l.gates := by
        rw [← hp]
        simp
      obtain ⟨g,hg,-,he⟩ := mem_forwards hmem
      obtain ⟨hgated,hm⟩ := h.ended g hg (he.trans hf)
      exact ⟨hm,hgated,.inl hp⟩
    · exact ⟨hm,hg,.inr (by rw [hp])⟩

end Ledger

section
variable {G : Gateway}

/-- The session answers itself only after a rejection. -/
theorem refused_of_direct {log : List Effect} (h : Conforms G log)
    (hd : (cycleOf log).direct = true) : (cycleOf log).refused = true := by
  refine h.induct (P := fun c => c.direct = true → c.refused = true) (fun hn => by cases hn)
    (fun c last e ih ha hd => ?_) hd
  cases e with
  | respondDirectly head body => exact ha.2.1
  | filterRequest head result filtered => simp [Cycle.record,ih hd]
  | filterResponse head result filtered => simp [Cycle.record,ih hd]
  | gateRequest call => simp [Cycle.record,ih hd]
  | gateResponse call => simp [Cycle.record,ih hd]
  | _ => exact ih hd

theorem not_direct {log : List Effect} (h : Conforms G log) (hr : (cycleOf log).refused = false) :
    (cycleOf log).direct = false := by
  cases hd : (cycleOf log).direct with
  | false => rfl
  | true =>
    rw [refused_of_direct h hd] at hr
    cases hr

theorem booked_request {log : List Effect} (h : Conforms G log) :
    (cycleOf log).request.Booked G.requestLlhttp := by
  refine h.induct (P := fun c => c.request.Booked G.requestLlhttp) Ledger.booked_empty
    fun c last e ih ha => ?_
  cases e with
  | downstreamRead raw => exact ih.read raw ha.2.2.1
  | filterRequest head result filtered => exact { ih with }
  | startRequest head => exact { ih with unstarted := fun hn => by cases hn }
  | gateRequest call => exact ih.gate ha.2.2.2.2
  | provideRequest chunk isLast => exact ih.provide ha.2.2
  | connected socket pooled => exact { ih with }
  | closeUpstream socket => exact { ih with }
  | upstreamWritten data written => exact { ih with }
  | upstreamWriteFailed data written => exact { ih with }
  | _ => exact ih

/-- After an answer of the session itself nothing is relayed in the cycle. -/
theorem direct_of_last {log : List Effect} {head : ResponseHead} {body : Bytes}
    (h : log.getLast? = some (.respondDirectly head body)) : (cycleOf log).direct = true := by
  rw [← List.dropLast_append_getLast? _ h,cycleOf_append]
  rfl

/-- An answer of the session itself is not booked as a relayed response. -/
theorem booked_response {log : List Effect} (h : Conforms G log)
    (hd : (cycleOf log).direct = false) : (cycleOf log).response.Booked G.responseLlhttp := by
  refine h.induct_log (P := fun log => (cycleOf log).direct = false →
    (cycleOf log).response.Booked G.responseLlhttp) (fun _ => Ledger.booked_empty)
    (fun log e _ ih ha hd => ?_) hd
  have hlastDirect : ∀ head body, log.getLast? = some (.respondDirectly head body) →
      (cycleOf log).direct = true := fun _ _ => direct_of_last
  rw [cycleOf_append] at hd ⊢
  generalize hc : cycleOf log = c at *
  cases e with
  | startResponsePhase =>
    have hr : c.response.reads = [] := ha.2.2.2
    have : c.record .startResponsePhase = { c with responding := true } := by
      simp only [Cycle.record]
      rw [← hr]
    rw [this]
    exact ih hd
  | upstreamRead raw => exact (ih hd).read raw ha.2.2.1
  | filterResponse head result filtered => exact { ih hd with }
  | startResponse head =>
    rcases ha with ⟨body,hlast⟩ | ⟨-,-,hnone,-,-⟩
    · have := hlastDirect head body hlast
      rw [show c.direct = false from hd] at this
      cases this
    · have hb := ih hd
      obtain ⟨hg,hp⟩ := hb.unstarted hnone
      have : c.record (.startResponse head) =
          { c with
            response := { c.response with head := some head, sent := [] }
            earlier := c.issued
            replying := c.direct } := by
        simp only [Cycle.record]
        rw [← hp]
      rw [this]
      exact { hb with unstarted := fun hn => by cases hn }
  | gateResponse call => exact (ih hd).gate ha.2.2.2
  | provideResponse chunk isLast =>
    rcases ha with ⟨hdirect,-⟩ | ⟨-,-,hs⟩
    · rw [show c.direct = false from hd] at hdirect
      cases hdirect
    · exact (ih hd).provide hs
  | downstreamWritten data written => exact { ih hd with }
  | respondDirectly head body => cases hd
  | _ => exact ih hd

end
end PerCoreShard
