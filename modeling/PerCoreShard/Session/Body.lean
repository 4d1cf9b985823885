import PerCoreShard.Filter.Streaming
import PerCoreShard.Net.Http.Framing
import PerCoreShard.Session.Delivery

/-! Messages whose body no filter touches: the pieces the serializer is given make up the body
that was parsed, and the head is what the filters made of the head that was parsed. -/
namespace PerCoreShard
open Library LlhttpParser

namespace Ledger
variable {H : Type} [WireHead H] {ll : Llhttp} {l : Ledger H}

/-- The gate has let everything pass as it was. -/
structure Untouched (l : Ledger H) : Prop where
  results : ∀ g ∈ l.gates, g.result = .forward g.chunk
  state : gateState l.gates = {}

theorem Untouched.gate {Ctx : Type} {filters : FilterChain Ctx} {watermark : ℕ} {isRequest : Bool}
    {call : GateCall} (h : Untouched l) (hnd : filters.NoData)
    (hs : l.GateStep ll filters watermark isRequest call) :
    Untouched { l with gates := l.gates ++ [call] } := by
  obtain ⟨ctx,ctx',happly⟩ := hs.apply
  rw [h.state] at happly
  obtain ⟨hresult,hstate⟩ :=
    BodyFilterGate.apply_of_noData hnd watermark isRequest call.chunk call.endStream ctx
  rw [happly] at hresult hstate
  refine ⟨fun g hg => ?_,(gateState_append _ _).trans hstate⟩
  rcases List.mem_append.mp hg with hg | hg
  · exact h.results g hg
  · rw [List.mem_singleton.mp hg]
    exact hresult

theorem forwards_of_results {gates : List GateCall} (h : ∀ g ∈ gates, g.result = .forward g.chunk) :
    forwards gates = gates.map fun g => (g.chunk,g.endStream) := by
  induction gates with
  | nil => rfl
  | cons g gates ih =>
    obtain ⟨hg,hgates⟩ := List.forall_mem_cons.mp h
    unfold forwards at ih ⊢
    simp [hg,ih hgates]

omit [WireHead H] in
theorem Untouched.payload_forwards (h : Untouched l) : payload (forwards l.gates) = gated l.gates := by
  rw [forwards_of_results h.results]
  simp [payload,gated,List.flatMap_map]

/-- The pieces provided so far are the beginning of the body. -/
theorem Booked.payload_prefix (h : Booked l ll) (hu : Untouched l) :
    payload l.provided <+: (l.parse ll).scratch := by
  obtain ⟨init,tail,hp,hinit,htail⟩ := h.provided
  have hempty : payload tail = [] := by
    rcases htail with rfl | rfl <;> rfl
  have hpay : payload l.provided = payload init := by
    rw [hp,payload,List.flatMap_append]
    exact (congrArg (payload init ++ ·) hempty).trans (List.append_nil _)
  rw [hpay]
  refine List.IsPrefix.trans ?_ h.gated
  rw [← hu.payload_forwards]
  obtain ⟨more,hmore⟩ := hinit
  rw [← hmore,payload,payload,List.flatMap_append]
  exact List.prefix_append _ _

/-- Once the last piece is provided they are the body. -/
theorem Booked.payload_final (h : Booked l ll) (hu : Untouched l) (hf : final l.provided = true) :
    payload l.provided = (l.parse ll).scratch := by
  obtain ⟨-,hgated,hp⟩ := h.complete hf
  rw [← hgated,← hu.payload_forwards]
  rcases hp with hp | hp
  · rw [hp]
  · rw [hp,payload,payload,List.flatMap_append]
    exact List.append_nil _

/-- The filters left the framing fields alone. -/
def KeepsFraming (l : Ledger H) : Prop := ∀ f ∈ l.filtered,
  framingFields (WireHead.headers f.2.2) = framingFields (WireHead.headers f.1)

instance (l : Ledger H) : Decidable l.KeepsFraming :=
  inferInstanceAs (Decidable (∀ f ∈ l.filtered, _ = _))

/-- The head shown to the filters is that of the message, and `apply` made of it what they
left behind. -/
def Shown {Ctx : Type} (l : Ledger H) (ll : Llhttp)
    (apply : H → Ctx → FilterHeaderResult × H × Ctx) : Prop :=
  ∀ head result filtered, l.filtered = some (head,result,filtered) →
    ∃ before ctx ctx', before <+: l.input ∧ (parsed ll H before).headerDone = true ∧
      head = (parsed ll H before).head ∧ apply head ctx = (result,filtered,ctx')

section
variable {Ctx : Type} {apply : H → Ctx → FilterHeaderResult × H × Ctx}

theorem Shown.read (h : Shown l ll apply) (raw : Bytes) :
    Shown { l with reads := l.reads ++ [raw] } ll apply := by
  intro head result filtered heq
  obtain ⟨before,ctx,ctx',hpre,hrest⟩ := h head result filtered heq
  refine ⟨before,ctx,ctx',?_,hrest⟩
  rw [input_read]
  exact hpre.trans (List.prefix_append _ _)

theorem shown_filter {head filtered : H} {result : FilterHeaderResult}
    (hd : (l.parse ll).headerDone = true) (hhead : head = (l.parse ll).head)
    (happly : ∃ ctx ctx', apply head ctx = (result,filtered,ctx')) :
    Shown { l with filtered := some (head,result,filtered) } ll apply := by
  rintro _ _ _ ⟨rfl,rfl,rfl⟩
  obtain ⟨ctx,ctx',happly⟩ := happly
  exact ⟨l.input,ctx,ctx',List.prefix_rfl,hd,hhead,happly⟩

end
end Ledger

section
variable {G : Gateway}

theorem untouched_of_conforms (hnd : G.filterChain.NoData) {log : List Effect}
    (h : Conforms G log) :
    (cycleOf log).request.Untouched ∧ (cycleOf log).response.Untouched := by
  refine h.induct (P := fun c => c.request.Untouched ∧ c.response.Untouched)
    ⟨⟨fun g hg => (by simp at hg),rfl⟩,⟨fun g hg => (by simp at hg),rfl⟩⟩ fun c last e ih ha => ?_
  cases e with
  | downstreamRead raw => exact ⟨{ ih.1 with },ih.2⟩
  | filterRequest head result filtered => exact ⟨{ ih.1 with },ih.2⟩
  | startRequest head => exact ⟨{ ih.1 with },ih.2⟩
  | gateRequest call => exact ⟨ih.1.gate hnd ha.2.2.2.2,ih.2⟩
  | provideRequest chunk isLast => exact ⟨{ ih.1 with },ih.2⟩
  | connected socket pooled => exact ⟨{ ih.1 with },ih.2⟩
  | closeUpstream socket => exact ⟨{ ih.1 with },ih.2⟩
  | upstreamWritten data written => exact ⟨{ ih.1 with },ih.2⟩
  | upstreamWriteFailed data written => exact ⟨{ ih.1 with },ih.2⟩
  | startResponsePhase => exact ⟨ih.1,{ ih.2 with }⟩
  | upstreamRead raw => exact ⟨ih.1,{ ih.2 with }⟩
  | filterResponse head result filtered => exact ⟨ih.1,{ ih.2 with }⟩
  | startResponse head => exact ⟨ih.1,{ ih.2 with }⟩
  | gateResponse call => exact ⟨ih.1,ih.2.gate hnd ha.2.2.2⟩
  | provideResponse chunk isLast => exact ⟨ih.1,{ ih.2 with }⟩
  | downstreamWritten data written => exact ⟨ih.1,{ ih.2 with }⟩
  | _ => exact ih

end
end PerCoreShard
