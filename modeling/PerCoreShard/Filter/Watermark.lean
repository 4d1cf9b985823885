import PerCoreShard.Filter.Turns

/-! When the watermark is a hard cap. A body that a filter asked to keep is checked against the
watermark only if a filter asks again; one that lets the accumulated data pass, or answers by
itself, decides before the check. -/
namespace PerCoreShard
namespace FilterChain
variable {Ctx : Type}

/-- The filters that a pass visits which starts, or resumes, at an index. -/
def remaining (filters : FilterChain Ctx) (isRequest : Bool) (start : ℕ) : List (Filter Ctx) :=
  if isRequest then filters.drop start else (filters.take (start + 1)).reverse

/-- The first of these filters that does not let the data pass asks to keep more than
`highWatermarkBytes` of it, or responds with just what the watermark answers. -/
def KeepsOver (step : DataStep Ctx) (endStream : Bool) (highWatermarkBytes : ℕ)
    (watermark : DirectResponse) : List (Filter Ctx) → Bytes → Ctx → Prop
  | [],_,_ => False
  | f::fs,data,ctx =>
    match step f data endStream ctx with
    | (.continue_,data',ctx') => KeepsOver step endStream highWatermarkBytes watermark fs data' ctx'
    | (.respond r,_,_) => r = watermark
    | (.stopAndBuffer,data',_) => highWatermarkBytes < data'.length

theorem filterMap_range (filters : FilterChain Ctx) (n : ℕ) :
    (List.range n).filterMap (filters[·]?) = filters.take n := by
  induction n with
  | zero => rfl
  | succ n ih =>
    rw [List.range_succ,List.filterMap_append,ih,List.take_add_one]
    cases hf : filters[n]? <;> simp [hf]

theorem filterMap_visits (filters : FilterChain Ctx) (isRequest : Bool) (start : ℕ) :
    (visits (!isRequest) start filters.length).filterMap (filters[·]?) =
      filters.remaining isRequest start := by
  cases isRequest
  · have htake := filterMap_range filters (start + 1)
    simp only [visits,remaining,Bool.not_false,if_true,Bool.false_eq_true,if_false,
      List.filterMap_reverse,htake]
  · have hdrop := filterMap_range (filters.drop start) (filters.length - start)
    simp only [List.getElem?_drop] at hdrop
    rw [List.take_of_length_le (by simp)] at hdrop
    simp only [visits,remaining,Bool.not_true,Bool.false_eq_true,if_false,if_true,
      List.range'_eq_map_range,List.filterMap_map,Function.comp_def,hdrop]

/-- `KeepsOver` says how the pass ends. -/
theorem keepsOver_iff (filters : FilterChain Ctx) (step : DataStep Ctx) (endStream : Bool)
    (highWatermarkBytes : ℕ) (watermark : DirectResponse) (is : List ℕ) (data : Bytes) (ctx : Ctx) :
    KeepsOver step endStream highWatermarkBytes watermark (is.filterMap (filters[·]?)) data ctx ↔
      match iterate filters step endStream is data ctx with
      | (.passed,_,_) => False
      | (.rejected r,_,_) => r = watermark
      | (.blockedAt _,out,_) => highWatermarkBytes < out.length := by
  induction is generalizing data ctx with
  | nil => simp [KeepsOver,iterate]
  | cons i is ih =>
    cases hf : filters[i]? with
    | none =>
      simp only [List.filterMap_cons,hf,iterate]
      exact ih data ctx
    | some f =>
      simp only [List.filterMap_cons,hf,iterate,KeepsOver]
      obtain ⟨answer,data',ctx'⟩ := step f data endStream ctx
      cases answer with
      | continue_ => exact ih data' ctx'
      | respond r => rfl
      | stopAndBuffer => rfl

end FilterChain
namespace BodyFilterGate
open FilterChain
variable {Ctx : Type} {filters : FilterChain Ctx} {highWatermarkBytes : ℕ}

/-- A call that finds a filter blocked is refused for the watermark exactly if the filters that
see the accumulated data keep it. -/
theorem apply_refused_iff (filters : FilterChain Ctx) (highWatermarkBytes : ℕ) (isRequest : Bool)
    (chunk : Bytes) (endStream : Bool) {state : DataIterationState} (ctx : Ctx)
    (h : state.blocked = true) :
    ((apply filters highWatermarkBytes isRequest chunk endStream state ctx).1 =
          .reject (watermarkResponse isRequest) [] ∧
        (apply filters highWatermarkBytes isRequest chunk endStream state ctx).2.1 = {}) ↔
      KeepsOver (dataStep Ctx isRequest) endStream highWatermarkBytes
        ⟨watermarkResponse isRequest,[]⟩ (filters.remaining isRequest state.blockedFilterIndex)
        (state.buffer ++ chunk) ctx := by
  unfold apply
  rw [apply_eq]
  unfold FilterChain.applyData
  cases hempty : filters.isEmpty with
  | true =>
    obtain rfl : filters = [] := List.isEmpty_iff.mp hempty
    cases isRequest <;> simp [remaining,KeepsOver]
  | false =>
    rw [← filterMap_visits,keepsOver_iff]
    simp only [DataIterationState.current,DataIterationState.startIndex,h,if_true,
      Bool.false_eq_true,if_false]
    rcases iterate filters (dataStep Ctx isRequest) endStream
      (visits (!isRequest) state.blockedFilterIndex filters.length) (state.buffer ++ chunk) ctx with
      ⟨verdict,out,ctx'⟩
    cases verdict with
    | passed => simp
    | rejected r =>
      obtain ⟨head,body⟩ := r
      simp
    | blockedAt i =>
      dsimp only
      split
      next hw => simpa using hw
      next hw => split <;> simpa using hw

/-- What is flushed because a filter asks to keep it at the end of the stream is within the
watermark. -/
theorem apply_flushed {isRequest endStream : Bool} {state : DataIterationState}
    {chunk data : Bytes} {ctx : Ctx}
    (hstop : (filters.applyData (dataStep Ctx isRequest) (!isRequest) chunk endStream state
      ctx).result = .stopAndBuffer)
    (hforward : (apply filters highWatermarkBytes isRequest chunk endStream state ctx).1 =
      .forward data) : data.length ≤ highWatermarkBytes := by
  unfold apply at hforward
  rw [apply_eq] at hforward
  simp only [hstop] at hforward
  split at hforward
  · cases hforward
  next hw =>
    split at hforward
    · obtain rfl := GateResult.forward.inj hforward
      exact not_lt.mp hw
    · cases hforward

namespace Turn

/-- The bytes accumulated so far in the call's direction, with the new chunk. -/
def accumulated (t : Turn Ctx) : Bytes :=
  (t.before.state t.call.isRequest).buffer ++ t.call.chunk

/-- The call finds the direction blocked and the accumulated bytes exceed the watermark. -/
def Over (highWatermarkBytes : ℕ) (t : Turn Ctx) : Prop :=
  (t.before.state t.call.isRequest).blocked = true ∧ highWatermarkBytes < t.accumulated.length

/-- What the chain makes of the chunk. -/
def pass (filters : FilterChain Ctx) (t : Turn Ctx) : DataOutcome Ctx :=
  filters.applyData (dataStep Ctx t.call.isRequest) (!t.call.isRequest) t.call.chunk
    t.call.endStream (t.before.state t.call.isRequest) t.ctx

/-- The watermark is a hard cap for this call: an accumulated body that exceeds it is refused
and forgotten, and none is forwarded, neither one accumulated before the call nor one that a
filter only now asks to keep. -/
structure Capped (filters : FilterChain Ctx) (highWatermarkBytes : ℕ) (t : Turn Ctx) : Prop where
  refused : t.Over highWatermarkBytes →
    t.result = .reject (watermarkResponse t.call.isRequest) [] ∧ t.after.state t.call.isRequest = {}
  forwarded : ∀ data, t.result = .forward data → ¬t.Over highWatermarkBytes
  flushed : (t.pass filters).result = .stopAndBuffer → ∀ data, t.result = .forward data →
    data.length ≤ highWatermarkBytes

/-- The filters from the blocked one on keep the accumulated data. -/
def Kept (filters : FilterChain Ctx) (highWatermarkBytes : ℕ) (t : Turn Ctx) : Prop :=
  KeepsOver (dataStep Ctx t.call.isRequest) t.call.endStream highWatermarkBytes
    ⟨watermarkResponse t.call.isRequest,[]⟩
    (filters.remaining t.call.isRequest (t.before.state t.call.isRequest).blockedFilterIndex)
    t.accumulated t.ctx

end Turn

theorem capped_turn_iff (gate : BodyFilterGate) (ctx : Ctx) (call : GateInput) :
    (turn filters highWatermarkBytes gate ctx call).Capped filters highWatermarkBytes ↔
      ((turn filters highWatermarkBytes gate ctx call).Over highWatermarkBytes →
        (turn filters highWatermarkBytes gate ctx call).Kept filters highWatermarkBytes) := by
  set t := turn filters highWatermarkBytes gate ctx call with ht
  have key : t.Over highWatermarkBytes →
      ((t.result = .reject (watermarkResponse t.call.isRequest) [] ∧
        t.after.state t.call.isRequest = {}) ↔ t.Kept filters highWatermarkBytes) := by
    intro hover
    have hblocked : (gate.state call.isRequest).blocked = true := hover.1
    have hstep := apply_refused_iff filters highWatermarkBytes call.isRequest call.chunk
      call.endStream ctx hblocked
    rw [← turn_result,← turn_after,← ht] at hstep
    exact hstep
  constructor
  · intro hcapped hover
    exact (key hover).mp (hcapped.refused hover)
  · intro hkept
    refine ⟨fun hover => (key hover).mpr (hkept hover),fun data hdata hover => ?_,
      fun hstop data hdata => ?_⟩
    · have hreject := ((key hover).mpr (hkept hover)).1
      rw [hdata] at hreject
      cases hreject
    · rw [ht,turn_result] at hdata
      exact apply_flushed hstop hdata

/-- In a run of calls the watermark caps every accumulated body exactly if, whenever one exceeds
it, the first filter that does not let it pass asks to keep it. -/
theorem capped_iff_kept (filters : FilterChain Ctx) (highWatermarkBytes : ℕ)
    (calls : List GateInput) (ctx : Ctx) :
    (∀ t ∈ turns filters highWatermarkBytes calls {} ctx, t.Capped filters highWatermarkBytes) ↔
      ∀ t ∈ turns filters highWatermarkBytes calls {} ctx,
        t.Over highWatermarkBytes → t.Kept filters highWatermarkBytes := by
  refine forall₂_congr fun t ht => ?_
  rw [eq_turn_of_mem ht]
  exact capped_turn_iff t.before t.ctx t.call

/-- A filter that keeps the body until its end lets the whole of it pass. -/
theorem last_chunk_uncapped :
    ¬∀ (Ctx : Type) (filters : FilterChain Ctx) (highWatermarkBytes : ℕ) (calls : List GateInput)
      (ctx : Ctx), ∀ t ∈ turns filters highWatermarkBytes calls {} ctx,
        t.Capped filters highWatermarkBytes := by
  intro h
  have hcapped := h Unit [bufferingFilter] 3 [⟨true,ascii "ab",false⟩,⟨true,ascii "cd",true⟩] ()
  have hlast := hcapped ⟨⟨true,ascii "cd",true⟩,⟨⟨true,0,ascii "ab"⟩,{}⟩,(),
    .forward (ascii "abcd"),⟨⟨false,0,[]⟩,{}⟩,()⟩ (by right; left)
  exact hlast.forwarded _ rfl ⟨rfl,by decide⟩

end BodyFilterGate
end PerCoreShard
