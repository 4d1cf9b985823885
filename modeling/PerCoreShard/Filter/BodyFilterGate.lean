import PerCoreShard.Filter.FilterChain

/-! The policy between the body relay and the filter chain: forward, keep buffering, or reject
with 413 (requests) or 502 (responses) when the buffer passes the watermark. -/
namespace PerCoreShard

/-- `BodyFilterGate::Result`. -/
inductive GateResult
  | forward (data : Bytes)
  | stillBuffering
  | reject (head : ResponseHead) (body : Bytes)
  deriving DecidableEq, Repr

/-- The gate answers instead of letting the message pass. -/
def GateResult.rejects : GateResult → Bool
  | .reject _ _ => true
  | _ => false

/-- The rejection for a buffer above the watermark. -/
def watermarkResponse (isRequest : Bool) : ResponseHead where
  status := if isRequest then 413 else 502
  reason := if isRequest then ascii "Payload Too Large" else ascii "Bad Gateway"
  headers := [⟨ascii "Content-Length",ascii "0"⟩]

/-- The iteration states of the two directions. -/
structure BodyFilterGate where
  requestState : DataIterationState := {}
  responseState : DataIterationState := {}
  deriving DecidableEq, Repr

namespace BodyFilterGate
variable {Ctx : Type}

/-- `apply`. The watermark is checked before the forced flush at the end of the stream. -/
def apply (filters : FilterChain Ctx) (highWatermarkBytes : ℕ) (isRequest : Bool) (chunk : Bytes)
    (endStream : Bool) (state : DataIterationState) (ctx : Ctx) :
    GateResult × DataIterationState × Ctx :=
  let r :=
    if isRequest then filters.applyRequestData chunk endStream state ctx
    else filters.applyResponseData chunk endStream state ctx
  match r.result with
  | .respond response => (.reject response.head response.body,{},r.ctx)
  | .stopAndBuffer =>
    if r.state.buffer.length > highWatermarkBytes then
      (.reject (watermarkResponse isRequest) [],{},r.ctx)
    else if endStream then (.forward r.state.buffer,{},r.ctx)
    else (.stillBuffering,r.state,r.ctx)
  | .continue_ => (.forward r.data,r.state,r.ctx)

def applyRequest (filters : FilterChain Ctx) (highWatermarkBytes : ℕ) (gate : BodyFilterGate)
    (chunk : Bytes) (endStream : Bool) (ctx : Ctx) : GateResult × BodyFilterGate × Ctx :=
  let r := apply filters highWatermarkBytes true chunk endStream gate.requestState ctx
  (r.1,{ gate with requestState := r.2.1 },r.2.2)

def applyResponse (filters : FilterChain Ctx) (highWatermarkBytes : ℕ) (gate : BodyFilterGate)
    (chunk : Bytes) (endStream : Bool) (ctx : Ctx) : GateResult × BodyFilterGate × Ctx :=
  let r := apply filters highWatermarkBytes false chunk endStream gate.responseState ctx
  (r.1,{ gate with responseState := r.2.1 },r.2.2)

/-- Nothing is held back unless a filter blocks, and only a filter can. -/
structure Tidy (filters : FilterChain Ctx) (state : DataIterationState) : Prop where
  empty : state.blocked = false → state.buffer = []
  blocked : state.blocked = true → filters ≠ []

theorem tidy_empty (filters : FilterChain Ctx) : Tidy filters {} :=
  ⟨fun _ => rfl,fun h => by cases h⟩

theorem applyData_tidy {filters : FilterChain Ctx} {state : DataIterationState}
    (h : Tidy filters state) (step : DataStep Ctx) (reverse : Bool) (chunk : Bytes)
    (endStream : Bool) (ctx : Ctx) :
    let r := filters.applyData step reverse chunk endStream state ctx
    (r.result = .continue_ → Tidy filters r.state ∧ r.state.buffer = []) ∧
      (r.result = .stopAndBuffer → Tidy filters r.state) := by
  dsimp only
  unfold FilterChain.applyData
  split
  next hempty =>
    have hnil : filters = [] := List.isEmpty_iff.mp hempty
    have hfree : state.blocked = false := by
      cases hb : state.blocked with
      | false => rfl
      | true => exact absurd hnil (h.blocked hb)
    exact ⟨fun _ => ⟨h,h.empty hfree⟩,fun hn => by cases hn⟩
  next hne =>
    have hfilters : filters ≠ [] := by simpa [List.isEmpty_iff] using hne
    dsimp only
    split
    · refine ⟨fun _ => ?_,fun hn => by cases hn⟩
      have hbuf : (if state.blocked then [] else state.buffer) = [] := by
        split
        · rfl
        next hb => exact h.empty (by simpa using hb)
      exact ⟨⟨fun _ => hbuf,fun hb => by cases hb⟩,hbuf⟩
    · exact ⟨fun hn => (by cases hn),fun hn => (by cases hn)⟩
    · exact ⟨fun hn => (by cases hn),fun _ => ⟨fun hb => (by cases hb),fun _ => hfilters⟩⟩

/-- What a call leaves is tidy, and what it still holds back is no more than the watermark and
not the end of the stream. -/
theorem apply_tidy {filters : FilterChain Ctx} {state : DataIterationState}
    (highWatermarkBytes : ℕ) (isRequest : Bool) (chunk : Bytes) (endStream : Bool) (ctx : Ctx)
    (h : Tidy filters state) :
    let t := (apply filters highWatermarkBytes isRequest chunk endStream state ctx).2.1
    Tidy filters t ∧ t.buffer.length ≤ highWatermarkBytes ∧ (endStream = true → t.buffer = []) := by
  obtain ⟨hcontinue,hstop⟩ : let r := if isRequest then
        filters.applyRequestData chunk endStream state ctx
      else filters.applyResponseData chunk endStream state ctx
      (r.result = .continue_ → Tidy filters r.state ∧ r.state.buffer = []) ∧
        (r.result = .stopAndBuffer → Tidy filters r.state) := by
    cases isRequest
    · exact applyData_tidy h Filter.onResponseData true chunk endStream ctx
    · exact applyData_tidy h Filter.onRequestData false chunk endStream ctx
  have hreset : Tidy filters {} ∧ ([] : Bytes).length ≤ highWatermarkBytes ∧
      (endStream = true → ([] : Bytes) = []) :=
    ⟨tidy_empty filters,Nat.zero_le _,fun _ => rfl⟩
  unfold apply
  dsimp only at hcontinue hstop ⊢
  generalize (if isRequest then filters.applyRequestData chunk endStream state ctx
      else filters.applyResponseData chunk endStream state ctx) = r at hcontinue hstop ⊢
  cases hres : r.result with
  | respond response => exact hreset
  | stopAndBuffer =>
    dsimp only
    split
    · exact hreset
    next hw =>
      split
      · exact hreset
      next he => exact ⟨hstop hres,Nat.le_of_not_lt hw,fun hn => absurd hn he⟩
  | continue_ =>
    obtain ⟨htidy,hbuf⟩ := hcontinue hres
    have hlen : r.state.buffer.length ≤ highWatermarkBytes := by simp [hbuf]
    exact ⟨htidy,hlen,fun _ => hbuf⟩

/-- `reset`, before the next request of the connection. -/
def reset : BodyFilterGate := {}

end BodyFilterGate
end PerCoreShard
