import PerCoreShard.Filter.Streaming
import PerCoreShard.Library.History

/-! Runs of a gate: calls of the two directions in any order, each kept together with what the
gate held before it and what came of it. -/
namespace PerCoreShard

/-- One call of `apply_request` or of `apply_response`. -/
structure GateInput where
  isRequest : Bool
  chunk : Bytes
  endStream : Bool
  deriving DecidableEq, Repr

namespace BodyFilterGate
variable {Ctx : Type} {filters : FilterChain Ctx} {highWatermarkBytes : ℕ}

/-- The iteration state of a direction. -/
def state (gate : BodyFilterGate) (isRequest : Bool) : DataIterationState :=
  if isRequest then gate.requestState else gate.responseState

structure Turn (Ctx : Type) where
  call : GateInput
  before : BodyFilterGate
  ctx : Ctx
  result : GateResult
  after : BodyFilterGate
  ctxAfter : Ctx

def turn (filters : FilterChain Ctx) (highWatermarkBytes : ℕ) (gate : BodyFilterGate) (ctx : Ctx)
    (call : GateInput) : Turn Ctx :=
  let r :=
    if call.isRequest then applyRequest filters highWatermarkBytes gate call.chunk call.endStream ctx
    else applyResponse filters highWatermarkBytes gate call.chunk call.endStream ctx
  ⟨call,gate,ctx,r.1,r.2.1,r.2.2⟩

def turns (filters : FilterChain Ctx) (highWatermarkBytes : ℕ) :
    List GateInput → BodyFilterGate → Ctx → List (Turn Ctx)
  | [],_,_ => []
  | call::calls,gate,ctx =>
    let t := turn filters highWatermarkBytes gate ctx call
    t::turns filters highWatermarkBytes calls t.after t.ctxAfter

section
variable (filters : FilterChain Ctx) (highWatermarkBytes : ℕ) (gate : BodyFilterGate) (ctx : Ctx)
  (call : GateInput)

@[simp] theorem turn_call : (turn filters highWatermarkBytes gate ctx call).call = call := rfl
@[simp] theorem turn_before : (turn filters highWatermarkBytes gate ctx call).before = gate := rfl
@[simp] theorem turn_ctx : (turn filters highWatermarkBytes gate ctx call).ctx = ctx := rfl

theorem turn_result : (turn filters highWatermarkBytes gate ctx call).result =
    (apply filters highWatermarkBytes call.isRequest call.chunk call.endStream
      (gate.state call.isRequest) ctx).1 := by
  cases hd : call.isRequest <;> simp [turn,hd,applyRequest,applyResponse,state]

theorem turn_after : (turn filters highWatermarkBytes gate ctx call).after.state call.isRequest =
    (apply filters highWatermarkBytes call.isRequest call.chunk call.endStream
      (gate.state call.isRequest) ctx).2.1 := by
  cases hd : call.isRequest <;> simp [turn,hd,applyRequest,applyResponse,state]

/-- A call leaves the other direction alone. -/
theorem turn_other {isRequest : Bool} (h : isRequest ≠ call.isRequest) :
    (turn filters highWatermarkBytes gate ctx call).after.state isRequest =
      gate.state isRequest := by
  cases isRequest <;> cases hd : call.isRequest <;>
    simp_all [turn,applyRequest,applyResponse,state]

end

theorem eq_turn_of_mem {calls : List GateInput} {gate : BodyFilterGate} {ctx : Ctx} {t : Turn Ctx}
    (h : t ∈ turns filters highWatermarkBytes calls gate ctx) :
    t = turn filters highWatermarkBytes t.before t.ctx t.call := by
  induction calls generalizing gate ctx with
  | nil => cases h
  | cons call calls ih =>
    rcases List.mem_cons.mp h with rfl | htail
    · rfl
    · exact ih htail

/-- What every call keeps holds at every turn of a run, together with the turns before it. -/
theorem along_turns {I : List (Turn Ctx) → BodyFilterGate → Prop}
    {P : List (Turn Ctx) → Turn Ctx → Prop}
    (hstep : ∀ past gate ctx call, I past gate →
      P past (turn filters highWatermarkBytes gate ctx call) ∧
        I (past ++ [turn filters highWatermarkBytes gate ctx call])
          (turn filters highWatermarkBytes gate ctx call).after)
    (calls : List GateInput) (past : List (Turn Ctx)) (gate : BodyFilterGate) (ctx : Ctx)
    (h : I past gate) :
    Library.Along P past (turns filters highWatermarkBytes calls gate ctx) := by
  induction calls generalizing past gate ctx with
  | nil => trivial
  | cons call calls ih =>
    obtain ⟨hturn,hafter⟩ := hstep past gate ctx call h
    exact ⟨hturn,ih _ _ _ hafter⟩

end BodyFilterGate
end PerCoreShard
