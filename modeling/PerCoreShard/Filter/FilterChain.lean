import PerCoreShard.Net.Http.Types

/-! Filters and the chain that runs them: requests in registration order, responses in the
reverse order. -/
namespace PerCoreShard

structure DirectResponse where
  head : ResponseHead
  body : Bytes
  deriving DecidableEq, Repr

/-- `FilterHeaderResult`: the payload exists only when the filter responds directly. -/
inductive FilterHeaderResult
  | continue_
  | respond (response : DirectResponse)
  deriving DecidableEq, Repr

/-- The filter answers instead of letting the message pass. -/
def FilterHeaderResult.rejects : FilterHeaderResult → Bool
  | .continue_ => false
  | .respond _ => true

inductive FilterDataResult
  | continue_
  | respond (response : DirectResponse)
  | stopAndBuffer
  deriving DecidableEq, Repr

/-- `IFilter`. A filter may read and write the head or data it is shown and the context.
`Ctx` is everything filters can remember: the `FilterContext` of the session and the
members of the filter objects, which all sessions of a shard share. -/
structure Filter (Ctx : Type) where
  onRequest : RequestHead → Ctx → FilterHeaderResult × RequestHead × Ctx :=
    fun head ctx => (.continue_,head,ctx)
  onResponse : ResponseHead → Ctx → FilterHeaderResult × ResponseHead × Ctx :=
    fun head ctx => (.continue_,head,ctx)
  onRequestData : Bytes → Bool → Ctx → FilterDataResult × Bytes × Ctx :=
    fun data _ ctx => (.continue_,data,ctx)
  onResponseData : Bytes → Bool → Ctx → FilterDataResult × Bytes × Ctx :=
    fun data _ ctx => (.continue_,data,ctx)

/-- The data callbacks are those a filter inherits from `IFilter`. -/
def Filter.NoData {Ctx : Type} (f : Filter Ctx) : Prop := ∀ data endStream ctx,
  f.onRequestData data endStream ctx = (.continue_,data,ctx) ∧
    f.onResponseData data endStream ctx = (.continue_,data,ctx)

abbrev FilterChain (Ctx : Type) := List (Filter Ctx)

/-- A chain without data filters. -/
def FilterChain.NoData {Ctx : Type} (filters : FilterChain Ctx) : Prop := ∀ f ∈ filters, f.NoData

/-- One data callback of a filter: `&IFilter::on_request_data` or `&IFilter::on_response_data`. -/
abbrev DataStep (Ctx : Type) := Filter Ctx → Bytes → Bool → Ctx → FilterDataResult × Bytes × Ctx

/-- Which filter holds the data back, and the bytes it has asked to keep. -/
structure DataIterationState where
  blocked : Bool := false
  blockedFilterIndex : ℕ := 0
  buffer : Bytes := []
  deriving DecidableEq, Repr

/-- The index at which a fresh pass starts. -/
def FilterChain.firstIndex (reverse : Bool) (size : ℕ) : ℕ := if reverse then size - 1 else 0

namespace DataIterationState

/-- What the filters are called with: new data is added to what is held back. -/
def current (state : DataIterationState) (data : Bytes) : Bytes :=
  if state.blocked then state.buffer ++ data else data

def startIndex (state : DataIterationState) (reverse : Bool) (size : ℕ) : ℕ :=
  if state.blocked then state.blockedFilterIndex else FilterChain.firstIndex reverse size

end DataIterationState

namespace FilterChain
variable {Ctx H : Type}

/-- Run the header callbacks in order until one responds directly. -/
def applyHead (step : Filter Ctx → H → Ctx → FilterHeaderResult × H × Ctx) :
    List (Filter Ctx) → H → Ctx → FilterHeaderResult × H × Ctx
  | [],head,ctx => (.continue_,head,ctx)
  | f::fs,head,ctx =>
    match step f head ctx with
    | (.respond r,head',ctx') => (.respond r,head',ctx')
    | (.continue_,head',ctx') => applyHead step fs head' ctx'

def applyRequest (filters : FilterChain Ctx) : RequestHead → Ctx →
    FilterHeaderResult × RequestHead × Ctx :=
  applyHead Filter.onRequest filters

def applyResponse (filters : FilterChain Ctx) : ResponseHead → Ctx →
    FilterHeaderResult × ResponseHead × Ctx :=
  applyHead Filter.onResponse filters.reverse

/-- How a pass over the filters ended. -/
inductive Verdict
  | passed
  | rejected (response : DirectResponse)
  | blockedAt (index : ℕ)
  deriving DecidableEq, Repr

/-- Call the filters with the given indices, in that order, until one stops the pass. An
index outside the chain would be undefined behaviour; it is skipped here. -/
def iterate (filters : FilterChain Ctx) (step : DataStep Ctx) (endStream : Bool) :
    List ℕ → Bytes → Ctx → Verdict × Bytes × Ctx
  | [],current,ctx => (.passed,current,ctx)
  | i::is,current,ctx =>
    match filters[i]? with
    | none => iterate filters step endStream is current ctx
    | some f =>
      match step f current endStream ctx with
      | (.continue_,current',ctx') => iterate filters step endStream is current' ctx'
      | (.respond r,current',ctx') => (.rejected r,current',ctx')
      | (.stopAndBuffer,current',ctx') => (.blockedAt i,current',ctx')

/-- The indices visited by `for (i = start; i < size; ++i)`, and by
`for (i = start + 1; i-- > 0;)` when `reverse`. -/
def visits (reverse : Bool) (start size : ℕ) : List ℕ :=
  if reverse then (List.range (start + 1)).reverse else List.range' start (size - start)

/-- The result, the caller's `data`, the iteration state and the context after a call. -/
structure DataOutcome (Ctx : Type) where
  result : FilterDataResult
  data : Bytes
  state : DataIterationState
  ctx : Ctx

/-- `apply_data`. While a filter blocks, new data is appended to the buffer and the pass
resumes at that filter; otherwise it starts at the first filter of the direction. -/
def applyData (filters : FilterChain Ctx) (step : DataStep Ctx) (reverse : Bool) (data : Bytes)
    (endStream : Bool) (state : DataIterationState) (ctx : Ctx) : DataOutcome Ctx :=
  if filters.isEmpty then ⟨.continue_,data,state,ctx⟩
  else
    let is := visits reverse (state.startIndex reverse filters.length) filters.length
    match iterate filters step endStream is (state.current data) ctx with
    | (.passed,out,ctx') =>
      ⟨.continue_,out,
        { state with blocked := false, buffer := if state.blocked then [] else state.buffer },ctx'⟩
    | (.rejected r,out,ctx') =>
      ⟨.respond r,if state.blocked then data else out,
        { state with blocked := false, buffer := [] },ctx'⟩
    | (.blockedAt i,out,ctx') =>
      ⟨.stopAndBuffer,if state.blocked then data else [],⟨true,i,out⟩,ctx'⟩

def applyRequestData (filters : FilterChain Ctx) (data : Bytes) (endStream : Bool)
    (state : DataIterationState) (ctx : Ctx) : DataOutcome Ctx :=
  applyData filters Filter.onRequestData false data endStream state ctx

def applyResponseData (filters : FilterChain Ctx) (data : Bytes) (endStream : Bool)
    (state : DataIterationState) (ctx : Ctx) : DataOutcome Ctx :=
  applyData filters Filter.onResponseData true data endStream state ctx

end FilterChain
end PerCoreShard
