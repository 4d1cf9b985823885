import PerCoreShard.Filter.Streaming

/-! The two directions of a chain. Responses run through the filters backwards, with their own
loop and their own meaning of the index at which a blocked pass resumes; they see and do exactly
what requests see and do in the chain written the other way round. -/
namespace PerCoreShard

/-- One access to `filters_[index]`, and what the filter there was called with. -/
structure Access (Ctx : Type) where
  index : ℕ
  data : Bytes
  endStream : Bool
  ctx : Ctx

namespace FilterChain
open BodyFilterGate
variable {Ctx : Type}

/-- `iterate`, with every access it makes to a filter. -/
def iterateTraced (filters : FilterChain Ctx) (step : DataStep Ctx) (endStream : Bool) :
    List ℕ → Bytes → Ctx → (Verdict × Bytes × Ctx) × List (Access Ctx)
  | [],current,ctx => ((.passed,current,ctx),[])
  | i::is,current,ctx =>
    let access : Access Ctx := ⟨i,current,endStream,ctx⟩
    match filters[i]? with
    | none =>
      let r := iterateTraced filters step endStream is current ctx
      (r.1,access::r.2)
    | some f =>
      match step f current endStream ctx with
      | (.continue_,current',ctx') =>
        let r := iterateTraced filters step endStream is current' ctx'
        (r.1,access::r.2)
      | (.respond r,current',ctx') => ((.rejected r,current',ctx'),[access])
      | (.stopAndBuffer,current',ctx') => ((.blockedAt i,current',ctx'),[access])

theorem iterateTraced_fst (filters : FilterChain Ctx) (step : DataStep Ctx) (endStream : Bool)
    (is : List ℕ) (current : Bytes) (ctx : Ctx) :
    (iterateTraced filters step endStream is current ctx).1 =
      iterate filters step endStream is current ctx := by
  induction is generalizing current ctx with
  | nil => rfl
  | cons i is ih =>
    unfold iterateTraced iterate
    cases filters[i]? with
    | none => exact ih current ctx
    | some f =>
      dsimp only
      rcases step f current endStream ctx with ⟨answer,current',ctx'⟩
      cases answer with
      | continue_ => exact ih current' ctx'
      | respond r => rfl
      | stopAndBuffer => rfl

/-- The accesses of a call of `apply_data`. -/
def accesses (filters : FilterChain Ctx) (step : DataStep Ctx) (reverse : Bool) (data : Bytes)
    (endStream : Bool) (state : DataIterationState) (ctx : Ctx) : List (Access Ctx) :=
  if filters.isEmpty then []
  else
    let is := visits reverse (state.startIndex reverse filters.length) filters.length
    (iterateTraced filters step endStream is (state.current data) ctx).2

/-- A call of `apply_data` with the accesses it made. -/
structure DataTurn (Ctx : Type) where
  outcome : DataOutcome Ctx
  accesses : List (Access Ctx)

/-- A body fed to one direction of the chain, chunk by chunk. -/
def dataTurns (filters : FilterChain Ctx) (step : DataStep Ctx) (reverse : Bool) :
    List (Bytes × Bool) → DataIterationState → Ctx → List (DataTurn Ctx)
  | [],_,_ => []
  | (data,endStream)::calls,state,ctx =>
    let outcome := filters.applyData step reverse data endStream state ctx
    ⟨outcome,filters.accesses step reverse data endStream state ctx⟩::
      dataTurns filters step reverse calls outcome.state outcome.ctx

/-- Calls of `apply_request_data`. -/
def requestTurns (filters : FilterChain Ctx) : List (Bytes × Bool) → DataIterationState → Ctx →
    List (DataTurn Ctx) :=
  dataTurns filters Filter.onRequestData false

/-- Calls of `apply_response_data`. -/
def responseTurns (filters : FilterChain Ctx) : List (Bytes × Bool) → DataIterationState → Ctx →
    List (DataTurn Ctx) :=
  dataTurns filters Filter.onResponseData true

/-- The data callbacks that `filters` use on responses are those that `mirrored`, read from its
end, uses on requests. -/
def Mirrors (filters mirrored : FilterChain Ctx) : Prop :=
  List.Forall₂ (fun f g => g.onRequestData = f.onResponseData) filters mirrored.reverse

/-- The position of a filter counted from the other end. -/
def mirrorIndex (size i : ℕ) : ℕ := size - 1 - i

def Access.mirror (size : ℕ) (a : Access Ctx) : Access Ctx :=
  { a with index := mirrorIndex size a.index }

def Verdict.mirror (size : ℕ) : Verdict → Verdict
  | .passed => .passed
  | .rejected r => .rejected r
  | .blockedAt i => .blockedAt (mirrorIndex size i)

/-- Two iteration states that hold the same data back at corresponding filters of the chain. -/
structure StateMirrors (size : ℕ) (s t : DataIterationState) : Prop where
  blocked : t.blocked = s.blocked
  buffer : t.buffer = s.buffer
  inRange : s.blocked = true → s.blockedFilterIndex < size
  index : s.blocked = true → t.blockedFilterIndex = mirrorIndex size s.blockedFilterIndex

/-- Two calls with the same effect, that accessed corresponding filters in the same order with
the same arguments. -/
structure TurnMirrors (size : ℕ) (s t : DataTurn Ctx) : Prop where
  result : t.outcome.result = s.outcome.result
  data : t.outcome.data = s.outcome.data
  ctx : t.outcome.ctx = s.outcome.ctx
  state : StateMirrors size s.outcome.state t.outcome.state
  accesses : t.accesses = s.accesses.map (Access.mirror size)
  inRange : ∀ a ∈ s.accesses, a.index < size

section
variable {filters mirrored : FilterChain Ctx} (h : Mirrors filters mirrored)
include h

theorem Mirrors.length_eq : mirrored.length = filters.length := by
  have hlen := List.Forall₂.length_eq h
  rw [List.length_reverse] at hlen
  exact hlen.symm

theorem Mirrors.get {i : ℕ} (hi : i < filters.length) : ∃ f g, filters[i]? = some f ∧
    mirrored[mirrorIndex filters.length i]? = some g ∧ g.onRequestData = f.onResponseData := by
  have hlen := h.length_eq
  have hi' : i < mirrored.reverse.length := by
    rw [List.length_reverse,hlen]
    exact hi
  have hget := (List.forall₂_iff_get.mp h).2 i hi hi'
  have hrev : mirrored[mirrorIndex filters.length i]? = mirrored.reverse[i]? := by
    rw [List.getElem?_reverse (by omega),hlen]
    rfl
  refine ⟨filters[i],mirrored.reverse[i],List.getElem?_eq_getElem hi,?_,hget⟩
  rw [hrev]
  exact List.getElem?_eq_getElem hi'

/-- A pass over corresponding filters. -/
theorem iterateTraced_mirror (endStream : Bool) (is : List ℕ) (his : ∀ i ∈ is, i < filters.length)
    (current : Bytes) (ctx : Ctx) :
    let r := iterateTraced filters Filter.onResponseData endStream is current ctx
    iterateTraced mirrored Filter.onRequestData endStream
        (is.map (mirrorIndex filters.length)) current ctx =
      ((r.1.1.mirror filters.length,r.1.2),r.2.map (Access.mirror filters.length)) := by
  induction is generalizing current ctx with
  | nil => rfl
  | cons i is ih =>
    obtain ⟨hi,his⟩ := List.forall_mem_cons.mp his
    obtain ⟨f,g,hf,hg,hstep⟩ := h.get hi
    simp only [List.map_cons,iterateTraced,hf,hg,hstep]
    rcases f.onResponseData current endStream ctx with ⟨answer,current',ctx'⟩
    cases answer with
    | continue_ =>
      simp only [ih his current' ctx',List.map_cons,Access.mirror]
    | respond r => rfl
    | stopAndBuffer => rfl

end

theorem mem_visits_reverse {start size j : ℕ} (hs : start < size)
    (h : j ∈ visits true start size) : j < size := by
  simp only [visits,if_true,List.mem_reverse,List.mem_range] at h
  omega

/-- The loop that counts down from an index is the mirror image of the one that counts up from
the corresponding index. -/
theorem visits_mirror {start size : ℕ} (h : start < size) :
    visits false (mirrorIndex size start) size =
      (visits true start size).map (mirrorIndex size) := by
  have hlen : size - mirrorIndex size start = start + 1 := by
    unfold mirrorIndex
    omega
  simp only [visits,Bool.false_eq_true,if_false,if_true,hlen]
  apply List.ext_getElem
  · simp
  intro j hj hj'
  simp only [List.length_range'] at hj
  simp only [List.getElem_range',List.getElem_map,List.getElem_reverse,List.getElem_range,
    List.length_range,mirrorIndex]
  omega

theorem accesses_inRange (filters : FilterChain Ctx) (step : DataStep Ctx) (endStream : Bool)
    (is : List ℕ) (his : ∀ i ∈ is, i < filters.length) (current : Bytes) (ctx : Ctx) :
    ∀ a ∈ (iterateTraced filters step endStream is current ctx).2, a.index < filters.length := by
  induction is generalizing current ctx with
  | nil => simp [iterateTraced]
  | cons i is ih =>
    obtain ⟨hi,his⟩ := List.forall_mem_cons.mp his
    simp only [iterateTraced,List.getElem?_eq_getElem hi]
    rcases step filters[i] current endStream ctx with ⟨answer,current',ctx'⟩
    cases answer with
    | continue_ =>
      intro a ha
      rcases List.mem_cons.mp ha with rfl | ha
      · exact hi
      · exact ih his current' ctx' a ha
    | respond r => simpa using hi
    | stopAndBuffer => simpa using hi

theorem mem_of_blockedAt {filters : FilterChain Ctx} {step : DataStep Ctx} {endStream : Bool}
    {is : List ℕ} {current : Bytes} {ctx : Ctx} {j : ℕ}
    (h : (iterateTraced filters step endStream is current ctx).1.1 = .blockedAt j) : j ∈ is := by
  induction is generalizing current ctx with
  | nil => cases h
  | cons i is ih =>
    unfold iterateTraced at h
    cases hf : filters[i]? with
    | none =>
      simp only [hf] at h
      exact List.mem_cons_of_mem _ (ih h)
    | some f =>
      simp only [hf] at h
      rcases hstep : step f current endStream ctx with ⟨answer,current',ctx'⟩
      simp only [hstep] at h
      cases answer with
      | continue_ => exact List.mem_cons_of_mem _ (ih h)
      | respond r => cases h
      | stopAndBuffer =>
        obtain rfl := Verdict.blockedAt.inj h
        exact List.mem_cons_self

section
variable {filters mirrored : FilterChain Ctx} (h : Mirrors filters mirrored)
include h

/-- One call from corresponding states. -/
theorem applyData_mirror {s t : DataIterationState} (hst : StateMirrors filters.length s t)
    (data : Bytes) (endStream : Bool) (ctx : Ctx) :
    TurnMirrors filters.length
      ⟨filters.applyData Filter.onResponseData true data endStream s ctx,
        filters.accesses Filter.onResponseData true data endStream s ctx⟩
      ⟨mirrored.applyData Filter.onRequestData false data endStream t ctx,
        mirrored.accesses Filter.onRequestData false data endStream t ctx⟩ := by
  have hlen := h.length_eq
  unfold applyData accesses
  cases hempty : filters.isEmpty with
  | true =>
    have hnil : filters = [] := List.isEmpty_iff.mp hempty
    have hmirrored : mirrored = [] := by
      rw [hnil] at hlen
      exact List.length_eq_zero_iff.mp hlen
    subst hmirrored
    exact ⟨rfl,rfl,rfl,hst,rfl,by simp⟩
  | false =>
    have hne : filters ≠ [] := by simpa using hempty
    have hpos : 0 < filters.length := List.length_pos_iff.mpr hne
    have hempty' : mirrored.isEmpty = false := by
      rw [List.isEmpty_eq_false_iff,← List.length_pos_iff,hlen]
      exact hpos
    obtain ⟨i,hi,hs,ht⟩ : ∃ i < filters.length,
        s.startIndex true filters.length = i ∧
        t.startIndex false filters.length = mirrorIndex filters.length i := by
      unfold DataIterationState.startIndex firstIndex
      cases hb : s.blocked with
      | true => exact ⟨s.blockedFilterIndex,hst.inRange hb,rfl,by simp [hst.blocked,hb,hst.index hb]⟩
      | false => exact ⟨filters.length - 1,by omega,rfl,by simp [hst.blocked,hb,mirrorIndex]⟩
    have hvisits : ∀ j ∈ visits true i filters.length, j < filters.length :=
      fun j hj => mem_visits_reverse hi hj
    have hcurrent : t.current data = s.current data := by
      rw [DataIterationState.current,DataIterationState.current,hst.blocked,hst.buffer]
    simp only [hempty',Bool.false_eq_true,if_false,hs,ht,hlen,hcurrent,
      visits_mirror hi,← iterateTraced_fst,iterateTraced_mirror h endStream _ hvisits]
    have hrange := accesses_inRange filters Filter.onResponseData endStream _ hvisits
      (s.current data) ctx
    have hblocked : ∀ j, (iterateTraced filters Filter.onResponseData endStream
        (visits true i filters.length) (s.current data) ctx).1.1 =
          .blockedAt j → j < filters.length :=
      fun j hj => hvisits j (mem_of_blockedAt hj)
    generalize iterateTraced filters Filter.onResponseData endStream
      (visits true i filters.length) (s.current data) ctx = r
      at hrange hblocked ⊢
    obtain ⟨⟨verdict,out,ctx'⟩,trace⟩ := r
    cases verdict with
    | passed =>
      have hbuf : (if t.blocked then [] else t.buffer) = if s.blocked then [] else s.buffer := by
        rw [hst.blocked,hst.buffer]
      exact ⟨rfl,rfl,rfl,⟨rfl,hbuf,fun hb => (by cases hb),fun hb => (by cases hb)⟩,rfl,hrange⟩
    | rejected r =>
      have hdata : (if t.blocked then data else out) = if s.blocked then data else out := by
        rw [hst.blocked]
      exact ⟨rfl,hdata,rfl,⟨rfl,rfl,fun hb => (by cases hb),fun hb => (by cases hb)⟩,rfl,hrange⟩
    | blockedAt j =>
      have hdata : (if t.blocked then data else []) = if s.blocked then data else [] := by
        rw [hst.blocked]
      exact ⟨rfl,hdata,rfl,⟨rfl,rfl,fun _ => hblocked j rfl,fun _ => rfl⟩,rfl,hrange⟩

theorem dataTurns_mirror (calls : List (Bytes × Bool)) {s t : DataIterationState}
    (hst : StateMirrors filters.length s t) (ctx : Ctx) :
    List.Forall₂ (TurnMirrors filters.length) (filters.responseTurns calls s ctx)
      (mirrored.requestTurns calls t ctx) := by
  induction calls generalizing s t ctx with
  | nil => exact .nil
  | cons call calls ih =>
    obtain ⟨data,endStream⟩ := call
    have hturn := applyData_mirror h hst data endStream ctx
    refine .cons hturn ?_
    have hrest := ih hturn.state (filters.applyData Filter.onResponseData true data endStream s ctx).ctx
    have hctx := hturn.ctx
    dsimp only at hctx
    rw [hctx]
    exact hrest

/-- Feeding a body to the response direction of a chain is feeding it to the request direction
of the chain written the other way round. -/
theorem response_mirrors_request (calls : List (Bytes × Bool)) (ctx : Ctx) :
    List.Forall₂ (TurnMirrors filters.length) (filters.responseTurns calls {} ctx)
      (mirrored.requestTurns calls {} ctx) :=
  dataTurns_mirror h calls ⟨rfl,rfl,fun hb => (by cases hb),fun hb => (by cases hb)⟩ ctx

end

theorem mirrors_sample : Mirrors [bufferingFilter,streamingFilter toUpper]
    [streamingFilter toUpper,bufferingFilter] :=
  .cons rfl (.cons rfl .nil)

/-- A chain that blocks at its last filter, in the order of responses. -/
theorem response_mirrors_request_upper : List.Forall₂ (TurnMirrors 2)
    (responseTurns [bufferingFilter,streamingFilter toUpper] [(ascii "ab",false),(ascii "c",true)]
      {} ())
    (requestTurns [streamingFilter toUpper,bufferingFilter] [(ascii "ab",false),(ascii "c",true)]
      {} ()) :=
  response_mirrors_request mirrors_sample _ ()

end FilterChain
end PerCoreShard
