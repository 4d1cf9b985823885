import PerCoreShard.Filter.Turns

/-! Chains of filters that hold data back or let it pass, but never change it and never respond.
Whatever the chunks and the answers are, in each direction the bytes forwarded and the bytes
held back are the bytes that came in. -/
namespace PerCoreShard

/-- The data callbacks hold data back or let it pass, as the context decides. -/
structure Filter.Passive {Ctx : Type} (f : Filter Ctx) : Prop where
  unchanged : ∀ isRequest data endStream ctx,
    (dataStep Ctx isRequest f data endStream ctx).2.1 = data
  silent : ∀ isRequest data endStream ctx r,
    (dataStep Ctx isRequest f data endStream ctx).1 ≠ .respond r

namespace FilterChain
variable {Ctx : Type}

/-- Every filter of the chain is passive. -/
def Passive (filters : FilterChain Ctx) : Prop := ∀ f ∈ filters, f.Passive

/-- A pass over passive filters shows each of them the same data, and ends inside the chain. -/
theorem iterate_passive {filters : FilterChain Ctx} (h : filters.Passive) (isRequest endStream : Bool)
    (is : List ℕ) (data : Bytes) (ctx : Ctx) :
    ∃ ctx', iterate filters (dataStep Ctx isRequest) endStream is data ctx = (.passed,data,ctx') ∨
      ∃ i < filters.length,
        iterate filters (dataStep Ctx isRequest) endStream is data ctx = (.blockedAt i,data,ctx') := by
  induction is generalizing ctx with
  | nil => exact ⟨ctx,.inl rfl⟩
  | cons i is ih =>
    cases hf : filters[i]? with
    | none =>
      simp only [iterate,hf]
      exact ih ctx
    | some f =>
      simp only [iterate,hf]
      have hpassive : f.Passive := h f (List.mem_of_getElem? hf)
      have hdata := hpassive.unchanged isRequest data endStream ctx
      have hsilent := hpassive.silent isRequest data endStream ctx
      generalize dataStep Ctx isRequest f data endStream ctx = r at hdata hsilent ⊢
      obtain ⟨answer,data',ctx'⟩ := r
      obtain rfl : data' = data := hdata
      cases answer with
      | continue_ => exact ih ctx'
      | respond r => exact absurd rfl (hsilent r)
      | stopAndBuffer =>
        have hi : i < filters.length := (List.getElem?_eq_some_iff.mp hf).1
        exact ⟨ctx',.inr ⟨i,hi,rfl⟩⟩

end FilterChain

/-- What an iteration state may look like between two calls. -/
structure DataIterationState.Sound {Ctx : Type} (filters : FilterChain Ctx)
    (highWatermarkBytes : ℕ) (state : DataIterationState) : Prop where
  empty : state.blocked = false → state.buffer = []
  inRange : state.blocked = true → state.blockedFilterIndex < filters.length
  capped : state.buffer.length ≤ highWatermarkBytes

namespace BodyFilterGate
variable {Ctx : Type} {filters : FilterChain Ctx} {highWatermarkBytes : ℕ}

theorem sound_empty (filters : FilterChain Ctx) (highWatermarkBytes : ℕ) :
    DataIterationState.Sound filters highWatermarkBytes {} :=
  ⟨fun _ => rfl,fun h => (by cases h),Nat.zero_le _⟩

/-- A call that rejects forgets what the direction held back. -/
theorem apply_reset (filters : FilterChain Ctx) (highWatermarkBytes : ℕ) (isRequest : Bool)
    (chunk : Bytes) (endStream : Bool) (state : DataIterationState) (ctx : Ctx)
    (h : (apply filters highWatermarkBytes isRequest chunk endStream state ctx).1.rejects = true) :
    (apply filters highWatermarkBytes isRequest chunk endStream state ctx).2.1 = {} := by
  unfold apply at h ⊢
  rw [apply_eq] at h ⊢
  generalize filters.applyData (dataStep Ctx isRequest) (!isRequest) chunk endStream state ctx = r
    at h ⊢
  cases hr : r.result with
  | continue_ => simp [hr,GateResult.rejects] at h
  | respond response => simp only [hr]
  | stopAndBuffer =>
    simp only [hr] at h ⊢
    split at h
    next hw => rw [if_pos hw]
    next =>
      split at h
      · cases h
      · cases h

/-- What a pass over passive filters makes of the data held back and the new chunk: all of it
goes on, or all of it is held back. -/
theorem applyData_passive (h : filters.Passive) (isRequest : Bool) {state : DataIterationState}
    (hstate : state.Sound filters highWatermarkBytes) (chunk : Bytes) (endStream : Bool) (ctx : Ctx) :
    let r := filters.applyData (dataStep Ctx isRequest) (!isRequest) chunk endStream state ctx
    r.result = .continue_ ∧ r.data = state.buffer ++ chunk ∧ r.state.blocked = false ∧
        r.state.buffer = [] ∨
      r.result = .stopAndBuffer ∧ r.state.blocked = true ∧
        r.state.blockedFilterIndex < filters.length ∧ r.state.buffer = state.buffer ++ chunk := by
  unfold FilterChain.applyData
  dsimp only
  split
  next hempty =>
    have hfree : state.blocked = false := by
      by_contra hb
      have hlt := hstate.inRange (by simpa using hb)
      rw [List.isEmpty_iff.mp hempty] at hlt
      exact absurd hlt (Nat.not_lt_zero _)
    exact .inl ⟨rfl,by simp [hstate.empty hfree],hfree,hstate.empty hfree⟩
  next hne =>
    have hcurrent : state.current chunk = state.buffer ++ chunk := by
      unfold DataIterationState.current
      split
      · rfl
      next hb => simp [hstate.empty (by simpa using hb)]
    rw [hcurrent]
    obtain ⟨ctx',hpass | ⟨i,hi,hblock⟩⟩ := FilterChain.iterate_passive h isRequest endStream
      (FilterChain.visits (!isRequest) (state.startIndex (!isRequest) filters.length)
        filters.length)
      (state.buffer ++ chunk) ctx
    · rw [hpass]
      refine .inl ⟨rfl,rfl,rfl,?_⟩
      dsimp only
      split
      · rfl
      next hb => exact hstate.empty (by simpa using hb)
    · rw [hblock]
      exact .inr ⟨rfl,rfl,hi,rfl⟩

/-- A call that does not reject loses nothing, and leaves a sound state behind. -/
theorem apply_conserves (h : filters.Passive) (isRequest : Bool) {state : DataIterationState}
    (hstate : state.Sound filters highWatermarkBytes) (chunk : Bytes) (endStream : Bool) (ctx : Ctx)
    (hr : (apply filters highWatermarkBytes isRequest chunk endStream state ctx).1.rejects = false) :
    let r := apply filters highWatermarkBytes isRequest chunk endStream state ctx
    forwarded [r.1] ++ r.2.1.buffer = state.buffer ++ chunk ∧
      r.2.1.Sound filters highWatermarkBytes ∧ (endStream = true → r.2.1.buffer = []) := by
  have hpass := applyData_passive h isRequest hstate chunk endStream ctx
  dsimp only at hpass ⊢
  unfold apply at hr ⊢
  rw [apply_eq] at hr ⊢
  generalize filters.applyData (dataStep Ctx isRequest) (!isRequest) chunk endStream state ctx = r
    at hpass hr ⊢
  rcases hpass with ⟨hres,hdata,hfree,hbuf⟩ | ⟨hres,hblocked,hi,hbuf⟩
  · simp only [hres]
    refine ⟨by simp [forwarded,hdata,hbuf],⟨fun _ => hbuf,fun hb => ?_,by simp [hbuf]⟩,fun _ => hbuf⟩
    rw [hfree] at hb
    cases hb
  · simp only [hres] at hr ⊢
    split at hr
    · cases hr
    next hw =>
      rw [if_neg hw]
      split
      · exact ⟨by simp [forwarded,hbuf],sound_empty filters _,fun _ => rfl⟩
      next hend =>
        refine ⟨by simp [forwarded,hbuf],⟨fun hb => ?_,fun _ => hi,not_lt.mp hw⟩,
          fun he => absurd he hend⟩
        rw [hblocked] at hb
        cases hb

/-- The chunks that came in, in a direction. -/
def received (isRequest : Bool) (ts : List (Turn Ctx)) : Bytes :=
  (ts.filter fun t => t.call.isRequest = isRequest).flatMap fun t => t.call.chunk

/-- The bytes that went on, in a direction. -/
def passedOn (isRequest : Bool) (ts : List (Turn Ctx)) : Bytes :=
  forwarded ((ts.filter fun t => t.call.isRequest = isRequest).map Turn.result)

/-- The bytes passed on and held back are those received, in each direction. -/
def Conserved (filters : FilterChain Ctx) (highWatermarkBytes : ℕ) (ts : List (Turn Ctx))
    (gate : BodyFilterGate) : Prop :=
  ∀ isRequest, passedOn isRequest ts ++ (gate.state isRequest).buffer = received isRequest ts ∧
    (gate.state isRequest).Sound filters highWatermarkBytes

/-- What a call does to the gate, when no call before it rejected. -/
structure Keeps (filters : FilterChain Ctx) (highWatermarkBytes : ℕ) (past : List (Turn Ctx))
    (t : Turn Ctx) : Prop where
  other : t.after.state (!t.call.isRequest) = t.before.state (!t.call.isRequest)
  reset : t.result.rejects = true → t.after.state t.call.isRequest = {}
  conserved : t.result.rejects = false → Conserved filters highWatermarkBytes (past ++ [t]) t.after
  flushed : t.result.rejects = false → t.call.endStream = true →
    (t.after.state t.call.isRequest).buffer = []

theorem received_append (isRequest : Bool) (ts : List (Turn Ctx)) (t : Turn Ctx) :
    received isRequest (ts ++ [t]) =
      received isRequest ts ++ if t.call.isRequest = isRequest then t.call.chunk else [] := by
  by_cases ht : t.call.isRequest = isRequest <;> simp [received,ht]

theorem passedOn_append (isRequest : Bool) (ts : List (Turn Ctx)) (t : Turn Ctx) :
    passedOn isRequest (ts ++ [t]) =
      passedOn isRequest ts ++ if t.call.isRequest = isRequest then forwarded [t.result] else [] := by
  by_cases ht : t.call.isRequest = isRequest <;> simp [passedOn,forwarded,ht]

/-- One more call in a run without rejections. -/
theorem keeps_turn (h : filters.Passive) {past : List (Turn Ctx)} {gate : BodyFilterGate}
    (hpast : Conserved filters highWatermarkBytes past gate) (ctx : Ctx) (call : GateInput) :
    Keeps filters highWatermarkBytes past (turn filters highWatermarkBytes gate ctx call) := by
  have hother : ∀ isRequest, isRequest ≠ call.isRequest →
      (turn filters highWatermarkBytes gate ctx call).after.state isRequest =
        gate.state isRequest :=
    fun _ hd => turn_other filters highWatermarkBytes gate ctx call hd
  have hafter := turn_after filters highWatermarkBytes gate ctx call
  have hresult := turn_result filters highWatermarkBytes gate ctx call
  have hstep := apply_conserves h call.isRequest (hpast call.isRequest).2 call.chunk call.endStream ctx
  dsimp only at hstep
  rw [← hresult,← hafter] at hstep
  refine ⟨hother _ (by simp),fun hr => ?_,fun hr isRequest => ?_,fun hr => (hstep hr).2.2⟩
  · rw [hresult] at hr
    rw [turn_call,hafter]
    exact apply_reset _ _ _ _ _ _ _ hr
  · obtain ⟨hbytes,hsound,-⟩ := hstep hr
    by_cases hd : isRequest = call.isRequest
    · subst hd
      refine ⟨?_,hsound⟩
      rw [passedOn_append,received_append,turn_call,if_pos rfl,if_pos rfl,List.append_assoc,hbytes,
        ← List.append_assoc,(hpast call.isRequest).1]
    · rw [hother _ hd]
      refine ⟨?_,(hpast isRequest).2⟩
      rw [passedOn_append,received_append,turn_call,if_neg (Ne.symm hd),if_neg (Ne.symm hd),
        List.append_nil,List.append_nil]
      exact (hpast isRequest).1

/-- A gate over passive filters neither loses, duplicates nor reorders bytes, up to and
including the first call that rejects. -/
theorem turns_conserve (filters : FilterChain Ctx) (h : filters.Passive) (highWatermarkBytes : ℕ)
    (calls : List GateInput) (ctx : Ctx) :
    Library.AtEvery (fun past t => (∀ u ∈ past, u.result.rejects = false) →
      Keeps filters highWatermarkBytes past t) (turns filters highWatermarkBytes calls {} ctx) := by
  refine along_turns (I := fun past gate => (∀ u ∈ past, u.result.rejects = false) →
    Conserved filters highWatermarkBytes past gate) ?_ calls [] {} ctx ?_
  · intro past gate ctx call hI
    refine ⟨fun hpast => keeps_turn h (hI hpast) ctx call,fun hpast => ?_⟩
    have hkeeps := keeps_turn h (hI fun u hu => hpast u (List.mem_append_left _ hu)) ctx call
    exact hkeeps.conserved (hpast _ (by simp))
  · intro _ isRequest
    have hempty : ({} : BodyFilterGate).state isRequest = {} := by cases isRequest <;> rfl
    rw [hempty]
    exact ⟨rfl,sound_empty filters highWatermarkBytes⟩

/-- Lets every other chunk pass, counting its calls. -/
def alternatingFilter : Filter ℕ where
  onRequestData data _ n := (if n % 2 = 0 then .stopAndBuffer else .continue_,data,n + 1)
  onResponseData data _ n := (if n % 2 = 0 then .stopAndBuffer else .continue_,data,n + 1)

theorem passive_alternating : FilterChain.Passive [alternatingFilter,alternatingFilter] := by
  intro f hf
  obtain rfl : f = alternatingFilter := by simpa using hf
  constructor
  · intro isRequest data endStream n
    cases isRequest <;> rfl
  · intro isRequest data endStream n r
    by_cases hn : n % 2 = 0 <;> cases isRequest <;>
      simp [dataStep,alternatingFilter,hn]

theorem turns_conserve_alternating :
    Library.AtEvery (fun past t => (∀ u ∈ past, u.result.rejects = false) →
        Keeps [alternatingFilter,alternatingFilter] 4 past t)
      (turns [alternatingFilter,alternatingFilter] 4
        [⟨true,ascii "ab",false⟩,⟨false,ascii "x",false⟩,⟨true,ascii "cd",false⟩,
          ⟨false,ascii "yz",true⟩,⟨true,ascii "e",true⟩] {} 0) :=
  turns_conserve _ passive_alternating 4 _ 0

end BodyFilterGate
end PerCoreShard
